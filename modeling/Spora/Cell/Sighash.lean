import Spora.Cell.Types

namespace Spora

def asciiBytes (text : String) : Bytes := text.toList.map fun c => UInt8.ofNat c.toNat

def CELL_TXID_DOMAIN : Bytes := asciiBytes "spora-cell/txid"

def CELL_WTXID_DOMAIN : Bytes := asciiBytes "spora-cell/wtxid"

-- Encodings below a digest. Lengths and counts are cut to 32 bits, as the source casts them.
def OutPoint.encode (o : OutPoint) : Bytes := leBytes 32 o.txHash ++ leBytes 4 o.index

def CellInput.encode (input : CellInput) : Bytes :=
  input.previousOutput.encode ++ leBytes 8 input.since

def DepType.toByte : DepType → UInt8
  | .code => 0
  | .depGroup => 1

def CellDep.encode (dep : CellDep) : Bytes := dep.outPoint.encode ++ [dep.depType.toByte]

def encodeVarBytes (data : Bytes) : Bytes := leBytes 4 data.length ++ data

def Script.encode (script : Script) : Bytes :=
  leBytes 32 script.codeHash ++ leBytes 1 script.hashType ++ encodeVarBytes script.args

def CellOutput.encode (output : CellOutput) : Bytes :=
  output.lock.encode ++ (output.type_.elim [0] fun type_ => 1 :: type_.encode) ++
    leBytes 8 output.capacity

def encodeList {α : Type} (encode : α → Bytes) (l : List α) : Bytes :=
  leBytes 4 l.length ++ l.flatMap encode

namespace CellTx

-- A coinbase without outputs has its payload in a witness.
def payloadFallback (tx : CellTx) : Bytes :=
  if tx.isCoinbase && tx.outputs.isEmpty then
    tx.witnesses.head?.elim [] fun payload =>
      asciiBytes "coinbase-payload-fallback" ++ encodeVarBytes payload
  else []

-- The fields that both ids cover. The data of the outputs comes without a count.
def encodeFields (tx : CellTx) : Bytes :=
  leBytes 4 tx.version ++ encodeList CellInput.encode tx.inputs ++
    encodeList CellDep.encode tx.cellDeps ++ encodeList (leBytes 32) tx.headerDeps ++
      encodeList CellOutput.encode tx.outputs ++
    tx.outputsData.flatMap encodeVarBytes ++ tx.payloadFallback

def txidPreimage (tx : CellTx) : Bytes := CELL_TXID_DOMAIN ++ tx.encodeFields

def wtxidPreimage (tx : CellTx) : Bytes :=
  CELL_WTXID_DOMAIN ++ tx.encodeFields ++ encodeList encodeVarBytes tx.witnesses

variable (blake3 : Bytes → Hash)

def computeTxid (tx : CellTx) : Hash := blake3 tx.txidPreimage

def computeWtxid (tx : CellTx) : Hash := blake3 tx.wtxidPreimage

def id (tx : CellTx) : Hash := tx.computeTxid blake3

end CellTx

-- What the signature hash commits to. A preimage is made of bytes and of digests of further
-- preimages.
inductive Token (D : Type)
  | byte (b : UInt8)
  | digest (d : D)
deriving DecidableEq, Repr

structure StandardSigningInput where
  lockHash : Hash
  typeHash : Option Hash
  dataHash : Hash
  dataBytes : Nat
  capacity : Nat
deriving DecidableEq, Repr

structure SigHashType where
  toU8 : UInt8
deriving DecidableEq, Repr

namespace SigHashType

def SIG_HASH_ALL : SigHashType := ⟨0b00000001⟩

def SIG_HASH_MASK : UInt8 := 0b00000111

variable (self : SigHashType)

def isSighashNone : Bool := self.toU8 &&& SIG_HASH_MASK == 0b00000010

def isSighashSingle : Bool := self.toU8 &&& SIG_HASH_MASK == 0b00000100

def isSighashAnyoneCanPay : Bool := self.toU8 &&& 0b10000000 == 0b10000000

end SigHashType

section StandardSighash

variable {D : Type} (signingHash : Bytes → D) (zeroHash : D) (tx : CellTx) (hashType : SigHashType)

def writeVarBytes (bytes : Bytes) : Bytes := leBytes 8 bytes.length ++ bytes

def standardPreviousOutputsHash : D :=
  if hashType.isSighashAnyoneCanPay then zeroHash
  else signingHash (tx.inputs.flatMap fun input => input.previousOutput.encode)

def standardSequencesHash : D :=
  if hashType.isSighashSingle || hashType.isSighashAnyoneCanPay || hashType.isSighashNone then
    zeroHash
  else signingHash (tx.inputs.flatMap fun input => leBytes 8 input.since)

def standardSigOpCountsHash : D :=
  if hashType.isSighashAnyoneCanPay then zeroHash else signingHash (tx.inputs.map fun _ => 1)

def standardPayloadHash : D :=
  let payload := tx.payload.getD []
  if !tx.isCoinbase && payload.isEmpty then zeroHash else signingHash (writeVarBytes payload)

def hashScript (script : Script) : Bytes :=
  leBytes 32 script.codeHash ++ leBytes 1 script.hashType ++ writeVarBytes script.args

def hashCellOutput (entry : CellOutput × Bytes) : Bytes :=
  leBytes 8 entry.1.capacity ++ hashScript entry.1.lock ++
    (entry.1.type_.elim [0] fun type_ => 1 :: hashScript type_) ++ writeVarBytes entry.2

def standardOutputsHash (inputIndex : Nat) : D :=
  if hashType.isSighashNone then zeroHash
  else if hashType.isSighashSingle then
    match tx.outputs[inputIndex]? with
    | none => zeroHash
    | some output => signingHash (hashCellOutput (output, tx.outputData inputIndex))
  else signingHash ((tx.outputs.zipIdx.map fun (output, i) => (output, tx.outputData i)).flatMap
    hashCellOutput)

def hashStandardSigningInput (signingInput : StandardSigningInput) : Bytes :=
  leBytes 32 signingInput.lockHash ++ (signingInput.typeHash.elim [0] fun typeHash => 1 ::
    leBytes 32 typeHash) ++ leBytes 32 signingInput.dataHash ++ leBytes 8 signingInput.dataBytes

-- The preimage of the signature hash of an input; an input that does not exist aborts.
def standardSignaturePreimage (inputIndex : Nat) (signingInput : StandardSigningInput) :
    Option (List (Token D)) := do
  let input ← tx.inputs[inputIndex]?
  return (leBytes 4 tx.version).map .byte ++
      [.digest (standardPreviousOutputsHash signingHash zeroHash tx hashType),
      .digest (standardSequencesHash signingHash zeroHash tx hashType),
      .digest (standardSigOpCountsHash signingHash zeroHash tx hashType)] ++
    (input.previousOutput.encode ++ hashStandardSigningInput signingInput ++
      leBytes 8 signingInput.capacity ++ leBytes 8 input.since ++ [1]).map .byte ++
    [.digest (standardOutputsHash signingHash zeroHash tx hashType inputIndex)] ++
    (leBytes 8 0).map .byte ++ [.digest (standardPayloadHash signingHash zeroHash tx)] ++
    [.byte hashType.toU8]

end StandardSighash

end Spora
