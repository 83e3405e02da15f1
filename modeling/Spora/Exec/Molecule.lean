import Spora.Cell.Types
import Spora.Lib.Codec

namespace Spora

open Codec

-- The Molecule layout of transactions, as scripts see them. Serializing never fails.

inductive MoleculeError
  | invalidFormat (ty reason : String)
  | schemaMismatch (message : String)
  | validationFailed (message : String)
deriving DecidableEq, Repr

namespace Molecule

def NUMBER_SIZE : Nat := 4

def invalid {α : Type} (ty reason : String) : Except MoleculeError α :=
  .error (.invalidFormat ty reason)

-- `value as u32`: what does not fit into four bytes is cut off.
def packNumber (value : Nat) : Bytes := leBytes NUMBER_SIZE value

def unpackNumber (bytes : Bytes) (ty : String) : Except MoleculeError Nat :=
  if bytes.length < NUMBER_SIZE then
    invalid ty s!"expected at least 4 bytes for number, got {bytes.length}"
  else .ok (leNat (bytes.take NUMBER_SIZE))

section Layouts

def encodeTable (fields : List Bytes) : Bytes :=
  let headerSize := NUMBER_SIZE * (fields.length + 1)
  let totalSize := headerSize + (fields.map List.length).sum
  packNumber totalSize ++ (offsets headerSize fields).dropLast.flatMap packNumber ++ fields.flatten

def checkTotalSize (bytes : Bytes) (ty : String) : Except MoleculeError Nat := do
  let totalSize ← unpackNumber bytes ty
  if totalSize ≠ bytes.length then
    invalid ty s!"total size mismatch: header {totalSize}, actual {bytes.length}"
  else .ok totalSize

def readFirstOffset (part : String) (bytes : Bytes) (ty : String) : Except MoleculeError Nat := do
  let firstOffset ← unpackNumber (bytes.drop NUMBER_SIZE) ty
  if firstOffset % NUMBER_SIZE ≠ 0 ∨ firstOffset < NUMBER_SIZE * 2 ∨ bytes.length < firstOffset then
    invalid ty s!"invalid first {part} offset {firstOffset}"
  else .ok firstOffset

def partsFrom (part layout : String) (bytes : Bytes) (ty : String) (totalSize firstOffset : Nat) :
    Except MoleculeError (List Bytes) := do
  let header := (bytes.take firstOffset).drop NUMBER_SIZE
  let starts ← (chunks NUMBER_SIZE (header.length / NUMBER_SIZE) header).mapM (unpackNumber · ty)
  let offsets := starts ++ [totalSize]
  if ¬ offsets.IsChain (· ≤ ·) then invalid ty s!"{part} offsets are not monotonic"
  else if ∃ offset ∈ offsets, offset < firstOffset ∨ totalSize < offset then
    invalid ty s!"{part} offset is outside {layout} payload"
  else .ok (slices bytes offsets)

def decodeTable (bytes : Bytes) (expectedFields : Nat) (ty : String) :
    Except MoleculeError (List Bytes) := do
  if bytes.length < NUMBER_SIZE * 2 then invalid ty s!"table header is too short: {bytes.length}"
  else
    let totalSize ← checkTotalSize bytes ty
    let firstOffset ← readFirstOffset "field" bytes ty
    let fieldCount := firstOffset / NUMBER_SIZE - 1
    if fieldCount ≠ expectedFields then
      .error (.schemaMismatch s!"{ty}: expected {expectedFields} fields, got {fieldCount}")
    else partsFrom "field" "table" bytes ty totalSize firstOffset

def encodeDynvec (items : List Bytes) : Bytes :=
  if items.isEmpty then packNumber NUMBER_SIZE else encodeTable items

def decodeDynvec (bytes : Bytes) (ty : String) : Except MoleculeError (List Bytes) := do
  if bytes.length < NUMBER_SIZE then invalid ty s!"dynvec header is too short: {bytes.length}"
  else
    let totalSize ← checkTotalSize bytes ty
    if totalSize = NUMBER_SIZE then .ok []
    else if bytes.length < NUMBER_SIZE * 2 then invalid ty "non-empty dynvec missing first offset"
    else
      let firstOffset ← readFirstOffset "item" bytes ty
      partsFrom "item" "dynvec" bytes ty totalSize firstOffset

def encodeBytes (bytes : Bytes) : Bytes := packNumber bytes.length ++ bytes

def decodeBytes (bytes : Bytes) : Except MoleculeError Bytes := do
  let len ← unpackNumber bytes "Bytes"
  let expected := NUMBER_SIZE + len
  if bytes.length ≠ expected then invalid "Bytes" s!"expected {expected} bytes, got {bytes.length}"
  else .ok (bytes.drop NUMBER_SIZE)

def encodeBytesVec (bytesVec : List Bytes) : Bytes := encodeDynvec (bytesVec.map encodeBytes)

def decodeBytesVec (bytes : Bytes) (ty : String) : Except MoleculeError (List Bytes) := do
  (← decodeDynvec bytes ty).mapM decodeBytes

def encodeFixvec {α : Type} (encode : α → Bytes) (values : List α) : Bytes :=
  packNumber values.length ++ values.flatMap encode

def decodeFixvec {α : Type} (size : Nat) (decode : Bytes → Except MoleculeError α) (bytes : Bytes)
    (ty : String) :
    Except MoleculeError (List α) := do
  let count ← unpackNumber bytes ty
  let expected := NUMBER_SIZE + count * size
  if bytes.length ≠ expected then invalid ty s!"expected {expected} bytes, got {bytes.length}"
  else (chunks size ((bytes.drop NUMBER_SIZE).length / size) (bytes.drop NUMBER_SIZE)).mapM decode

def decodeFixed (size : Nat) (expected : String) (bytes : Bytes) (ty : String) :
    Except MoleculeError Nat :=
  if bytes.length ≠ size then invalid ty s!"expected {expected}, got {bytes.length}"
  else .ok (leNat bytes)

def decodeU32 : Bytes → String → Except MoleculeError Nat := decodeFixed 4 "4 bytes"

def decodeU64 : Bytes → String → Except MoleculeError Nat := decodeFixed 8 "8 bytes"

def decodeByte : Bytes → String → Except MoleculeError Nat := decodeFixed 1 "1 byte"

def decodeArray32 : Bytes → String → Except MoleculeError Hash := decodeFixed 32 "32 bytes"

end Layouts

section Cells

def serializeScriptMolecule (script : Script) : Bytes :=
  encodeTable [leBytes 32 script.codeHash, leBytes 1 script.hashType, encodeBytes script.args]

def deserializeScriptMolecule (bytes : Bytes) : Except MoleculeError Script := do
  let fields ← decodeTable bytes 3 "Script"
  let codeHash ← decodeArray32 (fields.getD 0 []) "Script.code_hash"
  let hashType ← decodeByte (fields.getD 1 []) "Script.hash_type"
  let args ← decodeBytes (fields.getD 2 [])
  .ok { codeHash, hashType, args }

def serializeOutpointMolecule (outpoint : OutPoint) : Bytes :=
  leBytes 32 outpoint.txHash ++ leBytes 4 outpoint.index

def deserializeOutpointMolecule (bytes : Bytes) : Except MoleculeError OutPoint := do
  if bytes.length ≠ 36 then invalid "OutPoint" s!"expected 36 bytes, got {bytes.length}"
  else
    let txHash ← decodeArray32 (bytes.take 32) "OutPoint.tx_hash"
    let index ← decodeU32 (bytes.drop 32) "OutPoint.index"
    .ok { txHash, index }

def serializeCellInputMolecule (input : CellInput) : Bytes :=
  leBytes 8 input.since ++ serializeOutpointMolecule input.previousOutput

def deserializeCellInputMolecule (bytes : Bytes) : Except MoleculeError CellInput := do
  if bytes.length ≠ 44 then invalid "CellInput" s!"expected 44 bytes, got {bytes.length}"
  else
    let since ← decodeU64 (bytes.take 8) "CellInput.since"
    let previousOutput ← deserializeOutpointMolecule (bytes.drop 8)
    .ok { since, previousOutput }

def encodeDepType : DepType → UInt8
  | .code => 0
  | .depGroup => 1

def decodeDepType (byte : UInt8) : Except MoleculeError DepType :=
  if byte = 0 then .ok .code
  else if byte = 1 then .ok .depGroup
  else invalid "DepType" s!"expected 0 or 1, got {byte}"

def serializeCellDepMolecule (dep : CellDep) : Bytes :=
  serializeOutpointMolecule dep.outPoint ++ [encodeDepType dep.depType]

def deserializeCellDepMolecule (bytes : Bytes) : Except MoleculeError CellDep := do
  if bytes.length ≠ 37 then invalid "CellDep" s!"expected 37 bytes, got {bytes.length}"
  else
    let outPoint ← deserializeOutpointMolecule (bytes.take 36)
    let depType ← decodeDepType (bytes.getD 36 0)
    .ok { outPoint, depType }

def encodeScriptOpt : Option Script → Bytes := encodeOption serializeScriptMolecule

def decodeScriptOpt : Bytes → Except MoleculeError (Option Script) :=
  decodeOption deserializeScriptMolecule

def serializeCellOutputMolecule (output : CellOutput) : Bytes :=
  encodeTable [leBytes 8 output.capacity, serializeScriptMolecule output.lock,
    encodeScriptOpt output.type_]

def deserializeCellOutputMolecule (bytes : Bytes) : Except MoleculeError CellOutput := do
  let fields ← decodeTable bytes 3 "CellOutput"
  let capacity ← decodeU64 (fields.getD 0 []) "CellOutput.capacity"
  let lock ← deserializeScriptMolecule (fields.getD 1 [])
  let type_ ← decodeScriptOpt (fields.getD 2 [])
  .ok { capacity, lock, type_ }

end Cells

section Transactions

def encodeFixvecByte32 : List Hash → Bytes := encodeFixvec (leBytes 32)

def decodeFixvecByte32 (bytes : Bytes) (ty : String) : Except MoleculeError (List Hash) :=
  decodeFixvec 32 (decodeArray32 · ty) bytes ty

def encodeFixvecCellDeps : List CellDep → Bytes := encodeFixvec serializeCellDepMolecule

def decodeFixvecCellDeps (bytes : Bytes) : Except MoleculeError (List CellDep) :=
  decodeFixvec 37 deserializeCellDepMolecule bytes "CellDepVec"

def encodeFixvecCellInputs : List CellInput → Bytes := encodeFixvec serializeCellInputMolecule

def decodeFixvecCellInputs (bytes : Bytes) : Except MoleculeError (List CellInput) :=
  decodeFixvec 44 deserializeCellInputMolecule bytes "CellInputVec"

def encodeDynvecCellOutputs (outputs : List CellOutput) : Bytes :=
  encodeDynvec (outputs.map serializeCellOutputMolecule)

def decodeDynvecCellOutputs (bytes : Bytes) : Except MoleculeError (List CellOutput) := do
  (← decodeDynvec bytes "CellOutputVec").mapM deserializeCellOutputMolecule

def serializeRawTransactionMolecule (tx : CellTx) : Bytes :=
  encodeTable [leBytes 4 tx.version, encodeFixvecCellDeps tx.cellDeps,
    encodeFixvecByte32 tx.headerDeps, encodeFixvecCellInputs tx.inputs,
      encodeDynvecCellOutputs tx.outputs, encodeBytesVec tx.outputsData]

def deserializeRawTransactionMolecule (bytes : Bytes) : Except MoleculeError CellTx := do
  let fields ← decodeTable bytes 6 "RawTransaction"
  let outputs ← decodeDynvecCellOutputs (fields.getD 4 [])
  let outputsData ← decodeBytesVec (fields.getD 5 []) "RawTransaction.outputs_data"
  if outputs.length ≠ outputsData.length then
    .error (.validationFailed <| "RawTransaction outputs/outputs_data length mismatch: " ++
      s!"{outputs.length} outputs, {outputsData.length} data entries")
  else
    let version ← decodeU32 (fields.getD 0 []) "RawTransaction.version"
    let cellDeps ← decodeFixvecCellDeps (fields.getD 1 [])
    let headerDeps ← decodeFixvecByte32 (fields.getD 2 []) "RawTransaction.header_deps"
    let inputs ← decodeFixvecCellInputs (fields.getD 3 [])
    .ok { version, cellDeps, headerDeps, inputs, outputs, outputsData, witnesses := [] }

def serializeTransactionMolecule (tx : CellTx) : Bytes :=
  encodeTable [serializeRawTransactionMolecule tx, encodeBytesVec tx.witnesses]

def deserializeTransactionMolecule (bytes : Bytes) : Except MoleculeError CellTx := do
  let fields ← decodeTable bytes 2 "Transaction"
  let tx ← deserializeRawTransactionMolecule (fields.getD 0 [])
  let witnesses ← decodeBytesVec (fields.getD 1 []) "Transaction.witnesses"
  .ok { tx with witnesses }

end Transactions

end Molecule

end Spora
