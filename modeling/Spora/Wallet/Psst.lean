import Spora.Lib.Combine
import Spora.Cell.Sighash.Parts
import Spora.Mining.Mempool

namespace Spora.Psst

open Std Outcome Combine

-- Public keys, extended public keys and free values are only compared.
abbrev PublicKey := Nat

abbrev Xpub := Nat

abbrev Value := Bytes

inductive Version
  | zero
  | one
deriving DecidableEq, Repr

structure KeySource where
  keyFingerprint : Nat
  derivationPath : List Nat
deriving DecidableEq, Repr

inductive Signature
  | ecdsa (bytes : Bytes)
  | schnorr (bytes : Bytes)
deriving DecidableEq, Repr

abbrev PartialSigs := ExtTreeMap PublicKey Signature

structure Conflict (κ ν : Type) where
  field : κ
  lhs : ν
  rhs : ν
deriving DecidableEq, Repr

section Maps

variable {κ ν : Type} [Ord κ] [TransOrd κ] [DecidableEq ν]

def findConflict (lhs rhs : ExtTreeMap κ ν) : Option (Conflict κ ν) :=
  rhs.toList.findSome? fun (field, theirs) =>
    lhs[field]?.bind fun ours => if ours = theirs then none else some ⟨field, ours, theirs⟩

def extendUnlessConflict (lhs rhs : ExtTreeMap κ ν) : Except (Conflict κ ν) (ExtTreeMap κ ν) :=
  match findConflict lhs rhs with
  | some conflict => .error conflict
  | none => .ok (extend lhs rhs)

-- The smaller map goes into the larger one.
def combineIfNoConflicts (lhs rhs : ExtTreeMap κ ν) : Except (Conflict κ ν) (ExtTreeMap κ ν) :=
  if rhs.size ≤ lhs.size then extendUnlessConflict lhs rhs else extendUnlessConflict rhs lhs

end Maps

structure Global where
  version : Version
  txVersion : Nat
  inputsModifiable : Bool
  outputsModifiable : Bool
  inputCount : Nat
  outputCount : Nat
  xpubs : ExtTreeMap Xpub KeySource
  id : Option Hash
  proprietaries : ExtTreeMap String Value
  unknowns : ExtTreeMap String Value
  payload : Option Bytes

namespace Global

-- `panicked` is a slice whose start is computed below zero.
inductive CombineError
  | versionMismatch (this that : Version)
  | txVersionMismatch (this that : Nat)
  | transactionIdMismatch (this that : Hash)
  | inconsistentKeySources (xpub : Xpub)
  | notCompatibleUnknownField (conflict : Conflict String Value)
  | notCompatibleProprietary (conflict : Conflict String Value)
  | payloadRequiresHigherVersion (version : Version)
  | payloadMismatch (this that : Option Bytes)
  | panicked
deriving DecidableEq, Repr

-- Of two paths for a key the longer one stays, if it ends in the shorter one.
def addXpub (xpubs : ExtTreeMap Xpub KeySource) (entry : Xpub × KeySource) :
    Except CombineError (ExtTreeMap Xpub KeySource) :=
  let ⟨xpub, theirs⟩ := entry
  match xpubs[xpub]? with
  | none => .ok (xpubs.insert xpub theirs)
  | some ours =>
    let derivation1 := theirs.derivationPath
    let derivation2 := ours.derivationPath
    if (derivation1 = derivation2 ∧ theirs.keyFingerprint = ours.keyFingerprint) ∨
        (derivation1.length < derivation2.length ∧
          derivation1 = derivation2.drop (derivation2.length - derivation1.length)) then .ok xpubs
    else if derivation1.length < derivation2.length then .error .panicked
    else if derivation2 = derivation1.drop (derivation1.length - derivation2.length) then
      .ok (xpubs.insert xpub theirs)
    else .error (.inconsistentKeySources xpub)

def add (self rhs : Global) : Except CombineError Global := do
  ensure (self.version = rhs.version) (.versionMismatch self.version rhs.version)
  ensure (self.txVersion = rhs.txVersion) (.txVersionMismatch self.txVersion rhs.txVersion)
  let xpubs ← rhs.xpubs.toList.foldlM addXpub self.xpubs
  let id ← keepOne .transactionIdMismatch self.id rhs.id
  let proprietaries ←
    (combineIfNoConflicts self.proprietaries rhs.proprietaries).mapError .notCompatibleProprietary
  let unknowns ← (combineIfNoConflicts self.unknowns rhs.unknowns).mapError
    .notCompatibleUnknownField
  ensure (¬ ((self.payload.isSome ∨ rhs.payload.isSome) ∧ self.version = .zero))
    (.payloadRequiresHigherVersion self.version)
  let payload ← keepOne (fun this that => .payloadMismatch (some this) (some that)) self.payload
    rhs.payload
  return {
    version := self.version
    txVersion := self.txVersion
    inputsModifiable := self.inputsModifiable && rhs.inputsModifiable
    outputsModifiable := self.outputsModifiable && rhs.outputsModifiable
    inputCount := max self.inputCount rhs.inputCount
    outputCount := max self.outputCount rhs.outputCount
    xpubs, id, proprietaries, unknowns, payload }

end Global

structure Input where
  cellEntry : Option CellMeta
  previousOutpoint : OutPoint
  since : Option Nat
  partialSigs : PartialSigs
  sighashType : SigHashType
  witnessTemplate : Option Bytes
  bip32Derivations : ExtTreeMap PublicKey (Option KeySource)
  finalWitness : Option Bytes
  proprietaries : ExtTreeMap String Value
  unknowns : ExtTreeMap String Value

namespace Input

inductive CombineError
  | previousTxidMismatch (this that : Hash)
  | spentOutputIndexMismatch (this that : Nat)
  | notCompatibleWitnessTemplates (this that : Bytes)
  | notCompatibleCells (this that : CellMeta)
  | notCompatibleBip32Derivations (conflict : Conflict PublicKey (Option KeySource))
  | notCompatibleUnknownField (conflict : Conflict String Value)
  | notCompatibleProprietary (conflict : Conflict String Value)
deriving DecidableEq, Repr

-- The larger `since` and the signatures of both; the type of the signatures is that of `self`.
def add (self rhs : Input) : Except CombineError Input := do
  ensure (self.previousOutpoint.txHash = rhs.previousOutpoint.txHash)
    (.previousTxidMismatch self.previousOutpoint.txHash rhs.previousOutpoint.txHash)
  ensure (self.previousOutpoint.index = rhs.previousOutpoint.index)
    (.spentOutputIndexMismatch self.previousOutpoint.index rhs.previousOutpoint.index)
  let cellEntry ← keepOne .notCompatibleCells self.cellEntry rhs.cellEntry
  let witnessTemplate ← keepOne .notCompatibleWitnessTemplates self.witnessTemplate
    rhs.witnessTemplate
  let finalWitness ← keepOne .notCompatibleWitnessTemplates self.finalWitness rhs.finalWitness
  let bip32Derivations ←
    (combineIfNoConflicts self.bip32Derivations rhs.bip32Derivations).mapError
      .notCompatibleBip32Derivations
  let proprietaries ←
    (combineIfNoConflicts self.proprietaries rhs.proprietaries).mapError .notCompatibleProprietary
  let unknowns ← (combineIfNoConflicts self.unknowns rhs.unknowns).mapError
    .notCompatibleUnknownField
  return {
    cellEntry
    previousOutpoint := self.previousOutpoint
    since := max self.since rhs.since
    partialSigs := extend self.partialSigs rhs.partialSigs
    sighashType := self.sighashType
    witnessTemplate, bip32Derivations, finalWitness, proprietaries, unknowns }

end Input

structure Output where
  capacity : Nat
  lockScript : Script
  typeScript : Option Script
  outputData : Option Bytes
  witnessTemplate : Option Bytes
  bip32Derivations : ExtTreeMap PublicKey (Option KeySource)
  proprietaries : ExtTreeMap String Value
  unknowns : ExtTreeMap String Value

namespace Output

inductive CombineError
  | capacityMismatch (this that : Nat)
  | lockScriptMismatch (this that : Script)
  | typeScriptMismatch (this that : Option Script)
  | outputDataMismatch (this that : Option Bytes)
  | notCompatibleWitnessTemplates (this that : Bytes)
  | notCompatibleBip32Derivations (conflict : Conflict PublicKey (Option KeySource))
  | notCompatibleUnknownField (conflict : Conflict String Value)
  | notCompatibleProprietary (conflict : Conflict String Value)
deriving DecidableEq, Repr

def add (self rhs : Output) : Except CombineError Output := do
  ensure (self.capacity = rhs.capacity) (.capacityMismatch self.capacity rhs.capacity)
  ensure (self.lockScript = rhs.lockScript) (.lockScriptMismatch self.lockScript rhs.lockScript)
  ensure (self.typeScript = rhs.typeScript) (.typeScriptMismatch self.typeScript rhs.typeScript)
  ensure (self.outputData = rhs.outputData) (.outputDataMismatch self.outputData rhs.outputData)
  let witnessTemplate ← keepOne .notCompatibleWitnessTemplates self.witnessTemplate
    rhs.witnessTemplate
  let bip32Derivations ←
    (combineIfNoConflicts self.bip32Derivations rhs.bip32Derivations).mapError
      .notCompatibleBip32Derivations
  let proprietaries ←
    (combineIfNoConflicts self.proprietaries rhs.proprietaries).mapError .notCompatibleProprietary
  let unknowns ← (combineIfNoConflicts self.unknowns rhs.unknowns).mapError
    .notCompatibleUnknownField
  return { self with witnessTemplate, bip32Derivations, proprietaries, unknowns }

end Output

inductive CombineError
  | global (error : Global.CombineError)
  | inputs (error : Input.CombineError)
  | outputs (error : Output.CombineError)
deriving DecidableEq, Repr

-- A partially signed transaction. The role is a type parameter without data.
structure Inner where
  global : Global
  inputs : List Input
  outputs : List Output

def cellOutFromPsstOutput (output : Output) : CellOutput :=
  ⟨output.lockScript, output.typeScript, output.capacity⟩

namespace Inner

def add (self rhs : Inner) : Except CombineError Inner := do
  let global ← (self.global.add rhs.global).mapError .global
  let inputs ← (combineLonger Input.add self.inputs rhs.inputs).mapError .inputs
  let outputs ← (combineLonger Output.add self.outputs rhs.outputs).mapError .outputs
  return { global, inputs, outputs }

end Inner

end Spora.Psst

namespace Spora

namespace CellTx

def newWithHeaderDeps (inputs : List CellInput) (cellDeps : List CellDep) (headerDeps : List Hash)
    (outputs : List CellOutput) (outputsData witnesses : List Bytes) : Except String CellTx :=
  if outputs.length ≠ outputsData.length then .error "outputs and outputs_data length mismatch"
  else .ok ⟨CELL_TX_VERSION, inputs, cellDeps, headerDeps, outputs, outputsData, witnesses⟩

def new (inputs : List CellInput) (cellDeps : List CellDep) (outputs : List CellOutput)
    (outputsData witnesses : List Bytes) : Except String CellTx :=
  newWithHeaderDeps inputs cellDeps [] outputs outputsData witnesses

end CellTx

namespace MutableTransaction

def withEntries (tx : CellTx) (entries : List CellMeta) : MutableTransaction :=
  { MutableTransaction.new tx with
    resolvedCellMetadata := entries.map fun entry => some (CellMetadata.ofCellMeta entry) }

variable (self : MutableTransaction)

def signingInputMaterial (inputIndex : Nat) : Option StandardSigningInput :=
  self.resolvedCellMetadata[inputIndex]?.join.map fun cellMetadata =>
    ⟨cellMetadata.lockHash, cellMetadata.typeHash, cellMetadata.dataHash, cellMetadata.dataBytes,
      cellMetadata.capacity⟩

-- What a signature of an input covers. A transaction with an unresolved input cannot be signed.
def signedPartsOf (hashType : SigHashType) (inputIndex : Nat) : Option SignedParts :=
  if self.isVerifiable then
    (self.signingInputMaterial inputIndex).bind (signedParts self.tx hashType inputIndex)
  else none

end MutableTransaction

namespace Psst.Inner

-- From version one on, a payload travels in a witness behind those of the inputs.
def payloadWitnesses (self : Inner) : List Bytes :=
  if self.global.version = .zero then []
  else (self.global.payload.filter fun payload => !payload.isEmpty).toList

def unsignedTx (self : Inner) : Except String MutableTransaction := do
  let inputs := self.inputs.map fun input =>
    CellInput.mk input.previousOutpoint (input.since.getD 0)
  let outputs := self.outputs.map cellOutFromPsstOutput
  let outputsData := self.outputs.map fun output => output.outputData.getD []
  let witnesses := self.inputs.map (fun _ => []) ++ self.payloadWitnesses
  let tx ← CellTx.new inputs [] outputs outputsData witnesses
  let entries := self.inputs.map Input.cellEntry
  return if entries.all Option.isSome then .withEntries tx entries.reduceOption else .new tx

end Psst.Inner

end Spora
