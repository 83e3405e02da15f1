import Spora.Validation.Rules
import Spora.Vm.ScriptGroups

namespace Spora

open Std Outcome

inductive ScriptClass
  | stdSingle
  | stdSingleECDSA
  | account
  | fullScript
  | nonStandard
deriving DecidableEq, Repr

instance : ToString ScriptClass where
  toString
    | .stdSingle => "stdsingle"
    | .stdSingleECDSA => "stdsingleecdsa"
    | .account => "account"
    | .fullScript => "fullscript"
    | .nonStandard => "nonstandard"

def HASH_TYPE_TYPE : Nat := 1

-- What a script sees of the resolved transaction: code by hash, cells by outpoint and, among the
-- header dependencies of the transaction, headers and the cells that belong to them.
@[ext] structure VmView where
  loadCellData : Hash → Option Bytes
  loadCellByOutpoint : OutPoint → Option ResolvedCell
  loadHeader : Hash → Option ResolvedHeader
  loadHeaderByOutpoint : OutPoint → Option ResolvedHeader
  loadCellByHeader : Hash → Option ResolvedCell

-- The parts of script verification that are not modelled: digests, signatures over the resolved
-- cells of the inputs, one run of the virtual machine over a script group, and the order in which
-- a hash map with the given keys is walked.
structure ScriptEngine where
  builtinSchnorrCodeHash : Hash
  builtinEcdsaCodeHash : Hash
  builtinAccountCodeHash : Hash
  scriptHasher : ScriptHasher
  codeHash : Bytes → Hash
  verifySchnorr : CellTx → List CellMeta → Nat → Except CellValidationError Unit
  verifyEcdsa : CellTx → List CellMeta → Nat → Except CellValidationError Unit
  verifyScriptGroup : CellTx → VmView → Nat → ScriptGroup → Except ScriptError Nat
  walk : List OutPoint → List OutPoint
  walk_perm : ∀ keys, (walk keys).Perm keys

-- An engine that accepts every signature and every script, for concrete runs.
def ScriptEngine.sample (hasher : Hasher) : ScriptEngine where
  builtinSchnorrCodeHash := 11
  builtinEcdsaCodeHash := 12
  builtinAccountCodeHash := 13
  scriptHasher := ⟨hasher.scriptHash, fun script => .ok (hasher.scriptHash script)⟩
  codeHash := hasher.cellDataHash
  verifySchnorr _ _ _ := .ok ()
  verifyEcdsa _ _ _ := .ok ()
  verifyScriptGroup _ _ _ _ := .ok 0
  walk := id
  walk_perm := List.Perm.refl

structure PreparedVmDataProvider where
  scripts : ExtTreeMap Hash Bytes
  cells : ExtTreeMap OutPoint ResolvedCell
  headers : ExtTreeMap Hash ResolvedHeader
  cellHeaders : ExtTreeMap OutPoint Hash

namespace PreparedVmDataProvider

variable (self : PreparedVmDataProvider)

def insertCell (outPoint : OutPoint) (cell : ResolvedCell) (headerHash : Hash) :
    PreparedVmDataProvider :=
  { self with
    cells := self.cells.insert outPoint cell
    cellHeaders := self.cellHeaders.insert outPoint headerHash }

def insertDep (engine : ScriptEngine) (outPoint : OutPoint) (cell : ResolvedCell)
    (headerHash : Hash) : PreparedVmDataProvider :=
  let data := cell.data.getD []
  { self with scripts := self.scripts.insertIfNew (engine.codeHash data) data }.insertCell
    outPoint cell headerHash

def insertHeader (header : ResolvedHeader) : PreparedVmDataProvider :=
  { self with headers := self.headers.insert header.hash header }

-- Scripts ask for the cell of a header only by the position of a header dependency. They get the
-- first one on the walk over the cells.
def view (engine : ScriptEngine) (tx : CellTx) : VmView where
  loadCellData codeHash := self.scripts[codeHash]?
  loadCellByOutpoint outPoint := self.cells[outPoint]?
  loadHeader hash := self.headers[hash]?
  loadHeaderByOutpoint outPoint := self.cellHeaders[outPoint]?.bind fun hash => self.headers[hash]?
  loadCellByHeader hash :=
    if hash ∈ tx.headerDeps then
      (engine.walk self.cellHeaders.keys).findSome? fun outPoint =>
        if self.cellHeaders[outPoint]? = some hash then self.cells[outPoint]? else none
    else none

end PreparedVmDataProvider

namespace ScriptEngine

variable (engine : ScriptEngine)

def classifyScript (script : Script) : ScriptClass :=
  if script.hashType = HASH_TYPE_TYPE ∧ script.codeHash = engine.builtinSchnorrCodeHash ∧
      script.args.length = 20 then .stdSingle
  else if script.hashType = HASH_TYPE_TYPE ∧ script.codeHash = engine.builtinEcdsaCodeHash ∧
      script.args.length = 20 then .stdSingleECDSA
  else if script.hashType = HASH_TYPE_TYPE ∧ script.codeHash = engine.builtinAccountCodeHash ∧
      script.args.length = 32 then .account
  else if script.hashType ≤ 4 then .fullScript
  else .nonStandard

def isNativeStandard (metadata : CellMetadata) : Bool :=
  metadata.lockScript.any fun lockScript =>
    decide (lockScript.hashType ≤ 4) &&
      (engine.classifyScript lockScript == .stdSingle ||
        engine.classifyScript lockScript == .stdSingleECDSA)

end ScriptEngine

-- Signature hash and secp256k1 verification, each with its transferred bytes at half a cycle.
def nativeStandardLockCyclesPerInput : Nat :=
  saturatingAdd (saturatingAdd (saturatingAdd 25000 (32 / 2)) 50000) ((20 + 65 + 32) / 2)

structure ScriptVerificationPlan where
  resolvedInputs : List CellMetadata
  perTxCyclesLimit : Nat
  useNativeStandardLocks : Bool
  requiresVmTypeValidation : Bool
  nativeStandardInputIndices : List Nat

namespace ScriptVerificationPlan

variable (self : ScriptVerificationPlan)

def shouldVerifyNativeStandardLocks : Bool := !self.nativeStandardInputIndices.isEmpty

def nativeOnly : Bool :=
  self.shouldVerifyNativeStandardLocks && self.useNativeStandardLocks &&
    !self.requiresVmTypeValidation

end ScriptVerificationPlan

def ensureTotalCyclesWithinLimit (totalCycles limit : Nat) : Except CellValidationError Unit :=
  ensure (totalCycles ≤ limit) (.exceededMaxCycles totalCycles limit)

def mapVmScriptError (nativeCycles totalLimit : Nat) : ScriptError → CellValidationError
  | .cyclesExceeded _ actual => .exceededMaxCycles (saturatingAdd nativeCycles actual) totalLimit
  | other => .scriptVerificationFailed (toString other)

def metadataToResolvedCell (metadata : CellMetadata) (data : Option Bytes) :
    Except CellValidationError ResolvedCell := do
  let lockScript ← okOr metadata.lockScript
    (.invalidFormat s!"missing lock script for resolved cell {metadata.outPoint}")
  return ⟨⟨lockScript, metadata.typeScript, metadata.capacity⟩, data.or metadata.data⟩

section Verification

variable (engine : ScriptEngine) (params : CellConsensusParams) (provider : DagCellProvider)
  (pov : Hash)

def resolveInputMetadata (tx : CellTx) : Except CellValidationError (List CellMetadata) :=
  tx.inputs.mapM fun input =>
    resolveCell provider pov input.previousOutput (.cellNotFound input.previousOutput.txHash)

def collectNativeStandardInputIndices (tx : CellTx) (resolvedInputs : List CellMetadata) :
    List Nat :=
  if tx.inputs.length ≠ resolvedInputs.length then []
  else (resolvedInputs.zipIdx.filter fun entry => engine.isNativeStandard entry.1).map Prod.snd

def planFor (tx : CellTx) (resolvedInputs : List CellMetadata) : ScriptVerificationPlan where
  resolvedInputs := resolvedInputs
  perTxCyclesLimit := min params.maxTxCycles params.maxBlockCycles
  useNativeStandardLocks := tx.inputs.length == resolvedInputs.length &&
    resolvedInputs.all engine.isNativeStandard
  requiresVmTypeValidation := tx.outputs.any (fun output => output.type_.isSome) ||
    resolvedInputs.any (fun metadata => metadata.typeScript.isSome)
  nativeStandardInputIndices := collectNativeStandardInputIndices engine tx resolvedInputs

def prepareScriptVerificationPlan (tx : CellTx) :
    Except CellValidationError ScriptVerificationPlan := do
  return planFor engine params tx (← resolveInputMetadata provider pov tx)

def verifyNativeStandardLock (tx : CellTx) (plan : ScriptVerificationPlan) (nativeCycles : Nat)
    (inputIndex : Nat) : Except CellValidationError Nat := do
  let projectedCycles := saturatingAdd nativeCycles nativeStandardLockCyclesPerInput
  ensure (projectedCycles ≤ plan.perTxCyclesLimit)
    (.exceededMaxCycles projectedCycles plan.perTxCyclesLimit)
  let entries := plan.resolvedInputs.map CellMetadata.toCellMeta
  let lockScript ← okOr (entries[inputIndex]?.bind CellMeta.lockScript)
    (.scriptVerificationFailed (s!"cannot verify native standard signature for input " ++
      s!"{inputIndex}: missing lock script metadata"))
  match engine.classifyScript lockScript with
  | .stdSingle => engine.verifySchnorr tx entries inputIndex
  | .stdSingleECDSA => engine.verifyEcdsa tx entries inputIndex
  | other => throw (.scriptVerificationFailed (s!"cannot verify native standard signature for " ++
      s!"input {inputIndex}: unsupported lock script class {other}"))
  return projectedCycles

def verifyNativeStandardLocks (tx : CellTx) (plan : ScriptVerificationPlan) :
    Except CellValidationError Nat :=
  plan.nativeStandardInputIndices.foldlM (verifyNativeStandardLock engine tx plan) 0

-- The metadata and the data of a dependency. The data is asked for separately.
def loadDep (outPoint : OutPoint) (missing : CellValidationError) :
    Except CellValidationError (ResolvedCell × Hash) := do
  let metadata ← resolveCell provider pov outPoint missing
  let data ← okOr (← (provider.getCellData outPoint pov).mapError .invalidFormat) missing
  return (← metadataToResolvedCell metadata (some data), metadata.blockHash)

def prepareGroupMember (prepared : PreparedVmDataProvider) (op : OutPoint) :
    Except CellValidationError PreparedVmDataProvider := do
  let (cell, headerHash) ← loadDep provider pov op (.depCellNotFound op.txHash)
  return prepared.insertDep engine op cell headerHash

def prepareDep (prepared : PreparedVmDataProvider) (dep : CellDep) :
    Except CellValidationError PreparedVmDataProvider := do
  let (cell, headerHash) ← loadDep provider pov dep.outPoint (.cellNotFound dep.outPoint.txHash)
  match dep.depType with
  | .code => return prepared.insertDep engine dep.outPoint cell headerHash
  | .depGroup =>
    -- the group cell itself stays visible, its members are loaded as code
    let outpoints ← (parseDepGroupData (cell.data.getD [])).mapError .invalidFormat
    outpoints.foldlM (prepareGroupMember engine provider pov)
      (prepared.insertCell dep.outPoint cell headerHash)

def prepareInput (prepared : PreparedVmDataProvider) (entry : CellInput × CellMetadata) :
    Except CellValidationError PreparedVmDataProvider := do
  let (input, metadata) := entry
  let data ← (provider.getCellData input.previousOutput pov).mapError .invalidFormat
  return prepared.insertCell input.previousOutput (← metadataToResolvedCell metadata data)
    metadata.blockHash

def prepareHeader (prepared : PreparedVmDataProvider) (hash : Hash) :
    Except CellValidationError PreparedVmDataProvider := do
  let header ← okOr (← (provider.getHeader hash).mapError .invalidFormat)
    (.invalidFormat s!"missing header dependency {hash}")
  return prepared.insertHeader header

def prepareVmDataProviderWithResolvedInputs (tx : CellTx) (resolvedInputs : List CellMetadata) :
    Except CellValidationError PreparedVmDataProvider := do
  let prepared ← tx.cellDeps.foldlM (prepareDep engine provider pov) ⟨∅, ∅, ∅, ∅⟩
  let prepared ← (tx.inputs.zip resolvedInputs).foldlM (prepareInput provider pov) prepared
  tx.headerDeps.foldlM (prepareHeader provider) prepared

def skippedLockHashes (plan : ScriptVerificationPlan) : List Hash :=
  plan.nativeStandardInputIndices.filterMap fun index =>
    (plan.resolvedInputs[index]?.bind CellMetadata.lockScript).map engine.scriptHasher.sporaHash

def vmVerifier (tx : CellTx) (plan : ScriptVerificationPlan) (view : VmView) :
    TransactionScriptVerifier where
  tx := tx
  loadCellByOutpoint := view.loadCellByOutpoint
  scriptHasher := engine.scriptHasher
  skipLockGroups := false
  skipLockScriptHashes := skippedLockHashes engine plan
  semantics := .sporaExtended

def verifyVmScripts (tx : CellTx) (plan : ScriptVerificationPlan) (nativeCycles : Nat) :
    Except CellValidationError Nat := do
  let prepared ← prepareVmDataProviderWithResolvedInputs engine provider pov tx plan.resolvedInputs
  let view := prepared.view engine tx
  let vmCyclesLimit := plan.perTxCyclesLimit - nativeCycles
  ((vmVerifier engine tx plan view).verifyWithCycles
    (engine.verifyScriptGroup tx view vmCyclesLimit)).mapError
      (mapVmScriptError nativeCycles plan.perTxCyclesLimit)

def verifyScriptsWithCycles (tx : CellTx) : Except CellValidationError Nat := do
  let plan ← prepareScriptVerificationPlan engine params provider pov tx
  let nativeCycles ← verifyNativeStandardLocks engine tx plan
  if plan.nativeOnly then return nativeCycles
  else
    let vmCycles ← verifyVmScripts engine provider pov tx plan nativeCycles
    let totalCycles := saturatingAdd nativeCycles vmCycles
    ensureTotalCyclesWithinLimit totalCycles plan.perTxCyclesLimit
    return totalCycles

end Verification

end Spora
