import Spora.Exec.CellDag
import Spora.Lib.Worklist
import Spora.Store.Snapshot

namespace Spora

open Std Outcome

def ZERO_HASH : Hash := 0

inductive TemplateBuildMode
  | standard
  | infallible
deriving DecidableEq, Repr

-- What block templates use of the virtual processor. The graph of the prefilter hashes the
-- transactions itself.
structure TemplateProcessor where
  blake3 : Bytes → Hash
  engine : ScriptEngine
  storage : CellStorage
  coinbaseMaturity : Nat

section Prefilter

structure TemplateConflictPrefilterOutcome where
  keptTxs : List CellTx
  rejectedTransactions : ExtTreeMap Hash TxRuleError

def templateConflictTxRuleError : TxRuleError :=
  .cellValidationFailed "template transaction conflicts with another selected transaction"

def cellscriptSchedulerPolicyTxRuleError (error : BlockAccessSummaryError) : TxRuleError :=
  .cellValidationFailed s!"CellScript scheduler metadata policy rejected transaction: {error}"

def validateCellscriptSchedulerMetadataPolicy (hasher : Hasher) (txs : List CellTx)
    (trustedAccessSets : Option TrustedCellScriptSchedulerAccessSets) : Except TxRuleError Unit :=
  do
  let result := match trustedAccessSets with
    | some trustedAccessSets =>
      BlockAccessSummary.tryFromBlockTxsWithTrustedCellscriptSchedulerAccesses hasher txs
        trustedAccessSets
    | none => BlockAccessSummary.tryFromBlockTxsWithCellscriptScheduler hasher txs
  let _ ← result.mapError cellscriptSchedulerPolicyTxRuleError

-- The later ones of the consumers of each conflicting outpoint, and all that depends on them. No
-- node is queued twice, so the number of nodes is enough fuel.
def CellDAG.rejectedNodes (dag : CellDAG) : List NodeId :=
  Worklist.closure (successors dag.edges) dag.nodeCount
    (dag.conflicts.toList.flatMap fun entry => entry.2.drop 1)

variable (blake3 : Bytes → Hash) (hasher : Hasher)

def admitByPolicy (trustedAccessSets : Option TrustedCellScriptSchedulerAccessSets)
    (outcome : TemplateConflictPrefilterOutcome) (tx : CellTx) : TemplateConflictPrefilterOutcome :=
  match validateCellscriptSchedulerMetadataPolicy hasher [tx] trustedAccessSets with
  | .ok () => { outcome with keptTxs := outcome.keptTxs ++ [tx] }
  | .error error =>
    { outcome with
      rejectedTransactions := outcome.rejectedTransactions.insert (hasher.txid tx) error }

def rejectNodes (rejected : List NodeId) (rejectedTransactions : ExtTreeMap Hash TxRuleError)
    (admittedTxs : List CellTx) : TemplateConflictPrefilterOutcome where
  keptTxs := (admittedTxs.zipIdx.filter fun entry => entry.2 ∉ rejected).map Prod.fst
  rejectedTransactions := (admittedTxs.zipIdx.filter fun entry => entry.2 ∈ rejected).foldl
    (fun m entry => m.insert (hasher.txid entry.1) templateConflictTxRuleError) rejectedTransactions

-- A graph that cannot be built is no reason to reject anything.
def prefilterConflictingTemplateTransactions (txs : List CellTx)
    (trustedAccessSets : Option TrustedCellScriptSchedulerAccessSets) :
    TemplateConflictPrefilterOutcome :=
  let admitted := txs.foldl (admitByPolicy hasher trustedAccessSets) ⟨[], ∅⟩
  if admitted.keptTxs.length ≤ 1 then admitted
  else match CellDAG.build blake3 admitted.keptTxs with
    | .error _ => admitted
    | .ok dag =>
      if dag.conflicts.isEmpty then admitted
      else rejectNodes hasher dag.rejectedNodes admitted.rejectedTransactions admitted.keptTxs

end Prefilter

structure TemplateValidationOutcome where
  validTxs : List CellTx
  calculatedFees : List Nat
  invalidTransactions : ExtTreeMap Hash TxRuleError

namespace TemplateProcessor

variable (self : TemplateProcessor)

def params : CellConsensusParams := { cellbaseMaturity := self.coinbaseMaturity }

-- Checks of the transaction alone; the size is that of the serialized transaction.
def validateInIsolation (tx : CellTx) : Except CellValidationError Unit := do
  validateCellTxInIsolation tx self.params.maxCellDataSize
  checkTxSize tx self.params.maxTxSize

def validateFullWithScriptsAndCycles (provider : DagCellProvider) (pov : Hash)
    (daaScore timestamp : Nat) (tx : CellTx) : Except CellValidationError Nat := do
  self.validateInIsolation tx
  validateInDag provider pov self.params tx daaScore timestamp
  verifyScriptsWithCycles self.engine self.params provider pov tx

def immatureSpend (provider : DagCellProvider) (pov : Hash) (currentDaa : Nat)
    (otherwise : RuleError) :
    List (CellInput × Nat) → Except RuleError TxRuleError
  | [] => .error otherwise
  | (input, index) :: rest => do
    let found ← (provider.getCellAtPov input.previousOutput pov).mapError fun err =>
      .cellValidationError s!"template input lookup failed: {err}"
    match found with
    | none => immatureSpend provider pov currentDaa otherwise rest
    | some metadata =>
      if metadata.isCellbase then
        let maturityDaa ← okOr (checkedAdd metadata.blockDaaScore self.coinbaseMaturity)
          (.panicked "attempt to add with overflow")
        if currentDaa < maturityDaa then
          return .immatureCoinbaseSpend index input.previousOutput metadata.blockDaaScore currentDaa
            self.coinbaseMaturity
        else immatureSpend provider pov currentDaa otherwise rest
      else immatureSpend provider pov currentDaa otherwise rest

-- Errors of a transaction reject it; any other error ends the build.
def mapBlockTemplateCellValidationError (provider : DagCellProvider) (pov : Hash) (currentDaa : Nat)
    (tx : CellTx) : CellValidationError → Except RuleError TxRuleError
  | .cellNotFound _ | .depCellNotFound _ | .cellAlreadySpent _ => .ok .missingTxOutpoints
  | .capacityOverflow => .ok .inputAmountOverflow
  | .insufficientCapacity required available => .ok (.spendTooHigh required available)
  | .timeLockNotSatisfied _ _ => .ok .sequenceLockConditionsAreNotMet
  | .cellbaseNotMature createdDaa currentDaa' requiredDaa =>
    self.immatureSpend provider pov currentDaa (.cellValidationError
      (s!"Template validation failed for tx {self.storage.hasher.txid tx}: " ++
        toString (CellValidationError.cellbaseNotMature createdDaa currentDaa' requiredDaa)))
          tx.inputs.zipIdx
  | .scriptVerificationFailed message => .ok (.cellValidationFailed message)
  | .invalidFormat message =>
    if ReplayValidationContext.mentions message "lookup error" ||
        ReplayValidationContext.mentions message "unexpected POV" then .ok .missingTxOutpoints
    else .ok (.cellValidationFailed message)
  | .exceededMaxCycles total limit =>
    .ok (.cellValidationFailed s!"script cycles exceeded limit: total {total}, limit {limit}")
  | .invalidSignature => .ok (.cellValidationFailed "invalid signature")
  | .panicked => .error (.panicked "attempt to add with overflow")

def resolveCellTxInputsFromProvider (provider : DagCellProvider) (pov : Hash) (tx : CellTx) :
    Except String (List CellMetadata) :=
  tx.inputs.mapM fun input => do
    okOr (← provider.getCellAtPov input.previousOutput pov)
      s!"missing input cell {input.previousOutput}"

def addFeeInput (sum : Nat) (metadata : CellMetadata) : Except TxRuleError Nat := do
  let next ← okOr (checkedAdd sum metadata.capacity) .inputAmountOverflow
  ensure (next ≤ MAX_SAU) .inputAmountTooHigh
  return next

def addFeeOutput (sum : Nat) (entry : CellOutput × Nat) : Except TxRuleError Nat := do
  ensure (entry.1.capacity ≠ 0) (.txOutZero entry.2)
  ensure (entry.1.capacity ≤ MAX_SAU) (.txOutTooHigh entry.2)
  let next ← okOr (checkedAdd sum entry.1.capacity) .outputsValueOverflow
  ensure (next ≤ MAX_SAU) .totalTxOutTooHigh
  return next

def calculateCellTxFeeFromProvider (provider : DagCellProvider) (pov : Hash) (tx : CellTx) :
    Except TxRuleError Nat := do
  let resolvedInputs ← (resolveCellTxInputsFromProvider provider pov tx).mapError fun _ =>
    .missingTxOutpoints
  let totalIn ← resolvedInputs.foldlM addFeeInput 0
  let totalOut ← tx.outputs.zipIdx.foldlM addFeeOutput 0
  ensure (totalOut ≤ totalIn) (.spendTooHigh totalOut totalIn)
  return totalIn - totalOut

def templateOverlayError (tx : CellTx) (err : String) : RuleError :=
  .cellValidationError
    s!"failed to update block template overlay for tx {self.storage.hasher.txid tx}: {err}"

-- The outputs become visible to the transactions behind.
def applyTemplateTransactionToOverlay (currentDaa : Nat) (tx : CellTx)
    (provider : OverlayCellProvider) :
    Except RuleError OverlayCellProvider := do
  let provider ← tx.spends.foldlM (fun provider o =>
    (provider.spendCell o).mapError (self.templateOverlayError tx)) provider
  tx.outputs.zipIdx.foldlM (fun provider (output, index) =>
    (provider.addCell ⟨self.storage.hasher.txid tx,
      index⟩ (cellMetadataFromOutput self.storage.hasher ZERO_HASH
      currentDaa false (self.storage.hasher.txid tx) index output (tx.outputData index))).mapError
      (self.templateOverlayError tx)) provider

structure FilterState where
  overlay : OverlayCellProvider
  outcome : TemplateValidationOutcome

def FilterState.reject (st : FilterState) (txId : Hash) (error : TxRuleError) : FilterState :=
  { st with outcome.invalidTransactions := st.outcome.invalidTransactions.insert txId error }

def FilterState.keep (st : FilterState) (overlay : OverlayCellProvider) (tx : CellTx) (fee : Nat) :
    FilterState :=
  ⟨overlay, { st.outcome with
    validTxs := st.outcome.validTxs ++ [tx]
    calculatedFees := st.outcome.calculatedFees ++ [fee] }⟩

def filterTemplateTransaction (pov : Hash) (daaScore timestamp : Nat) (st : FilterState)
    (tx : CellTx) :
    Except RuleError FilterState :=
  let provider := st.overlay.toProvider
  let checked : Except CellValidationError Unit := do
    self.validateInIsolation tx
    let _ ← self.validateFullWithScriptsAndCycles provider pov daaScore timestamp tx
  match checked with
  | .error error => do
    let txRuleError ← self.mapBlockTemplateCellValidationError provider pov daaScore tx error
    return st.reject (self.storage.hasher.txid tx) txRuleError
  | .ok () =>
    match calculateCellTxFeeFromProvider provider pov tx with
    | .error txRuleError => .ok (st.reject (self.storage.hasher.txid tx) txRuleError)
    | .ok fee => do
      let overlay ← self.applyTemplateTransactionToOverlay daaScore tx st.overlay
      return st.keep overlay tx fee

def buildVirtualSnapshotProvider (virtualState : VirtualState self.storage.hasher)
    (overrides : ExtTreeMap OutPoint CellMetadata) (templateTimestamp : Nat) :
    VirtualSnapshotCellProvider :=
  ⟨self.storage, virtualState, templateTimestamp, overrides⟩

def validateAndFilterBlockTemplateCellTransactions (txs : List CellTx)
    (virtualState : VirtualState self.storage.hasher) :
    Except RuleError TemplateValidationOutcome := do
  let snapshotPov := virtualState.ghostdagData.selectedParent
  let templateTimestamp := virtualState.pastMedianTime + 1
  let overlay := OverlayCellProvider.new
    (self.buildVirtualSnapshotProvider virtualState ∅ templateTimestamp).toProvider snapshotPov
      snapshotPov
  let st ← txs.foldlM
    (self.filterTemplateTransaction snapshotPov virtualState.daaScore templateTimestamp)
    ⟨overlay, ⟨[], [], ∅⟩⟩
  return st.outcome

def selectTemplateTransactions (selectedTxs : List CellTx)
    (trustedAccessSets : Option TrustedCellScriptSchedulerAccessSets)
    (virtualState : VirtualState self.storage.hasher) :
    Except RuleError TemplateValidationOutcome := do
  let filtered := prefilterConflictingTemplateTransactions self.blake3 self.storage.hasher
    selectedTxs trustedAccessSets
  let outcome ← self.validateAndFilterBlockTemplateCellTransactions filtered.keptTxs virtualState
  return { outcome with
    invalidTransactions := outcome.invalidTransactions.toList.foldl
      (fun m entry => m.insert entry.1 entry.2) filtered.rejectedTransactions }

-- In the standard mode nothing may have been rejected.
def templateTransactions (selectedTxs : List CellTx)
    (trustedAccessSets : Option TrustedCellScriptSchedulerAccessSets)
    (buildMode : TemplateBuildMode) (virtualState : VirtualState self.storage.hasher) :
    Except RuleError TemplateValidationOutcome := do
  let outcome ← self.selectTemplateTransactions selectedTxs trustedAccessSets virtualState
  ensure (buildMode = .infallible ∨ outcome.invalidTransactions.isEmpty)
    (.invalidTransactionsInNewBlock outcome.invalidTransactions.toList)
  return outcome

end TemplateProcessor

end Spora
