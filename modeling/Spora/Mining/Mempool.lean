import Spora.Template.Filter

namespace Spora

open Std Outcome

structure MutableTransaction where
  tx : CellTx
  resolvedCellMetadata : List (Option CellMetadata)
  calculatedFee : Option Nat
  calculatedNonContextualMasses : Option NonContextualMasses
  calculatedContextualMasses : Option ContextualMasses
  verifiedCycles : Option Nat
deriving DecidableEq, Repr

namespace MutableTransaction

def new (tx : CellTx) : MutableTransaction :=
  ⟨tx, tx.inputs.map fun _ => none, none, none, none, none⟩

variable (self : MutableTransaction)

def effectiveComputeMass : Option Nat :=
  self.calculatedNonContextualMasses.map fun nonContextualMasses =>
    let effectiveSize := self.verifiedCycles.elim 0 (effectiveSize self.tx.estimatedSerializedSize)
    max nonContextualMasses.computeMass effectiveSize

def contextualStorageMass : Option Nat :=
  self.calculatedContextualMasses.map ContextualMasses.storageMass

def selectionMass : Option Nat :=
  self.calculatedNonContextualMasses.bind fun nonContextualMasses =>
    self.contextualStorageMass.map fun storageMass =>
      let effectiveComputeMass := self.effectiveComputeMass.getD nonContextualMasses.computeMass
      max (max effectiveComputeMass nonContextualMasses.transientMass) storageMass

def isVerifiable : Bool := self.resolvedCellMetadata.all Option.isSome

def isFullyPopulated : Bool :=
  self.isVerifiable && self.calculatedFee.isSome && self.calculatedNonContextualMasses.isSome &&
    self.calculatedContextualMasses.isSome

end MutableTransaction

-- `panicked` is a plain sum that overflows.
inductive MempoolTxError
  | rule (error : TxRuleError)
  | panicked
deriving DecidableEq, Repr

structure MempoolProcessor extends TemplateProcessor where
  massCalculator : MassCalculator

namespace MempoolProcessor

variable (self : MempoolProcessor) (virtualState : VirtualState self.storage.hasher)

-- An input that the mempool has not resolved is read off the virtual state.
def resolveMempoolInput (input : CellInput) (slot : Option CellMetadata) :
    Except TxRuleError CellMetadata :=
  match slot with
  | some metadata => .ok metadata
  | none =>
    okOr ((virtualState.cellStateTree.get input.previousOutput).map
      (syntheticMetadataFromTreeEntry input.previousOutput)) .missingTxOutpoints

def resolveMempoolInputs (mutableTx : MutableTransaction) :
    Except TxRuleError (List CellMetadata) :=
  (mutableTx.tx.inputs.zip mutableTx.resolvedCellMetadata).mapM fun (input, slot) =>
    self.resolveMempoolInput virtualState input slot

def backfillMempoolEntriesFromResolvedInputs (mutableTx : MutableTransaction)
    (resolvedInputs : List CellMetadata) : MutableTransaction :=
  { mutableTx with
    resolvedCellMetadata :=
        (mutableTx.resolvedCellMetadata.zip resolvedInputs).map fun (slot, metadata) =>
      slot.or (some metadata) }

def buildMempoolInputOverrides (mutableTx : MutableTransaction)
    (resolvedInputs : List CellMetadata) :
    ExtTreeMap OutPoint CellMetadata :=
  (mutableTx.tx.inputs.zip resolvedInputs).foldl
    (fun m (input, metadata) => m.insert input.previousOutput metadata) ∅

def immatureResolvedInput (currentDaa : Nat) :
    List ((CellInput × CellMetadata) × Nat) → MempoolTxError
  | [] => .rule .missingTxOutpoints
  | ((input, metadata), index) :: rest =>
    if metadata.isCellbase then
      match checkedAdd metadata.blockDaaScore self.coinbaseMaturity with
      | none => .panicked
      | some maturityDaa =>
        if currentDaa < maturityDaa then
          .rule (.immatureCoinbaseSpend index input.previousOutput metadata.blockDaaScore currentDaa
            self.coinbaseMaturity)
        else immatureResolvedInput currentDaa rest
    else immatureResolvedInput currentDaa rest

def mapMempoolCellValidationError (mutableTx : MutableTransaction)
    (resolvedInputs : List CellMetadata) (currentDaa : Nat) : CellValidationError → MempoolTxError
  | .cellNotFound _ | .depCellNotFound _ | .cellAlreadySpent _ => .rule .missingTxOutpoints
  | .capacityOverflow => .rule .inputAmountOverflow
  | .insufficientCapacity required available => .rule (.spendTooHigh required available)
  | .timeLockNotSatisfied _ _ => .rule .sequenceLockConditionsAreNotMet
  | .cellbaseNotMature _ _ _ =>
    self.immatureResolvedInput currentDaa (mutableTx.tx.inputs.zip resolvedInputs).zipIdx
  | .scriptVerificationFailed message => .rule (.cellValidationFailed message)
  | .invalidFormat message =>
    if ReplayValidationContext.mentions message "lookup error" ||
        ReplayValidationContext.mentions message "unexpected POV" then .rule .missingTxOutpoints
    else .rule (.cellValidationFailed message)
  | .exceededMaxCycles total limit =>
    .rule (.cellValidationFailed s!"script cycles exceeded limit: total {total}, limit {limit}")
  | .invalidSignature => .rule (.cellValidationFailed "invalid signature")
  | .panicked => .panicked

def contextualMasses (tx : CellTx) (resolvedInputs : List CellMetadata) :
    Except MempoolTxError (Option ContextualMasses) :=
  match self.massCalculator.calcContextualMasses tx resolvedInputs with
  | .ok masses => .ok (some masses)
  | .error .incomputable => .ok none
  | .error .panicked => .error .panicked

-- Without a feerate threshold, which only replacements have.
def validateMempoolCellTransactionAgainstVirtualState (mutableTx : MutableTransaction) :
    Except MempoolTxError MutableTransaction := do
  let tx := mutableTx.tx
  let pov := virtualState.ghostdagData.selectedParent
  ensure (tx.isCoinbase = false) (.rule (.coinbaseHasInputs tx.inputs.length))
  ensure (tx.inputs ≠ []) (.rule .noTxInputs)
  ensure tx.spends.Nodup (.rule .txDuplicateInputs)
  (validateCellscriptSchedulerMetadataPolicy self.storage.hasher [tx] none).mapError .rule
  let resolvedInputs ← (self.resolveMempoolInputs virtualState mutableTx).mapError .rule
  let mutableTx := backfillMempoolEntriesFromResolvedInputs mutableTx resolvedInputs
  let provider := (self.buildVirtualSnapshotProvider virtualState
    (buildMempoolInputOverrides mutableTx resolvedInputs) virtualState.pastMedianTime).toProvider
  let verifiedCycles ← (self.validateFullWithScriptsAndCycles provider pov virtualState.daaScore
    virtualState.pastMedianTime tx).mapError
      (self.mapMempoolCellValidationError mutableTx resolvedInputs virtualState.daaScore)
  let calculatedFee ← (TemplateProcessor.calculateCellTxFeeFromProvider provider pov tx).mapError
    .rule
  let contextualMasses ← self.contextualMasses tx resolvedInputs
  return { mutableTx with
    verifiedCycles := some verifiedCycles
    calculatedFee := some calculatedFee
    calculatedNonContextualMasses := some (mutableTx.calculatedNonContextualMasses.getD
      (self.massCalculator.calcNonContextualMassesCell tx))
    calculatedContextualMasses := contextualMasses }

end MempoolProcessor

end Spora
