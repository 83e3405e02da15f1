import Spora.Lib.Layers
import Spora.Lib.TreeMap
import Spora.Mpe.SchedulerWitness

namespace Spora

open Std Outcome

inductive BlockAccessSummaryError
  | cellScriptSchedulerWitness (txId : Hash) (source : CellScriptSchedulerWitnessError)
  | missingTrustedCellScriptAccessSet (txId : Hash)
  | staleTrustedCellScriptAccessSet (txId : Hash)
deriving DecidableEq, Repr

instance : ToString BlockAccessSummaryError where
  toString
    | .cellScriptSchedulerWitness txId source =>
      s!"transaction {txId} has invalid CellScript scheduler witness: {source}"
    | .missingTrustedCellScriptAccessSet txId =>
      s!"transaction {txId} carries CellScript scheduler witness but no trusted access set " ++
        "was provided"
    | .staleTrustedCellScriptAccessSet txId =>
      s!"transaction {txId} has a stale trusted CellScript scheduler access set but no " ++
        "scheduler witness"

abbrev TrustedCellScriptSchedulerAccessSets := ExtTreeMap Hash CellScriptSchedulerWitness

structure BlockAccessSummary where
  spentOutpoints : ExtTreeSet OutPoint
  createdOutpoints : ExtTreeSet OutPoint
  readDeps : ExtTreeSet OutPoint
  txIds : ExtTreeSet Hash
  cellscriptSharedReads : ExtTreeSet Hash
  cellscriptSharedWrites : ExtTreeSet Hash

def insertAll {κ : Type} [Ord κ] [TransOrd κ] (s : ExtTreeSet κ) (keys : List κ) : ExtTreeSet κ :=
  keys.foldl (fun s key => s.insert key) s

namespace BlockAccessSummary

variable (hasher : Hasher)

def addTx (summary : BlockAccessSummary) (tx : CellTx) : BlockAccessSummary :=
  { summary with
    txIds := summary.txIds.insert (hasher.txid tx)
    spentOutpoints := insertAll summary.spentOutpoints tx.spends
    createdOutpoints := insertAll summary.createdOutpoints (tx.creates hasher)
    readDeps := insertAll summary.readDeps tx.deps }

def fromBlockTxs (blockTxs : List CellTx) : BlockAccessSummary :=
  blockTxs.foldl (addTx hasher) ⟨∅, ∅, ∅, ∅, ∅, ∅⟩

def mergeAccess (tx : CellTx) (summary : BlockAccessSummary)
    (access : CellScriptSchedulerAccessWitness) : BlockAccessSummary :=
  if access.source = CELLSCRIPT_SCHEDULER_SOURCE_INPUT then
    match tx.inputs[access.index]? with
    | some input =>
      { summary with spentOutpoints := summary.spentOutpoints.insert input.previousOutput }
    | none => summary
  else if access.source = CELLSCRIPT_SCHEDULER_SOURCE_CELL_DEP then
    match tx.cellDeps[access.index]? with
    | some dep => { summary with readDeps := summary.readDeps.insert dep.outPoint }
    | none => summary
  else if access.source = CELLSCRIPT_SCHEDULER_SOURCE_OUTPUT then
    match tx.outputs[access.index]? with
    | some _ =>
      { summary with
        createdOutpoints := summary.createdOutpoints.insert ⟨hasher.txid tx, access.index⟩ }
    | none => summary
  else summary

def mergeCellscriptSchedulerWitness (summary : BlockAccessSummary) (tx : CellTx)
    (witness : CellScriptSchedulerWitness) : BlockAccessSummary :=
  let summary :=
    if witness.effectClass ∈ [CELLSCRIPT_SCHEDULER_EFFECT_PURE,
        CELLSCRIPT_SCHEDULER_EFFECT_READ_ONLY] then
      { summary with
        cellscriptSharedReads := insertAll summary.cellscriptSharedReads witness.touchesShared }
    else
      { summary with
        cellscriptSharedWrites := insertAll summary.cellscriptSharedWrites witness.touchesShared }
  witness.accesses.foldl (mergeAccess hasher tx) summary

def mergeTxWitnesses (summary : BlockAccessSummary) (tx : CellTx) :
    Except BlockAccessSummaryError BlockAccessSummary := do
  let txId := hasher.txid tx
  let schedulerWitnesses := tx.cellscriptSchedulerWitnesses
  if schedulerWitnesses.length > 1 then
    throw (.cellScriptSchedulerWitness txId (.duplicateSchedulerWitness schedulerWitnesses.length))
  schedulerWitnesses.foldlM (fun summary bytes => do
    let witness ← (decodeCellscriptSchedulerWitnessForTx tx bytes).mapError
      (.cellScriptSchedulerWitness txId)
    return mergeCellscriptSchedulerWitness hasher summary tx witness) summary

def tryFromBlockTxsWithCellscriptScheduler (blockTxs : List CellTx) :
    Except BlockAccessSummaryError BlockAccessSummary :=
  blockTxs.foldlM (mergeTxWitnesses hasher) (fromBlockTxs hasher blockTxs)

def mergeTrustedTxWitnesses (trustedAccessSets : TrustedCellScriptSchedulerAccessSets)
    (summary : BlockAccessSummary) (tx : CellTx) :
    Except BlockAccessSummaryError BlockAccessSummary := do
  let txId := hasher.txid tx
  let schedulerWitnesses := tx.cellscriptSchedulerWitnesses
  if schedulerWitnesses.length > 1 then
    throw (.cellScriptSchedulerWitness txId (.duplicateSchedulerWitness schedulerWitnesses.length))
  if txId ∈ trustedAccessSets ∧ schedulerWitnesses.length = 0 then
    throw (.staleTrustedCellScriptAccessSet txId)
  schedulerWitnesses.foldlM (fun summary bytes => do
    let witness ← (decodeCellscriptSchedulerWitnessForTx tx bytes).mapError
      (.cellScriptSchedulerWitness txId)
    let expectedSummary ← okOr trustedAccessSets[txId]? (.missingTrustedCellScriptAccessSet txId)
    (validateCellscriptSchedulerWitnessSummary witness expectedSummary).mapError
      (.cellScriptSchedulerWitness txId)
    return mergeCellscriptSchedulerWitness hasher summary tx witness) summary

-- The policy of block templates whose selector knows the summaries of the transactions.
def tryFromBlockTxsWithTrustedCellscriptSchedulerAccesses (blockTxs : List CellTx)
    (trustedAccessSets : TrustedCellScriptSchedulerAccessSets) :
    Except BlockAccessSummaryError BlockAccessSummary :=
  blockTxs.foldlM (mergeTrustedTxWitnesses hasher trustedAccessSets) (fromBlockTxs hasher blockTxs)

def intersects {κ : Type} [Ord κ] [TransOrd κ] [DecidableEq κ] (s t : ExtTreeSet κ) : Bool :=
  s.toList.any fun key => t.contains key

-- `self` is the later of the two blocks.
def hasDependencyOn (self earlier : BlockAccessSummary) : Bool :=
  intersects self.spentOutpoints earlier.createdOutpoints ||
  intersects self.spentOutpoints earlier.spentOutpoints ||
  intersects self.txIds earlier.txIds ||
  intersects self.readDeps earlier.createdOutpoints ||
  intersects self.readDeps earlier.spentOutpoints ||
  intersects self.cellscriptSharedWrites earlier.cellscriptSharedWrites ||
  intersects self.cellscriptSharedWrites earlier.cellscriptSharedReads ||
  intersects self.cellscriptSharedReads earlier.cellscriptSharedWrites

end BlockAccessSummary

-- Positions in `summaries`, grouped into the layers whose blocks are analysed together.
structure ExecutionDAG where
  layers : List (List Nat)

namespace ExecutionDAG

def dependsOn (summaries : List BlockAccessSummary) (next earlier : Nat) : Bool :=
  match summaries[next]?, summaries[earlier]? with
  | some next, some earlier => next.hasDependencyOn earlier
  | _, _ => false

def build (summaries : List BlockAccessSummary) : ExecutionDAG where
  layers := Layers.layers (dependsOn summaries) (List.range summaries.length)

end ExecutionDAG

end Spora
