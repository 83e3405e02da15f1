import Spora.Mpe.AccessSummary
import Spora.Mpe.Analysis

namespace Spora

open Std Outcome

structure BlockCellDiff where
  blockHash : Hash
  blockDaaScore : Nat
  cellDiff : CellDiff
deriving DecidableEq

structure MergesetBlockAcceptanceData where
  blockHash : Hash
  acceptedTransactions : List AcceptedTxEntry
deriving DecidableEq, Repr

structure CellProcessingContext (hasher : Hasher) where
  ghostdagData : GhostdagData
  cellStateTree : LiveTree hasher
  mergesetCellDiff : CellDiff
  blockCellDiffs : List BlockCellDiff
  acceptedTxIds : List Hash
  mergesetAcceptanceData : List MergesetBlockAcceptanceData
  mergesetRewards : ExtTreeMap Hash BlockRewardData
deriving DecidableEq

def CellProcessingContext.new {hasher : Hasher} (ghostdagData : GhostdagData)
    (selectedParentCellTree : LiveTree hasher) : CellProcessingContext hasher :=
  ⟨ghostdagData, selectedParentCellTree, .empty, [], [], [], ∅⟩

section Effects

variable {hasher : Hasher}

def executionEffectConflictsWithCurrentState (tree : LiveTree hasher)
    (effect : BlockExecutionEffect) : Bool :=
  effect.cellDiff.remove.keys.any (fun outpoint => !outpointExistsInTree tree outpoint) ||
  effect.readDeps.toList.any fun outpoint =>
    !effect.cellDiff.add.contains outpoint && !outpointExistsInTree tree outpoint

def ensureExecutionEffectAvailableForCommit (tree : LiveTree hasher)
    (effect : BlockExecutionEffect) (blockHash : Hash) : Except RuleError Unit :=
  ensure (executionEffectConflictsWithCurrentState tree effect = false) (.cellValidationError
    (s!"blue block {blockHash} produced an execution effect whose consumed cells or cell_dep " ++
      "reads are unavailable at commit"))

def invalidateEffectPreservingReward (effect : BlockExecutionEffect) (blockHash : Hash)
    (blockDaaScore : Nat) : BlockExecutionEffect :=
  { BlockExecutionEffect.empty blockHash blockDaaScore with rewardData := effect.rewardData }

def ensureRedBlockOutputsAbsent (tree : LiveTree hasher) (redBlock : Hash)
    (blockTxs : List CellTx) : Except RuleError Unit :=
  blockTxs.forM fun tx => (tx.creates hasher).forM fun outpoint =>
    ensure (tree.get outpoint = none) (.cellValidationError
      s!"red block {redBlock} leaked output {outpoint} into the live CellStateTree")

def commitExecutionEffect (ctx : CellProcessingContext hasher) (effect : BlockExecutionEffect) :
    Except RuleError (CellProcessingContext hasher) := do
  let (verdict, mergesetCellDiff) := ctx.mergesetCellDiff.withDiffInPlace effect.cellDiff
  verdict.mapError .cellValidationError
  return { ctx with
    cellStateTree := applyCellDiffToTree ctx.cellStateTree effect.cellDiff
    blockCellDiffs := if effect.cellDiff.isEmpty then ctx.blockCellDiffs
      else ctx.blockCellDiffs ++ [⟨effect.blockHash, effect.blockDaaScore, effect.cellDiff⟩]
    mergesetAcceptanceData := if effect.acceptedTransactions.isEmpty then ctx.mergesetAcceptanceData
      else ctx.mergesetAcceptanceData ++ [⟨effect.blockHash, effect.acceptedTransactions⟩]
    acceptedTxIds := ctx.acceptedTxIds ++ effect.acceptedTxIds
    mergesetRewards := match effect.rewardData with
      | some rewardData => ctx.mergesetRewards.insertIfNew effect.blockHash rewardData
      | none => ctx.mergesetRewards
    mergesetCellDiff := mergesetCellDiff }

-- The metadata of a created cell is rebuilt from the transaction it comes from.
def addCreatedCell (hasher : Hasher) (block : BlockData) (replay : ReplayValidationContext)
    (created : OutPoint × CellMeta) : Except RuleError ReplayValidationContext := do
  let (outpoint, cellMeta) := created
  let tx ← okOr (block.txs.find? fun tx => hasher.txid tx = outpoint.txHash)
    (.panicked "created cell must originate from a transaction in the same block")
  let output ← okOr tx.outputs[outpoint.index]? (.panicked "index out of bounds")
  replay.addCell (cellMetadataFromOutput hasher block.hash cellMeta.blockDaaScore
    cellMeta.isCellbase outpoint.txHash outpoint.index output (tx.outputData outpoint.index))

def applyEffectToOverlay (hasher : Hasher) (replay : ReplayValidationContext)
    (effect : BlockExecutionEffect) (block : BlockData) :
    Except RuleError ReplayValidationContext := do
  let replay ← effect.cellDiff.remove.keys.foldlM (fun replay outpoint => replay.spendCell outpoint)
    replay
  effect.cellDiff.add.toList.foldlM (addCreatedCell hasher block) replay

def seedBaseOverride (replay : ReplayValidationContext) (cell : OutPoint × CellEntry) :
    Except RuleError ReplayValidationContext := do
  let (outpoint, entry) := cell
  if entry.lockScript.isNone && entry.typeScript.isNone && entry.data.isNone then return replay
  else
    let metadata := { CellMetadata.ofCellMeta (cellEntryToMeta outpoint entry) with
      blockHash := replay.snapshotPov }
    let provider ← (replay.provider.addBaseOverride outpoint metadata).mapError fun err =>
      .cellValidationError s!"virtual replay overlay seed error: {err}"
    return { replay with provider := provider }

def seedBaseOverridesFromTree (replay : ReplayValidationContext) (tree : LiveTree hasher) :
    Except RuleError ReplayValidationContext :=
  tree.iterByOutpoint.foldlM seedBaseOverride replay

end Effects

structure MergesetState (hasher : Hasher) where
  ctx : CellProcessingContext hasher
  processedTxs : ExtTreeSet Hash
  replay : ReplayValidationContext

def MergesetState.snapshot {hasher : Hasher} (st : MergesetState hasher) :
    ExecutionSnapshot hasher :=
  ⟨st.ctx.cellStateTree, st.processedTxs, st.replay⟩

def BlockStores.loadBlock (stores : BlockStores) (block : Hash) : Except RuleError BlockData := do
  let txs ← okOr (stores.blockTransactions block) (.panicked "called unwrap on a missing entry")
  let daaScore ← okOr (stores.daaScores block) (.panicked "block header must exist")
  return ⟨block, txs, daaScore⟩

namespace VirtualStateProcessor

variable (self : VirtualStateProcessor)

def buildReplayValidationContext (snapshotPov basePov : Hash)
    (currentDaaScore currentTimestamp : Nat) : ReplayValidationContext where
  snapshotPov := snapshotPov
  currentDaaScore := currentDaaScore
  currentTimestamp := currentTimestamp
  params := { cellbaseMaturity := self.coinbaseMaturity }
  provider := OverlayCellProvider.new self.baseProvider snapshotPov basePov
  accumulatedCycles := 0

def commitEffect (st : MergesetState self.hasher) (block : BlockData)
    (effect : BlockExecutionEffect) : Except RuleError (MergesetState self.hasher) := do
  let processedTxs := insertAll st.processedTxs effect.newlyProcessedTxIds
  let replay ← applyEffectToOverlay self.hasher st.replay effect block
  let ctx ← commitExecutionEffect st.ctx effect
  return ⟨ctx, processedTxs, { replay with accumulatedCycles := effect.consumedCycles }⟩

def executeBlock (st : MergesetState self.hasher) (block : BlockData) :
    Except RuleError (MergesetState self.hasher) := do
  let effect ← self.analyzeBlueBlock st.snapshot block
  ensureExecutionEffectAvailableForCommit st.ctx.cellStateTree effect block.hash
  self.commitEffect st block effect

def commitLayerEffect (st : MergesetState self.hasher)
    (analyzed : BlockData × BlockExecutionEffect) :
    Except RuleError (MergesetState self.hasher) :=
  let (block, effect) := analyzed
  -- a conflicting effect is replaced by an empty one that keeps the reward
  let finalEffect := if executionEffectConflictsWithCurrentState st.ctx.cellStateTree effect then
      invalidateEffectPreservingReward effect block.hash block.daaScore
    else effect
  self.commitEffect st block finalEffect

-- All blocks of a layer are analysed on one snapshot and then committed in order.
def executeLayer (st : MergesetState self.hasher) (layer : List BlockData) :
    Except RuleError (MergesetState self.hasher) :=
  match layer with
  | [block] => self.executeBlock st block
  | _ => do
    let effects ← layer.mapM (self.analyzeBlueBlock st.snapshot)
    (layer.zip effects).foldlM self.commitLayerEffect st

variable (stores : BlockStores)

def loadBlue (blue : Hash) : Except RuleError (BlockData × BlockAccessSummary) := do
  let block ← stores.loadBlock blue
  let summary ← (BlockAccessSummary.tryFromBlockTxsWithCellscriptScheduler self.hasher
    block.txs).mapError fun err => .cellValidationError (toString err)
  return (block, summary)

def executeBlues (st : MergesetState self.hasher) (mergesetBlues : List Hash) :
    Except RuleError (MergesetState self.hasher) := do
  let blues ← mergesetBlues.mapM (self.loadBlue stores)
  let dag := ExecutionDAG.build (blues.map Prod.snd)
  dag.layers.foldlM (fun st layer =>
    self.executeLayer st (layer.filterMap fun idx => blues[idx]?.map Prod.fst)) st

def executeSelectedParent (st : MergesetState self.hasher) (selectedParent : Hash) :
    Except RuleError (MergesetState self.hasher) := do
  let block ← stores.loadBlock selectedParent
  let effect ← self.analyzeSelectedParentCoinbase st.ctx.cellStateTree block
  self.commitEffect st block effect

-- Step 3: a red block leaves a reward and an empty acceptance entry.
def executeRed (ctx : CellProcessingContext self.hasher) (red : Hash) :
    Except RuleError (CellProcessingContext self.hasher) := do
  let block ← stores.loadBlock red
  ensureRedBlockOutputsAbsent ctx.cellStateTree red block.txs
  let ctx := { ctx with mergesetAcceptanceData := ctx.mergesetAcceptanceData ++ [⟨red, []⟩] }
  commitExecutionEffect ctx { BlockExecutionEffect.empty red block.daaScore with
    rewardData := self.buildBlockRewardData block.txs block.daaScore }

def startMergeset (ctx : CellProcessingContext self.hasher) (povDaaScore : Nat) (snapshotPov : Hash)
    (currentTimestamp : Nat) : Except RuleError (MergesetState self.hasher) := do
  let replay ← seedBaseOverridesFromTree (self.buildReplayValidationContext snapshotPov
    ctx.ghostdagData.selectedParent povDaaScore currentTimestamp) ctx.cellStateTree
  self.executeSelectedParent stores ⟨ctx, ∅, replay⟩ ctx.ghostdagData.selectedParent

def executeBlueMergeset (ctx : CellProcessingContext self.hasher) (povDaaScore : Nat)
    (snapshotPov : Hash) (currentTimestamp : Nat) : Except RuleError (MergesetState self.hasher) :=
  do
  let st ← self.startMergeset stores ctx povDaaScore snapshotPov currentTimestamp
  self.executeBlues stores st ctx.ghostdagData.mergesetBlues

def calculateCellState (ctx : CellProcessingContext self.hasher) (povDaaScore : Nat)
    (snapshotPov : Hash) (currentTimestamp : Nat) :
    Except RuleError (CellProcessingContext self.hasher) := do
  let st ← self.executeBlueMergeset stores ctx povDaaScore snapshotPov currentTimestamp
  ctx.ghostdagData.mergesetReds.foldlM (self.executeRed stores) st.ctx

def sample : VirtualStateProcessor where
  hasher := Hasher.sample
  validator := TxValidator.replay Hasher.sample (ScriptEngine.sample Hasher.sample)
  coinbaseManager := ⟨150, 216, 1000, 500, 1, [440]⟩
  coinbaseMaturity := 100
  baseProvider := ⟨fun _ _ => .ok none, fun _ => .ok 0, fun _ => .ok none⟩

def sampleLock : Script := ⟨11, 1, List.replicate 20 7⟩

def sampleCoinbase (capacity : Nat) : CellTx :=
  ⟨CELL_TX_VERSION, [], [], [], [⟨sampleLock, none, capacity⟩], [[]], []⟩

def sampleCell (data : Bytes) : CellEntry where
  capacity := 1000
  dataBytes := data.length
  lockHash := sample.hasher.scriptHash sampleLock
  typeHash := none
  dataHash := sample.hasher.computeDataHash data
  blockDaaScore := 1
  isCellbase := false
  lockScript := some sampleLock
  typeScript := none
  data := some data

def samplePayment (input : OutPoint) (cellDeps : List CellDep) : CellTx :=
  ⟨CELL_TX_VERSION, [⟨input, 0⟩], cellDeps, [], [⟨sampleLock, none, 900⟩], [[]], [[]]⟩

end VirtualStateProcessor

end Spora
