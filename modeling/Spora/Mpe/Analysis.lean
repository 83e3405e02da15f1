import Spora.Cell.Tree
import Spora.Coinbase.Manager
import Spora.Mpe.Replay

namespace Spora

open Std Outcome

structure AcceptedTxEntry where
  transactionId : Hash
  indexWithinBlock : Nat
deriving DecidableEq, Repr

structure BlockExecutionEffect where
  blockHash : Hash
  blockDaaScore : Nat
  cellDiff : CellDiff
  readDeps : ExtTreeSet OutPoint
  acceptedTxIds : List Hash
  acceptedTransactions : List AcceptedTxEntry
  rewardData : Option BlockRewardData
  consumedCycles : Nat
  newlyProcessedTxIds : List Hash
deriving DecidableEq

def BlockExecutionEffect.empty (blockHash : Hash) (blockDaaScore : Nat) : BlockExecutionEffect :=
  ⟨blockHash, blockDaaScore, .empty, ∅, [], [], none, 0, []⟩

-- What mergeset execution uses of the virtual processor besides the stored blocks.
structure VirtualStateProcessor where
  hasher : Hasher
  validator : TxValidator
  coinbaseManager : CoinbaseManager
  coinbaseMaturity : Nat
  baseProvider : DagCellProvider

structure BlockStores where
  blockTransactions : Hash → Option (List CellTx)
  daaScores : Hash → Option Nat

structure ExecutionSnapshot (hasher : Hasher) where
  cellStateTree : LiveTree hasher
  processedTxs : ExtTreeSet Hash
  replay : ReplayValidationContext

structure BlockData where
  hash : Hash
  txs : List CellTx
  daaScore : Nat
deriving DecidableEq, Repr

def cellMetaFromOutput (hasher : Hasher) (blockDaaScore : Nat) (isCellbase : Bool) (tx : CellTx)
    (index : Nat) (output : CellOutput) : CellMeta where
  outPoint := ⟨hasher.txid tx, index⟩
  capacity := output.capacity
  dataBytes := (tx.outputData index).length
  lockHash := hasher.scriptHash output.lock
  typeHash := output.type_.map hasher.scriptHash
  dataHash := hasher.computeDataHash (tx.outputData index)
  blockDaaScore := blockDaaScore
  isCellbase := isCellbase
  lockScript := some output.lock
  typeScript := output.type_
  data := some (tx.outputData index)

def cellMetadataFromOutput (hasher : Hasher) (blockHash : Hash) (blockDaaScore : Nat)
    (isCellbase : Bool) (txId : Hash) (index : Nat) (output : CellOutput) (outputData : Bytes) :
    CellMetadata where
  outPoint := ⟨txId, index⟩
  capacity := output.capacity
  dataBytes := outputData.length
  lockHash := hasher.scriptHash output.lock
  typeHash := output.type_.map hasher.scriptHash
  dataHash := hasher.computeDataHash outputData
  blockDaaScore := blockDaaScore
  isCellbase := isCellbase
  blockHash := blockHash
  lockCodeHash := some output.lock.codeHash
  typeCodeHash := output.type_.map Script.codeHash
  lockScript := some output.lock
  typeScript := output.type_
  data := some outputData

namespace VirtualStateProcessor

variable (self : VirtualStateProcessor)

-- The subsidy and the miner's lock of a block, read from the payload of its first transaction.
def buildBlockRewardData (blockTxs : List CellTx) (blockDaaScore : Nat) : Option BlockRewardData :=
  match blockTxs with
  | [] => none
  | first :: _ =>
    let fallback : BlockRewardData :=
      ⟨self.coinbaseManager.calcBlockSubsidy blockDaaScore, 0, ⟨0, 0, []⟩⟩
    some <| match first.payload with
      | none => fallback
      | some payload =>
        match self.coinbaseManager.deserializeCoinbasePayload payload with
        | .ok coinbaseData => ⟨coinbaseData.subsidy, 0, coinbaseData.minerData.lockScript⟩
        | .error _ => fallback

def addCoinbaseOutput (tree : LiveTree self.hasher) (blockDaaScore : Nat) (coinbase : CellTx)
    (diff : CellDiff) (entry : CellOutput × Nat) : Except RuleError CellDiff := do
  let (output, index) := entry
  let outpoint : OutPoint := ⟨self.hasher.txid coinbase, index⟩
  ensure (tree.get outpoint = none ∧ outpoint ∉ diff.add) (.cellValidationError
    s!"selected parent coinbase tried to create duplicate outpoint {outpoint}")
  return diff.addCell outpoint
    (cellMetaFromOutput self.hasher blockDaaScore true coinbase index output)

-- Only the coinbase of the selected parent; its other transactions follow with the blues.
def analyzeSelectedParentCoinbase (tree : LiveTree self.hasher) (block : BlockData) :
    Except RuleError BlockExecutionEffect := do
  let effect : BlockExecutionEffect := { BlockExecutionEffect.empty block.hash block.daaScore with
    rewardData := self.buildBlockRewardData block.txs block.daaScore }
  match block.txs with
  | [] => return effect
  | coinbase :: _ =>
    let coinbaseId := self.hasher.txid coinbase
    let cellDiff ← coinbase.outputs.zipIdx.foldlM
      (self.addCoinbaseOutput tree block.daaScore coinbase) .empty
    return { effect with
      acceptedTxIds := [coinbaseId]
      newlyProcessedTxIds := [coinbaseId]
      cellDiff := cellDiff }

end VirtualStateProcessor

-- A consumed cell leaves the additions if the block created it and joins the removals otherwise.
def CellDiff.recordConsumed (self : CellDiff) (outpoint : OutPoint) (m : CellMeta) : CellDiff :=
  if outpoint ∈ self.add then { self with add := self.add.erase outpoint }
  else { self with remove := self.remove.insert outpoint m }

-- The loop state of the analysis: the effect so far and the local copies of tree and overlay.
structure AnalysisState (hasher : Hasher) where
  effect : BlockExecutionEffect
  localTree : LiveTree hasher
  localReplay : ReplayValidationContext

namespace AnalysisState

variable {hasher : Hasher}

def consumeInput (txId : Hash) (acc : AnalysisState hasher × Nat) (input : CellInput) :
    Except RuleError (AnalysisState hasher × Nat) := do
  let (st, inputCapacity) := acc
  let outpoint := input.previousOutput
  ensure (outpoint ∉ st.effect.cellDiff.remove) (.doubleSpendInSameBlock outpoint)
  let entry ← okOr (st.localTree.get outpoint) (.txInContextFailed txId .missingTxOutpoints)
  let inputCapacity ← okOr (checkedAdd inputCapacity entry.capacity)
    (.txInContextFailed txId .inputAmountOverflow)
  ensure (inputCapacity ≤ MAX_SAU) (.txInContextFailed txId .inputAmountTooHigh)
  let localReplay ← st.localReplay.spendCell outpoint
  let cellDiff := st.effect.cellDiff.recordConsumed outpoint (cellEntryToMeta outpoint entry)
  return (⟨{ st.effect with cellDiff := cellDiff }, st.localTree.remove outpoint, localReplay⟩,
    inputCapacity)

def createOutput (block : BlockData) (isCellbase : Bool) (tx : CellTx)
    (acc : AnalysisState hasher × Nat) (entry : CellOutput × Nat) :
    Except RuleError (AnalysisState hasher × Nat) := do
  let (st, outputCapacity) := acc
  let (output, index) := entry
  let txId := hasher.txid tx
  let outputCapacity ← okOr (checkedAdd outputCapacity output.capacity)
    (.txInContextFailed txId .outputsValueOverflow)
  ensure (outputCapacity ≤ MAX_SAU) (.txInContextFailed txId .totalTxOutTooHigh)
  let outpoint : OutPoint := ⟨txId, index⟩
  ensure (st.localTree.get outpoint = none ∧ outpoint ∉ st.effect.cellDiff.add ∧
      outpoint ∉ st.effect.cellDiff.remove) (.cellValidationError
    s!"transaction {txId} tried to create duplicate outpoint {outpoint}")
  let cellMeta := cellMetaFromOutput hasher block.daaScore isCellbase tx index output
  let localReplay ← st.localReplay.addCell (cellMetadataFromOutput hasher block.hash block.daaScore
    isCellbase txId index output (tx.outputData index))
  return (⟨{ st.effect with cellDiff := st.effect.cellDiff.addCell outpoint cellMeta },
    st.localTree.insert outpoint (cellMetaToEntry cellMeta), localReplay⟩, outputCapacity)

def accept (st : AnalysisState hasher) (tx : CellTx) (txIndex : Nat) : AnalysisState hasher :=
  let txId := hasher.txid tx
  { st with effect := { st.effect with
      newlyProcessedTxIds := st.effect.newlyProcessedTxIds ++ [txId]
      acceptedTxIds := st.effect.acceptedTxIds ++ [txId]
      acceptedTransactions := st.effect.acceptedTransactions ++ [⟨txId, txIndex⟩]
      readDeps := tx.deps.foldl (fun deps dep => deps.insert dep) st.effect.readDeps } }

def applyTx (block : BlockData) (st : AnalysisState hasher) (tx : CellTx) (txIndex : Nat) :
    Except RuleError (AnalysisState hasher) := do
  let isCoinbase := txIndex == 0 && tx.isCoinbase
  let st := st.accept tx txIndex
  let (st, _) ← tx.inputs.foldlM (consumeInput (hasher.txid tx)) (st, 0)
  let (st, _) ← tx.outputs.zipIdx.foldlM (createOutput block isCoinbase tx) (st, 0)
  return st

end AnalysisState

namespace VirtualStateProcessor

variable (self : VirtualStateProcessor)

-- Validation of everything but the coinbase, with its cycles charged to the block.
def chargeTx (replay : ReplayValidationContext) (tx : CellTx) (txIndex : Nat) :
    Except RuleError ReplayValidationContext := do
  if txIndex = 0 ∧ tx.isCoinbase then return replay
  else
    let txCycles ← self.validator.validateTx replay tx
    return { replay with accumulatedCycles := saturatingAdd replay.accumulatedCycles txCycles }

def analyzeTxs (processedTxs : ExtTreeSet Hash) (block : BlockData) :
    AnalysisState self.hasher → List (CellTx × Nat) → Except RuleError (AnalysisState self.hasher)
  | st, [] => .ok st
  | st, (tx, txIndex) :: rest =>
    if self.hasher.txid tx ∈ processedTxs then analyzeTxs processedTxs block st rest
    else do
      let replay ← self.chargeTx st.localReplay tx txIndex
      -- the transaction over the block's budget is dropped together with all that follow it
      if ¬ (txIndex = 0 ∧ tx.isCoinbase) ∧
          replay.accumulatedCycles > replay.params.maxBlockCycles then
        return { st with localReplay := replay }
      else
        let st ← AnalysisState.applyTx block { st with localReplay := replay } tx txIndex
        analyzeTxs processedTxs block st rest

def startAnalysis (snapshot : ExecutionSnapshot self.hasher) (block : BlockData) :
    AnalysisState self.hasher where
  effect := { BlockExecutionEffect.empty block.hash block.daaScore with
    rewardData := self.buildBlockRewardData block.txs block.daaScore }
  localTree := snapshot.cellStateTree
  localReplay := { snapshot.replay with accumulatedCycles := 0 }

def analyzeBlueBlock (snapshot : ExecutionSnapshot self.hasher) (block : BlockData) :
    Except RuleError BlockExecutionEffect := do
  let st ← self.analyzeTxs snapshot.processedTxs block (self.startAnalysis snapshot block)
    block.txs.zipIdx
  return { st.effect with consumedCycles := st.localReplay.accumulatedCycles }

end VirtualStateProcessor

end Spora
