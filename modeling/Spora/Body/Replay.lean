import Spora.Body.Lemmas
import Spora.Mpe.Analysis.Sequential
import Spora.Mpe.CellState.Lemmas
import Spora.Mpe.Verification

namespace Spora

open Std Outcome VirtualStateProcessor TxValidator List

-- Whether a block that passed body validation can be replayed on the state it commits to.
namespace BlockBodyProcessor

variable (processor : BlockBodyProcessor)

abbrev virtualProcessor : VirtualStateProcessor where
  hasher := processor.hasher
  validator := TxValidator.replay processor.hasher processor.engine
  coinbaseManager := processor.coinbaseManager
  coinbaseMaturity := processor.coinbaseMaturity
  baseProvider := processor.baseProvider

def stores : BlockStores := ⟨processor.blockTransactions, processor.daaScores⟩

def toBlockData (block : Block) : BlockData :=
  ⟨block.hash, block.transactions, block.header.daaScore⟩

-- The state a block commits to, ready for the analysis of the block's own transactions: its
-- mergeset is executed and checked against the header, and the validation context of `pov` is
-- seeded from the resulting tree.
def committedSnapshot (digests : StateDigests) (selectedParentCellTree : LiveTree processor.hasher)
    (block : Block) (pov : Hash) : Except RuleError (ExecutionSnapshot processor.hasher) := do
  let ctx ← processor.virtualProcessor.calculateCellState processor.stores
    (.new (processor.blockGhostdagData block) selectedParentCellTree) block.header.daaScore
      block.hash
    block.header.timestamp
  verifyExpectedCellState digests processor.stores ctx block.header
  let replay ← seedBaseOverridesFromTree
    (processor.virtualProcessor.buildReplayValidationContext pov
    block.hash block.header.daaScore block.header.timestamp) ctx.cellStateTree
  return ⟨ctx.cellStateTree, ∅, replay⟩

def Replays (s : ExecutionSnapshot processor.hasher) (block : Block) : Prop :=
  ∃ effect, processor.virtualProcessor.analyzeBlueBlock s (toBlockData block) = .ok effect ∧
    effect.acceptedTxIds = block.transactions.map processor.hasher.txid

-- The inputs of a transaction are live and its outputs are not, with sums within the money range.
structure Affordable {hasher : Hasher} (tree : LiveTree hasher) (tx : CellTx) : Prop where
  live : ∀ o ∈ tx.spends, tree.get o ≠ none
  inputSum : (tx.spends.map (capacityAt tree)).sum ≤ MAX_SAU
  free : ∀ o ∈ tx.creates hasher, tree.get o = none
  outputSum : tx.outputCapacity ≤ MAX_SAU

-- No transaction reads a cell that an earlier transaction of the block spends.
def SparesEarlierSpends (s : ExecutionSnapshot processor.hasher) (block : Block) : Prop :=
  ∀ p e q, block.transactions.zipIdx = p ++ e :: q → ¬ isCoinbaseAt e →
    ∀ o ∈ (TxValidator.replay processor.hasher processor.engine).reads
      (contextBehind s (toBlockData block) p) e.1, o ∉ p.flatMap fun e => e.1.spends

-- The overlay of body validation and the committed state answer alike about every transaction,
-- and its size is within the limit, which body validation does not check.
def OverlayAgrees (s : ExecutionSnapshot processor.hasher) (block : Block) : Prop :=
  ∀ provider, processor.buildBodyValidationProvider block = .ok provider →
    ∀ p e q, block.transactions.zipIdx = p ++ e :: q → ¬ isCoinbaseAt e →
      e.1.borshSize ≤ processor.params.maxTxSize ∧
        SameAnswers provider.toProvider (contextBehind s (toBlockData block) p).provider.toProvider
        block.hash s.replay.snapshotPov e.1

-- Every transaction is valid on the committed state, within the block's budget.
structure ValidCommitted (s : ExecutionSnapshot processor.hasher) (block : Block) : Prop where
  valid : ∀ p e q, block.transactions.zipIdx = p ++ e :: q → ¬ isCoinbaseAt e →
    ∃ n, (TxValidator.replay processor.hasher processor.engine).validateTx
      (contextBehind s (toBlockData block) p) e.1 = .ok n
  cycles : totalCycles processor.virtualProcessor s (toBlockData block) [] block.transactions.zipIdx
    ≤ processor.params.maxBlockCycles

section Replay

variable {processor} {s : ExecutionSnapshot processor.hasher} {block : Block}

theorem validateTx_of_sameAnswers {c prov tx n} (hparams : c.params = processor.params)
    (hdaa : c.currentDaaScore = block.header.daaScore)
    (htime : c.currentTimestamp = block.header.timestamp)
    (hformat : validateCellTxInIsolation tx processor.params.maxCellDataSize = .ok ())
    (hsize : tx.borshSize ≤ processor.params.maxTxSize)
    (hsame : SameAnswers prov.toProvider c.provider.toProvider block.hash c.snapshotPov tx)
    (hbody : processor.validateInDagWithScripts block prov tx = .ok n) :
    (replay processor.hasher processor.engine).validateTx c tx = .ok n := by
  obtain ⟨_, hdag, hs⟩ := bind_ok hbody
  refine mapError_eq_ok_iff.mpr (bind_eq_ok_iff.mpr ⟨(), ?_, ?_⟩)
  · rw [ReplayValidationContext.validateTxPreScripts_eq, hparams, hdaa, htime]
    refine bind_eq_ok_iff.mpr ⟨(), hformat, bind_eq_ok_iff.mpr ⟨(), ensure_eq_ok_iff.mpr hsize, ?_⟩⟩
    exact ((hsame.validateInDag_sim _ _ _).eq_ok_iff ()).mp hdag
  · rw [hparams]
    exact ((hsame.verifyScriptsWithCycles_sim _ _).eq_ok_iff n).mp hs

structure Fresh (processor : BlockBodyProcessor) (s : ExecutionSnapshot processor.hasher)
    (block : Block) : Prop where
  processed : s.processedTxs = ∅
  added : s.replay.provider.added = ∅
  removed : s.replay.provider.removed = ∅
  params : s.replay.params = processor.params
  daaScore : s.replay.currentDaaScore = block.header.daaScore
  timestamp : s.replay.currentTimestamp = block.header.timestamp

theorem fresh_of_committedSnapshot {digests tree pov}
    (h : processor.committedSnapshot digests tree block pov = .ok s) : Fresh processor s block := by
  obtain ⟨ctx, -, h⟩ := bind_ok h
  obtain ⟨_, -, h⟩ := bind_ok h
  obtain ⟨replay, hr, h⟩ := bind_ok h
  cases h
  have hs := seedBaseOverridesFromTree_eq_ok hr
  exact ⟨rfl, hs.added, hs.removed, hs.params, hs.currentDaaScore, hs.currentTimestamp⟩

theorem Fresh.txFits_iff (h : Fresh processor s block) (tx) :
    AnalysisState.TxFits s tx ↔ Affordable s.cellStateTree tx := by
  constructor
  · rintro ⟨hl, hin, hf, hout⟩
    exact ⟨fun o ho => (hl o ho).1, hin, fun o ho => (hf o ho).1, hout⟩
  · rintro ⟨hl, hin, hf, hout⟩
    exact ⟨fun o ho => ⟨hl o ho, by simp [h.removed]⟩, hin,
      fun o ho => ⟨hf o ho, by simp [h.added], by simp [h.removed]⟩, hout⟩

theorem map_txid_zipIdx (hasher : Hasher) (txs : List CellTx) :
    (txs.zipIdx.map fun e => hasher.txid e.1) = txs.map hasher.txid := by
  conv_rhs => rw [← zipIdx_map_fst 0 txs, map_map]
  rfl

theorem Isolated.unentangled (h : Isolated processor block) :
    Unentangled processor.hasher block.transactions.zipIdx := by
  have hf : ∀ {β} (f : CellTx → List β),
      (block.transactions.zipIdx.flatMap fun e => f e.1) = block.transactions.flatMap f := by
    intro β f
    conv_rhs => rw [← zipIdx_map_fst 0 block.transactions, flatMap_map]
  refine ⟨?_, ?_, ?_⟩
  · rw [map_txid_zipIdx]
    exact h.ids
  · rw [hf]
    exact h.spends
  · rw [hf, hf]
    exact h.unchained

theorem Isolated.isCoinbaseAt_iff (h : Isolated processor block) {p q e}
    (hl : block.transactions.zipIdx = p ++ e :: q) : isCoinbaseAt e ↔ e.1.isCoinbase = true := by
  have hf := h.onlyFirst e (by simp [hl])
  unfold isCoinbaseAt
  tauto

theorem Isolated.validCommitted {f} (hisolated : Isolated processor block)
    (hvalid : ∀ p e q, block.transactions.zipIdx = p ++ e :: q → ¬ isCoinbaseAt e →
      (replay processor.hasher processor.engine).validateTx
      (contextBehind s (toBlockData block) p) e.1 = .ok (f e.1))
    (hcycles : ((block.transactions.filter fun tx => !tx.isCoinbase).map f).sum ≤
      processor.params.maxBlockCycles) : ValidCommitted processor s block := by
  refine ⟨fun p e q hl hnot => ⟨_, hvalid p e q hl hnot⟩, ?_⟩
  have hsum : totalCycles processor.virtualProcessor s (toBlockData block) []
      block.transactions.zipIdx =
        ((block.transactions.zipIdx.filter fun e => !e.1.isCoinbase).map fun e => f e.1).sum := by
    refine totalCycles_eq_sum fun p e q hl => ?_
    rw [cyclesBehind]
    by_cases hcb : e.1.isCoinbase = true
    · simp [hcb, (hisolated.isCoinbaseAt_iff hl).mpr hcb]
    · have hnot := mt (hisolated.isCoinbaseAt_iff hl).mp hcb
      simp [hcb, hnot, hvalid p e q hl hnot, Except.toOption]
  rw [hsum]
  rw [← map_fst_filter_zipIdx, map_map] at hcycles
  exact hcycles

theorem validCommitted_of_overlayAgrees {mass} (hisolated : Isolated processor block)
    (hfresh : Fresh processor s block)
    (hbody : processor.checkBlockTransactionsInContext block = .ok mass)
    (h : OverlayAgrees processor s block) : ValidCommitted processor s block := by
  have hmem : ∀ p e q, block.transactions.zipIdx = p ++ e :: q → e.1 ∈ block.transactions :=
    fun p e q hl => fst_mem_of_mem_zipIdx (k := 0) (by simp [hl])
  rcases validOn_of_checkBlockTransactionsInContext hbody with hall | ⟨provider, hp, hv⟩
  · -- the block holds nothing but its coinbase
    rw [all_eq_true] at hall
    refine hisolated.validCommitted (f := fun _ => 0) (fun p e q hl hnot => ?_) (by simp)
    exact absurd ((hisolated.isCoinbaseAt_iff hl).mpr (hall _ (hmem p e q hl))) hnot
  · refine hisolated.validCommitted (fun p e q hl hnot => ?_) hv.cycles
    have hcb : e.1.isCoinbase = false := by
      rw [hisolated.isCoinbaseAt_iff hl] at hnot
      simpa using hnot
    obtain ⟨n, hn⟩ := hv.valid e.1 (hmem p e q hl) hcb
    obtain ⟨hs, hsa⟩ := h provider hp p e q hl hnot
    have hc : processor.bodyCycles block provider e.1 = n := by
      simp [bodyCycles, hn, Except.toOption]
    rw [hc]
    exact validateTx_of_sameAnswers hfresh.params hfresh.daaScore hfresh.timestamp
      (hisolated.wellFormed e.1 (hmem p e q hl) hcb) hs hsa hn

end Replay

-- A block that passed body validation, over an overlay that agrees with the state it commits to, is
-- replayed in full on that state exactly when its inputs and outputs fit the state and no
-- transaction reads what an earlier one spends.
theorem replays_iff (processor : BlockBodyProcessor) (digests : StateDigests)
    (tree : LiveTree processor.hasher) (block : Block) (pov : Hash) (mass mass' : Mass)
    (s : ExecutionSnapshot processor.hasher)
    (hisolation : processor.validateBodyInIsolation block = .ok mass)
    (hcontext : processor.checkBlockTransactionsInContext block = .ok mass')
    (hstate : processor.committedSnapshot digests tree block pov = .ok s)
    (hagrees : OverlayAgrees processor s block) :
    Replays processor s block ↔ (∀ tx ∈ block.transactions, Affordable s.cellStateTree tx) ∧
    SparesEarlierSpends processor s block := by
  have hisolated := isolated_of_validateBodyInIsolation hisolation
  have hf := fresh_of_committedSnapshot hstate
  have hvalid := validCommitted_of_overlayAgrees hisolated hf hcontext hagrees
  have hall : freshTxs processor.hasher s.processedTxs block.transactions.zipIdx =
      block.transactions.zipIdx := by simp [freshTxs, hf.processed]
  have hids := map_txid_zipIdx processor.hasher block.transactions
  have hmax : s.replay.params.maxBlockCycles < U64_MAX := by
    rw [hf.params]
    simp [params, U64_MAX]
  have ha := analyzeBlueBlock_accepts_iff processor.virtualProcessor s (toBlockData block) hall
    (replay_demanding processor.hasher processor.engine) hmax
    (fun o _ had => by simp [hf.added] at had) hisolated.unentangled
  have hfi : (∀ e ∈ block.transactions.zipIdx, AnalysisState.TxFits s e.1) ↔
      ∀ tx ∈ block.transactions, Affordable s.cellStateTree tx := by
    simp only [hf.txFits_iff]
    rw [← forall_mem_map, zipIdx_map_fst]
  unfold Replays
  rw [← hids, ha, hfi, hf.params]
  refine and_congr_right fun _ =>
    ⟨fun hv p e q hl hnot => (hv.1 p e q hl hnot).unspent, fun hs => ?_⟩
  exact ⟨fun p e q hl hnot => ⟨hvalid.valid p e q hl hnot, hs p e q hl hnot⟩, hvalid.cycles⟩

section SpentDep

-- Block 2 on block 1: a coinbase, a payment that spends cell 101 and one that spends cell 102 with
-- the given dependencies.
def spentDepTxs (cellDeps : List CellDep) : List CellTx :=
  [CoinbaseManager.buildCoinbaseCellTx [⟨sampleLock, none, 500⟩] samplePayload,
    samplePayment ⟨101, 0⟩ [], samplePayment ⟨102, 0⟩ cellDeps]

def spentDepProcessor (cellDeps : List CellDep) : BlockBodyProcessor :=
  { sample with
    blockTransactions := fun block => if block = 1 then some [sampleCoinbase 500]
      else if block = 2 then some (spentDepTxs cellDeps) else none
    baseProvider := ⟨fun o _ => .ok (if o = ⟨101, 0⟩ ∨ o = ⟨102, 0⟩ then
      some (CellMetadata.ofCellMeta (cellEntryToMeta o (sampleCell []))) else none),
      fun _ => .ok 0, fun _ => .ok none⟩ }

def spentDepTree : LiveTree Hasher.sample :=
  (LiveTree.empty.insert ⟨101, 0⟩ (sampleCell [])).insert ⟨102, 0⟩ (sampleCell [])

def spentDepBlock (cellDeps : List CellDep) : Block where
  header := {
    hash := 2
    directParents := [1]
    hashMerkleRoot := Hasher.digest ((spentDepTxs cellDeps).map Hasher.sample.txid)
    acceptedIdMerkleRoot := Hasher.digest [Hasher.sample.txid (sampleCoinbase 500)]
    cellCommitment := StateDigests.sample.cellCommitmentV0 2297629037678957477
    cellRoot := 2297629037678957477
    segmentRoot := StateDigests.sample.computeBlockSegmentRoot (spentDepTxs cellDeps)
    timestamp := 0
    daaScore := 2
    blueScore := 2 }
  transactions := spentDepTxs cellDeps

def spentDepSnapshot (cellDeps : List CellDep) :
    Except RuleError (ExecutionSnapshot Hasher.sample) :=
  (spentDepProcessor cellDeps).committedSnapshot StateDigests.sample spentDepTree
    (spentDepBlock cellDeps) 9

-- The overlay and the committed state show the inputs of the `i`-th transaction alike.
def spentDepAgrees (s : ExecutionSnapshot Hasher.sample) (provider : OverlayCellProvider)
    (i : Nat) (tx : CellTx) : Prop :=
  ∀ o ∈ tx.spends, SameCell (provider.toProvider.getCellAtPov o 2)
    ((contextBehind s (toBlockData (spentDepBlock []))
      ((spentDepTxs []).zipIdx.take i)).provider.toProvider.getCellAtPov o s.replay.snapshotPov)

instance (s provider i tx) : Decidable (spentDepAgrees s provider i tx) :=
  inferInstanceAs (Decidable (∀ o ∈ tx.spends, _))

theorem spentDep_overlayAgrees {s} (hs : spentDepSnapshot [] = .ok s) :
    OverlayAgrees (spentDepProcessor []) s (spentDepBlock []) := by
  have hall : (spentDepSnapshot []).toOption.all (fun s => ((spentDepProcessor
      []).buildBodyValidationProvider (spentDepBlock [])).toOption.all fun provider =>
        decide (∀ e ∈ (spentDepTxs []).zipIdx, ¬ isCoinbaseAt e →
          spentDepAgrees s provider e.2 e.1)) = true := by
    decide +kernel
  have hplain : ∀ e ∈ (spentDepTxs []).zipIdx, ¬ isCoinbaseAt e →
      e.1.borshSize ≤ (spentDepProcessor []).params.maxTxSize ∧ e.1.cellDeps = [] ∧
        e.1.headerDeps = [] ∧ ∀ input ∈ e.1.inputs, input.since = 0 := by decide +kernel
  intro provider hp p e q hl hnot
  have hl : (spentDepTxs []).zipIdx = p ++ e :: q := hl
  simp only [hs, hp, Except.toOption, Option.all_some, decide_eq_true_eq] at hall
  have hmem : e ∈ (spentDepTxs []).zipIdx := by simp [hl]
  have htake : p = (spentDepTxs []).zipIdx.take e.2 := by
    have he := congrArg (·[p.length]?) hl
    simp only [getElem?_zipIdx, getElem?_append_right, Nat.le_refl, Nat.sub_self,
      getElem?_cons_zero, Option.map_eq_some_iff, Nat.zero_add] at he
    obtain ⟨tx, -, rfl⟩ := he
    simp [hl]
  obtain ⟨hsize, hdeps, hheaders, hsince⟩ := hplain e hmem hnot
  refine ⟨hsize, SameAnswers.of_plain hdeps hheaders hsince ?_⟩
  rw [htake]
  exact hall e hmem hnot

theorem replays_without_dep : ∃ s, spentDepSnapshot [] = .ok s ∧
    OverlayAgrees (spentDepProcessor []) s (spentDepBlock []) ∧
    Replays (spentDepProcessor []) s (spentDepBlock []) ∧
    SparesEarlierSpends (spentDepProcessor []) s (spentDepBlock []) := by
  have hrun : (spentDepSnapshot []).toOption.any (fun s => ((spentDepProcessor
      []).virtualProcessor.analyzeBlueBlock s (toBlockData (spentDepBlock []))).toOption.any
      fun effect => effect.acceptedTxIds == (spentDepTxs []).map Hasher.sample.txid) = true := by
    decide +kernel
  have his : ((spentDepProcessor []).validateBodyInIsolation (spentDepBlock [])).isOk = true := by
    decide +kernel
  have hco : ((spentDepProcessor []).checkBlockTransactionsInContext
      (spentDepBlock [])).isOk = true := by decide +kernel
  obtain ⟨s, hs, hrun⟩ := any_toOption_iff.mp hrun
  obtain ⟨effect, he, hids⟩ := any_toOption_iff.mp hrun
  obtain ⟨mass, hm⟩ := isOk_iff.mp his
  obtain ⟨mass', hm'⟩ := isOk_iff.mp hco
  have hagrees := spentDep_overlayAgrees hs
  have hr : Replays (spentDepProcessor []) s (spentDepBlock []) := ⟨effect, he, eq_of_beq hids⟩
  exact ⟨s, hs, hagrees, hr, ((replays_iff (spentDepProcessor []) StateDigests.sample spentDepTree
    (spentDepBlock []) 9 mass mass' s hm hm' hs hagrees).mp hr).2⟩

-- The third transaction reads cell 101, which the second one spends: body validation accepts the
-- block, and its replay fails.
theorem spent_dep_not_replayed : ((spentDepProcessor [⟨⟨101, 0⟩, .code⟩]).validateBodyInIsolation
      (spentDepBlock [⟨⟨101, 0⟩, .code⟩])).isOk = true ∧
    ((spentDepProcessor [⟨⟨101, 0⟩, .code⟩]).checkBlockTransactionsInContext
      (spentDepBlock [⟨⟨101, 0⟩, .code⟩])).isOk = true ∧
    ∃ s, spentDepSnapshot [⟨⟨101, 0⟩, .code⟩] = .ok s ∧
    ¬ Replays (spentDepProcessor [⟨⟨101, 0⟩, .code⟩]) s (spentDepBlock [⟨⟨101, 0⟩, .code⟩]) := by
  have hrun : (spentDepSnapshot [⟨⟨101, 0⟩, .code⟩]).toOption.any (fun s => !((spentDepProcessor
      [⟨⟨101, 0⟩, .code⟩]).virtualProcessor.analyzeBlueBlock s
      (toBlockData (spentDepBlock [⟨⟨101, 0⟩, .code⟩]))).isOk) = true := by decide +kernel
  refine ⟨by decide +kernel, by decide +kernel, ?_⟩
  obtain ⟨s, hs, hf⟩ := any_toOption_iff.mp hrun
  refine ⟨s, hs, ?_⟩
  rintro ⟨effect, he, -⟩
  rw [isOk_iff.mpr ⟨effect, he⟩] at hf
  simp at hf

end SpentDep

end BlockBodyProcessor

end Spora
