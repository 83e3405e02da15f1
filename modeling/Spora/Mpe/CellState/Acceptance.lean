import Spora.Mpe.Analysis.Lemmas
import Spora.Mpe.CellState.RedBlocks

namespace Spora

open Std Outcome List CellProcessingContext BlockExecutionEffect

variable {hasher : Hasher}

-- The capacity of a spent cell: one of the state before the mergeset, or one that the
-- transactions of the mergeset create.
def spentCapacity (tree : LiveTree hasher) (mergesetTxs : List CellTx) (o : OutPoint) : Nat :=
  match tree.get o with
  | some entry => entry.capacity
  | none =>
    match mergesetTxs.find? fun tx => hasher.txid tx = o.txHash with
    | some tx => (tx.outputs[o.index]?.map CellOutput.capacity).getD 0
    | none => 0

def txFee (tree : LiveTree hasher) (mergesetTxs : List CellTx) (tx : CellTx) : Nat :=
  (tx.inputs.map fun input => spentCapacity tree mergesetTxs input.previousOutput).sum -
    tx.outputCapacity

def acceptedIds (data : List MergesetBlockAcceptanceData) : List Hash :=
  data.flatMap fun entry => entry.acceptedTransactions.map AcceptedTxEntry.transactionId

def acceptedFrom (stores : BlockStores) (data : List MergesetBlockAcceptanceData) (block : Hash) :
    List CellTx :=
  (data.filter fun entry => entry.blockHash = block).flatMap fun entry =>
    entry.acceptedTransactions.filterMap fun accepted =>
      (stores.blockTransactions block).bind fun txs => txs[accepted.indexWithinBlock]?

def acceptedFees (tree : LiveTree hasher) (stores : BlockStores) (blues : List Hash)
    (data : List MergesetBlockAcceptanceData) (block : Hash) : Nat :=
  let mergesetTxs := blues.flatMap fun blue => (stores.blockTransactions blue).getD []
  ((acceptedFrom stores data block).map (txFee tree mergesetTxs)).sum

def EntriesHold (hasher : Hasher) (stores : BlockStores) (data : List MergesetBlockAcceptanceData) :
    Prop :=
  ∀ entry ∈ data, ∀ accepted ∈ entry.acceptedTransactions, ∃ txs tx,
    stores.blockTransactions entry.blockHash = some txs ∧
      txs[accepted.indexWithinBlock]? = some tx ∧ hasher.txid tx = accepted.transactionId

-- The acceptance data, the accepted ids and the rewards describe the same transactions.
structure AcceptanceAgrees (processor : VirtualStateProcessor) (stores : BlockStores)
    (ctx ctx' : CellProcessingContext processor.hasher) : Prop where
  ids : acceptedIds ctx'.mergesetAcceptanceData = ctx'.acceptedTxIds
  holds : EntriesHold processor.hasher stores ctx'.mergesetAcceptanceData
  once : ctx'.acceptedTxIds.Nodup
  rewards : ∀ blue ∈ ctx.ghostdagData.mergesetBlues, ∀ block, stores.loadBlock blue = .ok block →
    ctx'.mergesetRewards[blue]? = (processor.buildBlockRewardData block.txs block.daaScore).map
        fun reward =>
      ⟨reward.subsidy, acceptedFees ctx.cellStateTree stores ctx.ghostdagData.mergesetBlues
        ctx'.mergesetAcceptanceData blue, reward.lockScript⟩

def ZeroFees (rewards : ExtTreeMap Hash BlockRewardData) : Prop :=
  ∀ (block : Hash) (reward : BlockRewardData), rewards[block]? = some reward → reward.totalFees = 0

variable {ctx ctx' : CellProcessingContext hasher} {e : BlockExecutionEffect}

section

variable (h : CommittedBy ctx e ctx')
include h

theorem CommittedBy.zeroFees (heffect : ∀ reward ∈ e.rewardData, reward.totalFees = 0)
    (hctx : ZeroFees ctx.mergesetRewards) : ZeroFees ctx'.mergesetRewards := by
  rw [h.rewards]
  cases hre : e.rewardData with
  | none => exact hctx
  | some reward =>
    intro block r hr
    rw [ExtTreeMap.getElem?_insertIfNew] at hr
    split_ifs at hr with hnew
    · cases hr
      exact heffect reward hre
    · exact hctx block r hr

theorem CommittedBy.acceptedIds_eq
    (hids : e.acceptedTxIds = e.acceptedTransactions.map AcceptedTxEntry.transactionId) :
    acceptedIds ctx'.mergesetAcceptanceData = acceptedIds ctx.mergesetAcceptanceData ++
    e.acceptedTxIds := by
  rw [h.acceptance, hids]
  split_ifs with he
  · simp [isEmpty_iff.mp he]
  · simp [acceptedIds]

theorem CommittedBy.mem_acceptance {entry} (hentry : entry ∈ ctx'.mergesetAcceptanceData) :
    entry ∈ ctx.mergesetAcceptanceData ∨ entry = ⟨e.blockHash, e.acceptedTransactions⟩ := by
  rw [h.acceptance] at hentry
  split_ifs at hentry
  · exact .inl hentry
  · simpa using hentry

end

namespace VirtualStateProcessor

variable {self : VirtualStateProcessor} {stores : BlockStores}
  {ctx ctx' : CellProcessingContext self.hasher} {daa ts : Nat} {pov : Hash}

theorem buildBlockRewardData_totalFees {txs daaScore reward}
    (h : reward ∈ self.buildBlockRewardData txs daaScore) : reward.totalFees = 0 := by
  unfold buildBlockRewardData at h
  split at h
  · simp at h
  · cases h
    split
    · rfl
    · split <;> rfl

def selectedParentIds (hasher : Hasher) (txs : List CellTx) : List Hash :=
  (txs.head?.map hasher.txid).toList

variable {tree : LiveTree self.hasher}

variable {block : BlockData} {gd : GhostdagData}

theorem analyzeSelectedParentCoinbase_eq_ok {e}
    (h : self.analyzeSelectedParentCoinbase tree block = .ok e) :
    e.blockHash = block.hash ∧ e.acceptedTransactions = [] ∧
    e.acceptedTxIds = selectedParentIds self.hasher block.txs ∧
    e.rewardData = self.buildBlockRewardData block.txs block.daaScore := by
  unfold analyzeSelectedParentCoinbase at h
  split at h
  · next hnil =>
      cases h
      simp [empty, selectedParentIds, hnil]
  · next coinbase rest hc =>
      obtain ⟨diff, -, h⟩ := bind_ok h
      cases h
      simp [empty, selectedParentIds, hc]

-- What holds of the records all along a mergeset: the ids of step 1 have no acceptance entry and
-- no reward has a fee.
structure Recorded (stores : BlockStores) (spIds : List Hash)
    (ctx : CellProcessingContext hasher) : Prop where
  ids : ctx.acceptedTxIds = spIds ++ acceptedIds ctx.mergesetAcceptanceData
  holds : EntriesHold hasher stores ctx.mergesetAcceptanceData
  fees : ZeroFees ctx.mergesetRewards

theorem startMergeset_recorded
    {st} (h : self.startMergeset stores (.new gd tree) daa pov ts = .ok st) :
    ∃ block, stores.loadBlock gd.selectedParent = .ok block ∧
    Recorded stores (selectedParentIds self.hasher block.txs) st.ctx := by
  obtain ⟨replay, -, h⟩ := bind_ok h
  obtain ⟨block, hb, h⟩ := bind_ok h
  obtain ⟨e, he, h⟩ := bind_ok h
  obtain ⟨-, hn, hids, hre⟩ := analyzeSelectedParentCoinbase_eq_ok he
  obtain ⟨hc, -⟩ := commitEffect_eq_ok h
  have hd : st.ctx.mergesetAcceptanceData = [] := by
    rw [hc.acceptance, hn]
    rfl
  refine ⟨block, hb, ?_, ?_, ?_⟩
  · rw [hc.acceptedTxIds, hids, hd]
    simp [new, acceptedIds]
  · rw [hd]
    simp [EntriesHold]
  · refine hc.zeroFees (fun reward hr => ?_) ?_
    · exact buildBlockRewardData_totalFees (hre ▸ hr)
    · intro b r hr
      simp [new] at hr

theorem executeBlues_recorded {spIds blues st st'}
    (h : self.executeBlues stores st blues = .ok st') (hst : Recorded stores spIds st.ctx) :
    Recorded stores spIds st'.ctx := by
  refine executeBlues_invariant (P := fun s => Recorded stores spIds s.ctx)
    (E := fun block e => stores.loadBlock block.hash = .ok block ∧
      Coherent self.hasher block e ∧ ∀ reward ∈ e.rewardData, reward.totalFees = 0)
    ?_ ?_ ?_ (fun blue _ block hl => (loadBlock_eq_ok_iff.mp hl).1 ▸ hl) h hst
  · rintro s block e - hl he
    refine ⟨hl, analyzeBlueBlock_coherent he, fun reward hr => ?_⟩
    exact buildBlockRewardData_totalFees (analyzeBlueBlock_rewardData he ▸ hr)
  · rintro block e ⟨hl, -, hf⟩
    exact ⟨hl,
      ⟨rfl, rfl, rfl, by simp [invalidateEffectPreservingReward, empty]⟩, hf⟩
  · rintro s s' block e hs ⟨hl, hc, hf⟩ hstep
    obtain ⟨hco, -⟩ := commitEffect_eq_ok hstep
    refine ⟨?_, fun entry hen => ?_, hco.zeroFees hf hs.fees⟩
    · rw [hco.acceptedTxIds, hco.acceptedIds_eq hc.ids, hs.ids, append_assoc]
    · rcases hco.mem_acceptance hen with hold | rfl
      · exact hs.holds entry hold
      · intro accepted ha
        obtain ⟨tx, htx, hid⟩ := hc.holds accepted ha
        have htxs := (loadBlock_eq_ok_iff.mp hl).2.1
        exact ⟨block.txs, tx, hc.blockHash ▸ htxs, htx, hid⟩

theorem foldlM_executeRed_recorded {spIds reds : List Hash} (hctx : Recorded stores spIds ctx)
    (h : reds.foldlM (self.executeRed stores) ctx = .ok ctx') : Recorded stores spIds ctx' := by
  obtain ⟨-, hids, hd⟩ := foldlM_executeRed_eq_ok h
  refine ⟨?_, ?_, ?_⟩
  · rw [hids, hd, hctx.ids]
    simp [acceptedIds]
  · intro entry he accepted ha
    rw [hd, mem_append, mem_map] at he
    rcases he with he | ⟨red, -, rfl⟩
    · exact hctx.holds entry he accepted ha
    · simp at ha
  · refine foldlM_invariant (P := fun c => ZeroFees c.mergesetRewards)
      (fun c red _ c' hc hs => ?_) hctx.fees h
    obtain ⟨block, -, hs⟩ := bind_ok hs
    obtain ⟨_, -, hs⟩ := bind_ok hs
    exact (commitExecutionEffect_eq_ok hs).zeroFees
      (fun reward hr => buildBlockRewardData_totalFees hr) hc

theorem calculateCellState_recorded
    (h : self.calculateCellState stores (.new gd tree) daa pov ts = .ok ctx') :
    ∃ block, stores.loadBlock gd.selectedParent = .ok block ∧
    Recorded stores (selectedParentIds self.hasher block.txs) ctx' := by
  obtain ⟨st, hb, hred⟩ := bind_ok h
  obtain ⟨first, hf, hb⟩ := bind_ok hb
  obtain ⟨block, hbl, hr⟩ := startMergeset_recorded hf
  exact ⟨block, hbl, foldlM_executeRed_recorded (executeBlues_recorded hb hr) hred⟩

theorem executeBlues_nil_txs {blue st st'} (hblock : stores.loadBlock blue = .ok block)
    (hnil : block.txs = []) (h : self.executeBlues stores st [blue] = .ok st') :
    st'.ctx.acceptedTxIds = st.ctx.acceptedTxIds ∧
    st'.ctx.mergesetAcceptanceData = st.ctx.mergesetAcceptanceData ∧
    st'.ctx.mergesetRewards = st.ctx.mergesetRewards := by
  refine executeBlues_invariant (P := fun s => s.ctx.acceptedTxIds = st.ctx.acceptedTxIds ∧
      s.ctx.mergesetAcceptanceData = st.ctx.mergesetAcceptanceData ∧
      s.ctx.mergesetRewards = st.ctx.mergesetRewards)
    (B := fun b => b = block)
    (E := fun _ e => e.acceptedTxIds = [] ∧ e.acceptedTransactions = [] ∧ e.rewardData = none)
    ?_ ?_ ?_ (fun blue' hb' b hb => ?_) h ⟨rfl, rfl, rfl⟩
  · rintro s b e - rfl he
    simp only [analyzeBlueBlock, hnil] at he
    cases he
    simp [startAnalysis, empty, hnil, buildBlockRewardData]
  · rintro b e ⟨-, -, hre⟩
    exact ⟨rfl, rfl, hre⟩
  · rintro s s' b e ⟨hids, hd, hr⟩ ⟨hei, het, her⟩ hs
    obtain ⟨hc, -⟩ := commitEffect_eq_ok hs
    refine ⟨?_, ?_, ?_⟩
    · rw [hc.acceptedTxIds, hei, append_nil, hids]
    · rw [hc.acceptance, het, isEmpty_nil, if_pos rfl, hd]
    · rw [hc.rewards, her, hr]
  · obtain rfl := mem_singleton.mp hb'
    exact Except.ok.inj (hb.symm.trans hblock)

theorem calculateCellState_nil_txs
    (hblues : gd.mergesetBlues = [gd.selectedParent]) (hreds : gd.mergesetReds = [])
    (hblock : stores.loadBlock gd.selectedParent = .ok block) (hnil : block.txs = [])
    (h : self.calculateCellState stores (.new gd tree) daa pov ts = .ok ctx') :
    ctx'.acceptedTxIds = [] ∧ ctx'.mergesetAcceptanceData = [] ∧ ctx'.mergesetRewards = ∅ := by
  unfold calculateCellState executeBlueMergeset startMergeset at h
  simp only [new, hblues, hreds, bind_eq_ok_iff] at h
  obtain ⟨st, ⟨first, ⟨replay, -, hf⟩, hb⟩, hctx⟩ := h
  cases hctx
  unfold executeSelectedParent at hf
  simp only [hblock, ok_bind, analyzeSelectedParentCoinbase, hnil, pure_eq_ok] at hf
  obtain ⟨hc, -⟩ := commitEffect_eq_ok hf
  obtain ⟨hids, hd, hr⟩ := executeBlues_nil_txs hblock hnil hb
  refine ⟨?_, ?_, ?_⟩
  · rw [hids, hc.acceptedTxIds]
    rfl
  · rw [hd, hc.acceptance]
    rfl
  · rw [hr, hc.rewards]
    rfl

-- The records agree exactly when the selected parent brings no coinbase. A block without
-- transactions is the genesis block, and a block above it merges nothing else.
theorem acceptanceAgrees_iff (self : VirtualStateProcessor) (stores : BlockStores)
    (gd : GhostdagData) (tree : LiveTree self.hasher) (daa : Nat) (pov : Hash) (ts : Nat)
    (ctx' : CellProcessingContext self.hasher)
    (hgenesis : stores.blockTransactions gd.selectedParent = some [] →
      gd.mergesetBlues = [gd.selectedParent] ∧ gd.mergesetReds = [])
    (h : self.calculateCellState stores (.new gd tree) daa pov ts = .ok ctx') :
    AcceptanceAgrees self stores (.new gd tree) ctx' ↔
    stores.blockTransactions gd.selectedParent = some [] := by
  obtain ⟨block, hbl, hr⟩ := calculateCellState_recorded h
  have htxs := (loadBlock_eq_ok_iff.mp hbl).2.1
  constructor
  · intro ha
    -- the coinbase id makes the accepted ids longer than the acceptance data
    have hlen := congrArg List.length (hr.ids.symm.trans ha.ids.symm)
    rw [length_append] at hlen
    cases hc : block.txs with
    | nil => rw [htxs, hc]
    | cons coinbase rest =>
      rw [hc] at hlen
      simp only [selectedParentIds, head?_cons, Option.map_some, Option.toList_some,
        length_singleton] at hlen
      omega
  · intro he
    have hnil := Option.some.inj (htxs.symm.trans he)
    obtain ⟨hblues, hreds⟩ := hgenesis he
    obtain ⟨hids, hd, hre⟩ := calculateCellState_nil_txs hblues hreds hbl hnil h
    refine ⟨by rw [hids, hd]; rfl, hr.holds, by simp [hids], ?_⟩
    intro blue hblue b hb
    rw [show blue = gd.selectedParent by simpa [new, hblues] using hblue] at hb
    cases (hb.symm.trans hbl)
    simp [hre, buildBlockRewardData, hnil]

section FirstBlocks

-- Genesis block 1 without transactions and its child 2 with a coinbase.
def firstStores : BlockStores where
  blockTransactions block :=
    if block = 1 then some [] else if block = 2 then some [sampleCoinbase 500] else none
  daaScores block := some block

theorem acceptanceAgrees_above_genesis :
    (sample.calculateCellState firstStores (.new ⟨1, 1, [1], []⟩ LiveTree.empty) 2 9 0).isOk = true
    ∧ ∀ ctx', sample.calculateCellState firstStores (.new ⟨1, 1, [1], []⟩ LiveTree.empty) 2 9 0 =
    .ok ctx' → AcceptanceAgrees sample firstStores (.new ⟨1, 1, [1], []⟩ LiveTree.empty) ctx' :=
  ⟨by decide, fun ctx' h => (acceptanceAgrees_iff sample firstStores ⟨1, 1, [1], []⟩ LiveTree.empty
    2 9 0 ctx' (by decide) h).mpr (by decide)⟩

-- The coinbase of the selected parent is accepted without an acceptance entry.
theorem coinbase_without_entry : ∃ ctx',
    sample.calculateCellState firstStores (.new ⟨2, 2, [2], []⟩ LiveTree.empty) 3 9 0 = .ok ctx' ∧
    ¬ AcceptanceAgrees sample firstStores (.new ⟨2, 2, [2], []⟩ LiveTree.empty) ctx' := by
  have hrun : (sample.calculateCellState firstStores (.new ⟨2, 2, [2], []⟩ LiveTree.empty)
      3 9 0).toOption.any (fun ctx => ctx.mergesetAcceptanceData.isEmpty &&
        (ctx.acceptedTxIds == [sample.hasher.txid (sampleCoinbase 500)])) = true := by decide
  obtain ⟨ctx', hctx, hrun⟩ := any_toOption_iff.mp hrun
  obtain ⟨hd, hids⟩ := (Bool.and_eq_true _ _).mp hrun
  refine ⟨ctx', hctx, fun ha => ?_⟩
  have heq := ha.ids
  rw [isEmpty_iff.mp hd, eq_of_beq hids] at heq
  simp [acceptedIds] at heq

end FirstBlocks

end VirtualStateProcessor

end Spora
