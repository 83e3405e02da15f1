import Spora.Cell.Diff.Lemmas
import Spora.Mpe.Analysis

namespace Spora

open Std Outcome CellDiff TreeMap List AnalysisState

variable {hasher : Hasher}

namespace BlockData

-- What the transactions of a block consume, refer to and create, accepted or not.
def spends (block : BlockData) : List OutPoint := block.txs.flatMap CellTx.spends

def deps (block : BlockData) : List OutPoint := block.txs.flatMap CellTx.deps

def creates (hasher : Hasher) (block : BlockData) : List OutPoint :=
  block.txs.flatMap (CellTx.creates hasher)

def txIds (hasher : Hasher) (block : BlockData) : List Hash := block.txs.map hasher.txid

end BlockData

theorem CellDiff.toPatch_recordConsumed (d : CellDiff) (o m) :
    (d.recordConsumed o m).toPatch = d.toPatch.drop o m := by
  have hmem : o ∈ d.add ↔ (d.toPatch.add o).isSome := ExtTreeMap.mem_iff_isSome_getElem?
  unfold recordConsumed Patch.drop
  by_cases h : o ∈ d.add
  · rw [if_pos h, if_pos (hmem.mp h)]
    ext1 k
    · simp only [toPatch, getElem?_erase_eq, Function.update_apply, eq_comm]
    · rfl
  · rw [if_neg h, if_neg (mt hmem.mpr h)]
    ext1 k
    · rfl
    · simp only [toPatch, getElem?_insert_eq, Function.update_apply, eq_comm]

variable {d : CellDiff} {m : CellMeta}

theorem CellDiff.mem_recordConsumed_remove {o k} (h : k ∈ (d.recordConsumed o m).remove) :
    k ∈ d.remove ∨ k = o := by
  unfold recordConsumed at h
  split_ifs at h
  · exact .inl h
  · rw [TreeMap.mem_insert] at h
    exact h.symm.imp_right Eq.symm

theorem CellDiff.mem_recordConsumed_add {o k} (h : k ∈ (d.recordConsumed o m).add) : k ∈ d.add := by
  unfold recordConsumed at h
  split_ifs at h
  · exact (ExtTreeMap.mem_erase.mp h).2
  · exact h

theorem CellDiff.AddsKeyed.recordConsumed (h : d.AddsKeyed) (o m) :
    (d.recordConsumed o m).AddsKeyed := by
  unfold CellDiff.recordConsumed
  split_ifs
  · intro k v hk
    rw [getElem?_erase_eq] at hk
    split_ifs at hk
    exact h k v hk
  · exact h

theorem CellDiff.AddsKeyed.addCell (h : d.AddsKeyed) {o} (hm : m.outPoint = o) :
    (d.addCell o m).AddsKeyed := by
  intro k v hk
  rw [CellDiff.addCell, getElem?_insert_eq] at hk
  split_ifs at hk with hok
  · cases hk
    exact hm.trans hok
  · exact h k v hk

namespace AnalysisState

variable {st st' : AnalysisState hasher} {block : BlockData} {tx : CellTx} {ti : Nat}

structure Consumed (st : AnalysisState hasher) (o : OutPoint) (st' : AnalysisState hasher) :
    Prop where
  notRemoved : o ∉ st.effect.cellDiff.remove
  live : ∃ entry, st.localTree.get o = some entry ∧ st'.effect = { st.effect with
    cellDiff := st.effect.cellDiff.recordConsumed o (cellEntryToMeta o entry) }
  tree : st'.localTree = st.localTree.remove o
  replay : st.localReplay.spendCell o = .ok st'.localReplay

theorem consumeInput_eq_ok {txId n n' input} (h : consumeInput txId (st, n) input = .ok (st', n')) :
    Consumed st input.previousOutput st' := by
  unfold consumeInput at h
  simp only [bind_eq_ok_iff, ensure_eq_ok_iff, okOr_eq_ok_iff] at h
  obtain ⟨_, hrem, entry, hl, cap, -, _, -, replay, hr, rfl, -⟩ := h
  exact ⟨hrem, ⟨entry, hl, rfl⟩, rfl, hr⟩

structure Created (block : BlockData) (isCellbase : Bool) (tx : CellTx) (st : AnalysisState hasher)
    (output : CellOutput) (index : Nat) (st' : AnalysisState hasher) : Prop where
  fresh : st.localTree.get ⟨hasher.txid tx, index⟩ = none
  notAdded : (⟨hasher.txid tx, index⟩ : OutPoint) ∉ st.effect.cellDiff.add
  notRemoved : (⟨hasher.txid tx, index⟩ : OutPoint) ∉ st.effect.cellDiff.remove
  effect : st'.effect = { st.effect with
    cellDiff := st.effect.cellDiff.addCell ⟨hasher.txid tx, index⟩
      (cellMetaFromOutput hasher block.daaScore isCellbase tx index output) }
  tree : st'.localTree = st.localTree.insert ⟨hasher.txid tx, index⟩
    (cellMetaToEntry (cellMetaFromOutput hasher block.daaScore isCellbase tx index output))
  replay : st.localReplay.addCell
    (cellMetadataFromOutput hasher block.hash block.daaScore isCellbase
    (hasher.txid tx) index output (tx.outputData index)) = .ok st'.localReplay

theorem createOutput_eq_ok {cb n n' out i}
    (h : createOutput block cb tx (st, n) (out, i) = .ok (st', n')) :
    Created block cb tx st out i st' := by
  unfold createOutput at h
  simp only [bind_eq_ok_iff, ensure_eq_ok_iff] at h
  obtain ⟨cap, -, _, -, _, ⟨hf, hadd, hrem⟩, replay, hr, rfl, -⟩ := h
  exact ⟨hf, hadd, hrem, rfl, rfl, hr⟩

theorem applyTx_invariant {P : AnalysisState hasher → Prop}
    (hconsume : ∀ s s', ∀ input ∈ tx.inputs, P s → Consumed s input.previousOutput s' → P s')
    (hcreate : ∀ s s', ∀ e ∈ tx.outputs.zipIdx, P s →
      Created block (ti == 0 && tx.isCoinbase) tx s e.1 e.2 s' → P s')
    (h : applyTx block st tx ti = .ok st') (hP : P (st.accept tx ti)) : P st' := by
  obtain ⟨⟨mid, n⟩, hin, h⟩ := bind_ok h
  obtain ⟨⟨last, m⟩, hout, h⟩ := bind_ok h
  cases h
  have hmid : P mid := foldlM_invariant (P := fun acc : AnalysisState hasher × Nat => P acc.1)
    (fun acc input hinput acc' hacc hs =>
      hconsume acc.1 acc'.1 input hinput hacc (consumeInput_eq_ok hs)) hP hin
  exact foldlM_invariant (P := fun acc : AnalysisState hasher × Nat => P acc.1)
    (fun acc e he acc' hacc hs =>
      hcreate acc.1 acc'.1 e he hacc (createOutput_eq_ok hs)) hmid hout

theorem applyTx_effect (h : applyTx block st tx ti = .ok st') :
    st'.effect = { (st.accept tx ti).effect with cellDiff := st'.effect.cellDiff } := by
  refine applyTx_invariant (P := fun s : AnalysisState hasher =>
    s.effect = { (st.accept tx ti).effect with cellDiff := s.effect.cellDiff })
    (fun s s' input _ hs hc => ?_) (fun s s' e _ hs hc => ?_) h rfl
  · obtain ⟨entry, -, he⟩ := hc.live
    rw [he, hs]
  · rw [hc.effect, hs]

-- The local tree is the tree of the snapshot with the diff applied, and the diff is exact there.
structure Tracks (base : LiveTree hasher) (st : AnalysisState hasher) : Prop where
  exact : st.effect.cellDiff.toPatch.Exact base.metaAt
  tree : st.localTree.metaAt = st.effect.cellDiff.toPatch.apply base.metaAt
  keyed : st.effect.cellDiff.AddsKeyed

variable {base : LiveTree hasher}

theorem Tracks.consume {o} (h : Tracks base st) (hc : Consumed st o st') : Tracks base st' := by
  obtain ⟨entry, hl, he⟩ := hc.live
  have hm : st.effect.cellDiff.toPatch.apply base.metaAt o = some (cellEntryToMeta o entry) := by
    rw [← h.tree, LiveTree.metaAt, hl, Option.map_some]
  refine ⟨?_, ?_, ?_⟩
  · rw [he, toPatch_recordConsumed]
    exact h.exact.drop hm
  · rw [hc.tree, he, toPatch_recordConsumed, LiveTree.metaAt_remove, h.exact.apply_drop, h.tree]
  · rw [he]
    exact h.keyed.recordConsumed o _

theorem Tracks.create {cb out i} (h : Tracks base st) (hc : Created block cb tx st out i st') :
    Tracks base st' := by
  have hm : st.effect.cellDiff.toPatch.apply base.metaAt ⟨hasher.txid tx, i⟩ = none := by
    rw [← h.tree, LiveTree.metaAt_eq_none_iff, hc.fresh]
  have hkey : (cellMetaFromOutput hasher block.daaScore cb tx i out).outPoint =
    ⟨hasher.txid tx, i⟩ := rfl
  refine ⟨?_, ?_, ?_⟩
  · rw [hc.effect, toPatch_addCell]
    exact h.exact.write hm
  · rw [hc.tree, hc.effect, toPatch_addCell, LiveTree.metaAt_insert _ hkey,
      Patch.apply_write, h.tree]
  · rw [hc.effect]
    exact h.keyed.addCell hkey

theorem Tracks.applyTx (h : Tracks base st) (hrun : applyTx block st tx ti = .ok st') :
    Tracks base st' :=
  applyTx_invariant (P := Tracks base) (fun _ _ _ _ hs hc => hs.consume hc)
    (fun _ _ _ _ hs hc => hs.create hc) hrun ⟨h.exact, h.tree, h.keyed⟩

structure Within (hasher : Hasher) (block : BlockData) (effect : BlockExecutionEffect) : Prop where
  removes : ∀ o ∈ effect.cellDiff.remove, o ∈ block.spends
  adds : ∀ o ∈ effect.cellDiff.add, o ∈ block.creates hasher ∧ o.txHash ∈ effect.newlyProcessedTxIds
  reads : ∀ o ∈ effect.readDeps, o ∈ block.deps
  ids : ∀ id ∈ effect.newlyProcessedTxIds, id ∈ block.txIds hasher

theorem Within.applyTx (h : Within hasher block st.effect) (htx : tx ∈ block.txs)
    (hrun : applyTx block st tx ti = .ok st') : Within hasher block st'.effect := by
  refine applyTx_invariant (P := fun s : AnalysisState hasher => Within hasher block s.effect ∧
    hasher.txid tx ∈ s.effect.newlyProcessedTxIds) (fun s s' input hin hs hc => ?_)
    (fun s s' e he hs hc => ?_) hrun ⟨⟨h.removes, ?_, ?_, ?_⟩, ?_⟩ |>.1
  · obtain ⟨hs, hid⟩ := hs
    obtain ⟨entry, -, hef⟩ := hc.live
    rw [hef]
    refine ⟨⟨fun o ho => ?_, fun o ho => hs.adds o (mem_recordConsumed_add ho), hs.reads, hs.ids⟩,
      hid⟩
    rcases mem_recordConsumed_remove ho with ho | rfl
    · exact hs.removes o ho
    · exact mem_flatMap.mpr ⟨tx, htx, mem_map_of_mem hin⟩
  · obtain ⟨hs, hid⟩ := hs
    rw [hc.effect]
    refine ⟨⟨hs.removes, fun o ho => ?_, hs.reads, hs.ids⟩, hid⟩
    rw [addCell, TreeMap.mem_insert] at ho
    rcases ho with rfl | ho
    · have hindex := snd_lt_of_mem_zipIdx he
      exact ⟨mem_flatMap.mpr ⟨tx, htx, mem_map.mpr ⟨e.2, by simpa using hindex, rfl⟩⟩, hid⟩
    · exact hs.adds o ho
  · intro o ho
    obtain ⟨hcr, hid⟩ := h.adds o ho
    exact ⟨hcr, mem_append_left _ hid⟩
  · intro o ho
    rcases mem_foldl_insert.mp ho with ho | ho
    · exact h.reads o ho
    · exact mem_flatMap.mpr ⟨tx, htx, ho⟩
  · intro id hid
    rcases mem_append.mp hid with hid | hid
    · exact h.ids id hid
    · obtain rfl := mem_singleton.mp hid
      exact mem_map_of_mem htx
  · simp [accept]

end AnalysisState

namespace VirtualStateProcessor

variable {self : VirtualStateProcessor} {block : BlockData} {processed : ExtTreeSet Hash}

variable {st st' : AnalysisState self.hasher}

theorem analyzeTxs_charged {P : AnalysisState self.hasher → Prop} {txs : List (CellTx × Nat)}
    (hstop : ∀ st replay tx i, P st → self.chargeTx st.localReplay tx i = .ok replay →
      P { st with localReplay := replay })
    (happly : ∀ st st' replay tx i, (tx, i) ∈ txs → self.hasher.txid tx ∉ processed → P st →
      self.chargeTx st.localReplay tx i = .ok replay →
      applyTx block { st with localReplay := replay } tx i = .ok st' → P st')
      (h : self.analyzeTxs processed block st txs = .ok st')
    (hP : P st) : P st' := by
  induction txs generalizing st with
  | nil =>
    cases h
    exact hP
  | cons e rest ih =>
    obtain ⟨tx, i⟩ := e
    have hr := fun s s' replay t j hj => happly s s' replay t j (mem_cons_of_mem (tx, i) hj)
    unfold analyzeTxs at h
    by_cases hp : self.hasher.txid tx ∈ processed
    · rw [if_pos hp] at h
      exact ih hr h hP
    rw [if_neg hp] at h
    obtain ⟨replay, hc, h⟩ := bind_ok h
    split_ifs at h with hcy
    · cases h
      exact hstop st replay tx i hP hc
    · obtain ⟨mid, hmid, h⟩ := bind_ok h
      exact ih hr h (happly st mid replay tx i (by simp) hp hP hc hmid)

theorem analyzeTxs_invariant {P : AnalysisState self.hasher → Prop} {txs : List (CellTx × Nat)}
    (hreplay : ∀ st replay, P st → P { st with localReplay := replay })
    (happly : ∀ st st' tx i, (tx, i) ∈ txs → self.hasher.txid tx ∉ processed → P st →
      applyTx block st tx i = .ok st' → P st')
      (h : self.analyzeTxs processed block st txs = .ok st')
    (hP : P st) : P st' :=
  analyzeTxs_charged (fun st replay _ _ hs _ => hreplay st replay hs)
    (fun st st' replay tx i hi hp hs _ hst => happly _ st' tx i hi hp (hreplay st replay hs) hst) h
      hP

structure Coherent (hasher : Hasher) (block : BlockData) (effect : BlockExecutionEffect) :
    Prop where
  blockHash : effect.blockHash = block.hash
  ids : effect.acceptedTxIds = effect.acceptedTransactions.map AcceptedTxEntry.transactionId
  processed : effect.newlyProcessedTxIds = effect.acceptedTxIds
  holds : ∀ entry ∈ effect.acceptedTransactions, ∃ tx,
    block.txs[entry.indexWithinBlock]? = some tx ∧ hasher.txid tx = entry.transactionId

theorem Coherent.accept {tx i} (hst : Coherent self.hasher block st.effect)
    (htx : block.txs[i]? = some tx) (h : applyTx block st tx i = .ok st') :
    Coherent self.hasher block st'.effect := by
  rw [applyTx_effect h]
  refine ⟨hst.blockHash, ?_, ?_, ?_⟩
  · simp [AnalysisState.accept, hst.ids]
  · simp [AnalysisState.accept, hst.processed]
  · intro entry he
    simp only [AnalysisState.accept, mem_append, mem_singleton] at he
    rcases he with he | rfl
    · exact hst.holds entry he
    · exact ⟨tx, htx, rfl⟩

variable {snap : ExecutionSnapshot self.hasher} {eff : BlockExecutionEffect}

theorem analyzeBlueBlock_coherent (h : self.analyzeBlueBlock snap block = .ok eff) :
    Coherent self.hasher block eff := by
  obtain ⟨st, hst, h⟩ := bind_ok h
  cases h
  have hc := analyzeTxs_invariant (P := fun s => Coherent self.hasher block s.effect)
      (fun _ _ hs => hs)
      (fun s s' tx i hi _ hs hstep => hs.accept (mem_zipIdx_iff_getElem?.mp hi) hstep)
      hst ⟨rfl, rfl, rfl, by simp [startAnalysis, BlockExecutionEffect.empty]⟩
  exact ⟨hc.blockHash, hc.ids, hc.processed, hc.holds⟩

theorem tracks_startAnalysis (snap) :
    AnalysisState.Tracks snap.cellStateTree (self.startAnalysis snap block) :=
  ⟨by simpa [startAnalysis, BlockExecutionEffect.empty] using Patch.empty_exact _,
    by simp [startAnalysis, BlockExecutionEffect.empty],
    fun o m hm => by simp [startAnalysis, BlockExecutionEffect.empty, CellDiff.empty] at hm⟩

section

variable (h : self.analyzeBlueBlock snap block = .ok eff)
include h

theorem analyzeBlueBlock_exact :
    eff.cellDiff.toPatch.Exact snap.cellStateTree.metaAt ∧ eff.cellDiff.AddsKeyed := by
  obtain ⟨st, hst, h⟩ := bind_ok h
  cases h
  have ht := analyzeTxs_invariant
      (fun _ _ hs => ⟨hs.exact, hs.tree, hs.keyed⟩) (fun _ _ _ _ _ _ hs hstep => hs.applyTx hstep)
        hst
      (tracks_startAnalysis snap)
  exact ⟨ht.exact, ht.keyed⟩

theorem analyzeBlueBlock_within : AnalysisState.Within self.hasher block eff := by
  obtain ⟨st, hst, h⟩ := bind_ok h
  cases h
  have hw := analyzeTxs_invariant (P := fun s => AnalysisState.Within self.hasher block s.effect)
      (fun _ _ hs => hs)
      (fun _ _ tx i hi _ hs hstep => hs.applyTx (fst_mem_of_mem_zipIdx hi) hstep) hst
      ⟨fun o ho => by simp [startAnalysis, BlockExecutionEffect.empty, CellDiff.empty] at ho,
        fun o ho => by simp [startAnalysis, BlockExecutionEffect.empty, CellDiff.empty] at ho,
        fun o ho => by simp [startAnalysis, BlockExecutionEffect.empty] at ho,
        fun o ho => by simp [startAnalysis, BlockExecutionEffect.empty] at ho⟩
  exact ⟨hw.removes, hw.adds, hw.reads, hw.ids⟩

end

theorem foldlM_addCoinbaseOutput_eq_ok {tree daa coinbase} {outs : List (CellOutput × Nat)} {diff}
    (h : outs.foldlM (self.addCoinbaseOutput tree daa coinbase) .empty = .ok diff) :
    diff.toPatch.Exact tree.metaAt ∧ diff.AddsKeyed ∧ diff.remove = ∅ ∧
    ∀ o ∈ diff.add, o.txHash = self.hasher.txid coinbase := by
  refine foldlM_invariant (P := fun d : CellDiff => d.toPatch.Exact tree.metaAt ∧ d.AddsKeyed ∧
    d.remove = ∅ ∧ ∀ o ∈ d.add, o.txHash = self.hasher.txid coinbase)
    (fun d e _ d' hd hs => ?_) ⟨?_, fun o m hm => ?_, rfl, fun o ho => ?_⟩ h
  · obtain ⟨he, hk, hr, hids⟩ := hd
    obtain ⟨_, hg, hs⟩ := bind_ok hs
    obtain ⟨hf, hnew⟩ := ensure_eq_ok_iff.mp hg
    cases hs
    have hn : d.toPatch.apply tree.metaAt ⟨self.hasher.txid coinbase, e.2⟩ = none := by
      simp [Patch.apply, toPatch, ExtTreeMap.getElem?_eq_none hnew, hr,
        LiveTree.metaAt_eq_none_iff.mpr hf]
    refine ⟨?_, hk.addCell rfl, hr, fun o ho => ?_⟩
    · rw [toPatch_addCell]
      exact he.write hn
    · rw [addCell, TreeMap.mem_insert] at ho
      rcases ho with rfl | ho
      · rfl
      · exact hids o ho
  · rw [toPatch_empty]
    exact Patch.empty_exact _
  · simp [CellDiff.empty] at hm
  · simp [CellDiff.empty] at ho

theorem analyzeSelectedParentCoinbase_exact {tree}
    (h : self.analyzeSelectedParentCoinbase tree block = .ok eff) :
    eff.cellDiff.toPatch.Exact tree.metaAt ∧ eff.cellDiff.AddsKeyed ∧
    ∀ o ∈ eff.cellDiff.add, o.txHash ∈ eff.newlyProcessedTxIds := by
  unfold analyzeSelectedParentCoinbase at h
  split at h
  · cases h
    refine ⟨by simpa [BlockExecutionEffect.empty] using Patch.empty_exact _, fun o m hm => ?_,
      fun o ho => ?_⟩
    · simp [BlockExecutionEffect.empty, CellDiff.empty] at hm
    · simp [BlockExecutionEffect.empty, CellDiff.empty] at ho
  · obtain ⟨diff, hd, h⟩ := bind_ok h
    cases h
    obtain ⟨he, hk, -, hids⟩ := foldlM_addCoinbaseOutput_eq_ok hd
    exact ⟨he, hk, fun o ho => by simp [hids o ho]⟩

theorem analyzeBlueBlock_rewardData (h : self.analyzeBlueBlock snap block = .ok eff) :
    eff.rewardData = self.buildBlockRewardData block.txs block.daaScore := by
  obtain ⟨st, hst, h⟩ := bind_ok h
  cases h
  exact analyzeTxs_invariant (P := fun s => s.effect.rewardData =
    self.buildBlockRewardData block.txs block.daaScore) (fun _ _ hs => hs)
    (fun s s' tx i _ _ hs hstep => by rw [applyTx_effect hstep]; exact hs) hst rfl

end VirtualStateProcessor

end Spora
