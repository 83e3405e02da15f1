import Spora.Mpe.Analysis.Agreement

namespace Spora

open Std Outcome ReplayValidationContext List CellInput AnalysisState OverlayCellProvider

variable {hasher : Hasher}

-- The analysis of a block compared with the frozen state it starts from. The state inside the
-- block is the frozen one with some cells spent and some created.

def capacityAt (tree : LiveTree hasher) (o : OutPoint) : Nat :=
  ((tree.get o).map CellEntry.capacity).getD 0

def createdCell (hasher : Hasher) (block : BlockData) (isCellbase : Bool) (tx : CellTx)
    (e : CellOutput × Nat) : OutPoint × CellMetadata :=
  (⟨hasher.txid tx, e.2⟩, cellMetadataFromOutput hasher block.hash block.daaScore isCellbase
    (hasher.txid tx) e.2 e.1 (tx.outputData e.2))

def createdCells (hasher : Hasher) (block : BlockData) (e : CellTx × Nat) :
    List (OutPoint × CellMetadata) :=
  e.1.outputs.zipIdx.map (createdCell hasher block (e.2 == 0 && e.1.isCoinbase) e.1)

theorem map_fst_createdCells (block e) :
    (createdCells hasher block e).map Prod.fst = e.1.creates hasher := by
  have hin : e.1.outputs.zipIdx.map Prod.snd = List.range e.1.outputs.length := by
    rw [zipIdx_map_snd, range_eq_range']
  rw [createdCells, CellTx.creates, ← hin, map_map, map_map]
  rfl

def ReplayValidationContext.withCreated (c : ReplayValidationContext)
    (created : List (OutPoint × CellMetadata)) : ReplayValidationContext :=
  { c with provider := { c.provider with
    added := created.foldl (fun added cell => added.insert cell.1 cell.2) c.provider.added } }

def ReplayValidationContext.withCycles (c : ReplayValidationContext) (cycles : Nat) :
    ReplayValidationContext := { c with accumulatedCycles := cycles }

namespace AnalysisState

variable {s : ExecutionSnapshot hasher} {spent : List OutPoint}
  {created : List (OutPoint × CellMetadata)} {st st' : AnalysisState hasher}

structure Threaded (s : ExecutionSnapshot hasher) (spent : List OutPoint)
    (created : List (OutPoint × CellMetadata)) (st : AnalysisState hasher) : Prop where
  frame : SameFrame s.replay st.localReplay
  same : ∀ o, o ∉ spent → o ∉ created.map Prod.fst → st.localTree.get o = s.cellStateTree.get o
  gone : ∀ o ∈ spent, st.localTree.get o = none
  removes : ∀ o, o ∈ st.effect.cellDiff.remove ↔ o ∈ spent
  adds : ∀ o, o ∈ st.effect.cellDiff.add ↔ o ∈ created.map Prod.fst
  added : ∀ o, o ∉ spent →
    st.localReplay.provider.added[o]? = (s.replay.withCreated created).provider.added[o]?
  erased : ∀ o ∈ spent, st.localReplay.provider.added[o]? = none
  removed : ∀ o, o ∈ st.localReplay.provider.removed ↔
    o ∈ s.replay.provider.removed ∨ o ∈ spent ∧ o ∉ s.replay.provider.added

theorem getElem?_withCreated_snoc (c : ReplayValidationContext) (cell o) :
    (c.withCreated (created ++ [cell])).provider.added[o]? =
      if cell.1 = o then some cell.2 else (c.withCreated created).provider.added[o]? := by
  simp only [withCreated, foldl_append, foldl_cons, foldl_nil, TreeMap.getElem?_insert_eq]

variable {o : OutPoint}

theorem getElem?_withCreated_of_not_mem (c : ReplayValidationContext)
    (ho : o ∉ created.map Prod.fst) :
    (c.withCreated created).provider.added[o]? = c.provider.added[o]? :=
  TreeMap.getElem?_foldl_insert_of_not_mem ho

section

variable (h : Threaded s spent created st) (hspent : o ∉ spent)
include h hspent

theorem Threaded.mem_added_iff (hcreated : o ∉ created.map Prod.fst) :
    o ∈ st.localReplay.provider.added ↔ o ∈ s.replay.provider.added := by
  rw [ExtTreeMap.mem_iff_isSome_getElem?, ExtTreeMap.mem_iff_isSome_getElem?, h.added o hspent,
    getElem?_withCreated_of_not_mem _ hcreated]

theorem Threaded.mem_removed_iff :
    o ∈ st.localReplay.provider.removed ↔ o ∈ s.replay.provider.removed := by
  rw [h.removed]
  simp [hspent]

end

def withCycles (st : AnalysisState hasher) (cycles : Nat) : AnalysisState hasher :=
  { st with localReplay := st.localReplay.withCycles cycles }

theorem Threaded.withCycles (h : Threaded s spent created st) (cycles : Nat) :
    Threaded s spent created (st.withCycles cycles) :=
  ⟨⟨h.1.1, h.1.2, h.1.3, h.1.4, h.1.5, h.1.6, h.1.7, h.1.8⟩, h.2, h.3, h.4, h.5, h.6, h.7, h.8⟩

theorem Threaded.afterConsume (h : Threaded s spent created st) (hspent : o ∉ spent)
    (hcreated : o ∉ created.map Prod.fst) (hc : Consumed st o st') :
    Threaded s (spent ++ [o]) created st' := by
  have hr := spendCell_eq_ok hc.replay
  obtain ⟨entry, -, he⟩ := hc.live
  have hadd : o ∉ st.effect.cellDiff.add := fun hmem => hcreated ((h.adds o).mp hmem)
  have hdi : st'.effect.cellDiff = { st.effect.cellDiff with
      remove := st.effect.cellDiff.remove.insert o (cellEntryToMeta o entry) } := by
    rw [he, CellDiff.recordConsumed, if_neg hadd]
  refine ⟨h.frame.trans hr.frame, fun k hk hkc => ?_, fun k hk => ?_, fun k => ?_, fun k => ?_,
    fun k hk => ?_, fun k hk => ?_, fun k => ?_⟩
  · rw [mem_append, mem_singleton, not_or] at hk
    rw [hc.tree, LiveTree.get_remove, if_neg (Ne.symm hk.2), h.same k hk.1 hkc]
  · rw [hc.tree, LiveTree.get_remove]
    split_ifs with hok
    · rfl
    · exact h.gone k (by simpa [Ne.symm hok] using hk)
  · rw [hdi, TreeMap.mem_insert, h.removes, mem_append, mem_singleton, or_comm, eq_comm]
  · rw [hdi]
    exact h.adds k
  · rw [mem_append, mem_singleton, not_or] at hk
    rw [hr.added, if_neg (Ne.symm hk.2), h.added k hk.1]
  · rw [hr.added]
    split_ifs with hok
    · rfl
    · exact h.erased k (by simpa [Ne.symm hok] using hk)
  · rw [hr.removed, h.removed, h.mem_added_iff hspent hcreated, mem_append, mem_singleton]
    constructor
    · rintro ((hk | hk) | ⟨rfl, hk⟩)
      · exact .inl hk
      · exact .inr ⟨.inl hk.1, hk.2⟩
      · exact .inr ⟨.inr rfl, hk⟩
    · rintro (hk | ⟨hk | rfl, hnot⟩)
      · exact .inl (.inl hk)
      · exact .inl (.inr ⟨hk, hnot⟩)
      · exact .inr ⟨rfl, hnot⟩

variable {b : BlockData} {cb : Bool} {tx : CellTx}

theorem Threaded.afterCreate {e}
    (h : Threaded s spent created st) (hspent : (⟨hasher.txid tx, e.2⟩ : OutPoint) ∉ spent)
    (hc : Created b cb tx st e.1 e.2 st') :
    Threaded s spent (created ++ [createdCell hasher b cb tx e]) st' := by
  have hr := addCell_eq_ok hc.replay
  have hmem : ∀ k, k ∈ (created ++ [createdCell hasher b cb tx e]).map Prod.fst ↔
      k ∈ created.map Prod.fst ∨ k = ⟨hasher.txid tx, e.2⟩ := fun k => by simp [createdCell]
  have hne : ∀ k ∈ spent, (⟨hasher.txid tx, e.2⟩ : OutPoint) ≠ k :=
    fun k hk heq => hspent (heq ▸ hk)
  refine ⟨h.frame.trans hr.frame, fun k hk hkc => ?_, fun k hk => ?_, fun k => ?_, fun k => ?_,
    fun k hk => ?_, fun k hk => ?_, fun k => ?_⟩
  · rw [hmem, not_or] at hkc
    rw [hc.tree, LiveTree.get_insert, if_neg (Ne.symm hkc.2), h.same k hk hkc.1]
  · rw [hc.tree, LiveTree.get_insert, if_neg (hne k hk), h.gone k hk]
  · rw [hc.effect]
    exact h.removes k
  · rw [hc.effect, CellDiff.addCell, TreeMap.mem_insert, h.adds, hmem, or_comm, eq_comm]
  · rw [getElem?_withCreated_snoc, ← h.added k hk]
    exact hr.added k
  · exact (hr.added k).trans ((if_neg (hne k hk)).trans (h.erased k hk))
  · rw [hr.removed, h.removed]

theorem consumeInput_capacity {txId n n' input}
    (h : consumeInput txId (st, n) input = .ok (st', n')) :
    n' = n + capacityAt st.localTree input.previousOutput ∧ n' ≤ MAX_SAU := by
  unfold consumeInput at h
  simp only [bind_eq_ok_iff, ensure_eq_ok_iff, okOr_eq_ok_iff, checkedAdd_eq_some_iff] at h
  obtain ⟨_, -, entry, hl, cap, ⟨rfl, -⟩, _, hmax, replay, -, -, rfl⟩ := h
  exact ⟨by simp [capacityAt, hl], hmax⟩

theorem createOutput_capacity {n n' output index}
    (h : createOutput b cb tx (st, n) (output, index) = .ok (st', n')) :
    n' = n + output.capacity ∧ n' ≤ MAX_SAU := by
  unfold createOutput at h
  simp only [bind_eq_ok_iff, ensure_eq_ok_iff, okOr_eq_ok_iff, checkedAdd_eq_some_iff] at h
  obtain ⟨cap, ⟨rfl, -⟩, _, hmax, _, -, replay, -, -, rfl⟩ := h
  exact ⟨rfl, hmax⟩

theorem Threaded.consumeInput_iff {txId n input}
    (h : Threaded s spent created st) (hspent : input.previousOutput ∉ spent)
    (hcreated : input.previousOutput ∉ created.map Prod.fst) :
    (∃ acc, consumeInput txId (st, n) input = .ok acc) ↔
    (s.cellStateTree.get input.previousOutput ≠ none ∧
      input.previousOutput ∉ s.replay.provider.removed) ∧
    n + capacityAt s.cellStateTree input.previousOutput ≤ MAX_SAU := by
  have hs := h.same _ hspent hcreated
  have hr := h.mem_removed_iff hspent
  constructor
  · rintro ⟨⟨st', n'⟩, hrun⟩
    have hc := consumeInput_eq_ok hrun
    obtain ⟨entry, hl, -⟩ := hc.live
    obtain ⟨rfl, hmax⟩ := consumeInput_capacity hrun
    rw [capacityAt, hs] at hmax
    rw [hs] at hl
    exact ⟨⟨by simp [hl], mt hr.mpr (spendCell_eq_ok hc.replay).once⟩, hmax⟩
  · rintro ⟨⟨hl, hnot⟩, hmax⟩
    obtain ⟨entry, he⟩ := Option.ne_none_iff_exists'.mp hl
    have hcap : capacityAt s.cellStateTree input.previousOutput = entry.capacity := by
      simp [capacityAt, he]
    rw [hcap] at hmax
    have hrem : input.previousOutput ∉ st.effect.cellDiff.remove := fun hmem =>
      hspent ((h.removes _).mp hmem)
    have hadd := checkedAdd_eq_some_iff.mpr ⟨rfl, hmax.trans (by decide)⟩
    obtain ⟨replay, hre⟩ := exists_spendCell (mt hr.mp hnot)
    simp only [consumeInput, bind_eq_ok_iff, ensure_eq_ok_iff, okOr_eq_ok_iff]
    exact ⟨_, (), hrem, entry, hs.trans he, _, hadd, (), hmax, replay, hre, rfl⟩

theorem Threaded.createOutput_iff {n e} (h : Threaded s spent created st)
    (ho : ⟨hasher.txid tx, e.2⟩ = o) (hspent : o ∉ spent) (hcreated : o ∉ created.map Prod.fst) :
    (∃ acc, createOutput b cb tx (st, n) e = .ok acc) ↔
    (s.cellStateTree.get o = none ∧ o ∉ s.replay.provider.added ∧ o ∉ s.replay.provider.removed) ∧
    n + e.1.capacity ≤ MAX_SAU := by
  subst ho
  have hs := h.same _ hspent hcreated
  have hr := h.mem_removed_iff hspent
  have ha := h.mem_added_iff hspent hcreated
  constructor
  · rintro ⟨⟨st', n'⟩, hrun⟩
    have hc := createOutput_eq_ok hrun
    have hre := addCell_eq_ok hc.replay
    obtain ⟨rfl, hmax⟩ := createOutput_capacity hrun
    exact ⟨⟨hs.symm.trans hc.fresh, mt ha.mpr hre.notAdded, mt hr.mpr hre.notRemoved⟩, hmax⟩
  · rintro ⟨⟨hf, hno, hn⟩, hmax⟩
    have hadd := checkedAdd_eq_some_iff.mpr ⟨rfl, hmax.trans (by decide)⟩
    simp only [createOutput, bind_eq_ok_iff, ensure_eq_ok_iff, okOr_eq_ok_iff]
    exact ⟨_, _, hadd, (), hmax, (), ⟨hs.trans hf, fun hmem => hcreated ((h.adds _).mp hmem),
      fun hmem => hspent ((h.removes _).mp hmem)⟩, _,
      addCell_of_not_mem (mt hr.mp hn) (mt ha.mp hno), rfl⟩

theorem foldlM_summed {α ε σ : Type} {f : σ × Nat → α → Except ε (σ × Nat)} {l}
    {I : List α → σ → Prop} {G : α → Prop} {w bound}
    (hstep : ∀ p a q s n, l = p ++ a :: q → I p s → ((∃ acc, f (s, n) a = .ok acc) ↔
      G a ∧ n + w a ≤ bound))
    (hnext : ∀ p a q s n acc, l = p ++ a :: q → I p s → f (s, n) a = .ok acc → I (p ++ [a]) acc.1 ∧
      acc.2 = n + w a) {s} (hs : I [] s) :
    ((∃ acc, l.foldlM f (s, 0) = .ok acc) ↔ (∀ a ∈ l, G a) ∧ (l.map w).sum ≤ bound) ∧
    ∀ acc, l.foldlM f (s, 0) = .ok acc → I l acc.1 := by
  obtain ⟨hiff, hrun⟩ := foldlM_guarded (f := f) (s := (s, 0)) (I := fun p acc => I p acc.1 ∧
    acc.2 = (p.map w).sum) (G := fun p a => G a ∧ (p.map w).sum + w a ≤ bound)
    (fun p a q acc hl hI => hI.2 ▸ hstep p a q acc.1 acc.2 hl hI.1)
    (fun p a q acc acc' hl hI hacc => by
      obtain ⟨hI', hsum⟩ := hnext p a q acc.1 acc.2 acc' hl hI.1 hacc
      exact ⟨hI', by simp [hsum, hI.2]⟩) ⟨hs, rfl⟩
  refine ⟨hiff.trans ⟨fun hall => ⟨fun a ha => ?_, ?_⟩, ?_⟩, fun acc hacc => (hrun acc hacc).1⟩
  · obtain ⟨p, q, hl⟩ := append_of_mem ha
    exact (hall p a q hl).1
  · rcases eq_nil_or_concat l with rfl | ⟨p, a, rfl⟩
    · simp
    · simpa using (hall p a [] (by simp)).2
  · rintro ⟨hG, hsum⟩ p a q rfl
    simp only [map_append, map_cons, sum_append, sum_cons] at hsum
    exact ⟨hG a (by simp), by omega⟩

theorem Threaded.consumeInputs {ins : List CellInput} (h : Threaded s spent created st)
    (txId : Hash) (hnodup : (ins.map previousOutput).Nodup)
    (hapart : ∀ o ∈ ins.map previousOutput, o ∉ spent ∧ o ∉ created.map Prod.fst) :
    ((∃ acc, ins.foldlM (consumeInput txId) (st, 0) = .ok acc) ↔
      (∀ o ∈ ins.map previousOutput, s.cellStateTree.get o ≠ none ∧ o ∉ s.replay.provider.removed) ∧
      ((ins.map previousOutput).map (capacityAt s.cellStateTree)).sum ≤ MAX_SAU) ∧
    ∀ acc, ins.foldlM (consumeInput txId) (st, 0) = .ok acc →
    Threaded s (spent ++ ins.map previousOutput) created acc.1 ∧
    acc.1.localReplay.accumulatedCycles = st.localReplay.accumulatedCycles := by
  have hs : ∀ p input q, ins = p ++ input :: q →
        input.previousOutput ∉ spent ++ p.map previousOutput ∧
        input.previousOutput ∉ created.map Prod.fst := by
    rintro p input q rfl
    have hnot : input.previousOutput ∉ p.map previousOutput := by
      rw [map_append, nodup_append] at hnodup
      exact fun hmem => hnodup.2.2 _ hmem _ (by simp) rfl
    obtain ⟨hspent, hcr⟩ := hapart input.previousOutput (by simp)
    exact ⟨by rw [mem_append, not_or]; exact ⟨hspent, hnot⟩, hcr⟩
  rw [map_map, forall_mem_map]
  refine foldlM_summed (I := fun p st' => Threaded s (spent ++ p.map previousOutput) created st' ∧
    st'.localReplay.accumulatedCycles = st.localReplay.accumulatedCycles)
    (fun p input q _ n hl hI => ?_) (fun p input q _ n acc hl hI hst => ?_) ⟨by simpa using h, rfl⟩
  · obtain ⟨hspent, hcr⟩ := hs p input q hl
    exact hI.1.consumeInput_iff hspent hcr
  · obtain ⟨hspent, hcr⟩ := hs p input q hl
    have hc := consumeInput_eq_ok hst
    refine ⟨⟨?_, (spendCell_eq_ok hc.replay).cycles.trans hI.2⟩, ?_⟩
    · simpa using hI.1.afterConsume hspent hcr hc
    · rw [(consumeInput_capacity hst).1, capacityAt, hI.1.same _ hspent hcr]
      rfl

theorem Threaded.createOutputs (h : Threaded s spent created st) (b) (cb : Bool)
    (hapart : ∀ o ∈ tx.creates hasher, o ∉ spent ∧ o ∉ created.map Prod.fst) :
    ((∃ acc, tx.outputs.zipIdx.foldlM (createOutput b cb tx) (st, 0) = .ok acc) ↔
      (∀ o ∈ tx.creates hasher, s.cellStateTree.get o = none ∧ o ∉ s.replay.provider.added ∧
      o ∉ s.replay.provider.removed) ∧ tx.outputCapacity ≤ MAX_SAU) ∧
    ∀ acc, tx.outputs.zipIdx.foldlM (createOutput b cb tx) (st, 0) = .ok acc →
    Threaded s spent (created ++ tx.outputs.zipIdx.map (createdCell hasher b cb tx))
    acc.1 ∧ acc.1.localReplay.accumulatedCycles = st.localReplay.accumulatedCycles := by
  have hcreates : tx.creates hasher = tx.outputs.zipIdx.map fun e =>
      (⟨hasher.txid tx, e.2⟩ : OutPoint) := by
    rw [CellTx.creates, range_eq_range', ← zipIdx_map_snd, map_map]
    rfl
  have hn : (tx.outputs.zipIdx.map Prod.snd).Nodup := by
    rw [zipIdx_map_snd]
    exact nodup_range' ..
  have hs : ∀ p e q, tx.outputs.zipIdx = p ++ e :: q →
      (⟨hasher.txid tx, e.2⟩ : OutPoint) ∉ spent ∧ (⟨hasher.txid tx, e.2⟩ : OutPoint) ∉
        (created ++ p.map (createdCell hasher b cb tx)).map Prod.fst := by
    intro p e q hl
    obtain ⟨hspent, hcr⟩ := hapart ⟨hasher.txid tx, e.2⟩ (by simp [hcreates, hl])
    refine ⟨hspent, ?_⟩
    rw [hl, map_append, nodup_append] at hn
    rw [map_append, mem_append, not_or]
    refine ⟨hcr, fun hmem => ?_⟩
    simp only [map_map, mem_map] at hmem
    obtain ⟨e', he', heq⟩ := hmem
    exact hn.2.2 _ (mem_map_of_mem he') _ (by simp) (OutPoint.mk.inj heq).2
  have hca : tx.outputCapacity = (tx.outputs.zipIdx.map fun e => e.1.capacity).sum := by
    have hmap := congrArg (List.map CellOutput.capacity) (zipIdx_map_fst 0 tx.outputs)
    rw [CellTx.outputCapacity, ← hmap, map_map]
    rfl
  rw [hca, hcreates, forall_mem_map]
  refine foldlM_summed (I := fun p st' => Threaded s spent
      (created ++ p.map (createdCell hasher b cb tx)) st' ∧
    st'.localReplay.accumulatedCycles = st.localReplay.accumulatedCycles)
    (fun p e q _ n hl hI => ?_) (fun p e q _ n acc hl hI hst => ?_) ⟨by simpa using h, rfl⟩
  · obtain ⟨hspent, hcr⟩ := hs p e q hl
    exact hI.1.createOutput_iff rfl hspent hcr
  · have hc := createOutput_eq_ok hst
    refine ⟨⟨?_, (addCell_eq_ok hc.replay).cycles.trans hI.2⟩, (createOutput_capacity hst).1⟩
    simpa using hI.1.afterCreate (hs p e q hl).1 hc

structure TxFits (s : ExecutionSnapshot hasher) (tx : CellTx) : Prop where
  live : ∀ o ∈ tx.spends, s.cellStateTree.get o ≠ none ∧ o ∉ s.replay.provider.removed
  inputSum : (tx.spends.map (capacityAt s.cellStateTree)).sum ≤ MAX_SAU
  free : ∀ o ∈ tx.creates hasher, s.cellStateTree.get o = none ∧ o ∉ s.replay.provider.added ∧
    o ∉ s.replay.provider.removed
  outputSum : tx.outputCapacity ≤ MAX_SAU

theorem Threaded.afterTx (h : Threaded s spent created st) (b) (ti : Nat) (hnodup : tx.spends.Nodup)
    (hspends : ∀ o ∈ tx.spends, o ∉ spent ∧ o ∉ created.map Prod.fst)
    (hcreates : ∀ o ∈ tx.creates hasher, o ∉ spent ++ tx.spends ∧ o ∉ created.map Prod.fst) :
    ((∃ st', applyTx b st tx ti = .ok st') ↔ TxFits s tx) ∧ ∀ st', applyTx b st tx ti = .ok st' →
    Threaded s (spent ++ tx.spends) (created ++ createdCells hasher b (tx, ti)) st' ∧
    st'.localReplay.accumulatedCycles = st.localReplay.accumulatedCycles := by
  have ha : Threaded s spent created (st.accept tx ti) := ⟨h.1, h.2, h.3, h.4, h.5, h.6, h.7, h.8⟩
  obtain ⟨hin, hmid⟩ := ha.consumeInputs (hasher.txid tx) hnodup hspends
  have hout : ∀ mid, tx.inputs.foldlM (consumeInput (hasher.txid tx)) (st.accept tx ti, 0) =
      .ok mid → _ := fun mid hrun => (hmid mid hrun).1.createOutputs b
    (ti == 0 && tx.isCoinbase) hcreates
  refine ⟨⟨?_, fun hf => ?_⟩, fun st' hrun => ?_⟩
  · rintro ⟨st', hrun⟩
    obtain ⟨mid, hinputs, hrun⟩ := bind_ok hrun
    obtain ⟨last, ho, -⟩ := bind_ok hrun
    obtain ⟨hl, hinputSum⟩ := hin.mp ⟨mid, hinputs⟩
    obtain ⟨hfr, hou⟩ := (hout mid hinputs).1.mp ⟨last, ho⟩
    exact ⟨hl, hinputSum, hfr, hou⟩
  · obtain ⟨mid, hinputs⟩ := hin.mpr ⟨hf.live, hf.inputSum⟩
    obtain ⟨last, ho⟩ := (hout mid hinputs).1.mpr ⟨hf.free, hf.outputSum⟩
    exact ⟨last.1, bind_eq_ok_iff.mpr ⟨mid, hinputs, bind_eq_ok_iff.mpr ⟨last, ho, rfl⟩⟩⟩
  · obtain ⟨mid, hinputs, hrun⟩ := bind_ok hrun
    obtain ⟨last, ho, hrun⟩ := bind_ok hrun
    cases hrun
    obtain ⟨ht, hc⟩ := (hout mid hinputs).2 last ho
    exact ⟨ht, hc.trans (hmid mid hinputs).2⟩

def Sealed (c : ReplayValidationContext) (o : OutPoint) : Prop :=
  o ∈ c.provider.added → c.provider.baseOverrides[o]? = none ∧
    c.provider.base.getCellAtPov o c.provider.basePov = .ok none

theorem Threaded.getCellMetadata_eq (h : Threaded s spent created st)
    (hspent : o ∉ spent) : st.localReplay.provider.getCellMetadata o =
    (s.replay.withCreated created).provider.getCellMetadata o := by
  have hk : o ∈ (s.replay.withCreated created).provider.removed ↔
    o ∈ s.replay.provider.removed := Iff.rfl
  by_cases hrem : o ∈ s.replay.provider.removed
  · simp only [getCellMetadata, hk, h.mem_removed_iff hspent, hrem, if_true]
  · simp only [getCellMetadata, h.mem_removed_iff hspent,
      h.added o hspent, ← h.frame.base, ← h.frame.basePov, ← h.frame.baseOverrides]
    rfl

theorem Threaded.getCellMetadata_of_mem (h : Threaded s spent created st)
    (hspent : o ∈ spent) (hsealed : Sealed s.replay o) :
    st.localReplay.provider.getCellMetadata o = .ok none := by
  unfold getCellMetadata
  split_ifs with hrem
  · rfl
  · have hadd : o ∈ s.replay.provider.added := by
      by_contra hnot
      exact hrem ((h.removed o).mpr (.inr ⟨hspent, hnot⟩))
    obtain ⟨ho, hb⟩ := hsealed hadd
    simp only [h.erased o hspent, ← h.frame.base, ← h.frame.basePov, ← h.frame.baseOverrides, ho,
      hb]

theorem Threaded.validateTx_iff {validator : TxValidator} (hd : validator.Demanding)
    (h : Threaded s spent created st) (hsealed : ∀ o ∈ spent, Sealed s.replay o) (tx)
    (n : Nat) : validator.validateTx st.localReplay tx = .ok n ↔
    validator.validateTx (s.replay.withCreated created) tx = .ok n ∧
    ∀ o ∈ validator.reads (s.replay.withCreated created) tx, o ∉ spent := by
  have hf : SameFrame (s.replay.withCreated created) st.localReplay :=
    ⟨h.frame.1, h.frame.2, h.frame.3, h.frame.4, h.frame.5, h.frame.6, h.frame.7, h.frame.8⟩
  constructor
  · intro hv
    have ha : ∀ o ∈ validator.reads st.localReplay tx, o ∉ spent := by
      intro o ho hspent
      obtain ⟨m, hm⟩ := hd.available _ _ _ hv o ho
      rw [h.getCellMetadata_of_mem hspent (hsealed o hspent)] at hm
      simp at hm
    have hag : ∀ o ∈ validator.reads st.localReplay tx, st.localReplay.provider.getCellMetadata o =
          (s.replay.withCreated created).provider.getCellMetadata o :=
      fun o ho => h.getCellMetadata_eq (ha o ho)
    refine ⟨?_, ?_⟩
    · exact ((validator.local_reads _ _ tx hf.symm hag).eq_ok_iff n).mp hv
    · rw [hd.reads_congr _ _ tx hf.symm hag]
      exact ha
  · rintro ⟨hv, ha⟩
    have hag : ∀ o ∈ validator.reads (s.replay.withCreated created) tx,
        (s.replay.withCreated created).provider.getCellMetadata o =
            st.localReplay.provider.getCellMetadata o :=
      fun o ho => (h.getCellMetadata_eq (ha o ho)).symm
    exact ((validator.local_reads _ _ tx hf hag).eq_ok_iff n).mp hv

end AnalysisState

namespace VirtualStateProcessor

variable {processor : VirtualStateProcessor} {processed : ExtTreeSet Hash} {block : BlockData}
  {s : ExecutionSnapshot processor.hasher} {st st' : AnalysisState processor.hasher}

def acceptTx (processor : VirtualStateProcessor) (block : BlockData)
    (st : AnalysisState processor.hasher) (e : CellTx × Nat) :
    Except RuleError (AnalysisState processor.hasher) := do
  let replay ← processor.chargeTx st.localReplay e.1 e.2
  ensure ((e.2 = 0 ∧ e.1.isCoinbase) ∨ replay.accumulatedCycles ≤ replay.params.maxBlockCycles)
    (.cellValidationError "over the cycle budget")
  AnalysisState.applyTx block { st with localReplay := replay } e.1 e.2

def freshTxs (hasher : Hasher) (processed : ExtTreeSet Hash) (txs : List (CellTx × Nat)) :
    List (CellTx × Nat) := txs.filter fun e => hasher.txid e.1 ∉ processed

theorem acceptedTxIds_of_applyTx {tx i} (h : applyTx block st tx i = .ok st') :
    st'.effect.acceptedTxIds = st.effect.acceptedTxIds ++ [processor.hasher.txid tx] := by
  rw [applyTx_effect h]
  rfl

variable {txs : List (CellTx × Nat)}

theorem analyzeTxs_accepts_iff : (processor.analyzeTxs processed block st txs = .ok st' ∧
      st'.effect.acceptedTxIds = st.effect.acceptedTxIds ++
      (freshTxs processor.hasher processed txs).map fun e => processor.hasher.txid e.1) ↔
    (freshTxs processor.hasher processed txs).foldlM (processor.acceptTx block) st = .ok st' := by
  induction txs generalizing st with
  | nil =>
    simp only [analyzeTxs, freshTxs, filter_nil, map_nil, append_nil,
      foldlM_nil, pure_eq_ok, Except.ok.injEq, and_iff_left_iff_imp]
    rintro rfl
    rfl
  | cons e rest ih =>
    obtain ⟨tx, i⟩ := e
    unfold analyzeTxs
    by_cases hp : processor.hasher.txid tx ∈ processed
    · have hs : freshTxs processor.hasher processed ((tx, i) :: rest) =
          freshTxs processor.hasher processed rest := by simp [freshTxs, hp]
      rw [if_pos hp, hs]
      exact ih
    have hf : freshTxs processor.hasher processed ((tx, i) :: rest) =
        (tx, i) :: freshTxs processor.hasher processed rest := by simp [freshTxs, hp]
    rw [if_neg hp, hf, foldlM_cons, acceptTx]
    cases hre : processor.chargeTx st.localReplay tx i with
    | error e => simp
    | ok replay =>
      simp only [ok_bind]
      split_ifs with ho
      · -- the round over the budget accepts nothing
        have hr : ¬ ((i = 0 ∧ tx.isCoinbase) ∨
            replay.accumulatedCycles ≤ replay.params.maxBlockCycles) := by
          rw [not_or]
          exact ⟨ho.1, by omega⟩
        simp only [ensure, hr, if_false, error_bind, reduceCtorEq, iff_false, not_and]
        intro hst hids
        cases hst
        simp at hids
      · have ha : (i = 0 ∧ tx.isCoinbase) ∨
            replay.accumulatedCycles ≤ replay.params.maxBlockCycles := by
          by_contra hnot
          rw [not_or] at hnot
          exact ho ⟨hnot.1, by omega⟩
        simp only [ensure, ha, if_true, ok_bind]
        cases hmid : applyTx block { st with localReplay := replay } tx i with
        | error e => simp
        | ok mid =>
          have hids := acceptedTxIds_of_applyTx hmid
          rw [ok_bind, ok_bind, ← ih, hids]
          simp

-- The transactions of a list do not spend each other's inputs or outputs.
structure Unentangled (hasher : Hasher) (txs : List (CellTx × Nat)) : Prop where
  ids : (txs.map fun e => hasher.txid e.1).Nodup
  spends : (txs.flatMap fun e => e.1.spends).Nodup
  unchained : ∀ o ∈ txs.flatMap fun e => e.1.spends, o ∉ txs.flatMap fun e => e.1.creates hasher

theorem Unentangled.split {hasher p q e} (h : Unentangled hasher (p ++ e :: q)) :
    e.1.spends.Nodup ∧ (∀ o ∈ e.1.spends, o ∉ (p.flatMap fun e => e.1.spends) ∧
      o ∉ p.flatMap fun e => e.1.creates hasher) ∧
    ∀ o ∈ e.1.creates hasher, o ∉ (p.flatMap fun e => e.1.spends) ++ e.1.spends ∧
    o ∉ p.flatMap fun e => e.1.creates hasher := by
  obtain ⟨hids, hs, hu⟩ := h
  rw [flatMap_append, nodup_append] at hs
  rw [map_append, nodup_append] at hids
  refine ⟨(nodup_append.mp hs.2.1).1, fun o ho => ⟨fun hmem => ?_, fun hmem => ?_⟩,
    fun o ho => ⟨fun hmem => ?_, fun hmem => ?_⟩⟩
  · exact hs.2.2 o hmem o (mem_append_left _ ho) rfl
  · exact hu o (by simp [ho]) (by rw [flatMap_append]; exact mem_append_left _ hmem)
  · have hm' : o ∈ (p ++ e :: q).flatMap fun e => e.1.spends := by
      rw [flatMap_append, flatMap_cons, ← append_assoc]
      exact mem_append_left _ hmem
    exact hu o hm' (by simp [ho])
  · obtain ⟨e', he', hmem⟩ := mem_flatMap.mp hmem
    obtain ⟨i, -, rfl⟩ := mem_map.mp ho
    obtain ⟨j, -, heq⟩ := mem_map.mp hmem
    exact hids.2.2 _ (mem_map_of_mem he') _ (by simp) (OutPoint.mk.inj heq).1

def isCoinbaseAt (e : CellTx × Nat) : Prop := e.2 = 0 ∧ e.1.isCoinbase

instance (e : CellTx × Nat) : Decidable (isCoinbaseAt e) := inferInstanceAs (Decidable (_ ∧ _))

def contextBehind {hasher : Hasher} (s : ExecutionSnapshot hasher) (block : BlockData)
    (before : List (CellTx × Nat)) : ReplayValidationContext :=
  s.replay.withCreated (before.flatMap (createdCells hasher block))

def cyclesBehind (processor : VirtualStateProcessor) (s : ExecutionSnapshot processor.hasher)
    (block : BlockData) (before : List (CellTx × Nat)) (e : CellTx × Nat) : Nat :=
  if isCoinbaseAt e then 0
  else (processor.validator.validateTx (contextBehind s block before) e.1).toOption.getD 0

def totalCycles (processor : VirtualStateProcessor) (s : ExecutionSnapshot processor.hasher)
    (block : BlockData) : List (CellTx × Nat) → List (CellTx × Nat) → Nat
  | _, [] => 0
  | before, e :: rest => cyclesBehind processor s block before e + totalCycles processor s block
      (before ++ [e]) rest

theorem totalCycles_append (processor s block before p q) :
    totalCycles processor s block before (p ++ q) =
    totalCycles processor s block before p + totalCycles processor s block (before ++ p) q := by
  induction p generalizing before with
  | nil => simp [totalCycles]
  | cons e p ih => simp [totalCycles, ih, Nat.add_assoc]

theorem totalCycles_eq_sum {f : CellTx → Nat} {before txs}
    (h : ∀ p e q, txs = p ++ e :: q → cyclesBehind processor s block (before ++ p) e =
      if e.1.isCoinbase then 0 else f e.1) :
    totalCycles processor s block before txs =
      ((txs.filter fun e => !e.1.isCoinbase).map fun e => f e.1).sum := by
  induction txs generalizing before with
  | nil => rfl
  | cons e rest ih =>
    have hh := h [] e rest rfl
    have hr : totalCycles processor s block (before ++ [e]) rest =
        ((rest.filter fun e => !e.1.isCoinbase).map fun e => f e.1).sum :=
      ih fun p e' q hl => by simpa using h (e :: p) e' q (by simp [hl])
    rw [append_nil] at hh
    rw [totalCycles, hh, hr]
    by_cases hcb : e.1.isCoinbase = true <;> simp [hcb]

-- A transaction is valid behind others on the frozen state and reads nothing that they spend.
structure ValidBehind (processor : VirtualStateProcessor) (s : ExecutionSnapshot processor.hasher)
    (block : BlockData) (before : List (CellTx × Nat)) (tx : CellTx) : Prop where
  valid : ∃ n, processor.validator.validateTx (contextBehind s block before) tx = .ok n
  unspent : ∀ o ∈ processor.validator.reads (contextBehind s block before) tx,
    o ∉ before.flatMap fun e => e.1.spends

structure Accepting (s : ExecutionSnapshot processor.hasher) (block : BlockData)
    (p : List (CellTx × Nat)) (st : AnalysisState processor.hasher) : Prop where
  threaded : AnalysisState.Threaded s (p.flatMap fun e => e.1.spends)
    (p.flatMap (createdCells processor.hasher block)) st
  cycles : st.localReplay.accumulatedCycles = totalCycles processor s block [] p
  budget : totalCycles processor s block [] p ≤ s.replay.params.maxBlockCycles

theorem flatMap_createdCells_fst (block) (p : List (CellTx × Nat)) :
    (p.flatMap (createdCells processor.hasher block)).map Prod.fst =
    p.flatMap fun e => e.1.creates processor.hasher := by
  rw [map_flatMap]
  exact flatMap_congr fun e _ => map_fst_createdCells block e

theorem totalCycles_snoc (processor s block p e) : totalCycles processor s block [] (p ++ [e]) =
    totalCycles processor s block [] p + cyclesBehind processor s block p e := by
  simp [totalCycles_append, totalCycles]

section Rounds

variable (hd : processor.validator.Demanding) (hmax : s.replay.params.maxBlockCycles < U64_MAX)

include hd hmax

theorem Accepting.chargeTx_iff {p e replay} (hsealed : ∀ o ∈ p.flatMap fun e => e.1.spends,
    AnalysisState.Sealed s.replay o) (h : Accepting s block p st) :
    processor.chargeTx st.localReplay e.1 e.2 = .ok replay ↔
    (¬ isCoinbaseAt e → ValidBehind processor s block p e.1) ∧
    replay = st.localReplay.withCycles (saturatingAdd (totalCycles processor s block [] p)
      (cyclesBehind processor s block p e)) := by
  have hv := fun n => h.threaded.validateTx_iff hd hsealed e.1 n
  have hb := h.budget
  unfold chargeTx
  by_cases hcb : e.2 = 0 ∧ e.1.isCoinbase
  · have hat : isCoinbaseAt e := hcb
    have hs : saturatingAdd (totalCycles processor s block [] p) 0 =
        st.localReplay.accumulatedCycles := by
      rw [h.cycles, saturatingAdd]
      omega
    simp only [hcb, if_true, pure_eq_ok, Except.ok.injEq, hat, not_true_eq_false,
      false_imp_iff, true_and, cyclesBehind, hs]
    exact eq_comm
  · have hat : ¬ isCoinbaseAt e := hcb
    simp only [hcb, hat, if_false, bind_eq_ok_iff, hv, pure_eq_ok, Except.ok.injEq,
      not_false_eq_true, true_imp_iff, h.cycles]
    constructor
    · rintro ⟨n, ⟨hn, hr⟩, rfl⟩
      have hc : cyclesBehind processor s block p e = n := by
        have hn' : processor.validator.validateTx (contextBehind s block p) e.1 = .ok n := hn
        simp [cyclesBehind, hat, hn', Except.toOption]
      exact ⟨⟨⟨n, hn⟩, hr⟩, by rw [hc]; rfl⟩
    · rintro ⟨⟨⟨n, hn⟩, hr⟩, rfl⟩
      have hc : cyclesBehind processor s block p e = n := by
        simp [cyclesBehind, hat, hn, Except.toOption]
      exact ⟨n, ⟨hn, hr⟩, by rw [hc]; rfl⟩

theorem Accepting.acceptTx_iff {p q e}
    (hsealed : ∀ o ∈ p.flatMap fun e => e.1.spends, AnalysisState.Sealed s.replay o)
    (hun : Unentangled processor.hasher (p ++ e :: q)) (h : Accepting s block p st) :
    ((∃ st', processor.acceptTx block st e = .ok st') ↔ AnalysisState.TxFits s e.1 ∧
      (¬ isCoinbaseAt e → ValidBehind processor s block p e.1) ∧
      totalCycles processor s block [] (p ++ [e]) ≤ s.replay.params.maxBlockCycles) ∧
    ∀ st', processor.acceptTx block st e = .ok st' → Accepting s block (p ++ [e]) st' := by
  obtain ⟨hn, hs, hcr⟩ := hun.split
  rw [← flatMap_createdCells_fst block] at hs hcr
  have hbu := h.budget
  have hsum := totalCycles_snoc processor s block p e
  have hmid := h.threaded.withCycles (saturatingAdd (totalCycles processor s block [] p)
    (cyclesBehind processor s block p e))
  obtain ⟨hf, haf⟩ := hmid.afterTx block e.2 hn hs hcr
  have hb : (isCoinbaseAt e ∨ saturatingAdd (totalCycles processor s block [] p)
      (cyclesBehind processor s block p e) ≤ s.replay.params.maxBlockCycles) ↔
      totalCycles processor s block [] (p ++ [e]) ≤ s.replay.params.maxBlockCycles := by
    rw [hsum, saturatingAdd]
    by_cases hcb : isCoinbaseAt e
    · simp only [hcb, cyclesBehind, if_true]
      omega
    · simp only [hcb, false_or]
      omega
  have hrun : ∀ st', processor.acceptTx block st e = .ok st' ↔
      (¬ isCoinbaseAt e → ValidBehind processor s block p e.1) ∧
      totalCycles processor s block [] (p ++ [e]) ≤ s.replay.params.maxBlockCycles ∧
      applyTx block (st.withCycles (saturatingAdd (totalCycles processor s block [] p)
        (cyclesBehind processor s block p e))) e.1 e.2 = .ok st' := by
    intro st'
    have hp := h.threaded.frame.params.symm
    simp only [acceptTx, bind_eq_ok_iff, ensure_eq_ok_iff, h.chargeTx_iff hd hmax hsealed]
    constructor
    · rintro ⟨_, ⟨hv, rfl⟩, _, hc, ha⟩
      refine ⟨hv, hb.mp ?_, ha⟩
      rwa [ReplayValidationContext.withCycles, hp] at hc
    · rintro ⟨hv, hc, ha⟩
      refine ⟨_, ⟨hv, rfl⟩, (), ?_, ha⟩
      rw [ReplayValidationContext.withCycles, hp]
      exact hb.mpr hc
  refine ⟨⟨?_, ?_⟩, fun st' hst' => ?_⟩
  · rintro ⟨st', hst'⟩
    obtain ⟨hv, hc, ha⟩ := (hrun st').mp hst'
    exact ⟨hf.mp ⟨st', ha⟩, hv, hc⟩
  · rintro ⟨hfit, hv, hc⟩
    obtain ⟨st', ha⟩ := hf.mpr hfit
    exact ⟨st', (hrun st').mpr ⟨hv, hc, ha⟩⟩
  · obtain ⟨hv, hc, ha⟩ := (hrun st').mp hst'
    obtain ⟨ht, hk⟩ := haf st' ha
    refine ⟨by simpa using ht, hk.trans ?_, hc⟩
    change saturatingAdd _ _ = _
    rw [saturatingAdd]
    omega

theorem acceptTxs_iff
    (hsealed : ∀ o ∈ txs.flatMap fun e => e.1.spends, AnalysisState.Sealed s.replay o)
    (hun : Unentangled processor.hasher txs) (h : Accepting s block [] st) :
    ((∃ st', txs.foldlM (processor.acceptTx block) st = .ok st') ↔
      (∀ e ∈ txs, AnalysisState.TxFits s e.1) ∧
      (∀ p e q, txs = p ++ e :: q → ¬ isCoinbaseAt e → ValidBehind processor s block p e.1) ∧
      totalCycles processor s block [] txs ≤ s.replay.params.maxBlockCycles) ∧
    ∀ st', txs.foldlM (processor.acceptTx block) st = .ok st' → Accepting s block txs st' := by
  have hr := fun p e q st (hl : txs = p ++ e :: q) (hacc : Accepting s block p st) =>
    hacc.acceptTx_iff hd hmax
      (fun o ho => hsealed o (by rw [hl, flatMap_append]; exact mem_append_left _ ho))
      (hl ▸ hun)
  refine And.imp (fun hiff => hiff.trans ?_) id (foldlM_guarded
    (fun p e q st hl hacc => (hr p e q st hl hacc).1)
    (fun p e q st st' hl hacc => (hr p e q st hl hacc).2 st') h)
  constructor
  · intro hall
    refine ⟨fun e he => ?_, fun p e q hl => (hall p e q hl).2.1, ?_⟩
    · obtain ⟨p, q, hl⟩ := append_of_mem he
      exact (hall p e q hl).1
    · rcases eq_nil_or_concat txs with rfl | ⟨p, e, rfl⟩
      · exact Nat.zero_le _
      · simpa using (hall p e [] (by simp)).2.2
  · rintro ⟨hf, hv, hc⟩ p e q hl
    refine ⟨hf e (by simp [hl]), hv p e q hl, ?_⟩
    have hsum := totalCycles_append processor s block [] (p ++ [e]) q
    rw [hl, append_cons] at hc
    omega

end Rounds

theorem accepting_startAnalysis (s : ExecutionSnapshot processor.hasher) (block : BlockData) :
    Accepting s block [] (processor.startAnalysis s block) where
  threaded := ⟨⟨rfl, rfl, rfl, rfl, rfl, rfl, rfl, rfl⟩, fun _ _ _ => rfl, fun _ h => by simp at h,
    fun _ => by simp [startAnalysis, BlockExecutionEffect.empty, CellDiff.empty],
    fun _ => by simp [startAnalysis, BlockExecutionEffect.empty, CellDiff.empty],
    fun _ _ => rfl, fun _ h => by simp at h, fun _ => by simp [startAnalysis]⟩
  cycles := rfl
  budget := Nat.zero_le _

theorem analyzeBlueBlock_accepts {eff : BlockExecutionEffect}
    (htxs : freshTxs processor.hasher s.processedTxs block.txs.zipIdx = txs) :
    (processor.analyzeBlueBlock s block = .ok eff ∧
      eff.acceptedTxIds = txs.map fun e => processor.hasher.txid e.1) ↔
      ∃ st, txs.foldlM (processor.acceptTx block) (processor.startAnalysis s block) = .ok st ∧
        eff = { st.effect with consumedCycles := st.localReplay.accumulatedCycles } := by
  subst htxs
  simp only [analyzeBlueBlock, bind_eq_ok_iff, pure_eq_ok, Except.ok.injEq,
    ← analyzeTxs_accepts_iff]
  constructor
  · rintro ⟨⟨st, hst, rfl⟩, hids⟩
    exact ⟨st, ⟨hst, hids⟩, rfl⟩
  · rintro ⟨st, ⟨hst, hids⟩, rfl⟩
    exact ⟨⟨st, hst, rfl⟩, hids⟩

theorem analyzeBlueBlock_accepts_iff (processor s block)
    (htxs : freshTxs processor.hasher s.processedTxs block.txs.zipIdx = txs)
    (hd : processor.validator.Demanding) (hmax : s.replay.params.maxBlockCycles < U64_MAX)
    (hsealed : ∀ o ∈ txs.flatMap fun e => e.1.spends, AnalysisState.Sealed s.replay o)
    (hun : Unentangled processor.hasher txs) :
    (∃ eff, processor.analyzeBlueBlock s block = .ok eff ∧
      eff.acceptedTxIds = txs.map fun e => processor.hasher.txid e.1) ↔
    (∀ e ∈ txs, AnalysisState.TxFits s e.1) ∧
    (∀ p e q, txs = p ++ e :: q → ¬ isCoinbaseAt e → ValidBehind processor s block p e.1) ∧
    totalCycles processor s block [] txs ≤ s.replay.params.maxBlockCycles := by
  rw [← (acceptTxs_iff hd hmax hsealed hun (accepting_startAnalysis s block)).1]
  simp only [analyzeBlueBlock_accepts htxs]
  constructor
  · rintro ⟨_, st, hst, -⟩
    exact ⟨st, hst⟩
  · rintro ⟨st, hst⟩
    exact ⟨_, st, hst, rfl⟩

end VirtualStateProcessor

end Spora
