import Spora.Lib.Ledger
import Spora.Mpe.Analysis.Lemmas

namespace Spora

open Std Outcome List LiveTree TreeMap CellDiff Ledger AnalysisState

variable {hasher : Hasher}

structure AcceptedTx where
  id : Hash
  tx : Ledger.Tx OutPoint CellMeta

def outputCells (hasher : Hasher) (daaScore : Nat) (isCellbase : Bool) (tx : CellTx) :
    List (OutPoint × CellMeta) :=
  tx.outputs.zipIdx.map fun e =>
    (⟨hasher.txid tx, e.2⟩, cellMetaFromOutput hasher daaScore isCellbase tx e.2 e.1)

def acceptedTx (hasher : Hasher) (block : BlockData) (e : CellTx × Nat) : AcceptedTx where
  id := hasher.txid e.1
  tx := ⟨e.1.spends, outputCells hasher block.daaScore (e.2 == 0 && e.1.isCoinbase) e.1⟩

-- The coinbase of the selected parent, which is accepted without a look at its inputs.
def acceptedCoinbase (hasher : Hasher) (block : BlockData) (coinbase : CellTx) : AcceptedTx where
  id := hasher.txid coinbase
  tx := ⟨[], outputCells hasher block.daaScore true coinbase⟩

theorem map_fst_outputCells (hasher : Hasher) (daa : Nat) (cb : Bool) (tx) :
    (outputCells hasher daa cb tx).map Prod.fst = tx.creates hasher := by
  simp [outputCells, CellTx.creates, range_eq_range', ← zipIdx_map_snd]

theorem nodup_creates (hasher : Hasher) (tx : CellTx) : (tx.creates hasher).Nodup := by
  refine List.Nodup.map (fun i j hij => ?_) nodup_range
  simpa using hij

variable {tx : CellTx}

theorem outPoint_of_mem_outputCells {daa cb cell} (h : cell ∈ outputCells hasher daa cb tx) :
    cell.2.outPoint = cell.1 ∧ cell.2.blockDaaScore = daa ∧ cell.2.isCellbase = cb := by
  obtain ⟨e, -, rfl⟩ := mem_map.mp h
  exact ⟨rfl, rfl, rfl⟩

theorem txHash_of_mem_outputCells {daa cb cell} (h : cell ∈ outputCells hasher daa cb tx) :
    cell.1.txHash = hasher.txid tx := by
  obtain ⟨e, -, rfl⟩ := mem_map.mp h
  rfl

namespace AnalysisState

variable {st st' : AnalysisState hasher} {b : BlockData} {tx : CellTx} {ti : Nat}
  {base : LiveTree hasher}

variable {n n' : Nat}

theorem foldlM_consumeInput_metaAt {txId} {ins : List CellInput}
    (h : ins.foldlM (consumeInput txId) (st, n) = .ok (st', n')) :
    (∀ o ∈ ins.map CellInput.previousOutput, (st.localTree.metaAt o).isSome) ∧
      (ins.map CellInput.previousOutput).Nodup ∧
      ∀ o, st'.localTree.metaAt o = if o ∈ ins.map CellInput.previousOutput then none
        else st.localTree.metaAt o := by
  induction ins generalizing st n with
  | nil =>
    obtain ⟨rfl, -⟩ := Prod.mk.inj (Except.ok.inj h)
    simp
  | cons input rest ih =>
    obtain ⟨⟨mid, m⟩, hmid, h⟩ := bind_ok h
    have hc := consumeInput_eq_ok hmid
    obtain ⟨entry, hl, -⟩ := hc.live
    obtain ⟨hr, hn, ht⟩ := ih h
    have hm : ∀ o, mid.localTree.metaAt o =
        if o = input.previousOutput then none else st.localTree.metaAt o := fun o => by
      rw [hc.tree, metaAt_remove, Function.update_apply]
    refine ⟨fun o ho => ?_, ?_, fun o => ?_⟩
    · rcases mem_cons.mp ho with rfl | ho
      · simp [metaAt, hl]
      · have hs := hr o ho
        rw [hm] at hs
        split_ifs at hs
        · simp at hs
        · exact hs
    · refine nodup_cons.mpr ⟨fun hmem => ?_, hn⟩
      have hs := hr _ hmem
      simp [hm] at hs
    · rw [map_cons]
      by_cases hin : o = input.previousOutput <;>
        by_cases hmem : o ∈ rest.map CellInput.previousOutput <;>
        simp_all

theorem foldlM_createOutput_metaAt {cb} {outs : List (CellOutput × Nat)}
    (hnodup : (outs.map Prod.snd).Nodup)
    (h : outs.foldlM (createOutput b cb tx) (st, n) = .ok (st', n')) :
    (∀ e ∈ outs, st.localTree.metaAt ⟨hasher.txid tx, e.2⟩ = none) ∧
    ∀ o, st'.localTree.metaAt o = ((outs.map fun e => ((⟨hasher.txid tx, e.2⟩ : OutPoint),
      cellMetaFromOutput hasher b.daaScore cb tx e.2 e.1)).lookup o).or
    (st.localTree.metaAt o) := by
  induction outs generalizing st n with
  | nil =>
    obtain ⟨rfl, -⟩ := Prod.mk.inj (Except.ok.inj h)
    simp
  | cons e rest ih =>
    obtain ⟨⟨mid, m⟩, hmid, h⟩ := bind_ok h
    have hc := createOutput_eq_ok hmid
    rw [map_cons, nodup_cons] at hnodup
    obtain ⟨hr, ht⟩ := ih hnodup.2 h
    have hm : mid.localTree.metaAt = Function.update st.localTree.metaAt
        ⟨hasher.txid tx, e.2⟩ (some (cellMetaFromOutput hasher b.daaScore cb tx e.2 e.1)) := by
      rw [hc.tree]
      exact metaAt_insert _ rfl
    refine ⟨fun f hf => ?_, fun o => ?_⟩
    · rcases mem_cons.mp hf with rfl | hf
      · exact metaAt_eq_none_iff.mpr hc.fresh
      · have hne : (⟨hasher.txid tx, f.2⟩ : OutPoint) ≠ ⟨hasher.txid tx, e.2⟩ := by
          intro heq
          exact hnodup.1 (mem_map.mpr ⟨f, hf, (OutPoint.mk.inj heq).2⟩)
        have hn := hr f hf
        rwa [hm, Function.update_of_ne hne] at hn
    · rw [ht, hm, map_cons, lookup_cons_eq]
      by_cases ho : (⟨hasher.txid tx, e.2⟩ : OutPoint) = o
      · subst ho
        have hmi : (rest.map fun e => ((⟨hasher.txid tx, e.2⟩ : OutPoint),
            cellMetaFromOutput hasher b.daaScore cb tx e.2 e.1)).lookup
              ⟨hasher.txid tx, e.2⟩ = none := by
          refine lookup_eq_none_of_not_mem fun hmem => hnodup.1 ?_
          simpa using hmem
        simp [hmi]
      · simp [ho, Function.update_of_ne (Ne.symm ho)]

theorem foldlM_createOutput_fresh {cb} {outs : List (CellOutput × Nat)}
    (hst : Tracks base st) (h : outs.foldlM (createOutput b cb tx) (st, n) = .ok (st', n')) :
    ∀ e ∈ outs, base.metaAt ⟨hasher.txid tx, e.2⟩ = none := by
  induction outs generalizing st n with
  | nil => simp
  | cons e rest ih =>
    obtain ⟨⟨mid, m⟩, hmid, h⟩ := bind_ok h
    have hc := createOutput_eq_ok hmid
    intro f hf
    rcases mem_cons.mp hf with rfl | hf
    · have hl := metaAt_eq_none_iff.mpr hc.fresh
      rw [hst.tree] at hl
      simpa [Patch.apply, toPatch, ExtTreeMap.getElem?_eq_none hc.notAdded,
        ExtTreeMap.getElem?_eq_none hc.notRemoved] using hl
    · exact ih (hst.create hc) h f hf

theorem applyTx_metaAt (hst : Tracks base st) (h : applyTx b st tx ti = .ok st') :
    (acceptedTx hasher b (tx, ti)).tx.Fits st.localTree.metaAt ∧ st'.localTree.metaAt =
    (acceptedTx hasher b (tx, ti)).tx.apply st.localTree.metaAt ∧
    ∀ cell ∈ (acceptedTx hasher b (tx, ti)).tx.creates, base.metaAt cell.1 = none := by
  obtain ⟨⟨mid, n⟩, hin, h⟩ := bind_ok h
  obtain ⟨⟨last, m⟩, hout, h⟩ := bind_ok h
  cases h
  have hmid := foldlM_invariant (P := fun acc : AnalysisState hasher × Nat =>
      Tracks base acc.1)
    (fun acc _ _ acc' hacc hstep => hacc.consume (consumeInput_eq_ok hstep))
    (show Tracks base (st.accept tx ti) from ⟨hst.exact, hst.tree, hst.keyed⟩) hin
  obtain ⟨hl, hno, hs⟩ := foldlM_consumeInput_metaAt hin
  have hindex : (tx.outputs.zipIdx.map Prod.snd).Nodup := by
    rw [zipIdx_map_snd]
    exact nodup_range'
  obtain ⟨hnew, hc⟩ := foldlM_createOutput_metaAt hindex hout
  have hf := foldlM_createOutput_fresh hmid hout
  have hce : ∀ k ∈ (acceptedTx hasher b (tx, ti)).tx.creates.map Prod.fst,
      ∃ e ∈ tx.outputs.zipIdx, k = ⟨hasher.txid tx, e.2⟩ := by
    intro k hk
    obtain ⟨cell, hcell, rfl⟩ := mem_map.mp hk
    obtain ⟨e, he, rfl⟩ := mem_map.mp hcell
    exact ⟨e, he, rfl⟩
  refine ⟨⟨hl, hno, ?_, fun k hk => ?_⟩, funext fun o => ?_, fun cell hcell => ?_⟩
  · rw [show (acceptedTx hasher b (tx, ti)).tx.creates.map Prod.fst = tx.creates hasher from
      map_fst_outputCells _ _ _ _]
    exact nodup_creates hasher tx
  · obtain ⟨e, he, rfl⟩ := hce k hk
    have hn := hnew e he
    rw [hs] at hn
    by_cases hk : (⟨hasher.txid tx, e.2⟩ : OutPoint) ∈ tx.inputs.map CellInput.previousOutput
    · exact .inr hk
    · rw [if_neg hk] at hn
      exact .inl hn
  · rw [hc, hs]
    rfl
  · obtain ⟨e, he, hkey⟩ := hce cell.1 (mem_map_of_mem hcell)
    rw [hkey]
    exact hf e he

theorem applyTx_keys {P : OutPoint → Prop}
    (hst : ∀ o, o ∈ st.effect.cellDiff.remove ∨ o ∈ st.effect.cellDiff.add → P o)
    (htx : ∀ o, (acceptedTx hasher b (tx, ti)).tx.Touches o → P o)
    (h : applyTx b st tx ti = .ok st') :
    ∀ o, o ∈ st'.effect.cellDiff.remove ∨ o ∈ st'.effect.cellDiff.add → P o := by
  refine applyTx_invariant (P := fun s : AnalysisState hasher =>
    ∀ o, o ∈ s.effect.cellDiff.remove ∨ o ∈ s.effect.cellDiff.add → P o)
    (fun s s' input hin hs hc o ho => ?_) (fun s s' e he hs hc o ho => ?_) h hst
  · obtain ⟨entry, -, hef⟩ := hc.live
    rw [hef] at ho
    rcases ho with ho | ho
    · rcases mem_recordConsumed_remove ho with ho | rfl
      · exact hs o (.inl ho)
      · exact htx _ (.inl (mem_map_of_mem hin))
    · exact hs o (.inr (mem_recordConsumed_add ho))
  · rw [hc.effect] at ho
    rcases ho with ho | ho
    · exact hs o (.inl ho)
    · rw [addCell, TreeMap.mem_insert] at ho
      rcases ho with rfl | ho
      · exact htx _ (.inr (mem_map.mpr ⟨_, mem_map_of_mem he, rfl⟩))
      · exact hs o (.inr ho)

end AnalysisState

-- The effect of a block as the ledger transactions it accepts, on the tree it was analysed on.
structure Executes (base : LiveTree hasher) (block : BlockData) (effect : BlockExecutionEffect)
    (accepted : List AcceptedTx) : Prop where
  blockHash : effect.blockHash = block.hash
  blockDaaScore : effect.blockDaaScore = block.daaScore
  ids : effect.acceptedTxIds = accepted.map AcceptedTx.id
  run : effect.cellDiff.toPatch.apply base.metaAt =
    Ledger.run (accepted.map AcceptedTx.tx) base.metaAt
  fit : Ledger.Fit (accepted.map AcceptedTx.tx) base.metaAt
  fresh : ∀ a ∈ accepted, ∀ cell ∈ a.tx.creates, base.metaAt cell.1 = none
  touched : ∀ o, o ∈ effect.cellDiff.remove ∨ o ∈ effect.cellDiff.add →
    ∃ a ∈ accepted, a.tx.Touches o
  source : ∀ a ∈ accepted, (∃ e ∈ block.txs.zipIdx, a = acceptedTx hasher block e) ∨
    ∃ coinbase, block.txs.head? = some coinbase ∧ a = acceptedCoinbase hasher block coinbase

theorem Executes.mem_creates {base : LiveTree hasher} {block e acc} (h : Executes base block e acc)
    {o m} (hm : e.cellDiff.add[o]? = some m) : ∃ a ∈ acc, (o, m) ∈ a.tx.creates := by
  have hadd : e.cellDiff.toPatch.add o = some m := hm
  have hrun : Ledger.run (acc.map AcceptedTx.tx) base.metaAt o = some m := by
    rw [← h.run, Patch.apply, hadd]
    rfl
  obtain ⟨a, ha, hto⟩ := h.touched o (.inr (mem_of_getElem? hm))
  -- the entry does not depend on the tree, so it was created
  rw [run_congr (g := fun _ => none) ⟨a.tx, mem_map_of_mem ha, hto⟩] at hrun
  rcases mem_of_run_eq_some hrun with hn | ⟨tx, htx, hc⟩
  · simp at hn
  · obtain ⟨b, hb, rfl⟩ := mem_map.mp htx
    exact ⟨b, hb, hc⟩

theorem Executes.accept {base : LiveTree hasher} {block acc st st' i}
    (h : Executes base block st.effect acc) (htracks : AnalysisState.Tracks base st)
    (hi : (tx, i) ∈ block.txs.zipIdx) (hstep : applyTx block st tx i = .ok st') :
    Executes base block st'.effect (acc ++ [acceptedTx hasher block (tx, i)]) := by
  have ht' := htracks.applyTx hstep
  obtain ⟨hfi, ht, hf⟩ := applyTx_metaAt htracks hstep
  have he := applyTx_effect hstep
  refine ⟨by rw [he]; exact h.blockHash, by rw [he]; exact h.blockDaaScore, ?_, ?_, ?_, ?_, ?_, ?_⟩
  · rw [he]
    simp [AnalysisState.accept, h.ids, acceptedTx]
  · rw [← ht'.tree, ht, htracks.tree, h.run, map_append, map_singleton, run_snoc]
  · rw [map_append, map_singleton, fit_snoc, ← h.run, ← htracks.tree]
    exact ⟨h.fit, hfi⟩
  · intro a ha
    rcases mem_append.mp ha with ha | ha
    · exact h.fresh a ha
    · obtain rfl := mem_singleton.mp ha
      exact hf
  · refine applyTx_keys (fun o ho => ?_) (fun o ho => ?_) hstep
    · obtain ⟨a, ha, hto⟩ := h.touched o ho
      exact ⟨a, mem_append_left _ ha, hto⟩
    · exact ⟨_, mem_append_right _ (mem_singleton_self _), ho⟩
  · intro a ha
    rcases mem_append.mp ha with ha | ha
    · exact h.source a ha
    · obtain rfl := mem_singleton.mp ha
      exact .inl ⟨_, hi, rfl⟩

namespace VirtualStateProcessor

variable {self : VirtualStateProcessor} {blk : BlockData}

theorem executes_startAnalysis (snap) :
    Executes snap.cellStateTree blk (self.startAnalysis snap blk).effect [] := by
  refine ⟨rfl, rfl, rfl, ?_, trivial, by simp, fun o ho => ?_, by simp⟩
  · simp [startAnalysis, BlockExecutionEffect.empty, run]
  · simp [startAnalysis, BlockExecutionEffect.empty, CellDiff.empty] at ho

theorem analyzeBlueBlock_executes {snap e} (h : self.analyzeBlueBlock snap blk = .ok e) :
    ∃ accepted, Executes snap.cellStateTree blk e accepted := by
  obtain ⟨st, hst, h⟩ := bind_ok h
  cases h
  -- the invariant of the loop: what the transactions applied so far amount to
  have hrun : AnalysisState.Tracks snap.cellStateTree st ∧
      ∃ accepted, Executes snap.cellStateTree blk st.effect accepted := by
    refine analyzeTxs_invariant (P := fun s => AnalysisState.Tracks snap.cellStateTree s ∧
      ∃ accepted, Executes snap.cellStateTree blk s.effect accepted)
      (fun _ _ hs => ⟨⟨hs.1.exact, hs.1.tree, hs.1.keyed⟩, hs.2⟩)
        (fun s s' tx i hi _ hs hstep => ?_) hst
      ⟨tracks_startAnalysis snap, [], executes_startAnalysis snap⟩
    obtain ⟨ht, accepted, he⟩ := hs
    exact ⟨ht.applyTx hstep, _, he.accept ht hi hstep⟩
  obtain ⟨-, accepted, he⟩ := hrun
  exact ⟨accepted, he.blockHash, he.blockDaaScore, he.ids, he.run, he.fit, he.fresh, he.touched,
    he.source⟩

theorem foldlM_addCoinbaseOutput_metaAt {tree daa coinbase} {outs : List (CellOutput × Nat)}
    {diff diff'} (hremove : diff.remove = ∅) (hnodup : (outs.map Prod.snd).Nodup)
    (h : outs.foldlM (self.addCoinbaseOutput tree daa coinbase) diff = .ok diff') :
    (∀ e ∈ outs, tree.metaAt ⟨self.hasher.txid coinbase, e.2⟩ = none) ∧ diff'.remove = ∅ ∧
    ∀ o, diff'.add[o]? = ((outs.map fun e => ((⟨self.hasher.txid coinbase, e.2⟩ : OutPoint),
      cellMetaFromOutput self.hasher daa true coinbase e.2 e.1)).lookup o).or diff.add[o]? := by
  induction outs generalizing diff with
  | nil =>
    cases h
    simpa using hremove
  | cons e rest ih =>
    obtain ⟨mid, hmid, h⟩ := bind_ok h
    obtain ⟨_, hg, hmid⟩ := bind_ok hmid
    obtain ⟨hfr, hnew⟩ := ensure_eq_ok_iff.mp hg
    cases hmid
    rw [map_cons, nodup_cons] at hnodup
    have hr : (diff.addCell ⟨self.hasher.txid coinbase, e.2⟩
        (cellMetaFromOutput self.hasher daa true coinbase e.2 e.1)).remove = ∅ := hremove
    obtain ⟨hre, hr', hadd⟩ := ih hr hnodup.2 h
    refine ⟨fun f hf => ?_, hr', fun o => ?_⟩
    · rcases mem_cons.mp hf with rfl | hf
      · exact metaAt_eq_none_iff.mpr hfr
      · exact hre f hf
    · rw [hadd, addCell, getElem?_insert_eq, map_cons, lookup_cons_eq]
      by_cases ho : (⟨self.hasher.txid coinbase, e.2⟩ : OutPoint) = o
      · subst ho
        have hm : (rest.map fun e => ((⟨self.hasher.txid coinbase, e.2⟩ : OutPoint),
            cellMetaFromOutput self.hasher daa true coinbase e.2 e.1)).lookup
              ⟨self.hasher.txid coinbase, e.2⟩ = none := by
          refine lookup_eq_none_of_not_mem fun hmem => hnodup.1 ?_
          simpa using hmem
        simp [hm]
      · simp [ho]

theorem analyzeSelectedParentCoinbase_executes {tree eff}
    (h : self.analyzeSelectedParentCoinbase tree blk = .ok eff) :
    ∃ accepted, Executes tree blk eff accepted := by
  unfold analyzeSelectedParentCoinbase at h
  split at h
  case h_1 hnil =>
    cases h
    refine ⟨[], rfl, rfl, rfl, ?_, trivial, by simp, fun o ho => ?_, by simp⟩
    · simp [BlockExecutionEffect.empty, run]
    · simp [BlockExecutionEffect.empty, CellDiff.empty] at ho
  case h_2 coinbase rest htxs =>
    obtain ⟨diff, hd, h⟩ := bind_ok h
    cases h
    have hin : (coinbase.outputs.zipIdx.map Prod.snd).Nodup := by
      rw [zipIdx_map_snd]
      exact nodup_range'
    obtain ⟨hf, hr, hadd⟩ := foldlM_addCoinbaseOutput_metaAt rfl hin hd
    have hce : ∀ cell ∈ (acceptedCoinbase self.hasher blk coinbase).tx.creates,
        tree.metaAt cell.1 = none := by
      intro cell hc
      obtain ⟨e, he, rfl⟩ := mem_map.mp hc
      exact hf e he
    refine ⟨[acceptedCoinbase self.hasher blk coinbase], rfl, rfl, rfl, ?_,
      ⟨⟨?_, ?_, ?_, ?_⟩, trivial⟩, ?_, ?_, ?_⟩
    · funext o
      simp only [Patch.apply, toPatch, hadd, hr, run, Ledger.Tx.apply,
        map_singleton, foldl_cons, foldl_nil, acceptedCoinbase, outputCells]
      simp [CellDiff.empty]
    · simp [acceptedCoinbase]
    · simp [acceptedCoinbase]
    · rw [show (acceptedCoinbase self.hasher blk coinbase).tx.creates.map Prod.fst =
        coinbase.creates self.hasher from map_fst_outputCells _ _ _ _]
      exact nodup_creates self.hasher coinbase
    · intro k hk
      obtain ⟨cell, hc, rfl⟩ := mem_map.mp hk
      exact .inl (hce cell hc)
    · intro a ha cell hc
      obtain rfl := mem_singleton.mp ha
      exact hce cell hc
    · intro o ho
      rcases ho with ho | ho
      · simp [hr] at ho
      · refine ⟨_, mem_singleton_self _, .inr ?_⟩
        by_contra hnot
        have hm := Ledger.Tx.lookup_eq_none_iff.mpr hnot
        rw [ExtTreeMap.mem_iff_isSome_getElem?, hadd] at ho
        simp only [acceptedCoinbase, outputCells] at hm
        simp [hm, CellDiff.empty] at ho
    · intro a ha
      obtain rfl := mem_singleton.mp ha
      exact .inr ⟨coinbase, by simp [htxs], rfl⟩

end VirtualStateProcessor

end Spora
