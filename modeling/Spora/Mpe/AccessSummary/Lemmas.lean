import Spora.Mpe.AccessSummary
import Spora.Mpe.Analysis.Lemmas

namespace Spora

open Std Outcome ExtTreeSet BlockAccessSummary

theorem mem_insertAll {κ} [Ord κ] [TransOrd κ] [LawfulEqOrd κ] [DecidableEq κ]
    {s keys} {k : κ} : k ∈ insertAll s keys ↔ k ∈ s ∨ k ∈ keys :=
  TreeMap.mem_foldl_insert

namespace BlockAccessSummary

variable {hasher : Hasher} {s t : BlockAccessSummary} {tx : CellTx}

structure Le (s t : BlockAccessSummary) : Prop where
  spent : ∀ o ∈ s.spentOutpoints, o ∈ t.spentOutpoints
  created : ∀ o ∈ s.createdOutpoints, o ∈ t.createdOutpoints
  deps : ∀ o ∈ s.readDeps, o ∈ t.readDeps
  ids : ∀ id ∈ s.txIds, id ∈ t.txIds

theorem Le.refl (s) : Le s s := ⟨fun _ h => h, fun _ h => h, fun _ h => h, fun _ h => h⟩

theorem Le.trans {u} (h : Le s t) (h' : Le t u) : Le s u :=
  ⟨fun o ho => h'.spent o (h.spent o ho), fun o ho => h'.created o (h.created o ho),
    fun o ho => h'.deps o (h.deps o ho), fun id hid => h'.ids id (h.ids id hid)⟩

theorem le_addTx : Le s (addTx hasher s tx) where
  spent _ ho := mem_insertAll.mpr (.inl ho)
  created _ ho := mem_insertAll.mpr (.inl ho)
  deps _ ho := mem_insertAll.mpr (.inl ho)
  ids _ hid := mem_insert.mpr (.inr hid)

theorem le_mergeAccess {access} : Le s (mergeAccess hasher tx s access) := by
  unfold mergeAccess
  split_ifs
  · split
    · exact { Le.refl s with spent := fun o ho => mem_insert.mpr (.inr ho) }
    · exact Le.refl s
  · split
    · exact { Le.refl s with deps := fun o ho => mem_insert.mpr (.inr ho) }
    · exact Le.refl s
  · split
    · exact { Le.refl s with created := fun o ho => mem_insert.mpr (.inr ho) }
    · exact Le.refl s
  · exact Le.refl s

theorem le_mergeCellscriptSchedulerWitness {witness} :
    Le s (mergeCellscriptSchedulerWitness hasher s tx witness) := by
  have hf : ∀ (accs : List CellScriptSchedulerAccessWitness) u,
      Le u (accs.foldl (mergeAccess hasher tx) u) := by
    intro accs
    induction accs with
    | nil => exact Le.refl
    | cons access accs ih => exact fun u => le_mergeAccess.trans (ih _)
  refine Le.trans ?_ (hf witness.accesses _)
  split_ifs <;> exact ⟨fun _ h => h, fun _ h => h, fun _ h => h, fun _ h => h⟩

theorem le_of_mergeTxWitnesses (h : mergeTxWitnesses hasher s tx = .ok t) : Le s t := by
  unfold mergeTxWitnesses at h
  dsimp only at h
  split_ifs at h
  · simp at h
  · refine foldlM_invariant (fun u bytes _ u' hu hs => ?_) (Le.refl s) h
    obtain ⟨witness, -, hs⟩ := bind_ok hs
    cases hs
    exact hu.trans le_mergeCellscriptSchedulerWitness

structure Covers (hasher : Hasher) (s : BlockAccessSummary) (tx : CellTx) : Prop where
  spends : ∀ o ∈ tx.spends, o ∈ s.spentOutpoints
  creates : ∀ o ∈ tx.creates hasher, o ∈ s.createdOutpoints
  deps : ∀ o ∈ tx.deps, o ∈ s.readDeps
  id : hasher.txid tx ∈ s.txIds

theorem Covers.mono (h : Covers hasher s tx) (hst : Le s t) : Covers hasher t tx :=
  ⟨fun o ho => hst.spent o (h.spends o ho), fun o ho => hst.created o (h.creates o ho),
    fun o ho => hst.deps o (h.deps o ho), hst.ids _ h.id⟩

theorem covers_addTx : Covers hasher (addTx hasher s tx) tx where
  spends _ ho := mem_insertAll.mpr (.inr ho)
  creates _ ho := mem_insertAll.mpr (.inr ho)
  deps _ ho := mem_insertAll.mpr (.inr ho)
  id := mem_insert_self

theorem covers_foldl_addTx {txs : List CellTx} :
    Le s (txs.foldl (addTx hasher) s) ∧
    ∀ tx ∈ txs, Covers hasher (txs.foldl (addTx hasher) s) tx := by
  induction txs generalizing s with
  | nil => exact ⟨Le.refl s, by simp⟩
  | cons first rest ih =>
    obtain ⟨hle, hc⟩ := ih
    refine ⟨le_addTx.trans hle, fun tx htx => ?_⟩
    rcases List.mem_cons.mp htx with rfl | htx
    · exact covers_addTx.mono hle
    · exact hc tx htx

theorem covers_of_tryFrom {txs} (h : tryFromBlockTxsWithCellscriptScheduler hasher txs = .ok s) :
    ∀ tx ∈ txs, Covers hasher s tx := by
  have hle := foldlM_invariant
      (fun _ _ _ _ hu hs => hu.trans (le_of_mergeTxWitnesses hs)) (Le.refl _) h
  exact fun tx htx => (covers_foldl_addTx.2 tx htx).mono hle

theorem not_mem_of_intersects_eq_false {κ} [Ord κ] [TransOrd κ] [LawfulEqOrd κ] [DecidableEq κ]
    {s t : ExtTreeSet κ} (h : intersects s t = false) {k} (hs : k ∈ s) : k ∉ t := by
  unfold intersects at h
  rw [List.any_eq_false] at h
  intro ht
  exact h k (mem_toList.mpr hs) (contains_iff_mem.mpr ht)

end BlockAccessSummary

-- The later block mentions nothing that the earlier block consumes or creates and repeats none of
-- its transactions.
structure BlockData.IndependentOf (hasher : Hasher) (later earlier : BlockData) : Prop where
  spends : ∀ o ∈ later.spends, o ∉ earlier.spends ∧ o ∉ earlier.creates hasher
  deps : ∀ o ∈ later.deps, o ∉ earlier.spends ∧ o ∉ earlier.creates hasher
  ids : ∀ id ∈ later.txIds hasher, id ∉ earlier.txIds hasher

theorem BlockData.independentOf_of_hasDependencyOn {hasher} {later e : BlockData}
    {s t} (hs : tryFromBlockTxsWithCellscriptScheduler hasher later.txs = .ok s)
    (ht : tryFromBlockTxsWithCellscriptScheduler hasher e.txs = .ok t)
    (h : s.hasDependencyOn t = false) : later.IndependentOf hasher e := by
  have hl := covers_of_tryFrom hs
  have he := covers_of_tryFrom ht
  simp only [hasDependencyOn, Bool.or_eq_false_iff] at h
  obtain ⟨⟨⟨⟨⟨⟨⟨hsc, hss⟩, hids⟩, hdc⟩, hds⟩, -⟩, -⟩, -⟩ := h
  have hsp : ∀ o ∈ e.spends, o ∈ t.spentOutpoints := by
    intro o ho
    obtain ⟨tx, htx, ho⟩ := List.mem_flatMap.mp ho
    exact (he tx htx).spends o ho
  have hc : ∀ o ∈ e.creates hasher, o ∈ t.createdOutpoints := by
    intro o ho
    obtain ⟨tx, htx, ho⟩ := List.mem_flatMap.mp ho
    exact (he tx htx).creates o ho
  refine ⟨fun o ho => ?_, fun o ho => ?_, fun id hid hid' => ?_⟩
  · obtain ⟨tx, htx, ho⟩ := List.mem_flatMap.mp ho
    have hmem := (hl tx htx).spends o ho
    exact ⟨fun h => not_mem_of_intersects_eq_false hss hmem (hsp o h),
      fun h => not_mem_of_intersects_eq_false hsc hmem (hc o h)⟩
  · obtain ⟨tx, htx, ho⟩ := List.mem_flatMap.mp ho
    have hmem := (hl tx htx).deps o ho
    exact ⟨fun h => not_mem_of_intersects_eq_false hds hmem (hsp o h),
      fun h => not_mem_of_intersects_eq_false hdc hmem (hc o h)⟩
  · obtain ⟨tx, htx, rfl⟩ := List.mem_map.mp hid
    obtain ⟨tx', htx', hid'⟩ := List.mem_map.mp hid'
    exact not_mem_of_intersects_eq_false hids (hl tx htx).id (hid' ▸ (he tx' htx').id)

end Spora
