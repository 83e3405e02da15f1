import Spora.Cell.Diff

namespace Spora.CellDiff

open Std Patch TreeMap

theorem getElem?_applyTo (d : CellDiff) (base k) :
    (d.applyTo base)[k]? = d.toPatch.apply (fun o => base[o]?) k := by
  simp only [applyTo, toPatch, apply]
  rw [get_foldl_insert_toList (fun b o => b[o]?) id (fun b p a => getElem?_insert_eq b p.1 a p.2),
    get_foldl_erase (fun b o => b[o]?)
      (fun b o a => getElem?_erase_eq b o a)]
  have hmem : k ∈ d.remove.keys ↔ d.remove[k]?.isSome := by
    rw [ExtTreeMap.mem_keys, ExtTreeMap.mem_iff_isSome_getElem?]
  cases hr : d.remove[k]? <;> simp [hmem, hr]

theorem toPatch_injective {d e : CellDiff} (h : d.toPatch = e.toPatch) : d = e := by
  have hadd : ∀ k, d.add[k]? = e.add[k]? := fun k => congrArg (fun p => p.add k) h
  have hr : ∀ k, d.remove[k]? = e.remove[k]? := fun k => congrArg (fun p => p.remove k) h
  exact CellDiff.ext (ExtTreeMap.ext_getElem? fun {k} => hadd k)
    (ExtTreeMap.ext_getElem? fun {k} => hr k)

@[simp] theorem toPatch_empty : empty.toPatch = Patch.empty := by
  ext k <;> simp [toPatch, empty, Patch.empty]

theorem toPatch_addCell (d : CellDiff) (o m) : (d.addCell o m).toPatch = d.toPatch.write o m := by
  ext1 k
  · simp only [toPatch, addCell, write, getElem?_insert_eq, Function.update_apply, eq_comm]
  · rfl

@[simp] theorem toPatch_asReversed (d : CellDiff) : d.asReversed.toPatch = d.toPatch.reverse := rfl

section Loops

variable (self : CellDiff) (l : List (OutPoint × CellMeta))

theorem applyRemovals_isOk_iff (hl : (l.map Prod.fst).Nodup) :
    (self.applyRemovals l).1.isOk ↔ ∀ k ∈ l.map Prod.fst, k ∈ self.add ∨ k ∉ self.remove := by
  induction l generalizing self with
  | nil => simp [applyRemovals, Except.toBool]
  | cons p rest ih =>
    obtain ⟨a, m⟩ := p
    simp only [List.map_cons, List.nodup_cons] at hl
    -- the entries handled later are at other outpoints, so the current step does not matter
    have hne : ∀ k ∈ rest.map Prod.fst, a ≠ k := fun k hk hak => hl.1 (hak ▸ hk)
    simp only [applyRemovals]
    split_ifs with hadd hrem
    · rw [ih _ hl.2]
      simp only [List.map_cons, List.mem_cons, forall_eq_or_imp, hadd, true_or, true_and]
      refine forall₂_congr fun k hk => ?_
      simp [hne k hk]
    · simp [Except.toBool, hadd, hrem]
    · rw [ih _ hl.2]
      simp only [List.map_cons, List.mem_cons, forall_eq_or_imp, hrem, not_false_eq_true, or_true,
        true_and]
      refine forall₂_congr fun k hk => ?_
      simp [hne k hk]

theorem toPatch_applyRemovals (hl : (l.map Prod.fst).Nodup) (hok : (self.applyRemovals l).1.isOk) :
    (self.applyRemovals l).2.toPatch = self.toPatch.afterRemovals ⟨fun _ => none,
      fun k => l.lookup k⟩ := by
  induction l generalizing self with
  | nil =>
    ext1 k
    · simp [applyRemovals, afterRemovals]
    · cases hk : self.add[k]? <;> simp [applyRemovals, afterRemovals, toPatch, hk]
  | cons p rest ih =>
    obtain ⟨a, m⟩ := p
    simp only [List.map_cons, List.nodup_cons] at hl
    have hlo := lookup_eq_none_of_not_mem hl.1
    simp only [applyRemovals] at hok ⊢
    split_ifs at hok ⊢ with hadd hrem
    · rw [ih _ hl.2 hok]
      obtain ⟨v, hv⟩ := exists_of_mem hadd
      ext1 k <;> by_cases hk : a = k
      · subst hk
        simp [afterRemovals, toPatch, hlo]
      · simp [afterRemovals, toPatch, lookup_cons_eq, hk, getElem?_erase_eq]
      · subst hk
        simp [afterRemovals, toPatch, hlo, hv]
      · simp [afterRemovals, toPatch, lookup_cons_eq, hk, getElem?_erase_eq]
    · simp [Except.toBool] at hok
    · rw [ih _ hl.2 hok]
      have hv : self.add[a]? = none := by simpa using hadd
      ext1 k <;> by_cases hk : a = k
      · subst hk
        simp [afterRemovals, toPatch, hlo, hv]
      · simp [afterRemovals, toPatch, lookup_cons_eq, hk]
      · subst hk
        simp [afterRemovals, toPatch, hlo, hv]
      · simp [afterRemovals, toPatch, lookup_cons_eq, hk, getElem?_insert_eq]

theorem applyAdditions_eq_applyRemovals :
    (self.applyAdditions l).1.isOk = (self.asReversed.applyRemovals l).1.isOk ∧
    (self.applyAdditions l).2 = (self.asReversed.applyRemovals l).2.asReversed := by
  induction l generalizing self with
  | nil => exact ⟨rfl, rfl⟩
  | cons p rest ih =>
    obtain ⟨a, m⟩ := p
    by_cases hrem : a ∈ self.remove
    · have hr' : a ∈ self.asReversed.add := hrem
      simp only [applyAdditions, applyRemovals, if_pos hrem, if_pos hr']
      exact ih { self with remove := self.remove.erase a }
    have hr' : a ∉ self.asReversed.add := hrem
    by_cases hadd : a ∈ self.add
    · have ha' : a ∈ self.asReversed.remove := hadd
      simp only [applyAdditions, applyRemovals, if_neg hrem, if_neg hr', if_pos hadd, if_pos ha']
      exact ⟨rfl, rfl⟩
    · have ha' : a ∉ self.asReversed.remove := hadd
      simp only [applyAdditions, applyRemovals, if_neg hrem, if_neg hr', if_neg hadd, if_neg ha']
      exact ih { self with add := self.add.insert a m }

end Loops

section Composition

variable (self other : CellDiff)

theorem forall_keys_iff {cells : CellCollection} {P : OutPoint → Prop} :
    (∀ k ∈ cells.toList.map Prod.fst, P k) ↔ ∀ k, cells[k]?.isSome → P k := by
  rw [ExtTreeMap.map_fst_toList_eq_keys]
  simp [ExtTreeMap.mem_keys]

theorem removals_isOk_iff :
    (self.applyRemovals other.remove.toList).1.isOk ↔ ∀ k, (other.toPatch.remove k).isSome →
    (self.toPatch.add k).isSome ∨ self.toPatch.remove k = none := by
  rw [applyRemovals_isOk_iff _ _ (nodup_map_fst_toList _), forall_keys_iff]
  simp [toPatch]

theorem toPatch_removals (hok : (self.applyRemovals other.remove.toList).1.isOk) :
    (self.applyRemovals other.remove.toList).2.toPatch =
    self.toPatch.afterRemovals other.toPatch := by
  rw [toPatch_applyRemovals _ _ (nodup_map_fst_toList _) hok]
  ext k <;> simp [afterRemovals, toPatch, lookup_toList]

theorem additions_isOk_iff :
    (self.applyAdditions other.add.toList).1.isOk ↔ ∀ k, (other.toPatch.add k).isSome →
    (self.toPatch.remove k).isSome ∨ self.toPatch.add k = none := by
  rw [(applyAdditions_eq_applyRemovals self other.add.toList).1]
  exact removals_isOk_iff self.asReversed other.asReversed

theorem toPatch_additions (hok : (self.applyAdditions other.add.toList).1.isOk) :
    (self.applyAdditions other.add.toList).2.toPatch =
    self.toPatch.afterAdditions other.toPatch := by
  obtain ⟨hv, hd⟩ := applyAdditions_eq_applyRemovals self other.add.toList
  have hp := toPatch_removals self.asReversed other.asReversed (hv ▸ hok)
  rw [hd]
  exact congrArg reverse hp

theorem withDiffInPlace_isOk_iff :
    (self.withDiffInPlace other).1.isOk ↔ self.toPatch.Composable other.toPatch := by
  unfold withDiffInPlace
  cases hrem : self.applyRemovals other.remove.toList with
  | mk verdict mid =>
    have hiff := removals_isOk_iff self other
    rw [hrem] at hiff
    cases verdict with
    | error e =>
      simp only [Except.toBool, Bool.false_eq_true, false_iff] at hiff ⊢
      exact fun hc => hiff hc.remove_once
    | ok u =>
      have hmid : mid.toPatch = self.toPatch.afterRemovals other.toPatch := by
        simpa [hrem] using toPatch_removals self other (by rw [hrem]; rfl)
      simp only [additions_isOk_iff, hmid]
      exact ⟨fun h => ⟨hiff.mp rfl, h⟩, fun h => h.add_once⟩

theorem toPatch_withDiffInPlace (hok : (self.withDiffInPlace other).1.isOk) :
    (self.withDiffInPlace other).2.toPatch = self.toPatch.comp other.toPatch := by
  unfold withDiffInPlace at hok ⊢
  cases hrem : self.applyRemovals other.remove.toList with
  | mk verdict mid =>
    rw [hrem] at hok
    cases verdict with
    | error e => simp [Except.toBool] at hok
    | ok u =>
      have hmid : mid.toPatch = self.toPatch.afterRemovals other.toPatch := by
        simpa [hrem] using toPatch_removals self other (by rw [hrem]; rfl)
      rw [toPatch_additions mid other hok, hmid, comp]

end Composition

end Spora.CellDiff
