import Spora.Cell.Diff.Lemmas

namespace Spora

open Std ExtTreeMap

namespace CellDiff

section Frame

variable (self : CellDiff) {l : List (OutPoint × CellMeta)} {o : OutPoint}

theorem applyRemovals_frame (hnot : o ∉ l.map Prod.fst) :
    (self.applyRemovals l).2.add[o]? = self.add[o]? ∧
    (self.applyRemovals l).2.remove[o]? = self.remove[o]? := by
  induction l generalizing self with
  | nil => exact ⟨rfl, rfl⟩
  | cons entry rest ih =>
    obtain ⟨other, m⟩ := entry
    rw [List.map_cons, List.mem_cons, not_or] at hnot
    have hne : ¬ other = o := fun heq => hnot.1 heq.symm
    unfold applyRemovals
    split_ifs with hadd hr
    · obtain ⟨ha', hr'⟩ := ih { self with add := self.add.erase other } hnot.2
      refine ⟨ha'.trans ?_, hr'⟩
      rw [TreeMap.getElem?_erase_eq, if_neg hne]
    · exact ⟨rfl, rfl⟩
    · obtain ⟨ha', hr'⟩ := ih { self with remove := self.remove.insert other m } hnot.2
      refine ⟨ha', hr'.trans ?_⟩
      rw [TreeMap.getElem?_insert_eq, if_neg hne]

theorem applyAdditions_frame (hnot : o ∉ l.map Prod.fst) :
    (self.applyAdditions l).2.add[o]? = self.add[o]? ∧
    (self.applyAdditions l).2.remove[o]? = self.remove[o]? := by
  obtain ⟨hadd, hr⟩ := applyRemovals_frame self.asReversed hnot
  rw [(applyAdditions_eq_applyRemovals self l).2]
  exact ⟨hr, hadd⟩

theorem applyRemovals_cons_ne {m} (hclash : ¬ (o ∈ self.remove ∧ o ∉ self.add))
    (hnot : o ∉ l.map Prod.fst) :
    (self.applyRemovals ((o, m) :: l)).2.add[o]? ≠ self.add[o]? ∨
    (self.applyRemovals ((o, m) :: l)).2.remove[o]? ≠ self.remove[o]? := by
  by_cases hadd : o ∈ self.add
  · left
    rw [applyRemovals, if_pos hadd, (applyRemovals_frame _ hnot).1, TreeMap.getElem?_erase_eq,
      if_pos rfl]
    intro heq
    rw [mem_iff_isSome_getElem?, ← heq] at hadd
    contradiction
  · have hr : o ∉ self.remove := fun hmem => hclash ⟨hmem, hadd⟩
    right
    rw [applyRemovals, if_neg hadd, if_neg hr, (applyRemovals_frame _ hnot).2,
      TreeMap.getElem?_insert_eq, if_pos rfl]
    intro heq
    rw [mem_iff_isSome_getElem?, ← heq] at hr
    exact hr rfl

theorem applyAdditions_cons_ne {m} (hclash : ¬ (o ∈ self.add ∧ o ∉ self.remove))
    (hnot : o ∉ l.map Prod.fst) : (self.applyAdditions ((o, m) :: l)).2 ≠ self := by
  intro heq
  rw [(applyAdditions_eq_applyRemovals self _).2] at heq
  have hb : (self.asReversed.applyRemovals ((o, m) :: l)).2 = self.asReversed :=
    congrArg asReversed heq
  rcases self.asReversed.applyRemovals_cons_ne hclash hnot with hne | hne
  · exact hne (by rw [hb])
  · exact hne (by rw [hb])

end Frame

-- An outpoint is removed or added a second time.
def Clashes (self other : CellDiff) : Prop :=
  (∃ outpoint ∈ other.remove, outpoint ∈ self.remove ∧ outpoint ∉ self.add) ∨
    ∃ outpoint ∈ other.add, (outpoint ∈ self.add ∧ outpoint ∉ other.remove) ∧ outpoint ∉ self.remove

-- The very first entry does: the smallest removed outpoint, or the smallest added one if none is
-- removed.
def ClashesAtOnce (self other : CellDiff) : Prop :=
  (∃ entry ∈ other.remove.toList.head?, entry.1 ∈ self.remove ∧ entry.1 ∉ self.add) ∨
    (other.remove.toList = [] ∧ ∃ entry ∈ other.add.toList.head?, entry.1 ∈ self.add ∧
      entry.1 ∉ self.remove)

-- The composition fails exactly on a clash, and then leaves the diff as it was.
structure FailsAtomically (diff other : CellDiff) : Prop where
  clashes : ¬ (diff.withDiffInPlace other).1.isOk = true ↔ diff.Clashes other
  unchanged : ¬ (diff.withDiffInPlace other).1.isOk = true → (diff.withDiffInPlace other).2 = diff

variable {self other : CellDiff}

theorem removed_once_iff {o} : (self.toPatch.add o).isSome ∨ self.toPatch.remove o = none ↔
    ¬ (o ∈ self.remove ∧ o ∉ self.add) := by
  rw [mem_iff_isSome_getElem?, mem_iff_isSome_getElem?]
  cases hadd : self.add[o]? <;> cases hr : self.remove[o]? <;> simp [toPatch, hadd, hr]

theorem added_once_iff {o} : ((self.toPatch.afterRemovals other.toPatch).remove o).isSome ∨
    (self.toPatch.afterRemovals other.toPatch).add o = none ↔
    ¬ ((o ∈ self.add ∧ o ∉ other.remove) ∧ o ∉ self.remove) := by
  simp only [mem_iff_isSome_getElem?]
  cases hadd : self.add[o]? <;> cases ho : other.remove[o]? <;> cases hr : self.remove[o]? <;>
    simp [toPatch, Patch.afterRemovals, hadd, ho, hr]

theorem withDiffInPlace_fails_iff :
    ¬ (self.withDiffInPlace other).1.isOk = true ↔ self.Clashes other := by
  rw [withDiffInPlace_isOk_iff]
  constructor
  · intro hnot
    by_contra hf
    rw [Clashes, not_or] at hf
    refine hnot ⟨fun o ho => removed_once_iff.mpr fun hc => hf.1 ⟨o, ?_, hc⟩,
      fun o ho => added_once_iff.mpr fun hc => hf.2 ⟨o, ?_, hc⟩⟩
    · exact mem_iff_isSome_getElem?.mpr ho
    · exact mem_iff_isSome_getElem?.mpr ho
  · rintro (⟨o, ho, hc⟩ | ⟨o, ho, hc⟩) hco
    · exact removed_once_iff.mp (hco.remove_once o (mem_iff_isSome_getElem?.mp ho)) hc
    · exact added_once_iff.mp (hco.add_once o (mem_iff_isSome_getElem?.mp ho)) hc

theorem withDiffInPlace_of_clashesAtOnce (h : self.ClashesAtOnce other) :
    (self.withDiffInPlace other).2 = self := by
  unfold withDiffInPlace
  rcases h with ⟨entry, hf, hr, hadd⟩ | ⟨hn, entry, hf, hadd, hr⟩
  · obtain ⟨rest, hl⟩ := List.head?_eq_some_iff.mp hf
    rw [hl, applyRemovals, if_neg hadd, if_pos hr]
  · obtain ⟨rest, hl⟩ := List.head?_eq_some_iff.mp hf
    rw [hn]
    change (self.applyAdditions other.add.toList).2 = self
    rw [hl, applyAdditions, if_neg hr, if_pos hadd]

theorem withDiffInPlace_ne {self other : CellDiff} (hdisjoint : ∀ o ∈ other.add, o ∉ other.remove)
    (hlater : ¬ self.ClashesAtOnce other) (hclash : self.Clashes other) :
    (self.withDiffInPlace other).2 ≠ self := by
  rw [ClashesAtOnce, not_or] at hlater
  cases hr : other.remove.toList with
  | cons entry rest =>
    obtain ⟨o, m⟩ := entry
    have hn := TreeMap.nodup_map_fst_toList other.remove
    rw [hr, List.map_cons, List.nodup_cons] at hn
    have hfr : ¬ (o ∈ self.remove ∧ o ∉ self.add) := fun hf =>
      hlater.1 ⟨(o, m), by rw [hr]; rfl, hf⟩
    have hk : o ∉ other.add.toList.map Prod.fst := by
      rw [map_fst_toList_eq_keys, mem_keys]
      intro hadd
      refine hdisjoint o hadd ?_
      rw [← mem_keys, ← map_fst_toList_eq_keys, hr]
      exact List.mem_cons_self
    have hc := applyRemovals_cons_ne self (m := m) hfr hn.1
    unfold withDiffInPlace
    rw [hr]
    rcases hre : self.applyRemovals ((o, m) :: rest) with ⟨verdict | u, middle⟩
    · intro heq
      rw [hre] at hc
      exact hc.elim (fun hne => hne (by rw [← heq])) fun hne => hne (by rw [← heq])
    · intro heq
      rw [hre] at hc
      obtain ⟨hadd, hremove⟩ := applyAdditions_frame middle hk
      exact hc.elim
        (fun hne => hne (by rw [← hadd]; exact congrArg (fun d : CellDiff => d.add[o]?) heq))
        fun hne => hne (by rw [← hremove]; exact congrArg (fun d : CellDiff => d.remove[o]?) heq)
  | nil =>
    cases ha : other.add.toList with
    | nil =>
      rcases hclash with ⟨o, ho, -⟩ | ⟨o, ho, -⟩
      · rw [← mem_keys, ← map_fst_toList_eq_keys, hr] at ho
        contradiction
      · rw [← mem_keys, ← map_fst_toList_eq_keys, ha] at ho
        contradiction
    | cons entry rest =>
      obtain ⟨o, m⟩ := entry
      have hn := TreeMap.nodup_map_fst_toList other.add
      rw [ha, List.map_cons, List.nodup_cons] at hn
      have hfr : ¬ (o ∈ self.add ∧ o ∉ self.remove) := fun hf =>
        hlater.2 ⟨hr, (o, m), by rw [ha]; rfl, hf⟩
      unfold withDiffInPlace
      rw [hr, ha]
      exact applyAdditions_cons_ne self hfr hn.1

-- A failed composition leaves the diff unchanged exactly if it fails at its first entry. The second
-- part is for diffs that do not add what they remove.
theorem withDiffInPlace_fails_atomically (self other : CellDiff) :
    ((self.Clashes other → self.ClashesAtOnce other) → self.FailsAtomically other) ∧
    ((∀ o ∈ other.add, o ∉ other.remove) → self.FailsAtomically other → self.Clashes other →
      self.ClashesAtOnce other) := by
  constructor
  · intro hf
    exact ⟨withDiffInPlace_fails_iff, fun hfa =>
      withDiffInPlace_of_clashesAtOnce (hf (withDiffInPlace_fails_iff.mp hfa))⟩
  · intro hd ha hc
    by_contra hl
    exact withDiffInPlace_ne hd hl hc (ha.unchanged (withDiffInPlace_fails_iff.mpr hc))

def spentCell (txHash : Hash) : OutPoint × CellMeta :=
  (⟨txHash, 0⟩, ⟨⟨txHash, 0⟩, 1000, 0, 0, none, 0, 0, false, none, none, none⟩)

def removing (txHashes : List Hash) : CellDiff := ⟨∅, .ofList (txHashes.map spentCell) compare⟩

-- The first removal is written before the second one clashes.
theorem withDiffInPlace_half_applied : ((removing [2]).withDiffInPlace (removing [1, 2])).1 =
    .error "cell diff composition tried to remove outpoint 2:0 twice" ∧
    ((removing [2]).withDiffInPlace (removing [1, 2])).2.remove.keys = [⟨1, 0⟩, ⟨2, 0⟩] ∧
    (removing [2]).remove.keys = [⟨2, 0⟩] ∧
    ¬ (removing [2]).FailsAtomically (removing [1, 2]) := by
  have he : ((removing [2]).withDiffInPlace (removing [1, 2])).1 =
      .error "cell diff composition tried to remove outpoint 2:0 twice" := by decide +kernel
  have ha : ((removing [2]).withDiffInPlace (removing [1, 2])).2.remove.keys =
    [⟨1, 0⟩, ⟨2, 0⟩] := by decide +kernel
  have hb : (removing [2]).remove.keys = [⟨2, 0⟩] := by decide +kernel
  refine ⟨he, ha, hb, fun hat => ?_⟩
  have hs := hat.unchanged (by rw [he]; exact nofun)
  rw [hs, hb] at ha
  simp at ha

end CellDiff

end Spora
