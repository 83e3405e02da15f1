import Spora.Cell.Diff.Theorems

namespace Spora

open Std Patch

namespace CellDiff

-- Diffs accumulated one after the other; the first refused composition ends the walk.
def composeAll (self : CellDiff) : List CellDiff → Except String CellDiff
  | [] => .ok self
  | diff :: rest =>
    match self.withDiffInPlace diff with
    | (.error e, _) => .error e
    | (.ok (), self) => self.composeAll rest

def applyAllTo (chain : List CellDiff) (base : CellCollection) : CellCollection :=
  chain.foldl (fun cells diff => diff.applyTo cells) base

-- Each diff removes cells that are there with the metadata it records, and adds outpoints that are
-- absent once its removals are done.
def ChainFrom : CellCollection → List CellDiff → Prop
  | _, [] => True
  | base, diff :: rest =>
    (diff.toPatch.Exact fun o => base[o]?) ∧ ChainFrom (diff.applyTo base) rest

def lastRemoved (chain : List CellDiff) (o : OutPoint) : Option CellMeta :=
  (chain.filterMap fun diff => diff.remove[o]?).getLast?

variable {base : CellCollection} {chain : List CellDiff}

theorem getElem?_applyAllTo (chain base) : (fun o => (applyAllTo chain base)[o]?) =
    applyAll (chain.map toPatch) fun o => base[o]? := by
  induction chain generalizing base with
  | nil => rfl
  | cons diff rest ih =>
    have hf := funext fun o => getElem?_applyTo diff base o
    have hr := ih (diff.applyTo base)
    rw [hf] at hr
    exact hr

theorem ChainFrom.exactChain (h : ChainFrom base chain) :
    Patch.ExactChain (chain.map toPatch) fun o => base[o]? := by
  induction chain generalizing base with
  | nil => trivial
  | cons diff rest ih =>
    have hf := funext fun o => getElem?_applyTo diff base o
    refine ⟨h.1, ?_⟩
    rw [← hf]
    exact ih h.2

theorem lastRemoved_eq (chain o) :
    Patch.lastRemoved (chain.map toPatch) o = lastRemoved chain o := by
  simp [Patch.lastRemoved, lastRemoved, Function.comp_def, toPatch]

theorem composeAll_append {self mid : CellDiff} {front rest} (h : self.composeAll front = .ok mid) :
    self.composeAll (front ++ rest) = mid.composeAll rest := by
  induction front generalizing self with
  | nil =>
    cases h
    rfl
  | cons diff front ih =>
    rw [List.cons_append, composeAll]
    rw [composeAll] at h
    rcases hs : self.withDiffInPlace diff with ⟨verdict, next⟩
    cases verdict with
    | error e => simp [hs] at h
    | ok u =>
      simp only [hs] at h ⊢
      exact ih h

theorem ChainFrom.composeAll_eq_ok (h : ChainFrom base chain) :
    ∃ diff, empty.composeAll chain = .ok diff ∧ diff.toPatch = compAll (chain.map toPatch) := by
  have he := h.exactChain
  clear h
  induction chain using List.reverseRecOn with
  | nil => exact ⟨empty, rfl, toPatch_empty⟩
  | append_singleton front last ih =>
    rw [List.map_append, List.map_singleton] at he ⊢
    obtain ⟨mid, hmid, hp⟩ := ih (exactChain_snoc.mp he).1
    have hok : (mid.withDiffInPlace last).1.isOk := by
      rw [withDiffInPlace_isOk_iff, hp]
      exact he.composable
    have hc := toPatch_withDiffInPlace mid last hok
    rcases hs : mid.withDiffInPlace last with ⟨verdict, next⟩
    rw [hs] at hok hc
    cases verdict with
    | error e => simp [Except.toBool] at hok
    | ok u =>
      refine ⟨next, ?_, ?_⟩
      · rw [composeAll_append hmid]
        simp [composeAll, hs]
      · rw [compAll_snoc, ← hp]
        exact hc

-- The diffs of a chain compose, to a diff that neither adds nor removes an outpoint twice, and
-- applying it and then its reverse restores the collection and every live tree of its cells.
def RollsBack (hasher : Hasher) (base : CellCollection) (chain : List CellDiff) : Prop :=
  ∃ diff, empty.composeAll chain = .ok diff ∧ (∀ o ∈ diff.add, o ∉ diff.remove) ∧
    diff.asReversed.applyTo (diff.applyTo base) = base ∧
    ∀ t : LiveTree hasher, (∀ o, t.get o = base[o]?.map cellMetaToEntry) →
      applyCellDiffToTree (applyCellDiffToTree t diff) diff.asReversed = t

theorem applyTo_asReversed_eq_iff {diff : CellDiff} :
    diff.asReversed.applyTo (diff.applyTo base) = base ↔
    diff.toPatch.reverse.apply (diff.toPatch.apply fun o => base[o]?) = fun o => base[o]? := by
  have hv := funext fun o => getElem?_applyTo diff base o
  constructor
  · intro heq
    funext o
    rw [← hv, ← toPatch_asReversed, ← getElem?_applyTo, heq]
  · intro heq
    apply ExtTreeMap.ext_getElem?
    intro o
    rw [getElem?_applyTo, hv, toPatch_asReversed, heq]

theorem applyCellDiffToTree_asReversed {H diff}
    (h : diff.toPatch.reverse.apply (diff.toPatch.apply fun o => base[o]?) = fun o => base[o]?)
    (t : LiveTree H) (ht : ∀ o, t.get o = base[o]?.map cellMetaToEntry) :
    applyCellDiffToTree (applyCellDiffToTree t diff) diff.asReversed = t := by
  have hb := funext ht
  have hf : (applyCellDiffToTree t diff).get =
      fun o => (diff.toPatch.apply (fun o => base[o]?) o).map cellMetaToEntry := by
    rw [← map_apply, ← hb]
    exact funext fun o => get_applyCellDiffToTree t diff o
  ext1 k
  rw [get_applyCellDiffToTree, hf, toPatch_asReversed, map_apply, h, ht]

-- A chain rolls back exactly when every cell of the base that it leaves removed was removed last
-- with the metadata it has in the base.
theorem rollsBack_iff (hasher : Hasher) (h : ChainFrom base chain) :
    RollsBack hasher base chain ↔ ∀ (o : OutPoint) m, base[o]? = some m →
    (applyAllTo chain base)[o]? = none → lastRemoved chain o = some m := by
  have hc := h.exactChain
  obtain ⟨diff, hd, hp⟩ := h.composeAll_eq_ok
  have hr : diff.asReversed.applyTo (diff.applyTo base) = base ↔ ∀ o m,
      base[o]? = some m → (applyAllTo chain base)[o]? = none → lastRemoved chain o = some m := by
    rw [applyTo_asReversed_eq_iff, hp, hc.reverse_compAll_iff, ← getElem?_applyAllTo]
    simp [lastRemoved_eq]
  constructor
  · rintro ⟨diff', hd', -, hb, -⟩
    cases (hd.symm.trans hd')
    exact hr.mp hb
  · intro hco
    have hb := hr.mpr hco
    refine ⟨diff, hd, fun o hadd hre => ?_, hb,
      applyCellDiffToTree_asReversed (applyTo_asReversed_eq_iff.mp hb)⟩
    -- the composed diff adds only outpoints that are new and removes only outpoints of the base
    have hnet := hc.compAll_eq
    rw [← hp] at hnet
    have ha' : (diff.toPatch.add o).isSome := ExtTreeMap.mem_iff_isSome_getElem?.mp hadd
    have hr' : (diff.toPatch.remove o).isSome := ExtTreeMap.mem_iff_isSome_getElem?.mp hre
    rw [hnet] at ha' hr'
    cases hba : base[o]? with
    | none => simp [net, hba] at hr'
    | some m => simp [net, hba] at ha'

section Reacceptance

def dropTwice (s s' : Nat) : List CellDiff := [dropAccepted s, acceptAgain s', dropAccepted s']

theorem dropTwice_chainFrom (s s' : Nat) : ChainFrom (acceptedCollection s) (dropTwice s s') := by
  have he : (dropAccepted s).applyTo (acceptedCollection s) = ∅ := by
    apply ExtTreeMap.ext_getElem?
    intro o
    rw [getElem?_applyTo]
    by_cases ho : (⟨1, 0⟩ : OutPoint) = o
    · simp [apply, toPatch, dropAccepted, acceptedCollection, ho]
    · simp [apply, toPatch, dropAccepted, acceptedCollection, ho]
  refine ⟨⟨fun k v hv => hv, fun k hk => by simp [dropAccepted, toPatch] at hk⟩, ?_⟩
  rw [he]
  refine ⟨⟨fun k v hv => by simp [acceptAgain, toPatch] at hv, fun k _ => .inl (by simp)⟩, ?_⟩
  exact ⟨⟨fun k v hv => hv, fun k hk => by simp [dropAccepted, toPatch] at hk⟩, trivial⟩

theorem rollsBack_same_score : RollsBack .sample (acceptedCollection 5) (dropTwice 5 5) := by
  refine (rollsBack_iff .sample (dropTwice_chainFrom 5 5)).mpr fun o m hm _ => ?_
  simp [lastRemoved, dropTwice, dropAccepted, acceptAgain, hm]

-- The composed diff removes the cell with the score of the second acceptance, so its reverse puts
-- back another cell than the one of the base.
theorem not_rollsBack_other_score : ChainFrom (acceptedCollection 5) (dropTwice 5 9) ∧
    ¬ RollsBack .sample (acceptedCollection 5) (dropTwice 5 9) := by
  refine ⟨dropTwice_chainFrom 5 9, ?_⟩
  rintro ⟨diff, hd, -, hb, -⟩
  have hrun : (empty.composeAll (dropTwice 5 9)).toOption.any (fun diff =>
      diff.asReversed.applyTo (diff.applyTo (acceptedCollection 5)) ≠ acceptedCollection 5) =
          true := by
    decide
  rw [hd] at hrun
  simp [Except.toOption, hb] at hrun

end Reacceptance

end CellDiff

end Spora
