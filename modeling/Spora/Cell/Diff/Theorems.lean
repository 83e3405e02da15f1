import Spora.Cell.Diff.Lemmas
import Spora.Cell.Tree

namespace Spora

open Std

namespace CellDiff

-- The diff removes only cells of the collection and adds only outpoints that are absent from it
-- after the removals.
def AppliesTo (d : CellDiff) (base : CellCollection) : Prop :=
  d.toPatch.Applicable fun o => base[o]?

variable {base : CellCollection} {d₁ d₂ : CellDiff}

theorem appliesTo_patch (h₂ : d₂.AppliesTo (d₁.applyTo base)) :
    d₂.toPatch.Applicable (d₁.toPatch.apply fun o => base[o]?) := by
  have hv := funext fun o => getElem?_applyTo d₁ base o
  rw [← hv]
  exact h₂

theorem withDiffInPlace_eq_ok (h₂ : d₂.AppliesTo (d₁.applyTo base)) :
    (d₁.withDiffInPlace d₂).1 = .ok () := by
  have hok := (withDiffInPlace_isOk_iff d₁ d₂).mpr (appliesTo_patch h₂).composable
  cases hresult : (d₁.withDiffInPlace d₂).1 with
  | ok u => rfl
  | error e => simp [hresult, Except.toBool] at hok

section

variable (h₁ : d₁.AppliesTo base) (h₂ : d₂.AppliesTo (d₁.applyTo base))
include h₁ h₂

theorem applyTo_comp_iff : (d₁.withDiffInPlace d₂).2.applyTo base = d₂.applyTo (d₁.applyTo base) ↔
    ∀ (o : OutPoint) m, d₂.add[o]? = some m → base[o]? = none ∨ base[o]? = some m := by
  have hok := (withDiffInPlace_isOk_iff d₁ d₂).mpr (appliesTo_patch h₂).composable
  refine Iff.trans ?_ (Patch.comp_apply_eq_iff h₁ (appliesTo_patch h₂))
  rw [← toPatch_withDiffInPlace _ _ hok]
  constructor
  · intro heq
    funext k
    have hk := congrArg (fun cells : CellCollection => cells[k]?) heq
    simpa [getElem?_applyTo] using hk
  · intro heq
    apply ExtTreeMap.ext_getElem?
    intro k
    simp only [getElem?_applyTo, heq]

theorem applyCellDiffToTree_comp {H}
    (hcond : ∀ (o : OutPoint) m, d₂.add[o]? = some m → base[o]? = none ∨ base[o]? = some m)
    (t : LiveTree H) (ht : ∀ o, t.get o = base[o]?.map cellMetaToEntry) :
    applyCellDiffToTree t (d₁.withDiffInPlace d₂).2 =
    applyCellDiffToTree (applyCellDiffToTree t d₁) d₂ := by
  have hok := (withDiffInPlace_isOk_iff d₁ d₂).mpr (appliesTo_patch h₂).composable
  have hb := funext ht
  have hf : (applyCellDiffToTree t d₁).get =
      fun o => (d₁.toPatch.apply (fun o => base[o]?) o).map cellMetaToEntry := by
    rw [← Patch.map_apply, ← hb]
    exact funext fun o => get_applyCellDiffToTree t d₁ o
  -- both sides are views of the collections, where the composition law is available
  ext1 k
  rw [get_applyCellDiffToTree, get_applyCellDiffToTree, hf, hb, Patch.map_apply,
    Patch.map_apply, toPatch_withDiffInPlace _ _ hok,
    (Patch.comp_apply_eq_iff h₁ (appliesTo_patch h₂)).mpr hcond]

end

-- If the composition is accepted, the composed diff does what the two diffs do in turn, to the
-- collection and to every live tree that holds its cells.
def ComposesOver (hasher : Hasher) (d₁ d₂ : CellDiff) (base : CellCollection) : Prop :=
  (d₁.withDiffInPlace d₂).1 = .ok () →
    (d₁.withDiffInPlace d₂).2.applyTo base = d₂.applyTo (d₁.applyTo base) ∧
    ∀ t : LiveTree hasher, (∀ o, t.get o = base[o]?.map cellMetaToEntry) →
      applyCellDiffToTree t (d₁.withDiffInPlace d₂).2 =
        applyCellDiffToTree (applyCellDiffToTree t d₁) d₂

-- Composition is sequential application exactly when no cell of the base collection comes back
-- from the second diff with other metadata.
theorem composesOver_iff (hasher : Hasher) (h₁ : d₁.AppliesTo base)
    (h₂ : d₂.AppliesTo (d₁.applyTo base)) :
    d₁.ComposesOver hasher d₂ base ↔
    ∀ (o : OutPoint) m, d₂.add[o]? = some m → base[o]? = none ∨ base[o]? = some m := by
  constructor
  · intro hco
    exact (applyTo_comp_iff h₁ h₂).mp (hco (withDiffInPlace_eq_ok h₂)).1
  · intro hc _
    exact ⟨(applyTo_comp_iff h₁ h₂).mpr hc, applyCellDiffToTree_comp h₁ h₂ hc⟩

section Reacceptance

def acceptedAt (blockDaaScore : Nat) : CellMeta where
  outPoint := ⟨1, 0⟩
  capacity := 1000
  dataBytes := 0
  lockHash := 7
  typeHash := none
  dataHash := 0
  blockDaaScore := blockDaaScore
  isCellbase := false
  lockScript := none
  typeScript := none
  data := none

def acceptedCollection (blockDaaScore : Nat) : CellCollection :=
  (∅ : CellCollection).insert ⟨1, 0⟩ (acceptedAt blockDaaScore)

def dropAccepted (blockDaaScore : Nat) : CellDiff := ⟨∅, acceptedCollection blockDaaScore⟩

def acceptAgain (blockDaaScore : Nat) : CellDiff := ⟨acceptedCollection blockDaaScore, ∅⟩

theorem dropAccepted_appliesTo (s : Nat) : (dropAccepted s).AppliesTo (acceptedCollection s) where
  remove_present k hk := hk
  add_absent k hk := by simp [dropAccepted, toPatch] at hk

theorem acceptAgain_appliesTo (s s' : Nat) :
    (acceptAgain s').AppliesTo ((dropAccepted s).applyTo (acceptedCollection s)) where
  remove_present k hk := by simp [acceptAgain, toPatch] at hk
  add_absent k hk := by
    rw [getElem?_applyTo]
    simp only [acceptAgain, toPatch, acceptedCollection, TreeMap.getElem?_insert_eq] at hk
    split_ifs at hk with hkey
    · subst hkey
      simp [Patch.apply, dropAccepted, toPatch, acceptedCollection]
    · simp at hk

theorem composesOver_same_score :
    (dropAccepted 5).ComposesOver .sample (acceptAgain 5) (acceptedCollection 5) :=
  (composesOver_iff .sample (dropAccepted_appliesTo 5) (acceptAgain_appliesTo 5 5)).mpr
    fun _ _ hm => .inr hm

-- Re-accepted by a block with another score, the cell keeps the score of the block that is gone.
theorem not_composesOver_other_score : (dropAccepted 5).AppliesTo (acceptedCollection 5) ∧
    (acceptAgain 9).AppliesTo ((dropAccepted 5).applyTo (acceptedCollection 5)) ∧
    ¬ (dropAccepted 5).ComposesOver .sample (acceptAgain 9) (acceptedCollection 5) := by
  refine ⟨dropAccepted_appliesTo 5, acceptAgain_appliesTo 5 9, fun hc => ?_⟩
  have heq := (hc (by decide)).1
  revert heq
  decide

end Reacceptance

end CellDiff

end Spora
