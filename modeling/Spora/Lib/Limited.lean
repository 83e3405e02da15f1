import Spora.Lib.Outcome

-- Runs over other answers. A computation asks for data that may differ or be missing. `Limited N R
-- Q x y` says that `x` does what `y` does if `Q` holds, that is, if everything `y` asks for is
-- answered alike. With `N`, the answers of `x` are those of `y` or missing: then `x` succeeds only
-- if `Q` holds. Without `N`, this is the congruence alone.
namespace Outcome

universe u u' v w

variable {ε : Type u} {δ : Type u'} {α β γ κ : Type v} {ι : Type w}

structure Limited (N : Prop) (R : α → β → Prop) (Q : Prop) (x : Except ε α) (y : Except δ β) :
    Prop where
  needs : N → ∀ a, x = .ok a → Q
  same : Q → Sim R x y

namespace Limited

variable {N : Prop} {R : α → β → Prop} {S : γ → κ → Prop} {Q : Prop} {x : Except ε α}
  {y : Except δ β}

theorem of_sim (h : Sim R x y) : Limited N R True x y := ⟨fun _ _ _ => trivial, fun _ => h⟩

theorem congr {Q'} (h : Limited N R Q x y) (hQ : Q ↔ Q') : Limited N R Q' x y :=
  ⟨fun hN a ha => hQ.mp (h.needs hN a ha), fun hQ' => h.same (hQ.mpr hQ')⟩

theorem exists_eq_ok (h : Limited N R Q x y) (hN : N) {a} (ha : x = .ok a) :
    ∃ b, y = .ok b ∧ R a b := by
  have hsim := h.same (h.needs hN a ha)
  subst ha
  cases hsim with
  | ok hab => exact ⟨_, rfl, hab⟩

theorem eq_ok_iff {y : Except δ α} (h : Limited N Eq Q x y) (hN : N) (a : α) :
    x = .ok a ↔ y = .ok a ∧ Q := by
  constructor
  · intro ha
    obtain ⟨b, hb, rfl⟩ := h.exists_eq_ok hN ha
    exact ⟨hb, h.needs hN a ha⟩
  · rintro ⟨ha, hQ⟩
    exact ((h.same hQ).eq_ok_iff a).mpr ha

theorem mapError {ε' : Type u} {δ' : Type u'} {p : ε → ε'} {q : δ → δ'} (h : Limited N R Q x y) :
    Limited N R Q (x.mapError p) (y.mapError q) :=
  ⟨fun hN a ha => h.needs hN a (mapError_eq_ok_iff.mp ha), fun hQ => (h.same hQ).mapError⟩

variable {f : α → Except ε γ} {g : β → Except δ κ} {l : List ι}

theorem bind {P : β → Prop} (h : Limited N R Q x y)
    (hfg : ∀ a b, y = .ok b → R a b → Limited N S (P b) (f a) (g b)) :
    Limited N S (Q ∧ ∀ b, y = .ok b → P b) (x >>= f) (y >>= g) := by
  constructor
  · intro hN c hc
    obtain ⟨a, ha, hc⟩ := bind_ok hc
    obtain ⟨b, hb, hab⟩ := h.exists_eq_ok hN ha
    refine ⟨h.needs hN a ha, fun b' hb' => ?_⟩
    rw [hb] at hb'
    cases hb'
    exact (hfg a b hb hab).needs hN c hc
  · rintro ⟨hQ, hP⟩
    exact (h.same hQ).bind_of_eq fun a b _ hb hab => (hfg a b hb hab).same (hP b hb)

theorem bind_of_sim {P : β → Prop} (h : Sim R x y)
    (hfg : ∀ a b, y = .ok b → R a b → Limited N S (P b) (f a) (g b)) :
    Limited N S (∀ b, y = .ok b → P b) (x >>= f) (y >>= g) :=
  ((of_sim h).bind hfg).congr (by simp)

theorem bind_sim (h : Limited N R Q x y)
    (hfg : ∀ a b, y = .ok b → R a b → Sim S (f a) (g b)) : Limited N S Q (x >>= f) (y >>= g) :=
  (h.bind fun a b hb hab => of_sim (hfg a b hb hab)).congr (by simp)

theorem forM {f : ι → Except ε PUnit.{v + 1}} {g : ι → Except δ PUnit.{v + 1}}
    {Q : ι → Prop} (hstep : ∀ i ∈ l, Limited N Eq (Q i) (f i) (g i)) :
    Limited N Eq (∀ i ∈ l, Q i) (l.forM f) (l.forM g) := by
  constructor
  · intro hN u hu i hi
    exact (hstep i hi).needs hN ⟨⟩ (forM_eq_ok_iff.mp hu i hi)
  · exact fun hQ => Sim.forM fun i hi => (hstep i hi).same (hQ i hi)

theorem foldlM {f : α → ι → Except ε α} {g : β → ι → Except δ β} {Q : β → ι → Prop}
    (hstep : ∀ i ∈ l, ∀ a b, R a b → Limited N R (Q b i) (f a i) (g b i)) {a b} (hab : R a b) :
    Limited N R (∀ p i q c, l = p ++ i :: q → p.foldlM g b = .ok c → Q c i) (l.foldlM f a)
    (l.foldlM g b) := by
  induction l generalizing a b with
  | nil => exact (of_sim (.ok hab)).congr (by simp)
  | cons i l ih =>
    refine ((hstep i (by simp) a b hab).bind fun a' b' _ hab' =>
      ih (fun j hj => hstep j (by simp [hj])) hab').congr ?_
    constructor
    · rintro ⟨hf, hr⟩ p j q c hl hrun
      cases p with
      | nil =>
        obtain ⟨rfl, -⟩ := List.cons.inj hl
        cases hrun
        exact hf
      | cons k p =>
        cases hl
        obtain ⟨b', hb', hrun⟩ := bind_ok ((List.foldlM_cons ..).symm.trans hrun)
        exact hr b' hb' p j q c rfl hrun
    · intro hall
      refine ⟨hall [] i l b rfl rfl, fun b' hb' p j q c hl hrun => ?_⟩
      refine hall (i :: p) j q c (by simp [hl]) ?_
      rw [List.foldlM_cons, hb']
      exact hrun

theorem foldlM_uniform {f : α → ι → Except ε α} {g : β → ι → Except δ β} {Q : ι → Prop}
    (hstep : ∀ i ∈ l, ∀ a b, R a b → Limited N R (Q i) (f a i) (g b i)) {a b}
    (hab : R a b) : Limited N R (∀ i ∈ l, Q i) (l.foldlM f a) (l.foldlM g b) := by
  have hlo := Limited.foldlM hstep hab
  refine ⟨fun hN a' ha' i hi => ?_, fun hQ => hlo.same fun p i q _ hl _ => hQ i (by simp [hl])⟩
  obtain ⟨b', hb', -⟩ := hlo.exists_eq_ok hN ha'
  obtain ⟨p, q, rfl⟩ := List.append_of_mem hi
  rw [List.foldlM_append] at hb'
  obtain ⟨c, hc, -⟩ := bind_ok hb'
  exact hlo.needs hN a' ha' p i q c rfl hc

end Limited

end Outcome
