import Mathlib.Data.List.Forall2

-- Reasoning rules for fallible computations `Except ε α`: inversion of a successful bind,
-- invariants of a loop that may fail, and a relational logic that compares two runs.
namespace Outcome

open List

universe u u' v w

section Inversion

variable {ε : Type u} {α β : Type v}

@[simp] theorem ok_bind (a : α) (f : α → Except ε β) : (Except.ok a >>= f) = f a := rfl

@[simp] theorem error_bind (e : ε) (f : α → Except ε β) : (Except.error e >>= f) = Except.error e :=
  rfl

@[simp] theorem pure_eq_ok (a : α) : (pure a : Except ε α) = .ok a := rfl

@[simp] theorem throw_eq_error (e : ε) : (throw e : Except ε α) = .error e := rfl

@[simp] theorem map_ok (f : α → β) (a : α) : f <$> (.ok a : Except ε α) = .ok (f a) := rfl

@[simp] theorem map_error (f : α → β) (e : ε) : f <$> (.error e : Except ε α) = .error e := rfl

variable {x : Except ε α}

theorem bind_eq_ok_iff {f} {b : β} : (x >>= f) = .ok b ↔ ∃ a, x = .ok a ∧ f a = .ok b := by
  cases x with
  | error e => simp
  | ok a => simp

theorem bind_ok {f} {b : β} (h : (x >>= f) = .ok b) : ∃ a, x = .ok a ∧ f a = .ok b :=
  bind_eq_ok_iff.mp h

theorem mapError_eq_ok_iff {ε' : Type u'} {g : ε → ε'} {a} : x.mapError g = .ok a ↔ x = .ok a := by
  cases x <;> simp [Except.mapError]

theorem mem_toOption_iff {a} : a ∈ x.toOption ↔ x = .ok a := by
  cases x <;> simp [Except.toOption]

theorem eq_ok_getD_of_isSome (h : x.toOption.isSome = true) (default : α) :
    x = .ok (x.toOption.getD default) := by
  cases x with
  | error e => simp [Except.toOption] at h
  | ok a => rfl

theorem isOk_iff : x.isOk = true ↔ ∃ a, x = .ok a := by
  cases x <;> simp [Except.toBool]

theorem any_toOption_iff {p} : x.toOption.any p = true ↔ ∃ a, x = .ok a ∧ p a = true := by
  cases x <;> simp [Except.toOption]

theorem exists_of_any_toOption_fst {σ : Type w} {r : Except ε α × σ} {p}
    (h : r.1.toOption.any p = true) : ∃ a, r = (.ok a, r.2) ∧ p a = true := by
  obtain ⟨a, ha, hp⟩ := any_toOption_iff.mp h
  exact ⟨a, Prod.ext ha rfl, hp⟩

def ensure (p : Prop) [Decidable p] (e : ε) : Except ε Unit := if p then .ok () else .error e

def okOr (o : Option α) (e : ε) : Except ε α := o.elim (.error e) .ok

@[simp] theorem ensure_eq_ok_iff {p} [Decidable p] {e : ε} {u} : ensure p e = .ok u ↔ p := by
  unfold ensure
  split_ifs with h <;> simp [h]

@[simp] theorem okOr_some (a : α) (e : ε) : okOr (some a) e = .ok a := rfl

@[simp] theorem okOr_eq_ok_iff {o} {e : ε} {a : α} : okOr o e = .ok a ↔ o = some a := by
  cases o <;> simp [okOr]

end Inversion

section Loops

variable {ε : Type u} {σ : Type v} {α : Type w}

variable {f : σ → α → Except ε σ} {l : List α}

-- Loop invariant rule: what every successful step preserves holds after a successful run.
theorem foldlM_invariant {P : σ → Prop} (hstep : ∀ s, ∀ a ∈ l, ∀ s', P s → f s a = .ok s' → P s')
    {s s'} (hs : P s) (hrun : l.foldlM f s = .ok s') : P s' := by
  induction l generalizing s with
  | nil =>
    simp only [foldlM_nil, pure_eq_ok, Except.ok.injEq] at hrun
    exact hrun ▸ hs
  | cons a l ih =>
    obtain ⟨t, hat, hrun⟩ := bind_ok hrun
    have ht : P t := hstep s a (by simp) t hs hat
    exact ih (fun s b hb => hstep s b (by simp [hb])) ht hrun

-- What a loop collects: if each step adds its own contribution to an observation of the state,
-- the whole run adds the contributions of all elements.
theorem foldlM_accumulates {P : σ → Prop}
    {A : α → Prop} (hstep : ∀ s, ∀ a ∈ l, ∀ s', f s a = .ok s' → (P s' ↔ P s ∨ A a))
    {s s'} (hrun : l.foldlM f s = .ok s') : P s' ↔ P s ∨ ∃ a ∈ l, A a := by
  induction l generalizing s with
  | nil =>
    simp only [foldlM_nil, pure_eq_ok, Except.ok.injEq] at hrun
    simp [hrun]
  | cons a l ih =>
    obtain ⟨t, hat, hrun⟩ := bind_ok hrun
    rw [ih (fun s b hb => hstep s b (by simp [hb])) hrun, hstep s a (by simp) t hat]
    simp [or_assoc]

variable {s : σ}

theorem foldlM_total {P : List α → σ → Prop} (hstep : ∀ s a rest, P (a :: rest) s →
    ∃ s', f s a = .ok s' ∧ P rest s') (hs : P l s) : ∃ s', l.foldlM f s = .ok s' ∧ P [] s' := by
  induction l generalizing s with
  | nil => exact ⟨s, rfl, hs⟩
  | cons a l ih =>
    obtain ⟨t, hat, ht⟩ := hstep s a l hs
    obtain ⟨s', hrun, hs'⟩ := ih ht
    exact ⟨s', by simp [hat, hrun], hs'⟩

theorem foldlM_eq_self (h : ∀ a ∈ l, f s a = .ok s) : l.foldlM f s = .ok s := by
  induction l with
  | nil => rfl
  | cons a l ih =>
    rw [foldlM_cons, h a mem_cons_self]
    exact ih fun b hb => h b (mem_cons_of_mem _ hb)

theorem foldlM_inits {I : List α → σ → Prop}
    (hnext : ∀ p a q s s', l = p ++ a :: q → I p s → f s a = .ok s' → I (p ++ [a]) s')
    {s s'} (hs : I [] s) (hrun : l.foldlM f s = .ok s') : I l s' := by
  suffices h : ∀ q p s, l = p ++ q → I p s → q.foldlM f s = .ok s' →
    I l s' from h l [] s rfl hs hrun
  intro q
  induction q with
  | nil =>
    intro p s hl hI hrun
    cases hrun
    rwa [hl, append_nil]
  | cons a q ih =>
    intro p s hl hI hrun
    obtain ⟨t, ht, hrun⟩ := bind_ok hrun
    exact ih (p ++ [a]) t (by simp [hl]) (hnext p a q s t hl hI ht) hrun

-- A loop with an exact guard: `I p s` describes the state `s` behind the elements `p`, and `G p a`
-- says when the step for `a` succeeds there.
theorem foldlM_guarded {I : List α → σ → Prop} {G : List α → α → Prop}
    (hstep : ∀ p a q s, l = p ++ a :: q → I p s → ((∃ s', f s a = .ok s') ↔ G p a))
    (hnext : ∀ p a q s s', l = p ++ a :: q → I p s → f s a = .ok s' → I (p ++ [a]) s')
    (hs : I [] s) :
    ((∃ s', l.foldlM f s = .ok s') ↔ ∀ p a q, l = p ++ a :: q → G p a) ∧
    ∀ s', l.foldlM f s = .ok s' → I l s' := by
  refine ⟨?_, fun s' hrun => foldlM_inits hnext hs hrun⟩
  suffices h : ∀ q p s, l = p ++ q → I p s →
      ((∃ s', q.foldlM f s = .ok s') ↔ ∀ q₁ a q₂, q = q₁ ++ a :: q₂ → G (p ++ q₁) a) from
    h l [] s rfl hs
  intro q
  induction q with
  | nil => simp
  | cons a q ih =>
    intro p s hl hI
    have hg := hstep p a q s hl hI
    have hr := fun t ht => ih (p ++ [a]) t (by simp [hl]) (hnext p a q s t hl hI ht)
    constructor
    · rintro ⟨s', hrun⟩ q₁ b q₂ hq
      obtain ⟨t, ht, hrun⟩ := bind_ok ((foldlM_cons ..).symm.trans hrun)
      cases q₁ with
      | nil =>
        obtain ⟨rfl, -⟩ := List.cons.inj hq
        simpa using hg.mp ⟨t, ht⟩
      | cons c q₁ =>
        obtain ⟨rfl, hta⟩ := List.cons.inj hq
        simpa using (hr t ht).mp ⟨s', hrun⟩ q₁ b q₂ hta
    · intro hall
      obtain ⟨t, ht⟩ := hg.mpr (by simpa using hall [] a q rfl)
      obtain ⟨s', hrun⟩ := (hr t ht).mpr fun q₁ b q₂ hq => by
        simpa using hall (a :: q₁) b q₂ (by simp [hq])
      exact ⟨s', by rw [foldlM_cons, ht]; exact hrun⟩

theorem mapM_congr {β : Type v} {f g : α → Except ε β} (h : ∀ a ∈ l, f a = g a) :
    l.mapM f = l.mapM g := by
  induction l with
  | nil => rfl
  | cons a l ih =>
    rw [mapM_cons, mapM_cons, h a (by simp), ih fun b hb => h b (by simp [hb])]

theorem forall₂_of_mapM_eq_ok {β : Type v} {f : α → Except ε β} {bs}
    (h : l.mapM f = .ok bs) : List.Forall₂ (fun a b => f a = .ok b) l bs := by
  induction l generalizing bs with
  | nil =>
    cases h
    exact .nil
  | cons a l ih =>
    rw [mapM_cons] at h
    obtain ⟨b, hb, h⟩ := bind_ok h
    obtain ⟨bs', hbs, h⟩ := bind_ok h
    cases h
    exact .cons hb (ih hbs)

theorem exists_mem_of_mapM_eq_ok {β : Type v} {f : α → Except ε β} {bs}
    (h : l.mapM f = .ok bs) {b} (hb : b ∈ bs) : ∃ a ∈ l, f a = .ok b := by
  have hall := forall₂_of_mapM_eq_ok h
  clear h
  induction hall with
  | nil => simp at hb
  | @cons a b' l bs ha _ ih =>
    rcases mem_cons.mp hb with rfl | hb
    · exact ⟨a, by simp, ha⟩
    · obtain ⟨a', ha', hf⟩ := ih hb
      exact ⟨a', by simp [ha'], hf⟩

theorem forM_eq_ok_iff {f : α → Except ε PUnit.{v + 1}} {u} :
    l.forM f = .ok u ↔ ∀ a ∈ l, f a = .ok ⟨⟩ := by
  induction l with
  | nil => simp
  | cons a l ih =>
    rw [forall_mem_cons, ← ih]
    constructor
    · intro h
      obtain ⟨_, ha, hl⟩ := bind_ok h
      exact ⟨ha, hl⟩
    · rintro ⟨ha, hl⟩
      exact bind_eq_ok_iff.mpr ⟨⟨⟩, ha, hl⟩

end Loops

section Errors

variable {ε : Type u} {α β : Type v} {F : ε → Prop}

def Fails (F : ε → Prop) (x : Except ε α) : Prop := ∀ e, x = .error e → F e

namespace Fails

theorem ne {x : Except ε α} (h : Fails F x) {e} (he : ¬ F e) : x ≠ .error e := fun hx => he (h e hx)

theorem ofOk {a : α} : Fails F (.ok a) := fun _ h => nomatch h

theorem ofError {e} (he : F e) : Fails F (.error e : Except ε α) :=
  fun _ h => Except.error.inj h ▸ he

theorem bind_of {x} {f : α → Except ε β} (hx : Fails F x) (hf : ∀ a, x = .ok a → Fails F (f a)) :
    Fails F (x >>= f) := by
  cases x with
  | error e => exact ofError (hx e rfl)
  | ok a => exact hf a rfl

theorem bind {x} {f : α → Except ε β} (hx : Fails F x) (hf : ∀ a, Fails F (f a)) :
    Fails F (x >>= f) :=
  hx.bind_of fun a _ => hf a

theorem ite {c} [Decidable c] {x y : Except ε α} (hx : Fails F x) (hy : Fails F y) :
    Fails F (if c then x else y) := by
  split_ifs
  · exact hx
  · exact hy

theorem forM {ι : Type w} {l : List ι} {f} (h : ∀ i, Fails F (f i)) : Fails F (l.forM f) := by
  induction l with
  | nil => exact ofOk
  | cons i l ih => exact (h i).bind fun _ => ih

theorem foldlM_of {ι : Type w} {l : List ι} {f} {I : α → Prop} (h : ∀ a, ∀ i ∈ l, I a →
    Fails F (f a i) ∧ ∀ a', f a i = .ok a' → I a') {a} (ha : I a) : Fails F (l.foldlM f a) := by
  induction l generalizing a with
  | nil => exact ofOk
  | cons i l ih =>
    obtain ⟨hi, hnext⟩ := h a i List.mem_cons_self ha
    refine hi.bind_of fun a' ha' => ih (fun b j hj => h b j (List.mem_cons_of_mem i hj)) ?_
    exact hnext a' ha'

theorem foldlM {ι : Type w} {l : List ι} {f} (h : ∀ a i, Fails F (f a i)) (a : α) :
    Fails F (l.foldlM f a) :=
  foldlM_of (I := fun _ => True) (fun a i _ _ => ⟨h a i, fun _ _ => trivial⟩) trivial

theorem mapM {ι : Type w} {l : List ι} {f : ι → Except ε α} (h : ∀ i, Fails F (f i)) :
    Fails F (l.mapM f) := by
  induction l with
  | nil => exact ofOk
  | cons i l ih =>
    rw [List.mapM_cons]
    exact (h i).bind fun _ => ih.bind fun _ => ofOk

theorem mapError {ε' : Type u'} {g} {x : Except ε' α} (h : ∀ e, F (g e)) :
    Fails F (x.mapError g) := by
  cases x with
  | error e => exact ofError (h e)
  | ok a => exact ofOk

theorem okOr {o : Option α} {e} (he : F e) : Fails F (Outcome.okOr o e) := by
  cases o with
  | none => exact ofError he
  | some a => exact ofOk

end Fails

end Errors

section Verdicts

def SameVerdict {ε : Type u} {α β : Type v} (x : Except ε α) (y : Except ε β) : Prop :=
  x.map (fun _ => ()) = y.map fun _ => ()

namespace SameVerdict

variable {ε : Type u} {α β γ δ : Type v}

theorem refl (x : Except ε α) : SameVerdict x x := rfl

theorem ok (a : α) (b : β) : SameVerdict (.ok a : Except ε α) (.ok b) := rfl

theorem error (e : ε) : SameVerdict (.error e : Except ε α) (.error e : Except ε β) := rfl

variable {x : Except ε α} {y : Except ε β}

theorem isOk_eq (h : SameVerdict x y) : x.isOk = y.isOk := by
  cases x <;> cases y <;> simp_all [SameVerdict, Except.map, Except.toBool]

theorem eq_error (h : SameVerdict x y) {e} (hx : x = .error e) : y = .error e := by
  cases y <;> simp_all [SameVerdict, Except.map]

theorem exists_ok (h : SameVerdict x y) {a} (hx : x = .ok a) : ∃ b, y = .ok b := by
  cases y <;> simp_all [SameVerdict, Except.map]

theorem bind {f : α → Except ε γ} {g : α → Except ε δ} (h : ∀ a, SameVerdict (f a) (g a)) :
    SameVerdict (x >>= f) (x >>= g) := by
  cases x with
  | error e => exact error e
  | ok a => exact h a

theorem bind_of {f : α → Except ε γ} {g : β → Except ε δ} (h : SameVerdict x y)
    (hfg : ∀ a b, SameVerdict (f a) (g b)) : SameVerdict (x >>= f) (y >>= g) := by
  cases hx : x with
  | error e =>
    rw [h.eq_error hx]
    exact error e
  | ok a =>
    obtain ⟨b, hy⟩ := h.exists_ok hx
    rw [hy]
    exact hfg a b

theorem mapError {ε' : Type u'} (h : SameVerdict x y) (f : ε → ε') :
    SameVerdict (x.mapError f) (y.mapError f) := by
  cases hx : x with
  | error e =>
    rw [h.eq_error hx]
    exact error _
  | ok a =>
    obtain ⟨b, hy⟩ := h.exists_ok hx
    rw [hy]
    exact ok a b

end SameVerdict

end Verdicts

section Simulation

variable {ε : Type u} {δ : Type u'} {α β γ κ : Type v} {ι : Type w}

-- Two runs with the same verdict whose values are related when both succeed. The errors
-- themselves are not compared.
inductive Sim (R : α → β → Prop) : Except ε α → Except δ β → Prop
  | ok {a : α} {b : β} (h : R a b) : Sim R (.ok a) (.ok b)
  | error (e : ε) (d : δ) : Sim R (.error e) (.error d)

variable {R : α → β → Prop} {S : γ → κ → Prop}

variable {x : Except ε α} {y : Except δ β}

theorem Sim.refl : Sim Eq x x := by
  cases x with
  | error e => exact .error e e
  | ok a => exact .ok rfl

theorem Sim.mono {R'} (h : Sim R x y) (hR : ∀ a b, R a b → R' a b) : Sim R' x y := by
  cases h with
  | ok hab => exact .ok (hR _ _ hab)
  | error e d => exact .error e d

theorem Sim.bind {f g} (hxy : Sim R x y) (hfg : ∀ a b, R a b → Sim S (f a) (g b)) :
    Sim S (x >>= f) (y >>= g) := by
  cases hxy with
  | ok hab => exact hfg _ _ hab
  | error e d => exact .error e d

theorem Sim.bind_of_eq {f g} (hxy : Sim R x y)
    (hfg : ∀ a b, x = .ok a → y = .ok b → R a b → Sim S (f a) (g b)) :
    Sim S (x >>= f) (y >>= g) := by
  cases hxy with
  | ok hab => exact hfg _ _ rfl rfl hab
  | error e d => exact .error e d

theorem Sim.ite {c} [Decidable c] {x x' : Except ε α} {y y' : Except δ β}
    (ht : c → Sim R x y) (hf : ¬ c → Sim R x' y') :
    Sim R (if c then x else x') (if c then y else y') := by
  split_ifs with h
  · exact ht h
  · exact hf h

variable {l : List ι}

theorem Sim.foldlM {f : α → ι → Except ε α} {g : β → ι → Except δ β}
    (hstep : ∀ i ∈ l, ∀ a b, R a b → Sim R (f a i) (g b i)) {a b} (hab : R a b) :
    Sim R (l.foldlM f a) (l.foldlM g b) := by
  induction l generalizing a b with
  | nil => exact .ok hab
  | cons i l ih =>
    refine Sim.bind (hstep i (by simp) a b hab) fun a' b' hab' => ?_
    exact ih (fun j hj => hstep j (by simp [hj])) hab'

theorem Sim.forM {f : ι → Except ε PUnit.{v + 1}} {g : ι → Except δ PUnit.{v + 1}}
    (hstep : ∀ i ∈ l, Sim Eq (f i) (g i)) : Sim Eq (l.forM f) (l.forM g) := by
  induction l with
  | nil => exact .ok rfl
  | cons i l ih =>
    exact Sim.bind (hstep i (by simp)) fun _ _ _ => ih fun j hj => hstep j (by simp [hj])

theorem Sim.mapM {f : ι → Except ε α} {g : ι → Except δ β}
    (hstep : ∀ i ∈ l, Sim R (f i) (g i)) : Sim (List.Forall₂ R) (l.mapM f) (l.mapM g) := by
  induction l with
  | nil => exact .ok .nil
  | cons i l ih =>
    simp only [mapM_cons]
    refine Sim.bind (hstep i (by simp)) fun a b hab => ?_
    refine Sim.bind (ih fun j hj => hstep j (by simp [hj])) fun as bs has => ?_
    exact .ok (.cons hab has)

theorem Sim.foldlM_forall₂ {ι' : Type w} {T l'}
    {f : α → ι → Except ε α} {g : β → ι' → Except δ β} (hl : List.Forall₂ T l l')
    (hstep : ∀ i i', i ∈ l → T i i' → ∀ a b, R a b → Sim R (f a i) (g b i')) {a b}
    (hab : R a b) : Sim R (l.foldlM f a) (l'.foldlM g b) := by
  induction hl generalizing a b with
  | nil => exact .ok hab
  | @cons i i' l l' hi _ ih =>
    refine Sim.bind (hstep i i' (by simp) hi a b hab) fun a' b' hab' => ?_
    exact ih (fun j j' hj => hstep j j' (by simp [hj])) hab'

theorem Sim.mapError {ε' : Type u} {δ' : Type u'} {p : ε → ε'} {q : δ → δ'} (h : Sim R x y) :
    Sim R (x.mapError p) (y.mapError q) := by
  cases h with
  | ok hab => exact .ok hab
  | error e d => exact .error (p e) (q d)

theorem Sim.isOk_eq (h : Sim R x y) : x.isOk = y.isOk := by
  cases h <;> rfl

theorem Sim.iff_isOk (h : ∀ a b, x = .ok a → y = .ok b → R a b) :
    Sim R x y ↔ ((∃ a, x = .ok a) ↔ ∃ b, y = .ok b) := by
  constructor
  · intro hxy
    cases hxy <;> simp
  · intro hiff
    cases x with
    | ok a =>
      obtain ⟨b, hb⟩ := hiff.mp ⟨a, rfl⟩
      subst hb
      exact .ok (h a b rfl rfl)
    | error e =>
      cases y with
      | ok b => simp at hiff
      | error d => exact .error e d

theorem Sim.eq_ok_iff {y : Except δ α} (h : Sim Eq x y) (a : α) : x = .ok a ↔ y = .ok a := by
  cases h with
  | ok hab => subst hab; simp
  | error e d => simp

theorem Sim.exists_error_iff (h : Sim R x y) : (∃ e, x = .error e) ↔ ∃ d, y = .error d := by
  cases h <;> simp

-- Batching law. A loop that first prepares all elements and then commits them one by one does the
-- same as the loop of combined steps, if preparing and committing at once is a step wherever the
-- loop can be. `P` describes the states the loop can be in, with the elements still ahead.
theorem Sim.batched {σ τ : Type v} {prepare : ι → Except ε τ} {commit}
    {step : σ → ι → Except δ σ} {P : List ι → σ → Prop}
    (hstep : ∀ i l s, P (i :: l) s → Sim Eq (prepare i >>= fun b => commit s (i, b)) (step s i))
    (hnext : ∀ i l s s' b, P (i :: l) s → prepare i = .ok b → commit s (i, b) = .ok s' → P l s') {s}
    (hs : P l s) :
    Sim Eq (l.mapM prepare >>= fun bs => (l.zip bs).foldlM commit s) (l.foldlM step s) := by
  induction l generalizing s with
  | nil => exact .ok rfl
  | cons i l ih =>
    have hsim := hstep i l s hs
    rw [mapM_cons, foldlM_cons]
    cases hb : prepare i with
    | error e =>
      rw [hb] at hsim
      obtain ⟨d, hd⟩ := hsim.exists_error_iff.mp ⟨e, rfl⟩
      rw [hd]
      exact .error _ _
    | ok b =>
      rw [hb, ok_bind] at hsim
      simp only [ok_bind, bind_assoc, pure_eq_ok, zip_cons_cons, foldlM_cons]
      cases hc : commit s (i, b) with
      | error e =>
        rw [hc] at hsim
        obtain ⟨d, hd⟩ := hsim.exists_error_iff.mp ⟨e, rfl⟩
        rw [hd]
        cases l.mapM prepare <;> exact .error _ _
      | ok s' =>
        rw [hc] at hsim
        rw [(hsim.eq_ok_iff s').mp rfl]
        exact ih (hnext i l s s' b hs hb hc)

end Simulation

end Outcome
