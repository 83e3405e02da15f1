import Mathlib.Data.List.Basic

-- Computations that change a state and may fail. A failure keeps the state it was raised in.
abbrev Stateful (ε σ α : Type) := ExceptT ε (StateM σ) α

namespace Stateful

variable {ε σ α β : Type}

def exec (m : Stateful ε σ α) (s : σ) : Except ε α × σ := m.run.run s

def after (m : Stateful ε σ α) (s : σ) : σ := (m.exec s).2

def lift (x : Except ε α) : Stateful ε σ α := ExceptT.mk (pure x)

def okOr (o : Option α) (e : ε) : Stateful ε σ α := lift (o.elim (.error e) .ok)

def require (c : Prop) [Decidable c] (e : ε) : Stateful ε σ Unit := if c then pure () else throw e

def attempt (m : Stateful ε σ α) : Stateful ε σ (Except ε α) :=
  ExceptT.mk fun s => (.ok (m.exec s).1, (m.exec s).2)

def zoom {ε' τ : Type} (wrap : ε → ε') (part : σ → τ) (put : σ → τ → σ) (m : Stateful ε τ α) :
    Stateful ε' σ α :=
  ExceptT.mk fun s => ((m.exec (part s)).1.mapError wrap, put s (m.exec (part s)).2)

@[simp] theorem exec_pure (a : α) (s : σ) : exec (pure a : Stateful ε σ α) s = (.ok a, s) := rfl

@[simp] theorem exec_throw (e : ε) (s : σ) : exec (throw e : Stateful ε σ α) s = (.error e, s) :=
  rfl

@[simp] theorem exec_get (s : σ) : exec (get : Stateful ε σ σ) s = (.ok s, s) := rfl

@[simp] theorem exec_set (s t : σ) : exec (set t : Stateful ε σ PUnit) s = (.ok ⟨⟩, t) := rfl

@[simp] theorem exec_modify (f : σ → σ) (s : σ) :
    exec (modify f : Stateful ε σ PUnit) s = (.ok ⟨⟩, f s) := rfl

@[simp] theorem exec_lift (x : Except ε α) (s : σ) : exec (lift x) s = (x, s) := rfl

@[simp] theorem exec_attempt (m : Stateful ε σ α) (s : σ) :
    exec (attempt m) s = (.ok (exec m s).1, (exec m s).2) := rfl

@[simp] theorem exec_zoom {ε' τ} (wrap : ε → ε') (part : σ → τ) (put) (m : Stateful ε τ α) (s : σ) :
    exec (zoom wrap part put m) s = ((m.exec (part s)).1.mapError wrap,
      put s (m.exec (part s)).2) := rfl

variable {m : Stateful ε σ α} {f : α → Stateful ε σ β} {s t : σ}

theorem exec_eq_after {s r} (h : (m.exec s).1 = r) : m.exec s = (r, m.after s) := Prod.ext h rfl

theorem exec_bind (m) (f : α → Stateful ε σ β) (s : σ) : exec (m >>= f) s = match exec m s with
      | (.ok a, t) => exec (f a) t
      | (.error e, t) => (.error e, t) := by
  simp only [exec, ExceptT.run]
  change (ExceptT.bindCont f (StateT.run m s).1) (StateT.run m s).2 = _
  rcases hm : StateT.run m s with ⟨a | e, t⟩ <;> rfl

theorem exec_bind_of_ok {a} (h : exec m s = (.ok a, t)) :
    exec (m >>= f) s = exec (f a) t := by rw [exec_bind, h]

theorem exec_bind_of_error {e}
    (h : exec m s = (.error e, t)) : exec (m >>= f) s = (.error e, t) := by rw [exec_bind, h]

theorem exec_get_bind (f : σ → Stateful ε σ β) (s : σ) : exec (get >>= f) s = exec (f s) s := by
  rw [exec_bind, exec_get]

theorem exec_require {c} [Decidable c] (e : ε) (hc : c) (s : σ) :
    exec (require c e) s = (.ok (), s) := by
  rw [require, if_pos hc, exec_pure]

theorem exec_require_of_not {c} [Decidable c] (e : ε) (hc : ¬ c) (s : σ) :
    exec (require c e) s = (.error e, s) := by
  rw [require, if_neg hc, exec_throw]

theorem exec_map (f : α → β) (m : Stateful ε σ α) (s : σ) :
    exec (f <$> m) s = ((exec m s).1.map f, (exec m s).2) := by
  rw [map_eq_pure_bind, exec_bind]
  rcases exec m s with ⟨e | a, t⟩ <;> rfl

theorem exec_discard (m : Stateful ε σ α) (s : σ) :
    exec (discard m) s = ((exec m s).1.map fun _ => PUnit.unit, (exec m s).2) :=
  exec_map (Function.const α PUnit.unit) m s

theorem after_discard (m : Stateful ε σ α) (s : σ) : (discard m).after s = m.after s := by
  rw [after, exec_discard, after]

theorem exec_forM_nil (f : β → Stateful ε σ PUnit) (s : σ) : exec ([].forM f) s = (.ok ⟨⟩, s) := rfl

theorem exec_forM_cons (f : β → Stateful ε σ PUnit) (b : β) (l) (s : σ) :
    exec ((b :: l).forM f) s = exec (f b >>= fun _ => l.forM f) s := rfl

theorem exec_bind_eq_ok {b} :
    exec (m >>= f) s = (.ok b, t) ↔ ∃ a u, exec m s = (.ok a, u) ∧ exec (f a) u = (.ok b, t) := by
  rw [exec_bind]
  rcases hm : exec m s with ⟨e | a, u⟩
  · simp
  · simp

theorem exec_bind_eq_error {e} : exec (m >>= f) s = (.error e, t) ↔ exec m s = (.error e, t) ∨
    ∃ a u, exec m s = (.ok a, u) ∧ exec (f a) u = (.error e, t) := by
  rw [exec_bind]
  rcases hm : exec m s with ⟨e | a, u⟩
  · simp
  · simp

theorem exec_lift_eq_ok {x : Except ε α} {a} :
    exec (lift x) s = (.ok a, t) ↔ x = .ok a ∧ s = t := by
  rw [exec_lift, Prod.mk.injEq]

theorem exec_require_eq_ok {c} [Decidable c] {e : ε} {u} :
    exec (require c e) s = (.ok u, t) ↔ c ∧ s = t := by
  by_cases hc : c
  · rw [exec_require e hc]
    simp [hc]
  · rw [exec_require_of_not e hc]
    simp [hc]

theorem exec_zoom_eq_ok {ε' τ} {wrap : ε → ε'} {part put} {m : Stateful ε τ α}
    {a} : exec (zoom wrap part put m) s = (.ok a, t) ↔ ∃ u, exec m (part s) = (.ok a, u) ∧
    put s u = t := by
  rw [exec_zoom]
  rcases exec m (part s) with ⟨e | b, u⟩
  · simp [Except.mapError]
  · simp [Except.mapError]

-- From a state with `P`, the computation succeeds into `Q` or fails in a state with `E`.
def Triple (P : σ → Prop) (m : Stateful ε σ α) (Q : α → σ → Prop) (E : σ → Prop) : Prop :=
  ∀ s, P s → match m.exec s with
    | (.ok a, t) => Q a t
    | (.error _, t) => E t

namespace Triple

variable {P P' : σ → Prop} {Q Q' : α → σ → Prop} {E E' : σ → Prop} {m : Stateful ε σ α}

section

variable (h : Triple P m Q E)
include h

theorem weaken (hP : ∀ s, P' s → P s) (hQ : ∀ a s, Q a s → Q' a s) (hE : ∀ s, E s → E' s) :
    Triple P' m Q' E' := by
  intro s hs
  have hm := h s (hP s hs)
  rcases hr : m.exec s with ⟨e | a, t⟩
  · simp only [hr] at hm ⊢
    exact hE t hm
  · simp only [hr] at hm ⊢
    exact hQ a t hm

theorem strengthen (hP : ∀ s, P' s → P s) : Triple P' m Q E :=
  h.weaken hP (fun _ _ => id) fun _ => id

theorem relax (hQ : ∀ a s, Q a s → Q' a s) : Triple P m Q' E :=
  h.weaken (fun _ => id) hQ fun _ => id

theorem failing (hE : ∀ s, E s → E' s) : Triple P m Q E' :=
  h.weaken (fun _ => id) (fun _ _ => id) hE

end

theorem bind {f} {R : β → σ → Prop} (hm : Triple P m Q E)
    (hf : ∀ a, Triple (Q a) (f a) R E) : Triple P (m >>= f) R E := by
  intro s hs
  have h := hm s hs
  rw [exec_bind]
  rcases hr : m.exec s with ⟨e | a, t⟩
  · simp only [hr] at h ⊢
    exact h
  · simp only [hr] at h ⊢
    exact hf a t h

theorem ofPure {a} (h : ∀ s, P s → Q a s) : Triple P (pure a : Stateful ε σ α) Q E :=
  fun s hs => h s hs

theorem ofThrow {e} (h : ∀ s, P s → E s) : Triple P (throw e : Stateful ε σ α) Q E :=
  fun s hs => h s hs

theorem ofGet {Q} (h : ∀ s, P s → Q s s) : Triple P (get : Stateful ε σ σ) Q E := fun s hs => h s hs

theorem ofSet {t Q} (h : ∀ s, P s → Q ⟨⟩ t) : Triple P (set t : Stateful ε σ PUnit) Q E :=
  fun s hs => h s hs

theorem ofModify {f Q} (h : ∀ s, P s → Q ⟨⟩ (f s)) : Triple P (modify f : Stateful ε σ PUnit) Q E :=
  fun s hs => h s hs

theorem ofLift {x} (hok : ∀ a s, x = .ok a → P s → Q a s) (herr : ∀ s, P s → E s) :
    Triple P (lift x : Stateful ε σ α) Q E := by
  intro s hs
  cases x with
  | ok a => exact hok a s rfl hs
  | error e => exact herr s hs

theorem ofOkOr {o e} (hok : ∀ a s, o = some a → P s → Q a s)
    (herr : ∀ s, P s → E s) : Triple P (okOr o e : Stateful ε σ α) Q E := by
  cases o with
  | some a => exact ofLift (fun b s hb hs => hok b s (congrArg some (Except.ok.inj hb)) hs) herr
  | none => exact ofLift (fun b s hb => nomatch hb) herr

theorem ofAttempt (h : Triple P m Q E) : Triple P (attempt m)
    (fun r s => match r with | .ok a => Q a s | .error _ => E s) E' := by
  intro s hs
  have hm := h s hs
  rw [exec_attempt]
  rcases hr : m.exec s with ⟨e | a, t⟩
  · simpa [hr] using hm
  · simpa [hr] using hm

theorem ite {c} [Decidable c] {m'} (hpos : c → Triple P m Q E)
    (hneg : ¬ c → Triple P m' Q E) : Triple P (if c then m else m') Q E := by
  by_cases hc : c
  · rw [if_pos hc]
    exact hpos hc
  · rw [if_neg hc]
    exact hneg hc

theorem ofRequire {c} [Decidable c] {e} (h : ∀ s, P s → E s) :
    Triple P (require c e : Stateful ε σ Unit) (fun _ s => c ∧ P s) E :=
  ite (fun hc => ofPure fun _ hs => ⟨hc, hs⟩) fun _ => ofThrow h

theorem assume {p} (h : p → Triple P m Q E) : Triple (fun s => p ∧ P s) m Q E :=
  fun s hs => h hs.1 s hs.2

variable {l : List β} {I : σ → Prop}

theorem forM {f : β → Stateful ε σ PUnit}
    (h : ∀ b ∈ l, Triple I (f b) (fun _ => I) E) : Triple I (l.forM f) (fun _ => I) E := by
  induction l with
  | nil => exact ofPure fun _ => id
  | cons b l ih =>
    exact (h b List.mem_cons_self).bind fun _ => ih fun c hc => h c (List.mem_cons_of_mem b hc)

theorem ofZoom {ε' τ} {wrap : ε → ε'} {part : σ → τ} {put m} (h : ∀ s, P s →
      Triple (fun t => t = part s) m (fun a t => Q a (put s t)) fun t => E (put s t)) :
    Triple P (zoom wrap part put m) Q E := by
  intro s hs
  have hm := h s hs (part s) rfl
  rw [exec_zoom]
  rcases hr : m.exec (part s) with ⟨e | a, t⟩
  · simp only [hr] at hm ⊢
    exact hm
  · simp only [hr] at hm ⊢
    exact hm

theorem mapM {f : β → Stateful ε σ α}
    (h : ∀ b ∈ l, Triple I (f b) (fun _ => I) E) : Triple I (l.mapM f) (fun _ => I) E := by
  induction l with
  | nil => exact ofPure fun _ => id
  | cons b l ih =>
    rw [List.mapM_cons]
    exact (h b List.mem_cons_self).bind fun _ =>
      (ih fun c hc => h c (List.mem_cons_of_mem b hc)).bind fun _ => ofPure fun _ => id

theorem foldlM {f : α → β → Stateful ε σ α} {a}
    (h : ∀ a, ∀ b ∈ l, Triple I (f a b) (fun _ => I) E) :
    Triple I (l.foldlM f a) (fun _ => I) E := by
  induction l generalizing a with
  | nil => exact ofPure fun _ => id
  | cons b l ih =>
    exact (h a b List.mem_cons_self).bind fun _ => ih fun a c hc =>
      h a c (List.mem_cons_of_mem b hc)

theorem after (h : Triple P m (fun _ => E) E) {s} (hs : P s) : E (m.after s) := by
  have hm := h s hs
  unfold Stateful.after
  rcases hr : m.exec s with ⟨e | a, t⟩
  · simpa [hr] using hm
  · simpa [hr] using hm

theorem intro (h : ∀ s, P s → match m.exec s with | (.ok a, t) => Q a t | (.error _, t) => E t) :
    Triple P m Q E := h

theorem apply (h : Triple P m Q E) {s} (hs : P s) :
    match m.exec s with | (.ok a, t) => Q a t | (.error _, t) => E t := h s hs

end Triple

-- From here on a triple is used through its rules.
attribute [irreducible] Triple

def Keeps (I : σ → Prop) (m : Stateful ε σ α) : Prop := Triple I m (fun _ => I) I

namespace Keeps

variable {I : σ → Prop} {m m' : Stateful ε σ α}

theorem bind {f : α → Stateful ε σ β} (hm : Keeps I m) (hf : ∀ a, Keeps I (f a)) :
    Keeps I (m >>= f) :=
  Triple.bind hm hf

theorem ofPure {a} : Keeps I (pure a : Stateful ε σ α) := Triple.ofPure fun _ => id

theorem ofThrow {e} : Keeps I (throw e : Stateful ε σ α) := Triple.ofThrow fun _ => id

theorem ofGet {f : σ → Stateful ε σ β} (h : ∀ s, I s → Keeps I (f s)) : Keeps I (get >>= f) :=
  Triple.bind (Triple.ofGet (Q := fun t s => I t ∧ I s) fun _ hs => ⟨hs, hs⟩) fun t =>
    Triple.assume (h t)

theorem ofSet {t} (h : I t) : Keeps I (set t : Stateful ε σ PUnit) := Triple.intro fun _ _ => h

theorem ofModify {f} (h : ∀ s, I s → I (f s)) : Keeps I (modify f : Stateful ε σ PUnit) :=
  Triple.ofModify h

theorem ofLift {x} : Keeps I (lift x : Stateful ε σ α) :=
  Triple.ofLift (fun _ _ _ => id) fun _ => id

theorem ofOkOr {o e} : Keeps I (okOr o e : Stateful ε σ α) :=
  Triple.ofOkOr (fun _ _ _ => id) fun _ => id

theorem ofRequire {c} [Decidable c] {e} : Keeps I (require c e : Stateful ε σ Unit) :=
  (Triple.ofRequire fun _ => id).relax fun _ _ => And.right

theorem ofAttempt (h : Keeps I m) : Keeps I (attempt m) :=
  (Triple.ofAttempt h).relax fun r _ hr => match r with | .ok _ => hr | .error _ => hr

theorem ite {c} [Decidable c] (hpos : c → Keeps I m) (hneg : ¬ c → Keeps I m') :
    Keeps I (if c then m else m') := Triple.ite hpos hneg

theorem map {f : α → β} (h : Keeps I m) : Keeps I (f <$> m) := by
  exact h.bind fun _ => ofPure

variable {l : List β}

theorem forM {f : β → Stateful ε σ PUnit} (h : ∀ b ∈ l, Keeps I (f b)) : Keeps I (l.forM f) :=
  Triple.forM h

theorem mapM {f : β → Stateful ε σ α} (h : ∀ b ∈ l, Keeps I (f b)) : Keeps I (l.mapM f) :=
  Triple.mapM h

theorem foldlM {f : α → β → Stateful ε σ α} {a} (h : ∀ a, ∀ b ∈ l, Keeps I (f a b)) :
    Keeps I (l.foldlM f a) := Triple.foldlM h

theorem ofZoom {ε' τ} {wrap : ε → ε'} {part put} {m : Stateful ε τ α} {J}
    (h : Keeps J m) (hpart : ∀ s, I s → J (part s)) (hput : ∀ s t, I s → J t → I (put s t)) :
    Keeps I (zoom wrap part put m) :=
  Triple.ofZoom fun s hs => h.weaken (fun _ ht => ht ▸ hpart s hs) (fun _ t => hput s t hs) fun t =>
    hput s t hs

theorem after (h : Keeps I m) {s} (hs : I s) : I (m.after s) := Triple.after h hs

theorem of_exec (h : Keeps I m) {s t r} (hs : I s) (hexec : m.exec s = (r, t)) : I t := by
  have ha := h.after hs
  rwa [Stateful.after, hexec] at ha

end Keeps

def Raises (F : ε → Prop) (m : Stateful ε σ α) : Prop := ∀ s e t, m.exec s = (.error e, t) → F e

namespace Raises

variable {F : ε → Prop} {m m' : Stateful ε σ α}

theorem bind {f : α → Stateful ε σ β} (hm : Raises F m) (hf : ∀ a, Raises F (f a)) :
    Raises F (m >>= f) := by
  intro s e t he
  rcases exec_bind_eq_error.mp he with hfi | ⟨a, u, -, hr⟩
  · exact hm s e t hfi
  · exact hf a u e t hr

theorem ofPure {a} : Raises F (pure a : Stateful ε σ α) := fun _ _ _ h => nomatch h

theorem ofThrow {e} (he : F e) : Raises F (throw e : Stateful ε σ α) := by
  intro s e' t hex
  rw [exec_throw, Prod.mk.injEq, Except.error.injEq] at hex
  exact hex.1 ▸ he

theorem ofGet : Raises F (get : Stateful ε σ σ) := fun _ _ _ h => nomatch h

theorem ofSet {t : σ} : Raises F (set t : Stateful ε σ PUnit) := fun _ _ _ h => nomatch h

theorem ofModify {f} : Raises F (modify f : Stateful ε σ PUnit) := fun _ _ _ h => nomatch h

theorem ofLift {x} (h : ∀ e, x = .error e → F e) : Raises F (lift x : Stateful ε σ α) := by
  intro s e t he
  rw [Prod.mk.injEq] at he
  exact h e he.1

theorem ofOkOr {o e} (he : F e) : Raises F (okOr o e : Stateful ε σ α) := by
  refine ofLift fun e' h => ?_
  cases o with
  | some a => contradiction
  | none => exact Except.error.inj h ▸ he

theorem ite {c} [Decidable c] (hpos : Raises F m) (hneg : Raises F m') :
    Raises F (if c then m else m') := by
  split_ifs
  · exact hpos
  · exact hneg

theorem ofRequire {c} [Decidable c] {e} (he : F e) : Raises F (require c e : Stateful ε σ Unit) :=
  ite ofPure (ofThrow he)

theorem map {f : α → β} (h : Raises F m) : Raises F (f <$> m) := by
  exact h.bind fun _ => ofPure

theorem forM {l : List β} {f : β → Stateful ε σ PUnit} (h : ∀ b, Raises F (f b)) :
    Raises F (l.forM f) := by
  induction l with
  | nil => exact ofPure
  | cons b l ih => exact (h b).bind fun _ => ih

theorem mapM {l : List β} {f : β → Stateful ε σ α} (h : ∀ b, Raises F (f b)) :
    Raises F (l.mapM f) := by
  induction l with
  | nil => exact ofPure
  | cons b l ih =>
    rw [List.mapM_cons]
    exact (h b).bind fun _ => ih.bind fun _ => ofPure

theorem ofZoom {ε' τ} {wrap : ε → ε'} {part : σ → τ} {put} {m : Stateful ε τ α} {G}
    (h : Raises (fun e => G (wrap e)) m) : Raises G (zoom wrap part put m) := by
  intro s e t he
  rw [exec_zoom, Prod.mk.injEq] at he
  rcases hm : m.exec (part s) with ⟨e' | a, u⟩
  · rw [hm] at he
    exact Except.error.inj he.1 ▸ h _ _ _ hm
  · rw [hm] at he
    exact nomatch he.1

end Raises

end Stateful
