import Mathlib.Data.List.Basic

-- Encodings that mark their own end. If two messages start with such an encoding and are equal, so
-- are the encoded values and what follows them; a message is then read field by field.
namespace Framing

open List

variable {α β γ ι : Type*}

def Framed (valid : α → Prop) (encode : α → List β) : Prop :=
  ∀ ⦃a b : α⦄ ⦃x y : List β⦄, valid a → valid b → encode a ++ x = encode b ++ y → a = b ∧ x = y

variable {valid : α → Prop} {encode : α → List β}

theorem Framed.of_length {n} (hlength : ∀ a, (encode a).length = n)
    (hinj : ∀ a b, valid a → valid b → encode a = encode b → a = b) : Framed valid encode := by
  intro a b x y ha hb h
  obtain ⟨henc, hr⟩ := append_inj h ((hlength a).trans (hlength b).symm)
  exact ⟨hinj a b ha hb henc, hr⟩

section

variable (h : Framed valid encode)
include h

theorem Framed.eq_of_eq {a b} (ha : valid a) (hb : valid b) (hab : encode a = encode b) : a = b :=
  (h ha hb (congrArg (· ++ []) hab)).1

theorem Framed.map {f : β → γ} (hf : Function.Injective f) :
    Framed valid fun a => (encode a).map f := by
  intro a b x y ha hb hab
  -- the shorter of the two encodings is a prefix of the other one
  have hc : ∀ {a b} {x y}, valid a → valid b →
      (encode a).length ≤ (encode b).length → (encode a).map f ++ x = (encode b).map f ++ y →
          a = b ∧ x = y := by
    intro a b x y ha hb hle hab
    have hs : (encode b).map f = ((encode b).take (encode a).length).map f ++
        ((encode b).drop (encode a).length).map f := by
      rw [← map_append, take_append_drop]
    rw [hs, append_assoc] at hab
    obtain ⟨hfi, hr⟩ := append_inj hab (by simp [hle])
    have ht := hf.list_map hfi
    have hfr : encode a ++ (encode b).drop (encode a).length = encode b ++ [] := by
      rw [append_nil]
      conv_rhs => rw [← take_append_drop (encode a).length (encode b)]
      rw [← ht]
    obtain ⟨heq, hd⟩ := h ha hb hfr
    rw [hd] at hr
    exact ⟨heq, by simpa using hr⟩
  rcases Nat.le_total (encode a).length (encode b).length with hle | hle
  · exact hc ha hb hle hab
  · obtain ⟨heq, hr⟩ := hc hb ha hle hab.symm
    exact ⟨heq.symm, hr.symm⟩

theorem Framed.flatMap {l m : List α} {x y}
    (hlength : l.length = m.length) (hl : ∀ a ∈ l, valid a) (hm : ∀ a ∈ m, valid a)
    (heq : l.flatMap encode ++ x = m.flatMap encode ++ y) : l = m ∧ x = y := by
  induction l generalizing m with
  | nil =>
    obtain rfl : m = [] := length_eq_zero_iff.mp hlength.symm
    exact ⟨rfl, heq⟩
  | cons a l ih =>
    cases m with
    | nil => simp at hlength
    | cons b m =>
      rw [forall_mem_cons] at hl hm
      rw [flatMap_cons, flatMap_cons, append_assoc, append_assoc] at heq
      obtain ⟨rfl, ht⟩ := h hl.1 hm.1 heq
      obtain ⟨rfl, hr⟩ := ih (by simpa using hlength) hl.2 hm.2 ht
      exact ⟨rfl, hr⟩

theorem Framed.eq_of_flatMap (hne : ∀ a, encode a ≠ []) {l m : List α}
    (hl : ∀ a ∈ l, valid a) (hm : ∀ a ∈ m, valid a) (heq : l.flatMap encode = m.flatMap encode) :
    l = m := by
  induction l generalizing m with
  | nil =>
    cases m with
    | nil => rfl
    | cons b m => exact absurd (append_eq_nil_iff.mp heq.symm).1 (hne b)
  | cons a l ih =>
    cases m with
    | nil => exact absurd (append_eq_nil_iff.mp heq).1 (hne a)
    | cons b m =>
      rw [forall_mem_cons] at hl hm
      obtain ⟨rfl, hr⟩ := h hl.1 hm.1 heq
      rw [ih hl.2 hm.2 hr]

end

theorem Framed.counted {count bound} (hcount : Framed bound count) (h : Framed valid encode) :
    Framed (fun l : List α => bound l.length ∧ ∀ a ∈ l, valid a)
    fun l => count l.length ++ l.flatMap encode := by
  intro l m x y hl hm heq
  rw [append_assoc, append_assoc] at heq
  obtain ⟨hle, hr⟩ := hcount hl.1 hm.1 heq
  exact h.flatMap hle hl.2 hm.2 hr

end Framing
