import Mathlib.Data.List.Chain
import Mathlib.Data.List.TakeWhile

-- Trees given by parent pointers. The rank falls towards the roots, so every path ends.
structure Forest (α : Type*) where
  parent : α → Option α
  rank : α → Nat
  rank_lt : ∀ {a b}, parent a = some b → rank b < rank a

namespace Forest

open List

variable {α : Type*} (self : Forest α)

def pathFrom : Nat → α → List α
  | 0, a => [a]
  | fuel + 1, a => a :: (self.parent a).elim [] (pathFrom fuel)

def path (a : α) : List α := self.pathFrom (self.rank a) a

variable {self} {a b c : α}

theorem pathFrom_eq_path {fuel} (h : self.rank a ≤ fuel) : self.pathFrom fuel a = self.path a := by
  unfold path
  generalize hra : self.rank a = r
  induction r using Nat.strong_induction_on generalizing a fuel with
  | _ r ih =>
    cases fuel with
    | zero =>
      obtain rfl : r = 0 := by omega
      rfl
    | succ fuel =>
      cases r with
      | zero =>
        cases hp : self.parent a with
        | none => simp [pathFrom, hp]
        | some b =>
          have := self.rank_lt hp
          omega
      | succ r =>
        cases hp : self.parent a with
        | none => simp [pathFrom, hp]
        | some b =>
          have hlt := self.rank_lt hp
          have hf : self.pathFrom fuel b = self.pathFrom (self.rank b) b :=
            ih _ (by omega) (by omega) rfl
          have hr : self.pathFrom r b = self.pathFrom (self.rank b) b :=
            ih _ (by omega) (by omega) rfl
          simp [pathFrom, hp, hf, hr]

theorem path_of_parent (h : self.parent a = some b) : self.path a = a :: self.path b := by
  have hlt := self.rank_lt h
  have hf : self.pathFrom (self.rank a - 1) b = self.path b := pathFrom_eq_path (by omega)
  rw [path, show self.rank a = (self.rank a - 1) + 1 by omega]
  simp [pathFrom, h, hf]

theorem path_of_root (h : self.parent a = none) : self.path a = [a] := by
  unfold path
  cases self.rank a <;> simp [pathFrom, h]

theorem path_eq_cons (a : α) : self.path a = a :: (self.parent a).elim [] self.path := by
  cases hp : self.parent a with
  | none => exact path_of_root hp
  | some b => exact path_of_parent hp

theorem induct {P : α → Prop} (root : ∀ a, self.parent a = none → P a)
    (step : ∀ a b, self.parent a = some b → P b → P a) (a : α) : P a := by
  generalize hr : self.rank a = r
  induction r using Nat.strong_induction_on generalizing a with
  | _ r ih =>
    cases hp : self.parent a with
    | none => exact root a hp
    | some b => exact step a b hp (ih _ (hr ▸ self.rank_lt hp) b rfl)

theorem mem_path_self : a ∈ self.path a := by
  cases hp : self.parent a with
  | none => simp [path_of_root hp]
  | some b => simp [path_of_parent hp]

theorem path_suffix (h : b ∈ self.path a) : self.path b <:+ self.path a := by
  induction a using self.induct with
  | root a hp =>
    rw [path_of_root hp, mem_singleton] at h
    exact ⟨[], by simp [h]⟩
  | step a c hp ih =>
    rw [path_of_parent hp] at h ⊢
    rcases mem_cons.mp h with rfl | h
    · exact ⟨[], by simp [path_of_parent hp]⟩
    · exact (ih h).trans (suffix_cons a _)

theorem path_subset_of_parent (hp : self.parent a = some c) : self.path c ⊆ self.path a := by
  rw [path_of_parent hp]
  exact subset_cons_self a _

theorem mem_path_parent (hp : self.parent a = some c) (hne : a ≠ b) (h : b ∈ self.path a) :
    b ∈ self.path c := by
  rw [path_of_parent hp] at h
  exact (mem_cons.mp h).resolve_left (Ne.symm hne)

theorem mem_path_trans (hab : b ∈ self.path a) (hbc : c ∈ self.path b) : c ∈ self.path a :=
  (path_suffix hab).subset hbc

theorem rank_le_of_mem_path (h : b ∈ self.path a) : self.rank b ≤ self.rank a := by
  induction a using self.induct with
  | root a hp =>
    rw [path_of_root hp, mem_singleton] at h
    rw [h]
  | step a c hp ih =>
    rw [path_of_parent hp] at h
    rcases mem_cons.mp h with rfl | h
    · exact le_refl _
    · exact (ih h).trans (self.rank_lt hp).le

theorem not_mem_path_of_parent (h : self.parent a = some b) : a ∉ self.path b := by
  intro hmem
  have := rank_le_of_mem_path hmem
  have := self.rank_lt h
  omega

theorem path_antisymm (hab : b ∈ self.path a) (hba : a ∈ self.path b) : b = a := by
  cases hp : self.parent a with
  | none => simpa [path_of_root hp] using hab
  | some c =>
    rw [path_of_parent hp] at hab
    rcases mem_cons.mp hab with rfl | hab
    · rfl
    · have hlow := rank_le_of_mem_path hab
      have hh := rank_le_of_mem_path hba
      have hlt := self.rank_lt hp
      omega

theorem zip_tail_snoc {l} {x y : α} (h : l.getLast? = some x) :
    (l ++ [y]).zip (l ++ [y]).tail = l.zip l.tail ++ [(x, y)] := by
  induction l with
  | nil => simp at h
  | cons z l ih =>
    cases l with
    | nil =>
      simp only [getLast?_singleton, Option.some.injEq] at h
      simp [h]
    | cons w l =>
      simpa using ih h

section Climb

variable [DecidableEq α]

def forward (self : Forest α) (b a : α) : List α := b :: ((self.path a).takeWhile (· ≠ b)).reverse

def climb (self : Forest α) (b a : α) : List (α × α) :=
  (self.forward b a).zip (self.forward b a).tail

theorem forward_self : self.forward a a = [a] := by
  cases hp : self.parent a with
  | none => simp [forward, path_of_root hp]
  | some b => simp [forward, path_of_parent hp]

theorem forward_of_parent (hp : self.parent a = some c) (hne : a ≠ b) :
    self.forward b a = self.forward b c ++ [a] := by
  simp [forward, path_of_parent hp, hne]

section

variable (h : b ∈ self.path a) (hc : c ∈ self.forward b a)
include h hc

theorem mem_path_of_mem_forward : c ∈ self.path a := by
  rcases mem_cons.mp hc with rfl | hc
  · exact h
  · exact takeWhile_subset _ (mem_reverse.mp hc)

theorem mem_path_of_forward : b ∈ self.path c := by
  induction a using self.induct with
  | root a hp =>
    obtain rfl : b = a := by simpa [path_of_root hp] using h
    rw [forward_self, mem_singleton] at hc
    exact hc ▸ h
  | step a d hp ih =>
    by_cases hne : a = b
    · subst hne
      rw [forward_self, mem_singleton] at hc
      exact hc ▸ h
    · rw [forward_of_parent hp hne] at hc
      rcases mem_append.mp hc with hc | hc
      · exact ih (mem_path_parent hp hne h) hc
      · exact mem_singleton.mp hc ▸ h

end

theorem getLastD_takeWhile_forward {p} (hdown : ∀ x ∈ self.path a, ∀ y ∈ self.path x, p x → p y)
    (h : b ∈ self.path a) (hb : p b ∨ self.parent b = none) :
    ((self.forward b a).takeWhile p).getLastD b = ((self.path a).find? p).getD b := by
  induction a using self.induct with
  | root a hp =>
    obtain rfl : b = a := by simpa [path_of_root hp] using h
    cases hpb : p b <;> simp [forward_self, path_of_root hp, hpb]
  | step a c hp ih =>
    by_cases hne : a = b
    · subst hne
      have hpa : p a := hb.resolve_right (by simp [hp])
      simp [forward_self, path_of_parent hp, hpa]
    · have hsub := path_subset_of_parent hp
      have hc := mem_path_parent hp hne h
      rw [forward_of_parent hp hne, path_of_parent hp]
      cases hpa : p a with
      | true =>
        have hall : ∀ x ∈ self.forward b c ++ [a], p x := by
          intro x hx
          rcases mem_append.mp hx with hx | hx
          · exact hdown a mem_path_self x (hsub (mem_path_of_mem_forward hc hx)) hpa
          · rwa [mem_singleton.mp hx]
        rw [takeWhile_eq_self_iff.mpr hall]
        simp [hpa]
      | false =>
        have ht : (self.forward b c ++ [a]).takeWhile p = (self.forward b c).takeWhile p := by
          rw [takeWhile_append]
          split_ifs with hl
          · simp [hpa, (takeWhile_sublist p).eq_of_length hl]
          · rfl
        rw [ht, ih (fun x hx => hdown x (hsub hx)) hc]
        simp [hpa]

theorem climb_self : self.climb a a = [] := by simp [climb, forward_self]

theorem getLast?_forward (h : b ∈ self.path a) : (self.forward b a).getLast? = some a := by
  by_cases hne : a = b
  · subst hne
    simp [forward_self]
  · cases hp : self.parent a with
    | none => simp [path_of_root hp, Ne.symm hne] at h
    | some c => simp [forward_of_parent hp hne]

theorem isChain_forward (h : b ∈ self.path a) :
    (self.forward b a).IsChain fun p q => self.parent q = some p := by
  induction a using self.induct with
  | root a hp =>
    obtain rfl : b = a := by simpa [path_of_root hp] using h
    simp [forward_self]
  | step a c hp ih =>
    by_cases hne : a = b
    · subst hne
      simp [forward_self]
    · have hc := mem_path_parent hp hne h
      rw [forward_of_parent hp hne]
      exact (ih hc).append (isChain_singleton a) (by simp [getLast?_forward hc, hp])

theorem climb_of_parent (hp : self.parent a = some c) (hne : a ≠ b) (h : b ∈ self.path a) :
    self.climb b a = self.climb b c ++ [(c, a)] := by
  unfold climb
  rw [forward_of_parent hp hne]
  exact zip_tail_snoc (getLast?_forward (mem_path_parent hp hne h))

theorem parent_of_mem_climb (h : b ∈ self.path a) {p q} (hpq : (p, q) ∈ self.climb b a) :
    self.parent q = some p := by
  induction a using self.induct with
  | root a hp =>
    rw [path_of_root hp, mem_singleton] at h
    subst h
    simp [climb_self] at hpq
  | step a c hp ih =>
    by_cases hne : a = b
    · subst hne
      simp [climb_self] at hpq
    · rw [climb_of_parent hp hne h] at hpq
      rcases mem_append.mp hpq with hpq | hpq
      · exact ih (mem_path_parent hp hne h) hpq
      · simp only [mem_singleton, Prod.mk.injEq] at hpq
        rw [hpq.1, hpq.2]
        exact hp

theorem between_of_mem_climb (h : b ∈ self.path a) {p q} (hpq : (p, q) ∈ self.climb b a) :
    q ∈ self.path a ∧ b ∈ self.path p := by
  obtain ⟨hp, hq⟩ := of_mem_zip hpq
  exact ⟨mem_path_of_mem_forward h (mem_of_mem_tail hq), mem_path_of_forward h hp⟩

end Climb

end Forest
