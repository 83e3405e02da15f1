import Spora.Lib.Outcome
import Spora.Lib.TreeMap

-- Rules for merging two partial records: the one value that is there, a map extended by another and
-- a list laid over a shorter one.
namespace Combine

open Std Outcome

universe u

section Optional

variable {α : Type} {ε : Type u} [DecidableEq α]

def keepOne (conflict : α → α → ε) : Option α → Option α → Except ε (Option α)
  | none, none => .ok none
  | some a, none => .ok (some a)
  | none, some b => .ok (some b)
  | some a, some b => if a = b then .ok (some a) else .error (conflict a b)

theorem keepOne_eq_ok_iff {conf : α → α → ε} {x y z} :
    keepOne conf x y = .ok z ↔ z = x.or y ∧ ∀ a ∈ x, ∀ b ∈ y, a = b := by
  cases x with
  | none => cases y <;> simp [keepOne, eq_comm]
  | some a =>
    cases y with
    | none => simp [keepOne, eq_comm]
    | some b =>
      by_cases hab : a = b
      · simp [keepOne, hab, eq_comm]
      · simp [keepOne, hab]

theorem fails_keepOne {F} {conf : α → α → ε} (h : ∀ a b, F (conf a b)) {x y} :
    Fails F (keepOne conf x y) := by
  cases x with
  | none => cases y <;> exact .ofOk
  | some a =>
    cases y with
    | none => exact .ofOk
    | some b => exact .ite .ofOk (.ofError (h a b))

end Optional

section Maps

variable {κ ν : Type} {ε : Type u} {cmp : κ → κ → Ordering} [TransCmp cmp] [LawfulEqCmp cmp]

def extend (m n : ExtTreeMap κ ν cmp) : ExtTreeMap κ ν cmp :=
  n.toList.foldl (fun m p => m.insert p.1 p.2) m

theorem getElem?_extend [DecidableEq κ] (m n : ExtTreeMap κ ν cmp) (k : κ) :
    (extend m n)[k]? = n[k]?.or m[k]? := by
  have hw : ∀ (l : List (κ × ν)) (m : ExtTreeMap κ ν cmp), (l.map Prod.fst).Nodup →
      (l.foldl (fun m p => m.insert p.1 p.2) m)[k]? = (l.lookup k).or m[k]? := by
    intro l
    induction l with
    | nil => simp
    | cons p l ih =>
      intro m hn
      obtain ⟨hp, hn⟩ := List.nodup_cons.mp hn
      rw [List.foldl_cons, ih _ hn, TreeMap.getElem?_insert_eq, TreeMap.lookup_cons_eq]
      by_cases hk : p.1 = k
      · subst hk
        simp [TreeMap.lookup_eq_none_of_not_mem hp]
      · simp [hk]
  unfold extend
  rw [hw _ _ (TreeMap.nodup_map_fst_toList n), TreeMap.lookup_toList]

-- What `step` does with one entry: a value for a key that is there is weighed against the one
-- there.
def MergesEntry (step : ExtTreeMap κ ν cmp → κ × ν → Except ε (ExtTreeMap κ ν cmp))
    (clash : κ → ν → ν → Option ε) (keep : ν → ν → ν) : Prop :=
  ∀ m k v, step m (k, v) =
    (m[k]?.bind (clash k · v)).elim (.ok (m.insert k (m[k]?.elim v (keep · v)))) .error

variable {step : ExtTreeMap κ ν cmp → κ × ν → Except ε (ExtTreeMap κ ν cmp)}
  {clash : κ → ν → ν → Option ε}
  {keep : ν → ν → ν} [DecidableEq κ]

variable (hstep : MergesEntry step clash keep)
include hstep

theorem foldlM_mergesEntry {l : List (κ × ν)} (hl : (l.map Prod.fst).Nodup)
    {m₀ m : ExtTreeMap κ ν cmp} (hm : ∀ p ∈ l, m[p.1]? = m₀[p.1]?) :
    (∀ e, l.foldlM step m = .error e ↔
      l.findSome? (fun p => m₀[p.1]?.bind (clash p.1 · p.2)) = some e) ∧
    ∀ m', l.foldlM step m = .ok m' →
    ∀ k, m'[k]? = (l.lookup k).elim m[k]? fun v => some (m₀[k]?.elim v (keep · v)) := by
  induction l generalizing m with
  | nil =>
    refine ⟨fun e => by simp, fun m' h k => ?_⟩
    rw [← Except.ok.inj h]
    rfl
  | cons p l ih =>
    obtain ⟨k, v⟩ := p
    obtain ⟨hk, hl⟩ := List.nodup_cons.mp hl
    obtain ⟨hkm, hm⟩ := List.forall_mem_cons.mp hm
    rw [List.foldlM_cons, hstep, List.findSome?_cons, hkm]
    cases hc : m₀[k]?.bind (clash k · v) with
    | some e => simp
    | none =>
      have hr : ∀ p ∈ l, (m.insert k (m₀[k]?.elim v (keep · v)))[p.1]? = m₀[p.1]? := by
        intro p hp
        have hne : k ≠ p.1 := by
          rintro rfl
          exact hk (List.mem_map.mpr ⟨p, hp, rfl⟩)
        rw [TreeMap.getElem?_insert_eq, if_neg hne, hm p hp]
      obtain ⟨he, hok⟩ := ih hl hr
      refine ⟨he, fun m' h j => ?_⟩
      rw [hok m' h j, TreeMap.getElem?_insert_eq, TreeMap.lookup_cons_eq]
      by_cases hj : k = j
      · subst hj
        simp [TreeMap.lookup_eq_none_of_not_mem hk]
      · simp [hj]

theorem merge_spec (m n : ExtTreeMap κ ν cmp) : (∀ e, n.toList.foldlM step m = .error e ↔
      n.toList.findSome? (fun p => m[p.1]?.bind (clash p.1 · p.2)) = some e) ∧
    ∀ m', n.toList.foldlM step m = .ok m' → ∀ k : κ, m'[k]? = Option.merge keep m[k]? n[k]? := by
  obtain ⟨he, hok⟩ := foldlM_mergesEntry hstep (TreeMap.nodup_map_fst_toList n) fun p _ =>
    (rfl : m[p.1]? = m[p.1]?)
  refine ⟨he, fun m' h k => ?_⟩
  rw [hok m' h k, TreeMap.lookup_toList]
  cases m[k]? <;> cases n[k]? <;> rfl

end Maps

section Lists

variable {α : Type} {ε : Type u} {f : α → α → Except ε α}

-- The elements of `short` merged into those of `long` with the same position.
def overlay (f : α → α → Except ε α) : List α → List α → Except ε (List α)
  | long, [] => .ok long
  | [], _ :: _ => .ok []
  | a :: long, b :: short => do
    let c ← f a b
    let rest ← overlay f long short
    return c :: rest

def combineLonger (f : α → α → Except ε α) (left right : List α) : Except ε (List α) :=
  if right.length < left.length then overlay f left right else overlay f right left

variable {long short result : List α}

theorem overlay_cons_eq_ok {a b} (h : overlay f (a :: long) (b :: short) = .ok result) :
    ∃ c rest, f a b = .ok c ∧ overlay f long short = .ok rest ∧ result = c :: rest := by
  obtain ⟨c, hc, h⟩ := bind_ok h
  obtain ⟨rest, hr, h⟩ := bind_ok h
  exact ⟨c, rest, hc, hr, (Except.ok.inj h).symm⟩

theorem length_overlay (h : overlay f long short = .ok result) : result.length = long.length := by
  induction long generalizing short result with
  | nil => cases short <;> simp [← Except.ok.inj h]
  | cons a long ih =>
    cases short with
    | nil => rw [← Except.ok.inj h]
    | cons b short =>
      obtain ⟨c, rest, -, hr, rfl⟩ := overlay_cons_eq_ok h
      rw [List.length_cons, List.length_cons, ih hr]

theorem overlay_at (h : overlay f long short = .ok result) (i : Nat) :
    (short[i]? = none → result[i]? = long[i]?) ∧
    ∀ a b, long[i]? = some a → short[i]? = some b → ∃ c, result[i]? = some c ∧ f a b = .ok c := by
  induction long generalizing short result i with
  | nil =>
    have hr : result = [] := by
      cases short with
      | nil => exact (Except.ok.inj h).symm
      | cons b short => exact (Except.ok.inj h).symm
    simp [hr]
  | cons a long ih =>
    cases short with
    | nil => simp [← Except.ok.inj h]
    | cons b short =>
      obtain ⟨c, rest, hc, hre, rfl⟩ := overlay_cons_eq_ok h
      cases i with
      | zero => simp [hc]
      | succ i => simpa using ih hre i

-- `result` is made of `left` and `right`, by `f` in one order or the other where both have an
-- element.
structure Merges (f : α → α → Except ε α) (left right result : List α) : Prop where
  length : result.length = max left.length right.length
  ofLeft : ∀ i : Nat, right[i]? = none → result[i]? = left[i]?
  ofRight : ∀ i : Nat, left[i]? = none → result[i]? = right[i]?
  both : ∀ (i : Nat) a b, left[i]? = some a → right[i]? = some b →
    ∃ c, result[i]? = some c ∧ (f a b = .ok c ∨ f b a = .ok c)

theorem Merges.symm {left right result : List α} (h : Merges f left right result) :
    Merges f right left result where
  length := h.length.trans (max_comm _ _)
  ofLeft := h.ofRight
  ofRight := h.ofLeft
  both i a b ha hb := by
    obtain ⟨c, hc, hf⟩ := h.both i b a hb ha
    exact ⟨c, hc, hf.symm⟩

theorem merges_overlay (h : overlay f long short = .ok result)
    (hlength : short.length ≤ long.length) : Merges f long short result where
  length := (length_overlay h).trans (max_eq_left hlength).symm
  ofLeft i := (overlay_at h i).1
  ofRight i hl := by
    have hs : short[i]? = none := by
      rw [List.getElem?_eq_none_iff] at hl ⊢
      omega
    rw [(overlay_at h i).1 hs, hl, hs]
  both i a b ha hb := by
    obtain ⟨c, hc, hf⟩ := (overlay_at h i).2 a b ha hb
    exact ⟨c, hc, .inl hf⟩

theorem merges_combineLonger {left right result} (h : combineLonger f left right = .ok result) :
    Merges f left right result := by
  unfold combineLonger at h
  split_ifs at h with hl
  · exact merges_overlay h hl.le
  · exact (merges_overlay h (Nat.le_of_not_lt hl)).symm

end Lists

end Combine
