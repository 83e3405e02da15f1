import Mathlib.Algebra.BigOperators.Intervals
import Mathlib.Algebra.BigOperators.Ring.Finset
import Mathlib.Algebra.Group.Action.Defs
import Mathlib.Algebra.Order.BigOperators.Group.Finset
import Mathlib.Tactic.Ring

-- Numbers in a positional system: limb i of a number counts base ^ i. The product of two numbers is
-- the sum of its columns, the lower half and the upper half apart.
namespace Limbs

open Finset

variable {b n : Nat} {x y : Nat → Nat}

def value (b : Nat) (x : Nat → Nat) (n : Nat) : Nat := ∑ i ∈ range n, x i * b ^ i

@[simp] theorem value_zero : value b x 0 = 0 := rfl

theorem value_succ : value b x (n + 1) = value b x n + x n * b ^ n := sum_range_succ _ _

theorem value_congr (h : ∀ i < n, x i = y i) : value b x n = value b y n :=
  sum_congr rfl fun i hi => by rw [h i (mem_range.mp hi)]

theorem value_lt (h : ∀ i < n, x i < b) : value b x n < b ^ n := by
  induction n with
  | zero => exact Nat.one_pos
  | succ n ih =>
    have hlow := ih fun i hi => h i (Nat.lt_succ_of_lt hi)
    have hh : (x n + 1) * b ^ n ≤ b * b ^ n := Nat.mul_le_mul_right _ (h n (Nat.lt_succ_self n))
    rw [value_succ, Nat.pow_succ']
    rw [Nat.add_mul] at hh
    omega

theorem value_succ_low : value b x (n + 1) = x 0 + b * value b (fun i => x (i + 1)) n := by
  rw [value, sum_range_succ', value, mul_sum, Nat.pow_zero, Nat.mul_one, Nat.add_comm]
  refine congrArg (x 0 + ·) (sum_congr rfl fun i _ => ?_)
  ring

theorem value_add (m k : Nat) :
    value b x (m + k) = value b x m + b ^ m * value b (fun i => x (m + i)) k := by
  rw [value, sum_range_add, value, value, mul_sum]
  refine congrArg _ (sum_congr rfl fun i _ => ?_)
  ring

theorem value_mul_add (c : Nat) :
    value b (fun i => x i * c + y i) n = value b x n * c + value b y n := by
  rw [value, value, value, sum_mul, ← sum_add_distrib]
  refine sum_congr rfl fun i _ => ?_
  ring

theorem testBit_value {w} (h : ∀ i < n, x i < 2 ^ w) (i : Nat) :
    (value (2 ^ w) x n).testBit i = (decide (i < w * n) && (x (i / w)).testBit (i % w)) := by
  induction n with
  | zero => simp
  | succ n ih =>
    have hl := value_lt fun i hi => h i (Nat.lt_succ_of_lt hi)
    rw [← pow_mul] at hl
    rw [value_succ, ← pow_mul, Nat.add_comm, Nat.mul_comm, Nat.testBit_two_pow_mul_add _ hl,
      ih fun i hi => h i (Nat.lt_succ_of_lt hi), Nat.mul_succ]
    split_ifs with hi
    · simp [hi, Nat.lt_add_right w hi]
    · by_cases hw : i < w * n + w
      · have hq : i / w = n :=
          Nat.div_eq_of_lt_le (by rw [Nat.mul_comm]; omega) (by rw [Nat.mul_comm]; omega)
        have hr : i % w = i - w * n := by rw [Nat.mod_eq_sub_mul_div, hq]
        simp [hw, hq, hr]
      · have ht := Nat.testBit_lt_two_pow (Nat.lt_of_lt_of_le (h n (Nat.lt_succ_self n))
          (Nat.pow_le_pow_right Nat.two_pos (by omega : w ≤ i - w * n)))
        simp [hw, ht]

theorem value_add_one_eq_iff (h : ∀ i < n, x i < b) :
    value b x n + 1 = b ^ n ↔ ∀ i < n, x i + 1 = b := by
  induction n with
  | zero => exact ⟨fun _ i hi => absurd hi (Nat.not_lt_zero i), fun _ => rfl⟩
  | succ n ih =>
    have hlow := value_lt fun i hi => h i (Nat.lt_succ_of_lt hi)
    have htop := h n (Nat.lt_succ_self n)
    have hs : value b x n + x n * b ^ n + 1 = b * b ^ n ↔ value b x n + 1 = b ^ n ∧
        x n + 1 = b := by
      constructor
      · intro heq
        have hle : x n + 1 = b := by
          by_contra hne
          have hless : (x n + 2) * b ^ n ≤ b * b ^ n := Nat.mul_le_mul_right _ (by omega)
          rw [Nat.add_mul] at hless
          omega
        rw [← hle, Nat.add_mul] at heq
        exact ⟨by rw [hle] at heq; omega, hle⟩
      · rintro ⟨hv, hl⟩
        calc value b x n + x n * b ^ n + 1 = (x n + 1) * b ^ n := by rw [Nat.add_mul]; omega
          _ = b * b ^ n := by rw [hl]
    rw [value_succ, Nat.pow_succ', hs, ih fun i hi => h i (Nat.lt_succ_of_lt hi)]
    constructor
    · rintro ⟨hr, hl⟩ i hi
      rcases Nat.lt_succ_iff_lt_or_eq.mp hi with hlt | rfl
      · exact hr i hlt
      · exact hl
    · exact fun hall => ⟨fun i hi => hall i (Nat.lt_succ_of_lt hi), hall n (Nat.lt_succ_self n)⟩

theorem value_inj (hx : ∀ i < n, x i < b) (hy : ∀ i < n, y i < b) (h : value b x n = value b y n) :
    ∀ i < n, x i = y i := by
  induction n with
  | zero => exact fun i hi => absurd hi (Nat.not_lt_zero i)
  | succ n ih =>
    have hxl := value_lt fun i hi => hx i (Nat.lt_succ_of_lt hi)
    have hyl := value_lt fun i hi => hy i (Nat.lt_succ_of_lt hi)
    rw [value_succ, value_succ] at h
    have hpos : 0 < b ^ n := Nat.zero_lt_of_lt hxl
    have hdiv : ∀ {z}, value b z n < b ^ n → (value b z n + z n * b ^ n) / b ^ n = z n := by
      intro z hz
      rw [Nat.add_mul_div_right _ _ hpos, Nat.div_eq_of_lt hz, Nat.zero_add]
    have htop : x n = y n := by rw [← hdiv hxl, h, hdiv hyl]
    rw [htop, Nat.add_right_cancel_iff] at h
    intro i hi
    rcases Nat.lt_succ_iff_lt_or_eq.mp hi with hlt | rfl
    · exact ih (fun i hi => hx i (Nat.lt_succ_of_lt hi))
        (fun i hi => hy i (Nat.lt_succ_of_lt hi)) h i hlt
    · exact htop

theorem mul_toNat_le (a b : UInt64) : a.toNat * b.toNat ≤ (2 ^ 64 - 1) * (2 ^ 64 - 1) :=
  Nat.mul_le_mul (Nat.le_pred_of_lt a.toNat_lt) (Nat.le_pred_of_lt b.toNat_lt)

def lowColumn (x y : Nat → Nat) (k : Nat) : Nat := ∑ i ∈ range (k + 1), x i * y (k - i)

def highColumn (x y : Nat → Nat) (n k : Nat) : Nat := ∑ i ∈ Ico (k + 1) n, x i * y (n + k - i)

theorem sum_products_le {s} {f : Nat → Nat} {m} (hx : ∀ i ∈ s, x i ≤ m)
    (hy : ∀ i ∈ s, y (f i) ≤ m) : ∑ i ∈ s, x i * y (f i) ≤ #s * (m * m) := by
  exact sum_le_card_nsmul _ _ _ fun i hi => Nat.mul_le_mul (hx i hi) (hy i hi)

theorem value_lowColumn :
    value b (lowColumn x y) n = ∑ i ∈ range n, ∑ j ∈ range (n - i), x i * y j * b ^ (i + j) := by
  rw [← sum_range_diag_flip n fun i j => x i * y j * b ^ (i + j)]
  refine sum_congr rfl fun k _ => ?_
  rw [lowColumn, sum_mul]
  refine sum_congr rfl fun i hi => ?_
  rw [Nat.add_sub_cancel' (Nat.lt_succ_iff.mp (mem_range.mp hi))]

theorem value_lowColumn_rows :
    value b (lowColumn x y) n = ∑ i ∈ range n, x i * b ^ i * value b y (n - i) := by
  rw [value_lowColumn]
  refine sum_congr rfl fun i _ => ?_
  rw [value, mul_sum]
  refine sum_congr rfl fun j _ => ?_
  ring

theorem value_mul_value : value b x n * value b y n =
    value b (lowColumn x y) n + b ^ n * value b (highColumn x y n) n := by
  have hh : b ^ n * value b (highColumn x y n) n =
      ∑ i ∈ range n, ∑ k ∈ range i, x i * y (n - i + k) * b ^ (i + (n - i + k)) := by
    rw [value, range_eq_Ico]
    simp only [highColumn, sum_mul, mul_sum]
    rw [sum_Ico_Ico_comm']
    refine sum_congr rfl fun i hi => sum_congr (range_eq_Ico i).symm fun k hk => ?_
    have hi := (mem_Ico.mp hi).2
    have hin : n + k - i = n - i + k := by omega
    have hpow : i + (n - i + k) = n + k := by omega
    rw [hin, hpow]
    ring
  rw [value_lowColumn, hh, ← sum_add_distrib, value, value, sum_mul_sum]
  refine sum_congr rfl fun i hi => ?_
  have hs := (Nat.sub_add_cancel (mem_range.mp hi).le).symm
  conv_lhs => rw [hs, sum_range_add]
  refine congrArg₂ (· + ·) (sum_congr rfl fun j _ => ?_) (sum_congr rfl fun j _ => ?_)
  · rw [pow_add]
    ring
  · rw [pow_add _ i]
    ring

section Carry

variable {α β σ : Type*}

def digits (f : α → Nat) (l : List α) (i : Nat) : Nat := l[i]?.elim 0 f

theorem value_digits_cons {f : α → Nat} {a l} :
    value b (digits f (a :: l)) (n + 1) = f a + b * value b (digits f l) n := value_succ_low

theorem value_digits_append {f} {l m : List α} {k} (hn : n = l.length + k) :
    value b (digits f (l ++ m)) n = value b (digits f l) l.length + b ^ l.length *
    value b (digits f m) k := by
  rw [hn, value_add]
  refine congrArg₂ (· + _ * ·) (value_congr fun i hi => ?_) (value_congr fun i _ => ?_)
  · rw [digits, List.getElem?_append_left hi, digits]
  · rw [digits, List.getElem?_append_right (Nat.le_add_right _ _), Nat.add_sub_cancel_left, digits]

theorem value_digits_zip {f : α → Nat} {g : β → Nat} {xs ys} (hx : n ≤ xs.length)
    (hy : n ≤ ys.length) (c : Nat) :
    value b (digits (fun p => f p.1 * c + g p.2) (xs.zip ys)) n =
    value b (digits f xs) n * c + value b (digits g ys) n := by
  rw [← value_mul_add]
  refine value_congr fun i hi => ?_
  have hz : (xs.zip ys)[i]? = some (xs[i], ys[i]) := by
    rw [List.getElem?_eq_getElem (by rw [List.length_zip]; omega), List.getElem_zip]
  rw [digits, hz, digits, List.getElem?_eq_getElem (by omega), digits,
    List.getElem?_eq_getElem (by omega)]
  rfl

theorem value_digits_mul {f} (l : List α) (c : Nat) :
    value b (digits (fun a => f a * c) l) n = value b (digits f l) n * c := by
  rw [value, value, sum_mul]
  refine sum_congr rfl fun i _ => ?_
  rw [digits, digits]
  cases l[i]? with
  | none => simp
  | some a => exact Nat.mul_right_comm _ _ _

-- A loop from the lowest digit up that hands a carry on.
def mapCarry (step : α → σ → β × σ) : List α → σ → List β × σ
  | [], s => ([], s)
  | a :: l, s =>
    let (b, s) := step a s
    let (bs, s) := mapCarry step l s
    (b :: bs, s)

@[simp] theorem length_mapCarry (step : α → σ → β × σ) (l) (s : σ) :
    (mapCarry step l s).1.length = l.length := by
  induction l generalizing s with
  | nil => rfl
  | cons a l ih => simp [mapCarry, ih]

theorem value_mapCarry (step : α → σ → β × σ) (added taken out) (up down : σ → Nat)
    (h : ∀ a s, out (step a s).1 + taken a + down s + b * up (step a s).2 =
      added a + up s + b * down (step a s).2) (l) (s : σ) :
    value b (digits out (mapCarry step l s).1) l.length + value b (digits taken l) l.length +
    down s + b ^ l.length * up (mapCarry step l s).2 =
    value b (digits added l) l.length + up s + b ^ l.length * down (mapCarry step l s).2 := by
  induction l generalizing s with
  | nil => simp [mapCarry, Nat.add_comm]
  | cons a l ih =>
    have hs := h a s
    have hr := congrArg (b * ·) (ih (step a s).2)
    simp only [mapCarry, List.length_cons, value_digits_cons, Nat.pow_succ', Nat.mul_assoc]
    simp only [Nat.mul_add] at hr
    omega

end Carry

end Limbs
