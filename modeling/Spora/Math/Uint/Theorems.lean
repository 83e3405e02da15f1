import Spora.Math.Uint
import Mathlib.Tactic.Ring

namespace Spora

open Limbs List

section Words

variable (x y : UInt64)

theorem toNat_toUInt64 (b : Bool) : b.toUInt64.toNat = b.toNat := by cases b <;> rfl

theorem addWord_spec :
    (addWord x y).1.toNat + 2 ^ 64 * (addWord x y).2.toNat = x.toNat + y.toNat := by
  have hx := x.toNat_lt
  have hy := y.toNat_lt
  rw [addWord, UInt64.toNat_add]
  by_cases h : 2 ^ 64 ≤ x.toNat + y.toNat
  · rw [decide_eq_true h, Bool.toNat_true]
    omega
  · rw [decide_eq_false h, Bool.toNat_false]
    omega

theorem subWord_spec :
    (subWord x y).1.toNat + y.toNat = x.toNat + 2 ^ 64 * (subWord x y).2.toNat := by
  have hx := x.toNat_lt
  have hy := y.toNat_lt
  rw [subWord, UInt64.toNat_sub]
  by_cases h : x.toNat < y.toNat
  · rw [decide_eq_true h, Bool.toNat_true]
    omega
  · rw [decide_eq_false h, Bool.toNat_false]
    omega

theorem toNat_bne {b d : Bool} (h : b.toNat + d.toNat ≤ 1) :
    (b != d).toNat = b.toNat + d.toNat := by
  cases b <;> cases d <;> simp at h ⊢

-- Of the two steps at most one carries.
theorem carryingAdd_spec (carry : Bool) :
    (carryingAdd x y carry).1.toNat + 2 ^ 64 * (carryingAdd x y carry).2.toNat =
    x.toNat + y.toNat + carry.toNat := by
  have ha := addWord_spec x y
  have hc := addWord_spec (addWord x y).1 carry.toUInt64
  have hx := x.toNat_lt
  have hy := y.toNat_lt
  have hb := carry.toNat_lt
  rw [toNat_toUInt64] at hc
  simp only [carryingAdd]
  rw [toNat_bne (by omega)]
  omega

theorem borrowingSub_spec (borrow : Bool) :
    (borrowingSub x y borrow).1.toNat + y.toNat + borrow.toNat =
    x.toNat + 2 ^ 64 * (borrowingSub x y borrow).2.toNat := by
  have ha := subWord_spec x y
  have hc := subWord_spec (subWord x y).1 borrow.toUInt64
  have hy := y.toNat_lt
  have hb := borrow.toNat_lt
  rw [toNat_toUInt64] at hc
  have hr := (subWord (subWord x y).1 borrow.toUInt64).1.toNat_lt
  simp only [borrowingSub]
  rw [toNat_bne (by omega)]
  omega

theorem splitWords_spec {m} (h : m < 2 ^ 128) :
    (splitWords m).1.toNat + 2 ^ 64 * (splitWords m).2.toNat = m := by
  simp only [splitWords, UInt64.toNat_ofNat']
  omega

end Words

namespace Uint

variable {n : Nat}

def toNat (self : Uint n) : Nat := value (2 ^ 64) (digits UInt64.toNat self.words) n

theorem toNat_word (self : Uint n) (i : Nat) :
    (self.word i).toNat = digits UInt64.toNat self.words i := by
  rw [word, digits]
  cases self.words[i]? <;> rfl

theorem digits_lt (words) (i : Nat) : digits UInt64.toNat words i < 2 ^ 64 := by
  rw [digits]
  cases words[i]? with
  | none => exact Nat.two_pow_pos 64
  | some w => exact w.toNat_lt

theorem toNat_lt (self : Uint n) : self.toNat < 2 ^ (64 * n) := by
  rw [pow_mul]
  exact value_lt fun i _ => digits_lt _ i

theorem value_digits_const {α : Type} (l : List α) : value (2 ^ 64) (digits (fun _ => 0) l) n = 0 :=
  value_digits_mul (f := fun _ => 0) l 0

theorem digits_ofFn (f) {i} (h : i < n) :
    digits UInt64.toNat (ofFn f : Uint n).words i = (f i).toNat := by
  simp [digits, ofFn, h]

theorem toNat_ofFn (f : Nat → UInt64) :
    (ofFn f : Uint n).toNat = value (2 ^ 64) (fun i => (f i).toNat) n :=
  value_congr fun _ => digits_ofFn f

@[simp] theorem toNat_zero : (zero : Uint n).toNat = 0 := by
  rw [zero, toNat_ofFn]
  exact Finset.sum_eq_zero fun i _ => Nat.zero_mul _

section Loops

theorem toNat_carryLoop {α σ} (step added taken) (up down : σ → Nat)
    (hstep : ∀ a s, (step a s).1.toNat + taken a + down s + 2 ^ 64 * up (step a s).2 =
      added a + up s + 2 ^ 64 * down (step a s).2) {items : List α} (h : items.length = n) (s : σ) :
    (carryLoop step items h s).1.toNat + value (2 ^ 64) (digits taken items) n + down s +
    2 ^ (64 * n) * up (carryLoop step items h s).2 =
    value (2 ^ 64) (digits added items) n + up s + 2 ^ (64 * n) *
    down (carryLoop step items h s).2 := by
  subst h
  rw [pow_mul]
  exact value_mapCarry step added taken UInt64.toNat up down hstep items s

variable (a b : Uint n) (w : UInt64)

theorem value_zip (c : Nat) (g) :
    value (2 ^ 64) (digits (fun p => p.1.toNat * c + g p.2) (a.words.zip b.words)) n =
    a.toNat * c + value (2 ^ 64) (digits g b.words) n :=
  value_digits_zip a.length_words.ge b.length_words.ge c

theorem overflowingAdd_spec :
    (a.overflowingAdd b).1.toNat + 2 ^ (64 * n) * (a.overflowingAdd b).2.toNat =
    a.toNat + b.toNat := by
  have h := toNat_carryLoop (fun p => carryingAdd p.1 p.2) (fun p => p.1.toNat * 1 + p.2.toNat)
    (fun _ => 0) Bool.toNat (fun _ => 0) (fun p s => by have := carryingAdd_spec p.1 p.2 s; omega)
      (length_zip a b) false
  rw [value_digits_const, value_zip, Nat.mul_one] at h
  exact h

theorem overflowingSub_spec : (a.overflowingSub b).1.toNat + b.toNat =
    a.toNat + 2 ^ (64 * n) * (a.overflowingSub b).2.toNat := by
  have h := toNat_carryLoop (fun p => borrowingSub p.1 p.2) (fun p => p.1.toNat * 1 + 0)
    (fun p => p.1.toNat * 0 + p.2.toNat) (fun _ => 0) Bool.toNat
      (fun p s => by have := borrowingSub_spec p.1 p.2 s; omega) (length_zip a b) false
  rw [value_zip a b 1 fun _ => 0, value_zip, value_digits_const, Nat.mul_one, Nat.mul_zero,
    Nat.zero_add] at h
  exact h

theorem overflowingAddU64_spec :
    ∃ carry, (a.overflowingAddU64 w).1.toNat + 2 ^ (64 * n) * carry = a.toNat + w.toNat ∧
    ((a.overflowingAddU64 w).2 = true ↔ carry ≠ 0) := by
  have h := toNat_carryLoop (fun x carry => ((addWord x carry).1, (addWord x carry).2.toUInt64))
    UInt64.toNat (fun _ => 0) UInt64.toNat (fun _ => 0)
    (fun x s => by have := addWord_spec x s; rw [toNat_toUInt64]; omega) a.length_words w
  rw [value_digits_const] at h
  exact ⟨_, h, by simp [overflowingAddU64, ← UInt64.toNat_inj]⟩

theorem mul_add_lt (x y : UInt64) {m} (hm : m < 2 ^ 65 - 1) : x.toNat * y.toNat + m < 2 ^ 128 := by
  have h := mul_toNat_le x y
  omega

theorem overflowingMulU64_spec :
    ∃ carry, (a.overflowingMulU64 w).1.toNat + 2 ^ (64 * n) * carry = a.toNat * w.toNat ∧
    ((a.overflowingMulU64 w).2 = true ↔ carry ≠ 0) := by
  have h := toNat_carryLoop (fun x carry => splitWords (carry.toNat + w.toNat * x.toNat))
    (fun x => x.toNat * w.toNat) (fun _ => 0) UInt64.toNat (fun _ => 0) (fun x s => by
      have hs := s.toNat_lt
      have := splitWords_spec (mul_add_lt w x (by omega : s.toNat < _))
      rw [Nat.add_comm s.toNat, Nat.mul_comm x.toNat]
      omega) a.length_words 0
  rw [value_digits_const, value_digits_mul] at h
  exact ⟨_, h, by simp [overflowingMulU64, carryingMulU64, ← UInt64.toNat_inj]⟩

end Loops

section Product

variable (a b : Uint n)

def digit (self : Uint n) (i : Nat) : Nat := digits UInt64.toNat self.words i

-- What the rows add up to: the products of words whose column is in the result.
def keptProduct : Nat := value (2 ^ 64) (lowColumn b.digit a.digit) n

theorem mulRow_spec (y) {r} (h : r.length ≤ n) :
    value (2 ^ 64) (digits UInt64.toNat (a.mulRow y r).1) r.length +
    (2 ^ 64) ^ r.length * (a.mulRow y r).2.toNat =
    value (2 ^ 64) a.digit r.length * y.toNat + value (2 ^ 64) (digits UInt64.toNat r)
    r.length := by
  have hl : (a.words.zip r).length = r.length := by simp [a.length_words, h]
  have hs := value_mapCarry
    (fun p carry => splitWords (p.1.toNat * y.toNat + p.2.toNat + carry.toNat))
    (fun p => p.1.toNat * y.toNat + p.2.toNat) (fun _ => 0) UInt64.toNat UInt64.toNat (fun _ => 0)
        (fun p s => by
      have hp := p.2.toNat_lt
      have hs := s.toNat_lt
      have := splitWords_spec (Nat.add_assoc _ _ _ ▸
        mul_add_lt p.1 y (by omega : p.2.toNat + s.toNat < _))
      omega) (a.words.zip r) 0
  rw [value_digits_const, hl, value_digits_zip (by rw [a.length_words]; exact h) (Nat.le_refl _)]
    at hs
  exact hs

theorem addRow_spec (r) {j} (hj : j ≤ n) :
    (a.addRow b r j).1.toNat + 2 ^ (64 * n) * (a.addRow b r j).2.toNat =
    r.toNat + b.digit j * (2 ^ 64) ^ j * value (2 ^ 64) a.digit (n - j) := by
  have hl := r.length_words
  have hd : (r.words.drop j).length = n - j := by simp [hl]
  have ht : (r.words.take j).length = j := by simp [hl, hj]
  have hr := a.mulRow_spec (b.word j) (hd.trans_le (Nat.sub_le n j))
  rw [hd, toNat_word] at hr
  have hn : n = (r.words.take j).length + (n - j) := by omega
  have hs := value_digits_append (b := 2 ^ 64) (f := UInt64.toNat) (m := r.words.drop j) hn
  rw [take_append_drop] at hs
  have hp : 2 ^ (64 * n) = (2 ^ 64) ^ j * (2 ^ 64) ^ (n - j) := by
    rw [← pow_add, Nat.add_sub_cancel' hj, pow_mul]
  rw [toNat, toNat, hs, addRow, value_digits_append hn, ht, hp, Nat.mul_assoc, Nat.add_assoc,
    ← Nat.mul_add, hr, digit]
  ring

theorem mulRows_spec {rows} (h : rows ≤ n) :
    ∃ carry, (a.mulRows b rows).1.toNat + 2 ^ (64 * n) * carry =
    ∑ j ∈ Finset.range rows, b.digit j * (2 ^ 64) ^ j * value (2 ^ 64) a.digit (n - j) ∧
    ((a.mulRows b rows).2 = true ↔ carry ≠ 0) := by
  induction rows with
  | zero => exact ⟨0, toNat_zero, by simp [mulRows]⟩
  | succ j ih =>
    obtain ⟨carry, hv, hf⟩ := ih (Nat.le_of_succ_le h)
    have hr := a.addRow_spec b (a.mulRows b j).1 (Nat.le_of_succ_le h)
    have hs : a.mulRows b (j + 1) = ((a.addRow b (a.mulRows b j).1 j).1,
        (a.mulRows b j).2 || (a.addRow b (a.mulRows b j).1 j).2 != 0) := by
      rw [mulRows, range_succ, foldl_append]
      rfl
    refine ⟨carry + (a.addRow b (a.mulRows b j).1 j).2.toNat, ?_, ?_⟩
    · rw [hs, Finset.sum_range_succ, Nat.mul_add]
      dsimp only
      omega
    · simp [hs, hf, ← UInt64.toNat_inj]
      omega

theorem overflowingMul_spec :
    ∃ carry, (a.overflowingMul b).1.toNat + 2 ^ (64 * n) * carry = a.keptProduct b ∧
    ((a.overflowingMul b).2 = true ↔ carry ≠ 0) := by
  rw [keptProduct, value_lowColumn_rows]
  exact a.mulRows_spec b (Nat.le_refl n)

theorem keptProduct_le : a.keptProduct b ≤ a.toNat * b.toNat := by
  rw [Nat.mul_comm, toNat, toNat, value_mul_value]
  exact Nat.le_add_right _ _

end Product


section Bits

variable (a : Uint n)

theorem testBit_word (w : UInt64) {i} (h : 64 ≤ i) : w.toNat.testBit i = false :=
  Nat.testBit_lt_two_pow (Nat.lt_of_lt_of_le w.toNat_lt (Nat.pow_le_pow_right Nat.two_pos h))

theorem word_eq_zero {i} (h : n ≤ i) : a.word i = 0 := by
  rw [word, getElem?_eq_none (a.length_words.trans_le h), Option.getD_none]

theorem testBit_toNat (i : Nat) : a.toNat.testBit i = (a.word (i / 64)).toNat.testBit (i % 64) := by
  rw [toNat, testBit_value fun i _ => digits_lt _ i, ← toNat_word]
  by_cases hi : i < 64 * n
  · simp [hi]
  · simp [a.word_eq_zero (by omega : n ≤ i / 64)]

theorem word_ofFn (f) {i} (h : i < n) : (ofFn f : Uint n).word i = f i := by simp [word, ofFn, h]

theorem testBit_shl (w) {k i} (hk : k < 64) (hi : i < 64) :
    (w <<< UInt64.ofNat k).toNat.testBit i = (decide (k ≤ i) && w.toNat.testBit (i - k)) := by
  have hm : (UInt64.ofNat k).toNat % 64 = k := by rw [UInt64.toNat_ofNat']; omega
  rw [UInt64.toNat_shiftLeft, hm, Nat.testBit_mod_two_pow, Nat.testBit_shiftLeft, decide_eq_true hi,
    Bool.true_and]

theorem testBit_shr (w) {k} (hk : k < 64) (i : Nat) :
    (w >>> UInt64.ofNat k).toNat.testBit i = w.toNat.testBit (k + i) := by
  have hm : (UInt64.ofNat k).toNat % 64 = k := by rw [UInt64.toNat_ofNat']; omega
  rw [UInt64.toNat_shiftRight, hm, Nat.testBit_shiftRight]

-- Bit i comes from the word s / 64 below its own, or from the one below that when i % 64 is less
-- than s % 64.
theorem toNat_overflowingShl {s} (hs : s < 64 * n) :
    (a.overflowingShl s).1.toNat = a.toNat * 2 ^ s % 2 ^ (64 * n) := by
  refine Nat.eq_of_testBit_eq fun i => ?_
  rw [testBit_toNat, Nat.testBit_mod_two_pow, Nat.testBit_mul_two_pow, testBit_toNat]
  by_cases hi : i < 64 * n
  · rw [overflowingShl, word_ofFn _ (by omega), Nat.mod_eq_of_lt hs, decide_eq_true hi]
    have hr := Nat.mod_lt i (by decide : 64 > 0)
    have hl := Nat.mod_lt s (by decide : 64 > 0)
    split_ifs with hw hc
    · simp [decide_eq_false (by omega : ¬ s ≤ i)]
    · rw [UInt64.toNat_or, Nat.testBit_or, testBit_shl _ hl hr, testBit_shr _ (by omega)]
      rcases Nat.lt_or_ge (i % 64) (s % 64) with hlt | hge
      · simp [decide_eq_false (by omega : ¬ s % 64 ≤ i % 64), (by omega : s ≤ i),
          (by omega : (i - s) / 64 = i / 64 - 1 - s / 64),
          (by omega : (i - s) % 64 = 64 - s % 64 + i % 64)]
      · simp [hge, (by omega : s ≤ i), (by omega : (i - s) / 64 = i / 64 - s / 64),
          (by omega : (i - s) % 64 = i % 64 - s % 64),
            testBit_word _ (by omega : 64 ≤ 64 - s % 64 + i % 64)]
    · rw [UInt64.toNat_or, Nat.testBit_or, testBit_shl _ hl hr]
      rcases Nat.lt_or_ge (i % 64) (s % 64) with hlt | hge
      · rw [decide_eq_false (by omega : ¬ s % 64 ≤ i % 64), decide_eq_false (by omega : ¬ s ≤ i)]
        simp
      · simp [hge, (by omega : s ≤ i), (by omega : (i - s) / 64 = i / 64 - s / 64),
          (by omega : (i - s) % 64 = i % 64 - s % 64)]
  · simp [hi, (a.overflowingShl s).1.word_eq_zero (by omega : n ≤ i / 64)]

theorem toNat_overflowingShr {s} (hs : s < 64 * n) :
    (a.overflowingShr s).1.toNat = a.toNat / 2 ^ s := by
  refine Nat.eq_of_testBit_eq fun i => ?_
  rw [testBit_toNat, Nat.testBit_div_two_pow, testBit_toNat]
  by_cases hi : i < 64 * n
  · rw [overflowingShr, word_ofFn _ (by omega), Nat.mod_eq_of_lt hs]
    have hr := Nat.mod_lt i (by decide : 64 > 0)
    rw [UInt64.toNat_or, Nat.testBit_or]
    split_ifs with hc
    · rw [testBit_shl _ (by omega) hr]
      rcases Nat.lt_or_ge (s % 64 + i % 64) 64 with hlt | hge
      · rw [decide_eq_false (by omega : ¬ 64 - s % 64 ≤ i % 64)]
        simp [(by omega : (i + s) / 64 = i / 64 + s / 64),
          (by omega : (i + s) % 64 = s % 64 + i % 64)]
      · simp [(by omega : 64 - s % 64 ≤ i % 64), (by omega : (i + s) / 64 = i / 64 + 1 + s / 64),
          (by omega : (i + s) % 64 = i % 64 - (64 - s % 64)), testBit_word _ hge]
    · simp [(by omega : (i + s) / 64 = i / 64 + s / 64),
        (by omega : (i + s) % 64 = s % 64 + i % 64)]
  · simp [(a.overflowingShr s).1.word_eq_zero (by omega : n ≤ i / 64),
      a.word_eq_zero (by omega : n ≤ (i + s) / 64)]

theorem toNat_setBit {shift} (h : shift < 64 * n) :
    ∃ b, a.setBit shift = some b ∧ b.toNat = a.toNat ||| 2 ^ shift := by
  refine ⟨_, if_pos (by omega), Nat.eq_of_testBit_eq fun i => ?_⟩
  rw [testBit_toNat, Nat.testBit_or, testBit_toNat, Nat.testBit_two_pow, word,
    getElem?_modify, word]
  by_cases hq : shift / 64 = i / 64
  · have hw : i / 64 < a.words.length := by
      rw [a.length_words]
      omega
    have hb : (1 <<< UInt64.ofNat (shift % 64) : UInt64).toNat.testBit (i % 64) =
        decide (shift = i) := by
      rw [testBit_shl _ (Nat.mod_lt _ (by decide)) (Nat.mod_lt _ (by decide)), UInt64.toNat_one,
        ← Nat.pow_zero 2, Nat.testBit_two_pow]
      simp only [← Bool.decide_and, decide_eq_decide]
      omega
    rw [getElem?_eq_getElem hw, hq]
    simp only [Option.map_eq_map, Option.map_some, if_true, Option.getD_some, UInt64.toNat_or,
      Nat.testBit_or, hb]
  · rw [decide_eq_false (by omega : ¬ shift = i)]
    simp [hq]

theorem size_add_mul {k u v} (hu : u < 2 ^ k) (hv : v ≠ 0) : (u + 2 ^ k * v).size = k + v.size := by
  have hlow : k + v.size ≤ (u + 2 ^ k * v).size := by
    obtain ⟨m, hm⟩ := Nat.exists_eq_succ_of_ne_zero
      (Nat.pos_iff_ne_zero.mp (Nat.size_pos.mpr (Nat.pos_of_ne_zero hv)))
    have hp := Nat.mul_le_mul_left (2 ^ k) (Nat.lt_size.mp (by omega : m < v.size))
    rw [hm, Nat.add_succ, Nat.succ_le_iff, Nat.lt_size, pow_add]
    omega
  have hhigh := Nat.mul_le_mul_left (2 ^ k) (Nat.succ_le_of_lt (Nat.lt_size_self v))
  refine Nat.le_antisymm (Nat.size_le.mpr ?_) hlow
  rw [Nat.mul_succ] at hhigh
  rw [pow_add]
  omega

theorem bits_eq : a.bits = a.toNat.size := by
  have hall : ∀ words, (words.zipIdx.reverse.findSome? fun p =>
      if p.1 ≠ 0 then some (64 * (p.2 + 1) - leadingZeros p.1) else none).getD 0 =
        (value (2 ^ 64) (digits UInt64.toNat words) words.length).size := by
    intro words
    induction words using reverseRecOn with
    | nil => simp
    | append_singleton words w ih =>
      have hl := value_lt (n := words.length) fun i _ => digits_lt words i
      rw [← pow_mul] at hl
      have hv : value (2 ^ 64) (digits UInt64.toNat [w]) [w].length = w.toNat := value_digits_cons
      rw [zipIdx_append, length_append, value_digits_append rfl, hv, ← pow_mul]
      by_cases hw : w = 0
      · simpa [hw] using ih
      · have hn : w.toNat ≠ 0 := fun h => hw (UInt64.toNat_inj.mp h)
        have hs := Nat.size_le.mpr w.toNat_lt
        rw [size_add_mul hl hn]
        simp [hw, leadingZeros]
        omega
  rw [bits, hall, a.length_words]
  rfl

end Bits

section Order

theorem cmpWords_eq : ∀ {xs ys}, xs.length = ys.length → cmpWords xs ys =
    compare (value (2 ^ 64) (digits UInt64.toNat xs) xs.length)
    (value (2 ^ 64) (digits UInt64.toNat ys) ys.length)
  | [], [], _ => rfl
  | x :: xs, y :: ys, h => by
    have hx := x.toNat_lt
    have hy := y.toNat_lt
    rw [cmpWords, cmpWords_eq (Nat.succ.inj h), length_cons, length_cons,
      value_digits_cons, value_digits_cons]
    generalize value (2 ^ 64) (digits UInt64.toNat xs) xs.length = u
    generalize value (2 ^ 64) (digits UInt64.toNat ys) ys.length = v
    rcases Nat.lt_trichotomy u v with huv | rfl | huv
    · rw [Nat.compare_eq_lt.mpr huv,
        Nat.compare_eq_lt.mpr (by omega : x.toNat + 2 ^ 64 * u < y.toNat + 2 ^ 64 * v)]
      rfl
    · rw [Nat.compare_eq_eq.mpr rfl, Ordering.eq_then]
      rcases Nat.lt_trichotomy x.toNat y.toNat with hxy | hxy | hxy
      · rw [Nat.compare_eq_lt.mpr hxy, Nat.compare_eq_lt.mpr (Nat.add_lt_add_right hxy _)]
      · rw [hxy]
        simp
      · rw [Nat.compare_eq_gt.mpr hxy, Nat.compare_eq_gt.mpr (Nat.add_lt_add_right hxy _)]
    · rw [Nat.compare_eq_gt.mpr huv,
        Nat.compare_eq_gt.mpr (by omega : y.toNat + 2 ^ 64 * v < x.toNat + 2 ^ 64 * u)]
      rfl

theorem isGE_cmpWords (a b : Uint n) :
    (cmpWords a.words b.words).isGE = true ↔ b.toNat ≤ a.toNat := by
  rw [cmpWords_eq (a.length_words.trans b.length_words.symm), a.length_words, b.length_words,
    Nat.isGE_compare]
  rfl

end Order

section Division

variable {a b : Uint n}

theorem checked_eq {r : Uint n × Bool} (h : r.2 = false) : checked r = some r.1 := by
  rw [checked, h]
  rfl

theorem checked_sub (h : b.toNat ≤ a.toNat) :
    ∃ c, checked (a.overflowingSub b) = some c ∧ c.toNat = a.toNat - b.toNat := by
  have hs := a.overflowingSub_spec b
  have hlt := (a.overflowingSub b).1.toNat_lt
  cases hf : (a.overflowingSub b).2 with
  | false =>
    rw [hf, Bool.toNat_false] at hs
    exact ⟨_, checked_eq hf, by omega⟩
  | true =>
    rw [hf, Bool.toNat_true] at hs
    omega

variable {d shift : Nat} {sub shiftCopy ret : Uint n}

-- The bit is new: the quotient has only higher bits before the step.
theorem divStep_spec (hshift : shift < 64 * n) (hc : shiftCopy.toNat = d * 2 ^ shift)
    (hs : sub.toNat < d * 2 ^ (shift + 1)) (hr : 2 ^ (shift + 1) ∣ ret.toNat) :
    ∃ sub' ret', divStep shift sub shiftCopy ret = some (sub', ret') ∧ sub'.toNat < d * 2 ^ shift ∧
    2 ^ shift ∣ ret'.toNat ∧ ret'.toNat * d + sub'.toNat = ret.toNat * d + sub.toNat := by
  by_cases hge : shiftCopy.toNat ≤ sub.toNat
  · obtain ⟨ret', hb, hret⟩ := ret.toNat_setBit hshift
    obtain ⟨sub', hsub, hdiff⟩ := checked_sub hge
    obtain ⟨k, hk⟩ := hr
    have hadd : ret'.toNat = ret.toNat + 2 ^ shift := by
      rw [hret, hk, ← Nat.two_pow_add_eq_or_of_lt
        (Nat.pow_lt_pow_right Nat.one_lt_two (Nat.lt_succ_self shift))]
    refine ⟨sub', ret', ?_, ?_, ⟨2 * k + 1, ?_⟩, ?_⟩
    · rw [divStep, if_pos ((isGE_cmpWords _ _).mpr hge), hb, hsub]
      rfl
    · rw [pow_succ, ← Nat.mul_assoc] at hs
      omega
    · rw [hadd, hk]
      ring
    · rw [hadd, Nat.add_mul, Nat.mul_comm (2 ^ shift)]
      omega
  · refine ⟨sub, ret, ?_, by omega, (Nat.pow_dvd_pow 2 (Nat.le_succ shift)).trans hr, rfl⟩
    rw [divStep, if_neg (mt (isGE_cmpWords _ _).mp hge)]

theorem divLoop_spec (hshift : shift < 64 * n) (hc : shiftCopy.toNat = d * 2 ^ shift)
    (hs : sub.toNat < d * 2 ^ (shift + 1)) (hr : 2 ^ (shift + 1) ∣ ret.toNat) :
    ∃ q r, divLoop shift sub shiftCopy ret = some (q, r) ∧
    q.toNat * d + r.toNat = ret.toNat * d + sub.toNat ∧ r.toNat < d := by
  induction shift generalizing sub shiftCopy ret with
  | zero =>
    obtain ⟨sub', ret', hstep, hlt, -, heq⟩ := divStep_spec hshift hc hs hr
    refine ⟨ret', sub', ?_, heq, by omega⟩
    rw [divLoop, hstep, checked_eq (decide_eq_false (by omega))]
    rfl
  | succ shift ih =>
    obtain ⟨sub', ret', hstep, hlt, hdvd, heq⟩ := divStep_spec hshift hc hs hr
    have hhalf := shiftCopy.toNat_overflowingShr (by omega : 1 < 64 * n)
    rw [hc, pow_one, pow_succ, ← Nat.mul_assoc, Nat.mul_div_cancel _ Nat.two_pos] at hhalf
    obtain ⟨q, r, hrun, hqr⟩ := ih (by omega) hhalf hlt hdvd
    refine ⟨q, r, ?_, heq ▸ hqr⟩
    rw [divLoop, hstep, checked_eq (decide_eq_false (by omega))]
    exact hrun

theorem divRem_spec (a : Uint n) (hb : b.toNat ≠ 0) :
    ∃ q r, a.divRem b = some (q, r) ∧ a.toNat = q.toNat * b.toNat + r.toNat ∧
    r.toNat < b.toNat := by
  have hpos : b.bits ≠ 0 := by
    rw [bits_eq]
    exact Nat.pos_iff_ne_zero.mp (Nat.size_pos.mpr (Nat.pos_of_ne_zero hb))
  have ha := a.bits_eq ▸ Nat.lt_size_self _
  have hlow : 2 ^ (b.bits - 1) ≤ b.toNat := Nat.lt_size.mp (by rw [← bits_eq]; omega)
  rw [divRem, if_neg hpos]
  split_ifs with hlt
  · refine ⟨zero, a, rfl, by simp, Nat.lt_of_lt_of_le ha ?_⟩
    exact (Nat.pow_le_pow_right Nat.two_pos (by omega)).trans hlow
  · have hbits := a.bits_eq ▸ Nat.size_le.mpr a.toNat_lt
    have hshift : a.bits - b.bits < 64 * n := by omega
    have hfits : b.toNat * 2 ^ (a.bits - b.bits) < 2 ^ (64 * n) := by
      have hb := Nat.mul_lt_mul_of_pos_right (b.bits_eq ▸ Nat.lt_size_self b.toNat)
        (Nat.two_pow_pos (a.bits - b.bits))
      rw [← pow_add, Nat.add_sub_cancel' (Nat.le_of_not_lt hlt)] at hb
      exact hb.trans_le (Nat.pow_le_pow_right Nat.two_pos hbits)
    have hshl := b.toNat_overflowingShl hshift
    rw [Nat.mod_eq_of_lt hfits] at hshl
    have hsub : a.toNat < b.toNat * 2 ^ (a.bits - b.bits + 1) := by
      refine ha.trans_le
        ((?_ : 2 ^ a.bits ≤ 2 ^ (b.bits - 1) * _).trans (Nat.mul_le_mul_right _ hlow))
      rw [← pow_add]
      exact Nat.pow_le_pow_right Nat.two_pos (by omega)
    obtain ⟨q, r, hrun, heq, hr⟩ := divLoop_spec hshift hshl hsub (by simp : _ ∣ zero.toNat)
    refine ⟨q, r, ?_, by simpa using heq.symm, hr⟩
    rw [checked_eq (decide_eq_false (Nat.not_le.mpr hshift))]
    exact hrun

end Division

-- An operation whose mathematical result is exact: that result modulo 2 ^ (64 n), and whether it is
-- out of range.
def Returns (result : Uint n × Bool) (exact : Int) : Prop :=
  (result.1.toNat : Int) = exact % 2 ^ (64 * n) ∧
    (result.2 = true ↔ ¬(0 ≤ exact ∧ exact < 2 ^ (64 * n)))

theorem returns_natCast_iff {r : Uint n × Bool} {exact} (h : r.1.toNat = exact % 2 ^ (64 * n)) :
    Returns r exact ↔ (r.2 = true ↔ 2 ^ (64 * n) ≤ exact) := by
  have hm : (r.1.toNat : Int) = exact % 2 ^ (64 * n) := by exact_mod_cast h
  rw [Returns, and_iff_right hm]
  norm_cast
  simp

theorem carry_ne_zero_iff {low carry total} (h : low + 2 ^ (64 * n) * carry = total)
    (hl : low < 2 ^ (64 * n)) :
    carry ≠ 0 ↔ 2 ^ (64 * n) ≤ total := by
  cases carry with
  | zero => simp [← h, hl]
  | succ carry =>
    rw [Nat.mul_succ] at h
    exact iff_of_true (Nat.succ_ne_zero carry) (by omega)

theorem returns_of_eq {r : Uint n × Bool} {exact carry}
    (h : r.1.toNat + 2 ^ (64 * n) * carry = exact) (hf : r.2 = true ↔ carry ≠ 0) :
    Returns r exact := by
  have hl := r.1.toNat_lt
  refine (returns_natCast_iff ?_).mpr (hf.trans (carry_ne_zero_iff h hl))
  rw [← h, Nat.add_mul_mod_self_left, Nat.mod_eq_of_lt hl]

theorem returns_overflowingSub (a b : Uint n) :
    Returns (a.overflowingSub b) (a.toNat - b.toNat) := by
  have hs := a.overflowingSub_spec b
  have hlt := (a.overflowingSub b).1.toNat_lt
  have hz : ((a.overflowingSub b).1.toNat : Int) < 2 ^ (64 * n) := by exact_mod_cast hlt
  have hi : ((a.overflowingSub b).1.toNat : Int) + b.toNat = a.toNat + 2 ^ (64 * n) *
      (a.overflowingSub b).2.toNat := by
    exact_mod_cast hs
  cases hf : (a.overflowingSub b).2 with
  | false =>
    rw [hf, Bool.toNat_false] at hi
    have hd : (a.toNat : Int) - b.toNat = (a.overflowingSub b).1.toNat := by omega
    rw [Returns, hd, Int.emod_eq_of_lt (Int.natCast_nonneg _) hz, hf]
    exact ⟨rfl, by simp [hz]⟩
  | true =>
    rw [hf, Bool.toNat_true] at hi
    have hd : (a.toNat : Int) - b.toNat = (a.overflowingSub b).1.toNat + 2 ^ (64 * n) * (-1) := by
      omega
    rw [Returns, hd, Int.add_mul_emod_self_left, Int.emod_eq_of_lt (Int.natCast_nonneg _) hz, hf]
    refine ⟨rfl, iff_of_true rfl fun hin => ?_⟩
    omega

theorem overflowingMul_mod (a b : Uint n) :
    (a.overflowingMul b).1.toNat = a.toNat * b.toNat % 2 ^ (64 * n) := by
  obtain ⟨carry, hv, -⟩ := a.overflowingMul_spec b
  have hm : b.toNat * a.toNat = a.keptProduct b + (2 ^ 64) ^ n * value (2 ^ 64)
      (highColumn b.digit a.digit n) n :=
    value_mul_value
  rw [Nat.mul_comm, hm, ← pow_mul, Nat.add_mul_mod_self_left, ← hv, Nat.add_mul_mod_self_left,
    Nat.mod_eq_of_lt (toNat_lt _)]

structure Exact (a b : Uint n) (w : UInt64) : Prop where
  add : Returns (a.overflowingAdd b) (a.toNat + b.toNat)
  sub : Returns (a.overflowingSub b) (a.toNat - b.toNat)
  mul : Returns (a.overflowingMul b) (a.toNat * b.toNat)
  addU64 : Returns (a.overflowingAddU64 w) (a.toNat + w.toNat)
  mulU64 : Returns (a.overflowingMulU64 w) (a.toNat * w.toNat)
  divRem : b.toNat ≠ 0 → ∃ q r, a.divRem b = some (q, r) ∧ a.toNat = q.toNat * b.toNat + r.toNat ∧
    r.toNat < b.toNat

-- The flag of a product is collected from the columns that fit, so it misses an overflow of the
-- others alone.
theorem returns_overflowingMul_iff (a b : Uint n) :
    Returns (a.overflowingMul b) (a.toNat * b.toNat) ↔
    a.toNat * b.toNat < 2 ^ (64 * n) ∨ 2 ^ (64 * n) ≤ a.keptProduct b := by
  obtain ⟨carry, hv, hf⟩ := a.overflowingMul_spec b
  have hle := a.keptProduct_le b
  rw [← Nat.cast_mul, returns_natCast_iff (a.overflowingMul_mod b), hf,
    carry_ne_zero_iff hv (toNat_lt _)]
  omega

theorem arithmetic_exact_iff (a b : Uint n) (w) :
    a.Exact b w ↔ a.toNat * b.toNat < 2 ^ (64 * n) ∨ 2 ^ (64 * n) ≤ a.keptProduct b := by
  rw [← returns_overflowingMul_iff]
  refine ⟨Exact.mul, fun hmul => ?_⟩
  obtain ⟨_, hadd, haddf⟩ := a.overflowingAddU64_spec w
  obtain ⟨_, hprod, hprodf⟩ := a.overflowingMulU64_spec w
  exact {
    add := returns_of_eq (a.overflowingAdd_spec b) (by cases (a.overflowingAdd b).2 <;> simp)
    sub := returns_overflowingSub a b
    mul := hmul
    addU64 := returns_of_eq hadd haddf
    mulU64 := returns_of_eq hprod hprodf
    divRem := divRem_spec a }

-- 2 ^ 192 times 2 ^ 64 in 256 bits: zero, and no overflow is reported.
theorem overflowingMul_misses_overflow :
    ¬(⟨[0, 0, 0, 1], rfl⟩ : Uint 4).Exact ⟨[0, 1, 0, 0], rfl⟩ 0 := by
  intro h
  have hf : ((⟨[0, 0, 0, 1], rfl⟩ : Uint 4).overflowingMul ⟨[0, 1, 0, 0], rfl⟩).2 = false := by
    decide +kernel
  have ha : (⟨[0, 0, 0, 1], rfl⟩ : Uint 4).toNat = 2 ^ 192 := by decide +kernel
  have hb : (⟨[0, 1, 0, 0], rfl⟩ : Uint 4).toNat = 2 ^ 64 := by decide +kernel
  have hout := h.mul.2
  rw [hf, ha, hb] at hout
  simp at hout

end Uint

end Spora
