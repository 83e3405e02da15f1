import Spora.Crypto.U3072
import Mathlib.Data.Nat.ModEq
import Mathlib.Tactic.NormNum

namespace Spora

open Finset Limbs

section Words

theorem toNat_ofNat_of_lt {n : Nat} (h : n < 2 ^ 64) : (UInt64.ofNat n).toNat = n := by
  rw [UInt64.toNat_ofNat', Nat.mod_eq_of_lt h]

theorem limb?_eq {n} (h : n < 2 ^ 64) : limb? n = some (UInt64.ofNat n) := if_pos h

theorem doubleLimb?_eq {n} (h : n < 2 ^ 128) : doubleLimb? n = some n := if_pos h

theorem overflowingAdd_spec (a b : Limb) : ∃ sum carry, overflowingAdd a b = (sum, carry) ∧
    sum.toNat + 2 ^ 64 * carry.toNat = a.toNat + b.toNat ∧ carry.toNat ≤ 1 := by
  have ha := a.toNat_lt
  have hb := b.toNat_lt
  refine ⟨_, _, rfl, ?_⟩
  rw [UInt64.toNat_add]
  split
  case isTrue h =>
    rw [UInt64.toNat_zero]
    omega
  case isFalse h =>
    rw [UInt64.toNat_one]
    omega

theorem mulWide_spec (a b : Limb) : ∃ low high, mulWide a b = (low, high) ∧
    low.toNat + 2 ^ 64 * high.toNat = a.toNat * b.toNat ∧ high.toNat ≤ 2 ^ 64 - 2 := by
  have hle := mul_toNat_le a b
  refine ⟨_, _, rfl, ?_⟩
  rw [UInt64.toNat_ofNat', UInt64.toNat_ofNat']
  omega

def acc3 : Limb × Limb × Limb → Nat
  | (low, high, carry) => low.toNat + 2 ^ 64 * high.toNat + 2 ^ 128 * carry.toNat

theorem muladd3_spec (a b : Limb) {acc} (h : acc3 acc + a.toNat * b.toNat < 2 ^ 192) :
    ∃ acc', muladd3 a b acc = some acc' ∧ acc3 acc' = acc3 acc + a.toNat * b.toNat := by
  obtain ⟨low, high, carry⟩ := acc
  simp only [acc3] at h
  obtain ⟨tl, th, hab, hw, hb⟩ := mulWide_spec a b
  obtain ⟨low', ov, hlow, hl', ho⟩ := overflowingAdd_spec low tl
  have hth : th.toNat + ov.toNat < 2 ^ 64 := by omega
  obtain ⟨high', ov', hh, hh', ho'⟩ := overflowingAdd_spec high (UInt64.ofNat (th.toNat + ov.toNat))
  rw [toNat_ofNat_of_lt hth] at hh'
  have hc : carry.toNat + ov'.toNat < 2 ^ 64 := by omega
  have hrun : muladd3 a b (low, high, carry) =
      some (low', high', UInt64.ofNat (carry.toNat + ov'.toNat)) := by
    simp only [muladd3, hab, hlow, limb?_eq hth, hh, limb?_eq hc, Option.bind_eq_bind,
      Option.bind_some, Option.pure_def]
  refine ⟨_, hrun, ?_⟩
  simp only [acc3, toNat_ofNat_of_lt hc]
  omega

theorem mulnadd3_spec (c0 c1 d0 d1 d2 n : Limb)
    (h : c0.toNat + 2 ^ 64 * c1.toNat + acc3 (d0, d1, d2) * n.toNat < 2 ^ 192) :
    ∃ acc, mulnadd3 c0 c1 d0 d1 d2 n = some acc ∧
    acc3 acc = c0.toNat + 2 ^ 64 * c1.toNat + acc3 (d0, d1, d2) * n.toNat := by
  have h0 := mul_toNat_le d0 n
  have hc0 := c0.toNat_lt
  simp only [acc3, Nat.add_mul, Nat.mul_assoc] at h ⊢
  have hf : d0.toNat * n.toNat + c0.toNat < 2 ^ 128 := by omega
  have hs : (d0.toNat * n.toNat + c0.toNat) / 2 ^ 64 + (d1.toNat * n.toNat + c1.toNat) <
    2 ^ 128 := by omega
  have ht : d2.toNat * n.toNat < 2 ^ 64 := by omega
  have hl :
      (UInt64.ofNat (((d0.toNat * n.toNat + c0.toNat) / 2 ^ 64 + (d1.toNat * n.toNat + c1.toNat)) /
      2 ^ 64)).toNat + (UInt64.ofNat (d2.toNat * n.toNat)).toNat < 2 ^ 64 := by
    rw [toNat_ofNat_of_lt (by omega), toNat_ofNat_of_lt ht]
    omega
  refine ⟨_, by simp only [mulnadd3, doubleLimb?_eq hf, doubleLimb?_eq hs, limb?_eq ht,
    limb?_eq hl, Option.bind_eq_bind, Option.bind_some]; rfl, ?_⟩
  simp only [UInt64.toNat_ofNat']
  omega

theorem muln2_spec (low high n : Limb) (h : (low.toNat + 2 ^ 64 * high.toNat) * n.toNat < 2 ^ 128) :
    ∃ low' high', muln2 low high n = some (low', high') ∧
    low'.toNat + 2 ^ 64 * high'.toNat = (low.toNat + 2 ^ 64 * high.toNat) * n.toNat := by
  rw [Nat.add_mul, Nat.mul_assoc] at h ⊢
  have hsum : low.toNat * n.toNat / 2 ^ 64 + high.toNat * n.toNat < 2 ^ 128 := by omega
  refine ⟨_, _, by simp only [muln2, doubleLimb?_eq hsum]; rfl, ?_⟩
  simp only [UInt64.toNat_ofNat']
  omega

end Words

def limbAt (limbs : Vector Limb 48) (i : Nat) : Nat := (limbs[i]?.getD 0).toNat

section

variable (limbs : Vector Limb 48)
include limbs

theorem limbAt_lt (i : Nat) : limbAt limbs i < 2 ^ 64 := UInt64.toNat_lt _

theorem limbAt_le (i : Nat) : limbAt limbs i ≤ 2 ^ 64 - 1 :=
  Nat.le_sub_one_of_lt (limbAt_lt limbs i)

theorem getElem?_limbs {i} (hi : i < 48) :
    ∃ limb, limbs[i]? = some limb ∧ limb.toNat = limbAt limbs i := by
  refine ⟨limbs[i], Vector.getElem?_eq_getElem hi, ?_⟩
  rw [limbAt, Vector.getElem?_eq_getElem hi, Option.getD_some]

theorem limbAt_set_self {j} (hj : j < 48) (limb : Limb) :
    limbAt (limbs.setIfInBounds j limb) j = limb.toNat := by
  rw [limbAt, Vector.getElem?_setIfInBounds_self_of_lt hj, Option.getD_some]

theorem limbAt_set_ne {i j} (hne : j ≠ i) (limb : Limb) :
    limbAt (limbs.setIfInBounds j limb) i = limbAt limbs i := by
  rw [limbAt, Vector.getElem?_setIfInBounds_ne hne, limbAt]

theorem value_set {j} (hj : j < 48) (limb : Limb) :
    value (2 ^ 64) (limbAt (limbs.setIfInBounds j limb)) (j + 1) =
    value (2 ^ 64) (limbAt limbs) j + limb.toNat * (2 ^ 64) ^ j := by
  rw [value_succ, limbAt_set_self limbs hj]
  exact congrArg (· + _) (value_congr fun i hi => limbAt_set_ne limbs (Nat.ne_of_gt hi) limb)

end

namespace U3072

def toNat (self : U3072) : Nat := value (2 ^ 64) (limbAt self.limbs) 48

-- The range of 48 limbs is 2 ^ 3072, and the modulus lies 1103717 below it.
def SIZE : Nat := (2 ^ 64) ^ 48

def PRIME : Nat := SIZE - 1103717

theorem two_pow_le_radix_pow {k e} (hk : k ≤ 64 * e) : 2 ^ k ≤ (2 ^ 64) ^ e := by
  rw [← Nat.pow_mul]
  exact Nat.pow_le_pow_right Nat.two_pos hk

theorem two_pow_le_size {k} (hk : k ≤ 64 * 48) : 2 ^ k ≤ SIZE := two_pow_le_radix_pow hk

theorem prime_add : PRIME + 1103717 = SIZE := by
  have hle : 1103717 ≤ 2 ^ 21 := by norm_num
  exact Nat.sub_add_cancel (hle.trans (two_pow_le_size (by norm_num)))

theorem toNat_lt (self : U3072) : self.toNat < SIZE := value_lt fun i _ => limbAt_lt self.limbs i

theorem toNat_injective : Function.Injective toNat := by
  intro u v h
  have hl := value_inj (fun i _ => limbAt_lt u.limbs i) (fun i _ => limbAt_lt v.limbs i) h
  have hv : u.limbs = v.limbs := by
    refine Vector.ext fun i hi => ?_
    have hi' := hl i hi
    rw [limbAt, limbAt, Vector.getElem?_eq_getElem hi, Vector.getElem?_eq_getElem hi] at hi'
    exact UInt64.toNat_inj.mp hi'
  exact congrArg mk hv

section Loops

variable (u v : U3072)

theorem addColumn_spec (k s len : Nat) (acc) (hs : s + len ≤ 48)
    (hk : ∀ i, s ≤ i → i < s + len → k - i < 48) (hbound : acc3 acc + ∑ i ∈ Ico s (s + len),
      limbAt u.limbs i * limbAt v.limbs (k - i) < 2 ^ 192) :
    ∃ acc', addColumn u v k (List.range' s len) acc = some acc' ∧
    acc3 acc' = acc3 acc + ∑ i ∈ Ico s (s + len), limbAt u.limbs i * limbAt v.limbs (k - i) := by
  induction len generalizing s acc with
  | zero => exact ⟨acc, rfl, by rw [Nat.add_zero, Ico_self, sum_empty, Nat.add_zero]⟩
  | succ len ih =>
    rw [sum_eq_sum_Ico_succ_bot (by omega)] at hbound ⊢
    obtain ⟨a, ha, hau⟩ := getElem?_limbs u.limbs (i := s) (by omega)
    obtain ⟨b, hb, hbv⟩ := getElem?_limbs v.limbs (hk s (Nat.le_refl s) (by omega))
    rw [← hau, ← hbv, ← Nat.add_assoc] at hbound ⊢
    obtain ⟨acc₁, hrun, ha₁⟩ := muladd3_spec a b ((Nat.le_add_right _ _).trans_lt hbound)
    rw [← ha₁] at hbound ⊢
    have hsh : s + (len + 1) = s + 1 + len := by omega
    rw [hsh] at hbound ⊢
    obtain ⟨acc', hr, ha'⟩ := ih (s + 1) acc₁ (by omega)
      (fun i hle hlt => hk i (by omega) (by omega)) hbound
    refine ⟨acc', ?_, ha'⟩
    rw [addColumn, List.range'_succ, List.foldlM_cons, ha, hb]
    simp only [Option.bind_eq_bind, Option.bind_some, hrun]
    exact hr

theorem foldlM_range_succ {σ : Type} (f : σ → Nat → Option σ) (n : Nat) (init : σ) :
    (List.range (n + 1)).foldlM f init = ((List.range n).foldlM f init).bind (f · n) := by
  rw [List.range_succ, List.foldlM_append]
  cases (List.range n).foldlM f init with
  | none => rfl
  | some s =>
    exact Option.bind_fun_some _

theorem addCarry_spec (source target) (low high : Limb) {n} (hn : n ≤ 48) :
    ∃ target' low' high', (List.range n).foldlM (addCarry source) (target, low, high) =
    some (target', low', high') ∧
    value (2 ^ 64) (limbAt target') n + (2 ^ 64) ^ n * (low'.toNat + 2 ^ 64 * high'.toNat) =
    value (2 ^ 64) (limbAt source) n + (low.toNat + 2 ^ 64 * high.toNat) := by
  induction n with
  | zero => exact ⟨target, low, high, rfl, by simp⟩
  | succ n ih =>
    obtain ⟨target₁, low₁, high₁, hrun, hv⟩ := ih (by omega)
    obtain ⟨limb, hl, hl'⟩ := getElem?_limbs source (i := n) (by omega)
    obtain ⟨low₂, ov, hlow, hlo', hle⟩ := overflowingAdd_spec low₁ limb
    obtain ⟨high₂, ov', hh, hh', hle'⟩ := overflowingAdd_spec high₁ ov
    refine ⟨target₁.setIfInBounds n low₂, high₂, ov', ?_, ?_⟩
    · rw [foldlM_range_succ, hrun, Option.bind_some, addCarry, hl]
      simp only [Option.bind_eq_bind, Option.bind_some, hlow, hh, Option.pure_def]
    · rw [value_set target₁ (by omega), value_succ, ← hl']
      calc value (2 ^ 64) (limbAt target₁) n + low₂.toNat * (2 ^ 64) ^ n +
            (2 ^ 64) ^ (n + 1) * (high₂.toNat + 2 ^ 64 * ov'.toNat)
          = value (2 ^ 64) (limbAt target₁) n +
            (2 ^ 64) ^ n * (low₂.toNat + 2 ^ 64 * (high₁.toNat + ov.toNat)) := by
            rw [hh']; ring
        _ = value (2 ^ 64) (limbAt target₁) n + (2 ^ 64) ^ n * (low₁.toNat + 2 ^ 64 * high₁.toNat) +
            limb.toNat * (2 ^ 64) ^ n := by
            have hsum : low₂.toNat + 2 ^ 64 * (high₁.toNat + ov.toNat) =
                low₁.toNat + 2 ^ 64 * high₁.toNat + limb.toNat := by omega
            rw [hsum]; ring
        _ = _ := by rw [hv]; ring

end Loops

section Reduction

theorem primeDiff_toNat : PRIME_DIFF.toNat = 1103717 := rfl

-- Adding the difference wraps around the range, which subtracts the prime from what exceeds it.
theorem fullReduce_spec (u : U3072) :
    ∃ r, u.fullReduce = some r ∧ r.toNat = (u.toNat + 1103717) % SIZE := by
  obtain ⟨limbs, low, high, hrun, hv⟩ := addCarry_spec u.limbs u.limbs PRIME_DIFF 0 (Nat.le_refl 48)
  refine ⟨⟨limbs⟩, ?_, ?_⟩
  · rw [fullReduce, LIMBS, hrun]
    rfl
  · have hlt := toNat_lt ⟨limbs⟩
    have hsum : toNat ⟨limbs⟩ + SIZE * (low.toNat + 2 ^ 64 * high.toNat) = u.toNat + 1103717 := hv
    rw [← hsum, Nat.add_mul_mod_self_left, Nat.mod_eq_of_lt hlt]

theorem all_full_iff (limbs) :
    (List.range' 1 47).all (fun i => limbs[i]? = some 0xFFFFFFFFFFFFFFFF) = true ↔
    ∀ i < 47, limbAt limbs (i + 1) + 1 = 2 ^ 64 := by
  rw [List.all_eq_true]
  constructor
  · intro h i hi
    have hl := of_decide_eq_true (h (i + 1) (List.mem_range'_1.mpr ⟨by omega, by omega⟩))
    rw [limbAt, hl]
    rfl
  · intro h i hi
    obtain ⟨hle, hlt⟩ := List.mem_range'_1.mp hi
    obtain ⟨limb, hl, ht⟩ := getElem?_limbs limbs (by omega)
    have hf := h (i - 1) (by omega)
    rw [Nat.sub_add_cancel hle, ← ht] at hf
    refine decide_eq_true (hl.trans (congrArg some (UInt64.toNat_inj.mp ?_)))
    exact Nat.succ_injective hf

theorem isOverflow_iff (u : U3072) : u.isOverflow = true ↔ PRIME ≤ u.toNat := by
  have hle : u.limbs[0] ≤ 0xFFFFFFFFFFFFFFFF - PRIME_DIFF ↔
      limbAt u.limbs 0 + 1103717 < 2 ^ 64 := by
    have hl : limbAt u.limbs 0 = u.limbs[0].toNat := by
      rw [limbAt, Vector.getElem?_eq_getElem (by decide), Option.getD_some]
    have hb : (0xFFFFFFFFFFFFFFFF - PRIME_DIFF : Limb).toNat = 2 ^ 64 - 1 - 1103717 := rfl
    rw [UInt64.le_iff_toNat_le]
    omega
  have hs : u.toNat = limbAt u.limbs 0 + 2 ^ 64 * value (2 ^ 64)
      (fun i => limbAt u.limbs (i + 1)) 47 :=
    value_succ_low
  have hh : value (2 ^ 64) (fun i => limbAt u.limbs (i + 1)) 47 < (2 ^ 64) ^ 47 :=
    value_lt fun i _ => limbAt_lt u.limbs (i + 1)
  have hmax : value (2 ^ 64) (fun i => limbAt u.limbs (i + 1)) 47 + 1 = (2 ^ 64) ^ 47 ↔
      ∀ i < 47, limbAt u.limbs (i + 1) + 1 = 2 ^ 64 :=
    value_add_one_eq_iff fun i _ => limbAt_lt u.limbs (i + 1)
  have hp := prime_add.trans (Nat.pow_succ')
  have hlow := limbAt_lt u.limbs 0
  -- the upper limbs are full or leave more room than the difference
  rw [isOverflow]
  split
  case isTrue hlt =>
    rw [hle] at hlt
    refine iff_of_false Bool.false_ne_true ?_
    omega
  case isFalse hgt =>
    rw [hle] at hgt
    rw [all_full_iff, ← hmax]
    omega

theorem reduceIfOverflow_spec (u : U3072) :
    ∃ r, u.reduceIfOverflow = some r ∧ r.toNat = u.toNat % PRIME ∧ (u.toNat < PRIME → r = u) := by
  have hlt := u.toNat_lt
  have hp := prime_add
  have hbig := two_pow_le_size (k := 64) (by norm_num)
  rw [reduceIfOverflow]
  split
  case isTrue ho =>
    rw [isOverflow_iff] at ho
    obtain ⟨r, hrun, hv⟩ := u.fullReduce_spec
    refine ⟨r, hrun, ?_, fun h => absurd h (Nat.not_lt.mpr ho)⟩
    have hw : u.toNat + 1103717 = u.toNat - PRIME + SIZE := by omega
    rw [hv, hw, Nat.add_mod_right, Nat.mod_eq_of_lt (by omega), Nat.mod_eq_sub_mod ho,
      Nat.mod_eq_of_lt (by omega)]
  case isFalse ho =>
    rw [isOverflow_iff, Nat.not_le] at ho
    exact ⟨u, rfl, (Nat.mod_eq_of_lt ho).symm, fun _ => rfl⟩

end Reduction

section Product

variable (u v : U3072)

abbrev lows : Nat → Nat := lowColumn (limbAt u.limbs) (limbAt v.limbs)

abbrev highs : Nat → Nat := highColumn (limbAt u.limbs) (limbAt v.limbs) 48

theorem lowColumn_le (k : Nat) :
    lows u v k ≤ (k + 1) * ((2 ^ 64 - 1) * (2 ^ 64 - 1)) := by
  refine (sum_products_le (fun i _ => limbAt_le u.limbs i)
    (fun i _ => limbAt_le v.limbs (k - i))).trans_eq ?_
  rw [card_range]

theorem highColumn_le (k : Nat) :
    highs u v k ≤ 47 * ((2 ^ 64 - 1) * (2 ^ 64 - 1)) := by
  refine (sum_products_le (fun i _ => limbAt_le u.limbs i)
    (fun i _ => limbAt_le v.limbs (48 + k - i))).trans ?_
  rw [Nat.card_Ico]
  exact Nat.mul_le_mul_right _ (by omega)

variable {j : Nat}

theorem high_spec (hj : j < 47) :
    ∃ a b low high acc, u.limbs[j + 1]? = some a ∧ v.limbs[LIMBS + j - (1 + j)]? = some b ∧
    mulWide a b = (low, high) ∧
    addColumn u v (LIMBS + j) (List.range' (2 + j) (LIMBS - (2 + j))) (low, high, 0) = some acc ∧
    acc3 acc = highs u v j := by
  obtain ⟨a, ha, hau⟩ := getElem?_limbs u.limbs (i := j + 1) (by omega)
  obtain ⟨b, hb, hbv⟩ := getElem?_limbs v.limbs (i := 48 + j - (1 + j)) (by omega)
  obtain ⟨low, high, hw, hv, -⟩ := mulWide_spec a b
  have hs : acc3 (low, high, 0) = a.toNat * b.toNat := by
    rw [acc3, UInt64.toNat_zero, Nat.mul_zero, Nat.add_zero, hv]
  have hend : 2 + j + (48 - (2 + j)) = 48 := by omega
  have hc : highs u v j = acc3 (low, high, 0) + ∑ i ∈ Ico (2 + j) (2 + j + (48 - (2 + j))),
          limbAt u.limbs i * limbAt v.limbs (48 + j - i) := by
    rw [hend, highs, highColumn, sum_eq_sum_Ico_succ_bot (by omega), hs, hau, hbv, Nat.add_comm 1 j,
      Nat.add_comm 2 j]
  have hle := highColumn_le u v j
  obtain ⟨acc, hrun, hacc⟩ := addColumn_spec u v (48 + j) (2 + j) (48 - (2 + j))
    (low, high, 0) (by omega) (fun i _ _ => by omega) (by rw [← hc]; omega)
  exact ⟨a, b, low, high, acc, ha, hb, hw, hrun, hacc.trans hc.symm⟩

theorem low_spec (hj : j < 48) (acc) (hacc : acc3 acc < 2 ^ 160) :
    ∃ acc', addColumn u v j (List.range (j + 1)) acc = some acc' ∧
    acc3 acc' = acc3 acc + lows u v j := by
  have hle := lowColumn_le u v j
  have hc : lows u v j = ∑ i ∈ Ico 0 (0 + (j + 1)), limbAt u.limbs i * limbAt v.limbs (j - i) := by
    rw [lows, lowColumn, range_eq_Ico, Nat.zero_add]
  rw [List.range_eq_range', hc]
  exact addColumn_spec u v j 0 (j + 1) acc (by omega) (fun i _ _ => by omega) (by rw [← hc]; omega)

theorem mulRound_eq_some {tmp lo hi carryHighest a b low high d0 d1 d2 limb low' high' acc}
    (ha : u.limbs[j + 1]? = some a) (hb : v.limbs[LIMBS + j - (1 + j)]? = some b)
    (hwide : mulWide a b = (low, high))
    (hhigh : addColumn u v (LIMBS + j) (List.range' (2 + j) (LIMBS - (2 + j))) (low, high, 0) =
      some (d0, d1, d2)) (hreduced : mulnadd3 lo hi d0 d1 d2 PRIME_DIFF = some acc)
    (hlow : addColumn u v j (List.range (j + 1)) acc = some (limb, low', high')) :
    mulRound u v (tmp, lo, hi, carryHighest) j = some (tmp.setIfInBounds j limb, low', high',
      0) := by
  have heq : mulRound u v (tmp, lo, hi, carryHighest) j =
      u.limbs[j + 1]?.bind fun a => v.limbs[LIMBS + j - (1 + j)]?.bind fun b =>
      (addColumn u v (LIMBS + j) (List.range' (2 + j) (LIMBS - (2 + j)))
        ((mulWide a b).1, (mulWide a b).2, 0)).bind fun d =>
      (mulnadd3 lo hi d.1 d.2.1 d.2.2 PRIME_DIFF).bind fun acc =>
      (addColumn u v j (List.range (j + 1)) acc).bind fun r =>
      some (tmp.setIfInBounds j r.1, r.2.1, r.2.2, 0) := rfl
  rw [heq, ha, Option.bind_some, hb, Option.bind_some, hwide, hhigh, Option.bind_some, hreduced,
    Option.bind_some, hlow, Option.bind_some]

theorem mulRound_spec (hj : j < 47) (tmp) {lo hi}
    (carryHighest : Limb) (hcarry : lo.toNat + 2 ^ 64 * hi.toNat < 2 ^ 92) :
    ∃ limb low high, mulRound u v (tmp, lo, hi, carryHighest) j =
    some (tmp.setIfInBounds j limb, low, high, 0) ∧
    limb.toNat + 2 ^ 64 * (low.toNat + 2 ^ 64 * high.toNat) = lo.toNat + 2 ^ 64 * hi.toNat +
    (highs u v j * 1103717 + lows u v j) ∧ low.toNat + 2 ^ 64 * high.toNat < 2 ^ 92 := by
  obtain ⟨a, b, low, high, ⟨d0, d1, d2⟩, ha, hb, hw, hh, hacc⟩ := high_spec u v hj
  have hhle := highColumn_le u v j
  have hlle := lowColumn_le u v j
  obtain ⟨acc₁, hr₁, ha₁⟩ := mulnadd3_spec lo hi d0 d1 d2 PRIME_DIFF
    (by rw [primeDiff_toNat]; omega)
  rw [primeDiff_toNat] at ha₁
  obtain ⟨⟨limb, low', high'⟩, hr₂, ha₂⟩ := low_spec u v (j := j) (by omega) acc₁
    (by rw [ha₁]; omega)
  rw [acc3] at ha₂
  refine ⟨limb, low', high', ?_, ?_, ?_⟩
  · exact mulRound_eq_some u v ha hb hw hh hr₁ hr₂
  · omega
  · omega

theorem mulRounds_spec {n} (hn : n ≤ 47) :
    ∃ tmp low high, (List.range n).foldlM (mulRound u v) (one.limbs, 0, 0, 0) =
    some (tmp, low, high, 0) ∧
    value (2 ^ 64) (limbAt tmp) n + (2 ^ 64) ^ n * (low.toNat + 2 ^ 64 * high.toNat) =
    value (2 ^ 64) (highs u v) n * 1103717 + value (2 ^ 64) (lows u v) n ∧
    low.toNat + 2 ^ 64 * high.toNat < 2 ^ 92 := by
  induction n with
  | zero => exact ⟨one.limbs, 0, 0, rfl, by simp, by simp⟩
  | succ n ih =>
    obtain ⟨tmp, low, high, hrun, hv, hb⟩ := ih (by omega)
    obtain ⟨limb, low', high', hr, hs, hb'⟩ := mulRound_spec u v (j := n) (by omega) tmp 0 hb
    refine ⟨tmp.setIfInBounds n limb, low', high', ?_, ?_, hb'⟩
    · rw [foldlM_range_succ, hrun, Option.bind_some, hr]
    · rw [value_set tmp (by omega), value_succ, value_succ]
      calc value (2 ^ 64) (limbAt tmp) n + limb.toNat * (2 ^ 64) ^ n +
            (2 ^ 64) ^ (n + 1) * (low'.toNat + 2 ^ 64 * high'.toNat)
          = value (2 ^ 64) (limbAt tmp) n +
            (2 ^ 64) ^ n * (limb.toNat + 2 ^ 64 * (low'.toNat + 2 ^ 64 * high'.toNat)) := by
            rw [pow_succ]; ring
        _ = value (2 ^ 64) (limbAt tmp) n + (2 ^ 64) ^ n * (low.toNat + 2 ^ 64 * high.toNat) +
            (2 ^ 64) ^ n * (highs u v n * 1103717 +
              lows u v n) := by
            rw [hs]; ring
        _ = _ := by rw [hv]; ring

theorem columns_spec : ∃ tmp low high highest limb lo hi,
    (List.range (LIMBS - 1)).foldlM (mulRound u v) (one.limbs, 0, 0, 0) = some (tmp, low, high, 0) ∧
    addColumn u v (LIMBS - 1) (List.range LIMBS) (low, high, 0) = some (limb, lo, hi) ∧
    highest = tmp.setIfInBounds (LIMBS - 1) limb ∧
    toNat ⟨highest⟩ + SIZE * (lo.toNat + 2 ^ 64 * hi.toNat) =
    value (2 ^ 64) (highs u v) 48 * 1103717 + value (2 ^ 64) (lows u v) 48 ∧
    lo.toNat + 2 ^ 64 * hi.toNat < 49 * 2 ^ 64 := by
  obtain ⟨tmp, low, high, hrun, hv, hb⟩ := mulRounds_spec u v (Nat.le_refl 47)
  have hs : acc3 (low, high, 0) = low.toNat + 2 ^ 64 * high.toNat := by
    rw [acc3, UInt64.toNat_zero, Nat.mul_zero, Nat.add_zero]
  obtain ⟨⟨limb, lo, hi⟩, hl, hacc⟩ := low_spec u v (j := 47) (by omega)
    (low, high, 0) (by rw [hs]; omega)
  rw [hs, acc3] at hacc
  have hle := lowColumn_le u v 47
  refine ⟨tmp, low, high, _, limb, lo, hi, hrun, hl, rfl, ?_, by omega⟩
  have htop : highs u v 47 = 0 := by
    rw [highs, highColumn, Ico_self, sum_empty]
  have ht : toNat ⟨tmp.setIfInBounds (LIMBS - 1) limb⟩ =
      value (2 ^ 64) (limbAt tmp) 47 + limb.toNat * (2 ^ 64) ^ 47 :=
    value_set tmp (Nat.lt_succ_self 47) limb
  rw [ht, SIZE, value_succ (n := 47), value_succ (n := 47), htop, pow_succ (2 ^ 64) 47]
  generalize (2 ^ 64) ^ 47 = top at hv ⊢
  calc value (2 ^ 64) (limbAt tmp) 47 + limb.toNat * top + top * 2 ^ 64 *
      (lo.toNat + 2 ^ 64 * hi.toNat) = value (2 ^ 64) (limbAt tmp) 47 + top *
        (limb.toNat + 2 ^ 64 * lo.toNat + 2 ^ 128 * hi.toNat) := by ring
    _ = value (2 ^ 64) (limbAt tmp) 47 + top * (low.toNat + 2 ^ 64 * high.toNat) +
        lows u v 47 * top := by rw [hacc]; ring
    _ = _ := by rw [hv]; ring

theorem second_spec (tmp) {low high} (hbound : low.toNat + 2 ^ 64 * high.toNat < 49 * 2 ^ 64)
    (target) :
    ∃ x y limbs carry, muln2 low high PRIME_DIFF = some (x, y) ∧
    (List.range LIMBS).foldlM (addCarry tmp) (target, x, y) = some (limbs, carry, 0) ∧
    (carry = 0 ∨ carry = 1) ∧
    toNat ⟨limbs⟩ + SIZE * carry.toNat = toNat ⟨tmp⟩ + (low.toNat + 2 ^ 64 * high.toNat) *
    1103717 := by
  obtain ⟨x, y, hmul, hv⟩ := muln2_spec low high PRIME_DIFF (by rw [primeDiff_toNat]; omega)
  obtain ⟨limbs, carry, hi, hrun, hsum⟩ := addCarry_spec tmp target x y (Nat.le_refl 48)
  rw [hv] at hsum
  have hsum : toNat ⟨limbs⟩ + SIZE * (carry.toNat + 2 ^ 64 * hi.toNat) =
    toNat ⟨tmp⟩ + (low.toNat + 2 ^ 64 * high.toNat) * 1103717 := hsum
  have htmp := toNat_lt ⟨tmp⟩
  have hs := two_pow_le_size (k := 128) (by norm_num)
  have hone : carry.toNat + 2 ^ 64 * hi.toNat ≤ 1 := by
    by_contra hgt
    have hmul : SIZE * 2 ≤ SIZE * (carry.toNat + 2 ^ 64 * hi.toNat) :=
      Nat.mul_le_mul_left _ (by omega)
    omega
  have hh : hi = 0 := UInt64.toNat_inj.mp (by rw [UInt64.toNat_zero]; omega)
  subst hh
  refine ⟨x, y, limbs, carry, hmul, hrun, ?_, ?_⟩
  · rcases Nat.le_one_iff_eq_zero_or_eq_one.mp (le_of_add_le_left hone) with h | h
    · exact .inl (UInt64.toNat_inj.mp h)
    · exact .inr (UInt64.toNat_inj.mp h)
  · rw [UInt64.toNat_zero] at hsum
    exact hsum

theorem size_modEq : SIZE ≡ 1103717 [MOD PRIME] := by
  rw [← prime_add]
  exact Nat.add_modEq_left

theorem product_modEq {low high tmp carry result rest}
    (hcolumns : tmp + SIZE * carry = high * 1103717 + low)
    (hsecond : result + SIZE * rest = tmp + carry * 1103717) :
    result + rest * 1103717 ≡ low + SIZE * high [MOD PRIME] := by
  calc result + rest * 1103717 ≡ result + rest * SIZE [MOD PRIME] :=
        Nat.ModEq.add_left _ (size_modEq.symm.mul_left _)
    _ = tmp + carry * 1103717 := by rw [← hsecond, Nat.mul_comm rest]
    _ ≡ tmp + carry * SIZE [MOD PRIME] := Nat.ModEq.add_left _ (size_modEq.symm.mul_left _)
    _ = high * 1103717 + low := by rw [← hcolumns, Nat.mul_comm carry]
    _ ≡ high * SIZE + low [MOD PRIME] := Nat.ModEq.add_right _ (size_modEq.symm.mul_left _)
    _ = low + SIZE * high := by rw [Nat.add_comm, Nat.mul_comm]

theorem mul_eq_bind {tmp limbs low high limb lo hi x y carry} (hone : u ≠ one)
    (hrounds : (List.range (LIMBS - 1)).foldlM (mulRound u v) (one.limbs, 0, 0, 0) =
      some (tmp, low, high, 0))
    (hlast : addColumn u v (LIMBS - 1) (List.range LIMBS) (low, high, 0) = some (limb, lo, hi))
    (hmuln : muln2 lo hi PRIME_DIFF = some (x, y))
    (hadd : (List.range LIMBS).foldlM (addCarry (tmp.setIfInBounds (LIMBS - 1) limb)) (u.limbs, x,
      y) =
      some (limbs, carry, 0)) (hcarry : carry = 0 ∨ carry = 1) :
    u.mul v = (reduceIfOverflow ⟨limbs⟩).bind fun result =>
      if carry ≠ 0 then result.fullReduce else some result := by
  have heq : u.mul v = if u = one then some v else
      ((List.range (LIMBS - 1)).foldlM (mulRound u v) (one.limbs, 0, 0, 0)).bind fun s =>
      (guard (s.2.2.2 = 0) : Option Unit).bind fun _ =>
      (addColumn u v (LIMBS - 1) (List.range LIMBS) (s.2.1, s.2.2.1, s.2.2.2)).bind fun acc =>
      (muln2 acc.2.1 acc.2.2 PRIME_DIFF).bind fun c =>
      ((List.range LIMBS).foldlM (addCarry (s.1.setIfInBounds (LIMBS - 1) acc.1)) (u.limbs, c.1,
        c.2)).bind fun r =>
      (guard (r.2.2 = 0) : Option Unit).bind fun _ =>
      (guard (r.2.1 = 0 ∨ r.2.1 = 1) : Option Unit).bind fun _ =>
      (reduceIfOverflow ⟨r.1⟩).bind fun result =>
      if r.2.1 ≠ 0 then result.fullReduce else some result := rfl
  rw [heq, if_neg hone, hrounds, Option.bind_some, guard, if_pos rfl, Option.pure_def,
    Option.bind_some, hlast, Option.bind_some, hmuln, Option.bind_some, hadd, Option.bind_some,
      guard, if_pos rfl, Option.pure_def,
    Option.bind_some, guard, if_pos hcarry, Option.pure_def, Option.bind_some]

theorem mul_spec_of_ne_one (hone : u ≠ one) :
    ∃ r, u.mul v = some r ∧ r.toNat ≡ u.toNat * v.toNat [MOD PRIME] ∧ r.toNat < PRIME := by
  obtain ⟨tmp₀, low, high, tmp, limb, lo, hi, hro, hl, htmp, hc, hb⟩ := columns_spec u v
  obtain ⟨x, y, limbs, carry, hm, hadd, hca, hs⟩ := second_spec tmp hb u.limbs
  have hp : u.toNat * v.toNat = value (2 ^ 64) (lows u v) 48 +
      SIZE * value (2 ^ 64) (highs u v) 48 := value_mul_value
  have hmod := product_modEq hc hs
  rw [← hp] at hmod
  subst htmp
  have hrun := mul_eq_bind u v hone hro hl hm hadd hca
  have hpr := prime_add
  have hsi := two_pow_le_size (k := 128) (by norm_num)
  obtain ⟨r, hre, hr, hk⟩ := reduceIfOverflow_spec ⟨limbs⟩
  rw [hrun, hre, Option.bind_some]
  rcases hca with rfl | rfl
  · refine ⟨r, if_neg (not_not.mpr rfl), ?_, ?_⟩
    · rw [UInt64.toNat_zero, Nat.add_zero] at hmod
      rw [hr]
      exact (Nat.mod_modEq _ _).trans hmod
    · rw [hr]
      exact Nat.mod_lt _ (by omega)
  · -- the carry left little behind, so that only the difference is added
    rw [UInt64.toNat_one] at hs
    have htmp := toNat_lt ⟨tmp₀.setIfInBounds (LIMBS - 1) limb⟩
    obtain rfl := hk (by omega)
    obtain ⟨r', hf, hr'⟩ := fullReduce_spec ⟨limbs⟩
    rw [Nat.mod_eq_of_lt (by omega)] at hr'
    refine ⟨r', (if_pos (by decide)).trans hf, ?_, by omega⟩
    rw [hr']
    exact hmod

end Product

end U3072

end Spora
