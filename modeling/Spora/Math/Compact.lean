import Spora.Math.Uint.Theorems
import Mathlib.Data.Nat.Bitwise

-- The compact encoding of difficulty targets: a byte count and a mantissa of three bytes whose top
-- bit is clear.
namespace Spora

namespace Uint

def topBytes (self : Uint 4) (size : Nat) : Option Nat :=
  if size ≤ 3 then some (self.asU64.toNat <<< (8 * (3 - size)) % 2 ^ 64 % 2 ^ 32)
  else (checked (self.overflowingShr (8 * (size - 3)))).map fun bn => bn.asU64.toNat % 2 ^ 32

def compactTargetBits (self : Uint 4) : Option Nat := do
  let size := (self.bits + 7) / 8
  let compact ← self.topBytes size
  if compact &&& 0x00800000 ≠ 0 then return compact >>> 8 ||| (size + 1) <<< 24 % 2 ^ 32
  else return compact ||| size <<< 24 % 2 ^ 32

def fromCompactTargetBits (bits : Nat) : Option (Uint 4) :=
  let (mant, expt) := if bits >>> 24 ≤ 3 then ((bits &&& 0xFFFFFF) >>> (8 * (3 - bits >>> 24)), 0)
    else (bits &&& 0xFFFFFF, 8 * (bits >>> 24 - 3))
  if 0x7FFFFF < mant then some zero else checked ((fromU64 (UInt64.ofNat mant)).overflowingShl expt)

def roundTrip (self : Uint 4) : Option (Uint 4) := self.compactTargetBits >>= fromCompactTargetBits

end Uint

-- The number of bytes whose top bit is clear, the three highest of them and the number they stand
-- for.
def compactSize (t : Nat) : Nat := t.size / 8 + 1

def mantissa (size t : Nat) : Nat := t * 2 ^ 24 / 2 ^ (8 * size)

def roundedDown (t : Nat) : Nat := t / 2 ^ (8 * (compactSize t - 3)) * 2 ^ (8 * (compactSize t - 3))

section Rounding

variable {t u : Nat}

theorem mantissa_of_le {size} (h : size ≤ 3) : mantissa size t = t * 2 ^ (8 * (3 - size)) := by
  have hp : 2 ^ 24 = 2 ^ (8 * (3 - size)) * 2 ^ (8 * size) := by
    rw [← pow_add]
    congr 1
    omega
  rw [mantissa, hp, ← Nat.mul_assoc, Nat.mul_div_cancel _ (Nat.two_pow_pos _)]

theorem mantissa_of_lt {size} (h : 3 < size) : mantissa size t = t / 2 ^ (8 * (size - 3)) := by
  have hp : 2 ^ (8 * size) = 2 ^ (8 * (size - 3)) * 2 ^ 24 := by
    rw [← pow_add]
    congr 1
    omega
  rw [mantissa, hp, Nat.mul_div_mul_right _ _ (Nat.two_pow_pos 24)]

theorem mantissa_lt_iff {size} : mantissa size t < 2 ^ 24 ↔ t < 2 ^ (8 * size) := by
  rw [mantissa, Nat.div_lt_iff_lt_mul (Nat.two_pow_pos _)]
  omega

theorem mantissa_lt_half_iff {size} (h : size ≠ 0) :
    mantissa size t < 2 ^ 23 ↔ t.size < 8 * size := by
  have hp : 2 ^ (8 * size) = 2 ^ (8 * size - 1) * 2 := by
    rw [← pow_succ, Nat.sub_add_cancel (by omega)]
  have hs := Nat.size_le (m := t) (n := 8 * size - 1)
  rw [mantissa, Nat.div_lt_iff_lt_mul (Nat.two_pow_pos _)]
  omega

theorem roundedDown_le : roundedDown t ≤ t := Nat.div_mul_le_self _ _

theorem two_pow_le (h : t ≠ 0) : 2 ^ (t.size - 1) ≤ t :=
  Nat.lt_size.mp (Nat.sub_lt (Nat.size_pos.mpr (Nat.pos_of_ne_zero h)) Nat.one_pos)

theorem two_pow_le_roundedDown (h : t ≠ 0) : 2 ^ (t.size - 1) ≤ roundedDown t := by
  have hsplit : 2 ^ (t.size - 1) = 2 ^ (t.size - 1 - 8 * (compactSize t - 3)) *
      2 ^ (8 * (compactSize t - 3)) := by
    rw [← pow_add, Nat.sub_add_cancel (by rw [compactSize]; omega)]
  rw [hsplit]
  refine Nat.mul_le_mul_right _ ((Nat.le_div_iff_mul_le (Nat.two_pow_pos _)).mpr ?_)
  rw [← hsplit]
  exact two_pow_le h

theorem size_roundedDown : (roundedDown t).size = t.size := by
  by_cases h : t = 0
  · simp [h, roundedDown]
  · have hlow := Nat.lt_size.mpr (two_pow_le_roundedDown h)
    have hhigh := Nat.size_le_size (roundedDown_le (t := t))
    omega

theorem compactSize_roundedDown : compactSize (roundedDown t) = compactSize t := by
  rw [compactSize, size_roundedDown, compactSize]

theorem roundedDown_mono (h : t ≤ u) : roundedDown t ≤ roundedDown u := by
  rcases (Nat.size_le_size h).eq_or_lt with heq | hlt
  · rw [roundedDown, compactSize, heq]
    exact Nat.mul_le_mul_right _ (Nat.div_le_div_right h)
  · have hu : u ≠ 0 := by
      rintro rfl
      simp at hlt
    calc roundedDown t ≤ t := roundedDown_le
      _ ≤ 2 ^ (u.size - 1) :=
        (Nat.lt_size_self t).le.trans (Nat.pow_le_pow_right Nat.two_pos (by omega))
      _ ≤ roundedDown u := two_pow_le_roundedDown hu

theorem sub_roundedDown_le : t - roundedDown t ≤ t / 2 ^ 15 := by
  have hmod := Nat.div_add_mod t (2 ^ (8 * (compactSize t - 3)))
  rw [Nat.mul_comm] at hmod
  rw [roundedDown, Nat.le_div_iff_mul_le (Nat.two_pow_pos 15)]
  by_cases hs : compactSize t ≤ 3
  · rw [Nat.sub_eq_zero_of_le hs, pow_zero, Nat.div_one, Nat.mul_one, Nat.sub_self]
    exact Nat.zero_le t
  · have ht : t ≠ 0 := by
      rintro rfl
      simp [compactSize] at hs
    have hlt := Nat.mod_lt t (Nat.two_pow_pos (8 * (compactSize t - 3)))
    have hle : 2 ^ (8 * (compactSize t - 3) + 15) ≤ t :=
      (Nat.pow_le_pow_right Nat.two_pos (by rw [compactSize] at hs ⊢; omega)).trans (two_pow_le ht)
    rw [pow_add] at hle
    have hsub : t - t / 2 ^ (8 * (compactSize t - 3)) * 2 ^ (8 * (compactSize t - 3)) =
        t % 2 ^ (8 * (compactSize t - 3)) := by omega
    rw [hsub]
    exact (Nat.mul_le_mul_right _ hlt.le).trans hle

theorem mantissa_roundedDown :
    mantissa (compactSize t) (roundedDown t) = mantissa (compactSize t) t := by
  by_cases hs : compactSize t ≤ 3
  · rw [roundedDown, Nat.sub_eq_zero_of_le hs, pow_zero, Nat.div_one, Nat.mul_one]
  · rw [mantissa_of_lt (by omega), mantissa_of_lt (by omega), roundedDown,
      Nat.mul_div_cancel _ (Nat.two_pow_pos _)]

theorem mantissa_scaled :
    mantissa (compactSize t) t / 2 ^ (8 * (3 - compactSize t)) * 2 ^ (8 * (compactSize t - 3)) =
    roundedDown t := by
  rw [roundedDown]
  by_cases hs : compactSize t ≤ 3
  · rw [mantissa_of_le hs, Nat.mul_div_cancel _ (Nat.two_pow_pos _), Nat.sub_eq_zero_of_le hs,
      pow_zero, Nat.div_one]
  · rw [mantissa_of_lt (by omega), Nat.sub_eq_zero_of_le (by omega : 3 ≤ _), pow_zero, Nat.div_one]

end Rounding

namespace Uint

def encoded (t : Nat) : Nat :=
  if t = 0 then 0 else mantissa (compactSize t) t + compactSize t * 2 ^ 24

theorem toNat_asU64 {n} (a : Uint (n + 1)) : a.asU64.toNat = a.toNat % 2 ^ 64 := by
  rw [toNat, Limbs.value_succ_low, asU64, toNat_word, Nat.add_mul_mod_self_left,
    Nat.mod_eq_of_lt (digits_lt _ _)]

theorem toNat_fromU64 {n} (x : UInt64) : (fromU64 x : Uint (n + 1)).toNat = x.toNat := by
  rw [fromU64, toNat_ofFn, Limbs.value_succ_low]
  simp [Limbs.value]

theorem and_bit_ne_zero_iff {c : Nat} (h : c < 2 ^ 24) : c &&& 0x00800000 ≠ 0 ↔ ¬ c < 2 ^ 23 := by
  rw [show 0x00800000 = 2 ^ 23 from rfl, Nat.and_two_pow, Nat.testBit_eq_decide_div_mod_eq]
  by_cases hb : c / 2 ^ 23 % 2 = 1
  · rw [decide_eq_true hb]
    simp
    omega
  · rw [decide_eq_false hb]
    simp
    omega

theorem topBytes_eq {t : Uint 4} {size} (hs : size ≤ 32) (ht : t.toNat < 2 ^ (8 * size)) :
    t.topBytes size = some (mantissa size t.toNat) := by
  have hm := mantissa_lt_iff.mpr ht
  rw [topBytes]
  split_ifs with h
  · have hlt : t.toNat < 2 ^ 64 := ht.trans_le (Nat.pow_le_pow_right Nat.two_pos (by omega))
    rw [toNat_asU64, Nat.mod_eq_of_lt hlt, Nat.shiftLeft_eq, ← mantissa_of_le h,
      Nat.mod_eq_of_lt (by omega), Nat.mod_eq_of_lt (by omega)]
  · have hlt : 8 * (size - 3) < 64 * 4 := by omega
    rw [checked_eq (decide_eq_false (Nat.not_le.mpr hlt)), Option.map_some, toNat_asU64,
      toNat_overflowingShr _ hlt, ← mantissa_of_lt (Nat.lt_of_not_le h),
        Nat.mod_eq_of_lt (by omega), Nat.mod_eq_of_lt (by omega)]

theorem or_size {m size : Nat} (hm : m < 2 ^ 24) (hs : size ≤ 33) :
    m ||| size <<< 24 % 2 ^ 32 = m + size * 2 ^ 24 := by
  have hlt : size <<< 24 < 2 ^ 32 := by omega
  rw [Nat.mod_eq_of_lt hlt, Nat.or_comm, ← Nat.shiftLeft_add_eq_or_of_lt hm, Nat.shiftLeft_eq,
    Nat.add_comm]

theorem compactTargetBits_eq (t : Uint 4) : t.compactTargetBits = some (encoded t.toNat) := by
  have hbits := Nat.size_le.mpr t.toNat_lt
  have hlt : t.toNat < 2 ^ (8 * ((t.bits + 7) / 8)) := Nat.size_le.mp (by rw [bits_eq]; omega)
  have hm := mantissa_lt_iff.mpr hlt
  rw [compactTargetBits, topBytes_eq (by rw [bits_eq]; omega) hlt, Option.bind_eq_bind,
    Option.bind_some, bits_eq]
  rw [bits_eq] at hm
  simp only [and_bit_ne_zero_iff hm]
  by_cases h0 : t.toNat = 0
  · simp [h0, mantissa, encoded]
  · have hpos := Nat.size_pos.mpr (Nat.pos_of_ne_zero h0)
    have hhalf := mantissa_lt_half_iff (t := t.toNat) (by omega : (t.toNat.size + 7) / 8 ≠ 0)
    rw [encoded]
    split_ifs with htop
    · have hsize : compactSize t.toNat = (t.toNat.size + 7) / 8 := by
        rw [compactSize]
        omega
      rw [or_size hm (by omega), hsize]
      rfl
    · have hsize : compactSize t.toNat = (t.toNat.size + 7) / 8 + 1 := by
        rw [compactSize]
        omega
      have hshift : mantissa ((t.toNat.size + 7) / 8) t.toNat >>> 8 =
          mantissa (compactSize t.toNat) t.toNat := by
        rw [hsize, mantissa, mantissa, Nat.shiftRight_eq_div_pow, Nat.div_div_eq_div_mul, ← pow_add,
          Nat.mul_succ]
      rw [or_size (by rw [Nat.shiftRight_eq_div_pow]; omega) (by omega), hshift, hsize]
      rfl

theorem fromCompactTargetBits_eq {m size v : Nat} (hm : m < 2 ^ 23) (hs : size ≤ 33)
    (hv : m / 2 ^ (8 * (3 - size)) * 2 ^ (8 * (size - 3)) = v) (hfits : v < 2 ^ 256) :
    ∃ d, fromCompactTargetBits (m + size * 2 ^ 24) = some d ∧ d.toNat = v := by
  have hexp : (m + size * 2 ^ 24) >>> 24 = size := by omega
  have hlow : (m + size * 2 ^ 24) &&& 0xFFFFFF = m := by
    rw [Nat.and_two_pow_sub_one_eq_mod _ 24]
    omega
  have hle := Nat.div_le_self m (2 ^ (8 * (3 - size)))
  have hdec : fromCompactTargetBits (m + size * 2 ^ 24) =
      checked ((fromU64 (UInt64.ofNat (m / 2 ^ (8 * (3 - size))))).overflowingShl
          (8 * (size - 3))) := by
    rw [fromCompactTargetBits, hexp, hlow]
    split_ifs with h
    · rw [Nat.sub_eq_zero_of_le h, Nat.shiftRight_eq_div_pow]
      exact if_neg (by omega)
    · rw [Nat.sub_eq_zero_of_le (by omega : 3 ≤ size), pow_zero, Nat.div_one]
      exact if_neg (by omega)
  have hlt : 8 * (size - 3) < 64 * 4 := by omega
  refine ⟨_, hdec.trans (checked_eq (decide_eq_false (Nat.not_le.mpr hlt))), ?_⟩
  rw [toNat_overflowingShl _ hlt, toNat_fromU64, UInt64.toNat_ofNat',
    Nat.mod_eq_of_lt (by omega : _ < 2 ^ 64), hv]
  exact Nat.mod_eq_of_lt hfits

theorem roundTrip_eq (t : Uint 4) : ∃ d, t.roundTrip = some d ∧ d.toNat = roundedDown t.toNat := by
  rw [roundTrip, compactTargetBits_eq, Option.bind_eq_bind, Option.bind_some, encoded]
  split_ifs with h0
  · exact fromCompactTargetBits_eq (by decide) (Nat.zero_le 33) (by simp [h0, roundedDown])
      (by simp [h0, roundedDown])
  · have hbits := Nat.size_le.mpr t.toNat_lt
    have hlt : t.toNat.size < 8 * compactSize t.toNat := by
      rw [compactSize]
      omega
    exact fromCompactTargetBits_eq ((mantissa_lt_half_iff (Nat.succ_ne_zero _)).mpr hlt)
      (by rw [compactSize]; omega) mantissa_scaled (roundedDown_le.trans_lt t.toNat_lt)

-- Encoding rounds a target down, by less than one part in 2 ^ 15, to a target that is encoded
-- exactly.
theorem compactTargetBits_roundsDown (t : Uint 4) : ∃ d, t.roundTrip = some d ∧ d.toNat ≤ t.toNat ∧
    t.toNat - d.toNat ≤ t.toNat / 2 ^ 15 ∧ d.roundTrip = some d ∧
    d.compactTargetBits = t.compactTargetBits ∧
    ∀ u e : Uint 4, u.roundTrip = some e → t.toNat ≤ u.toNat → d.toNat ≤ e.toNat := by
  obtain ⟨d, hd, hv⟩ := t.roundTrip_eq
  have hbits : d.compactTargetBits = t.compactTargetBits := by
    rw [compactTargetBits_eq, compactTargetBits_eq, hv]
    by_cases h0 : t.toNat = 0
    · simp [h0, roundedDown]
    · have hne := Nat.two_pow_pos (t.toNat.size - 1) |>.trans_le (two_pow_le_roundedDown h0)
      rw [encoded, encoded, if_neg hne.ne', if_neg h0, compactSize_roundedDown,
        mantissa_roundedDown]
  refine ⟨d, hd, hv ▸ roundedDown_le, hv ▸ sub_roundedDown_le, ?_, hbits, fun u e hu hle => ?_⟩
  · rw [roundTrip, hbits]
    exact hd
  · obtain ⟨e', he, hw⟩ := u.roundTrip_eq
    obtain rfl := Option.some.inj (hu.symm.trans he)
    rw [hv, hw]
    exact roundedDown_mono hle

end Uint

end Spora
