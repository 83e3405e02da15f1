import Spora.Cell.Types
import Spora.Lib.Framing

namespace Spora

open Framing

theorem length_leBytes (width n : Nat) : (leBytes width n).length = width := by
  induction width generalizing n with
  | zero => rfl
  | succ width ih => simp [leBytes, ih]

def Fits (width n : Nat) : Prop := n < 256 ^ width

theorem leNat_leBytes {width n} (h : Fits width n) : leNat (leBytes width n) = n := by
  induction width generalizing n with
  | zero =>
    have hz : n = 0 := by simpa [Fits] using h
    simp [leBytes, leNat, hz]
  | succ width ih =>
    have hr : Fits width (n / 256) := by exact Nat.div_lt_of_lt_mul (by rw [Nat.mul_comm]; exact h)
    have ht := ih hr
    unfold leNat at ht ⊢
    rw [leBytes, List.foldr_cons]
    have hb : (UInt8.ofNat (n % 256)).toNat = n % 256 := by
      rw [UInt8.toNat_ofNat', Nat.mod_eq_of_lt (Nat.mod_lt _ (by decide))]
    omega

theorem framed_leBytes (width : Nat) : Framed (Fits width) (leBytes width) := by
  refine Framed.of_length (length_leBytes width) fun a b ha hb hab => ?_
  rw [← leNat_leBytes ha, ← leNat_leBytes hb, hab]

theorem framed_varBytes (width : Nat) :
    Framed (fun bytes : Bytes => Fits width bytes.length) fun bytes =>
    leBytes width bytes.length ++ bytes := by
  intro a b x y ha hb hab
  rw [List.append_assoc, List.append_assoc] at hab
  obtain ⟨hl, hr⟩ := framed_leBytes width ha hb hab
  exact List.append_inj hr hl

theorem leBytes_leNat (bytes : Bytes) : leBytes bytes.length (leNat bytes) = bytes := by
  induction bytes with
  | nil => rfl
  | cons byte bytes ih =>
    have hr : leNat (byte :: bytes) = byte.toNat + 256 * leNat bytes := rfl
    have hb := byte.toNat_lt
    have hlow : leNat (byte :: bytes) % 256 = byte.toNat := by omega
    have hh : leNat (byte :: bytes) / 256 = leNat bytes := by omega
    rw [List.length_cons, leBytes, hlow, hh, ih, UInt8.ofNat_toNat]

theorem fits_leNat (bytes : Bytes) : Fits bytes.length (leNat bytes) := by
  induction bytes with
  | nil => exact Nat.one_pos
  | cons byte bytes ih =>
    have hr : leNat (byte :: bytes) = byte.toNat + 256 * leNat bytes := rfl
    have hb := byte.toNat_lt
    unfold Fits at ih ⊢
    rw [List.length_cons]
    omega

theorem leBytes_leNat_leBytes (width n : Nat) :
    leBytes width (leNat (leBytes width n)) = leBytes width n := by
  have hb := leBytes_leNat (leBytes width n)
  rwa [length_leBytes] at hb

end Spora
