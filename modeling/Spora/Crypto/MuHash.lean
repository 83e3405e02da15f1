import Mathlib.Data.Int.ModEq
import Spora.Crypto.U3072.Arithmetic

-- The multiplicative hash of a multiset: a fraction whose numerator collects the elements added and
-- whose denominator collects those removed.
namespace Spora

open Limbs Option U3072
open U3072 (PRIME)

-- What is assumed of the malachite library: inverses modulo the prime of all that is below and
-- coprime to it, which for a prime is everything between zero and it.
structure Malachite where
  modInverse : ModInverse
  correct : ∀ a : U3072, a.toNat < PRIME → Nat.Coprime a.toNat PRIME →
    ∃ inv, modInverse a UINT_PRIME = some inv ∧ inv.toNat < PRIME ∧
      inv.toNat * a.toNat ≡ 1 [MOD PRIME]

-- The hash of the data expanded by a ChaCha20 stream, always coprime to the prime: never a multiple
-- of it.
structure ElementHash where
  stream : Bytes → Vector UInt8 384
  coprime : ∀ data, Nat.Coprime (fromLeBytes (stream data)).toNat PRIME

def ElementHash.dataToElement (self : ElementHash) (data : Bytes) : U3072 :=
  fromLeBytes (self.stream data)

structure MuHash where
  numerator : U3072
  denominator : U3072
deriving DecidableEq, Repr

namespace MuHash

def new : MuHash := ⟨.one, .one⟩

def addElement (self : MuHash) (hash : ElementHash) (data : Bytes) : Option MuHash := do
  let numerator ← self.numerator.mul (hash.dataToElement data)
  return { self with numerator }

def removeElement (self : MuHash) (hash : ElementHash) (data : Bytes) : Option MuHash := do
  let denominator ← self.denominator.mul (hash.dataToElement data)
  return { self with denominator }

def combine (self other : MuHash) : Option MuHash := do
  let numerator ← self.numerator.mul other.numerator
  let denominator ← self.denominator.mul other.denominator
  return ⟨numerator, denominator⟩

def normalize (self : MuHash) (malachite : Malachite) : Option MuHash := do
  let numerator ← self.numerator.div malachite.modInverse self.denominator
  return ⟨numerator, .one⟩

def serialize (self : MuHash) (malachite : Malachite) : Option (Bytes × MuHash) := do
  let normalized ← self.normalize malachite
  return (normalized.numerator.toLeBytes, normalized)

end MuHash

section Bytes

theorem leBytes_add (a b : Nat) {x} (hx : x < 256 ^ a) (y : Nat) :
    leBytes (a + b) (x + 256 ^ a * y) = leBytes a x ++ leBytes b y := by
  induction a generalizing x with
  | zero =>
    obtain rfl : x = 0 := Nat.lt_one_iff.mp hx
    simp [leBytes]
  | succ a ih =>
    rw [Nat.pow_succ'] at hx ⊢
    have hmod : (x + 256 * 256 ^ a * y) % 256 = x % 256 := by
      rw [Nat.mul_assoc, Nat.add_mul_mod_self_left]
    have hdiv : (x + 256 * 256 ^ a * y) / 256 = x / 256 + 256 ^ a * y := by
      rw [Nat.mul_assoc, Nat.add_mul_div_left _ _ (by omega)]
    rw [Nat.succ_add, leBytes, leBytes, hmod, hdiv, ih (by omega), List.cons_append]

theorem flatMap_leBytes (limbs : List Limb) : limbs.flatMap (fun limb => leBytes 8 limb.toNat) =
    leBytes (8 * limbs.length)
    (value (2 ^ 64) (fun i => (limbs[i]?.getD 0).toNat) limbs.length) := by
  induction limbs with
  | nil => rfl
  | cons limb limbs ih =>
    have hpow : 2 ^ 64 = 256 ^ 8 := by norm_num
    have hli := hpow ▸ limb.toNat_lt
    have hl : 8 * (limb :: limbs).length = 8 + 8 * limbs.length := by
      rw [List.length_cons]
      omega
    rw [List.flatMap_cons, ih, hl, List.length_cons, value_succ_low, ← leBytes_add _ _ hli]
    rfl

theorem U3072.toLeBytes_eq (u : U3072) : u.toLeBytes = leBytes 384 u.toNat := by
  have hl : (fun i => (u.limbs.toList[i]?.getD 0).toNat) = limbAt u.limbs := by
    funext i
    rw [limbAt, Vector.getElem?_toList]
  rw [toLeBytes, flatMap_leBytes, hl, Vector.length_toList]
  rfl

end Bytes

namespace U3072

theorem toNat_one : one.toNat = 1 := by
  rfl

theorem one_lt_prime : 1 < PRIME := by
  have hp := prime_add
  have hs := two_pow_le_size (k := 64) (by norm_num)
  omega

theorem eq_one_of_modEq {u} (hlt : u.toNat < PRIME) (hmod : u.toNat ≡ 1 [MOD PRIME]) : u = one :=
  toNat_injective ((Nat.ModEq.eq_of_lt_of_lt hmod hlt one_lt_prime).trans toNat_one.symm)

theorem mul_spec (u v : U3072) :
    ∃ r, u.mul v = some r ∧ r.toNat ≡ u.toNat * v.toNat [MOD PRIME] ∧
    (v.toNat < PRIME → r.toNat < PRIME) := by
  by_cases hone : u = one
  · refine ⟨v, if_pos hone, ?_, id⟩
    rw [hone, toNat_one, Nat.one_mul]
  · obtain ⟨r, hrun, hmod, hlt⟩ := mul_spec_of_ne_one u v hone
    exact ⟨r, hrun, hmod, fun _ => hlt⟩

theorem coprime_of_modEq {a b} (h : a ≡ b [MOD PRIME]) (hb : Nat.Coprime b PRIME) :
    Nat.Coprime a PRIME :=
  (Nat.ModEq.gcd_eq h).trans hb

variable (malachite : Malachite)

theorem inverse_spec {a : U3072} (hlt : a.toNat < PRIME) (hcoprime : Nat.Coprime a.toNat PRIME) :
    ∃ inv, a.inverse malachite.modInverse = some inv ∧ inv.toNat < PRIME ∧
    inv.toNat * a.toNat ≡ 1 [MOD PRIME] := by
  obtain ⟨a', hr, -, hk⟩ := a.reduceIfOverflow_spec
  obtain rfl := hk hlt
  have hz : a' ≠ zero := by
    rintro rfl
    exact one_lt_prime.ne' ((Nat.coprime_zero_left PRIME).mp hcoprime)
  obtain ⟨inv, hinv, hin, hmod⟩ := malachite.correct a' hlt hcoprime
  -- the assertion on the product holds as it is reduced
  obtain ⟨product, hmul, hpr, hp⟩ := mul_spec inv a'
  obtain rfl := eq_one_of_modEq (hp hlt) (hpr.trans hmod)
  refine ⟨inv, ?_, hin, hmod⟩
  rw [inverse, hr, bind_eq_bind, bind_some, if_neg hz, hinv]
  simp [hmul]

theorem div_spec (u : U3072) {v} (hv : Nat.Coprime v.toNat PRIME) :
    ∃ r, u.div malachite.modInverse v = some r ∧ r.toNat < PRIME ∧
    r.toNat * v.toNat ≡ u.toNat [MOD PRIME] := by
  obtain ⟨v', hre, hv', -⟩ := v.reduceIfOverflow_spec
  have hvm : v'.toNat ≡ v.toNat [MOD PRIME] := by
    rw [hv']
    exact Nat.mod_modEq _ _
  have hlt : v'.toNat < PRIME := by
    rw [hv']
    exact Nat.mod_lt _ (Nat.zero_lt_of_lt one_lt_prime)
  obtain ⟨inv, hinverse, hin, hinv⟩ := inverse_spec malachite hlt (coprime_of_modEq hvm hv)
  obtain ⟨u', hr', hu', -⟩ := u.reduceIfOverflow_spec
  obtain ⟨r, hmul, hr, hrlt⟩ := mul_spec u' inv
  obtain ⟨r', hl, -, hk⟩ := r.reduceIfOverflow_spec
  obtain rfl := hk (hrlt hin)
  refine ⟨r', by simp [div, hre, hinverse, hr', hmul, hl], hrlt hin, ?_⟩
  have hu : u'.toNat ≡ u.toNat [MOD PRIME] := by
    rw [hu']
    exact Nat.mod_modEq _ _
  calc r'.toNat * v.toNat ≡ u'.toNat * inv.toNat * v'.toNat [MOD PRIME] := hr.mul hvm.symm
    _ = u'.toNat * (inv.toNat * v'.toNat) := Nat.mul_assoc _ _ _
    _ ≡ u'.toNat * 1 [MOD PRIME] := hinv.mul_left _
    _ = u'.toNat := Nat.mul_one _
    _ ≡ u.toNat [MOD PRIME] := hu

theorem div_of_dvd (u : U3072) {v} (hv : PRIME ∣ v.toNat) :
    u.div malachite.modInverse v = some zero := by
  have hpos : zero.toNat < PRIME := Nat.zero_lt_of_lt one_lt_prime
  obtain ⟨v', hre, hv', -⟩ := v.reduceIfOverflow_spec
  obtain rfl : v' = zero := toNat_injective (hv'.trans (Nat.mod_eq_zero_of_dvd hv))
  obtain ⟨z, hz, -, hk⟩ := zero.reduceIfOverflow_spec
  obtain rfl := hk hpos
  obtain ⟨u', hr', -, -⟩ := u.reduceIfOverflow_spec
  obtain ⟨r, hmul, hr, hrlt⟩ := mul_spec u' zero
  obtain rfl : r = zero := toNat_injective (Nat.ModEq.eq_of_lt_of_lt hr (hrlt hpos) hpos)
  simp [div, inverse, hre, hz, hr', hmul]

-- Multiplication and division never fail an assertion, also for numbers that are not reduced, and
-- are those of the residues; a multiple of the prime, which has no inverse, gives the quotient
-- zero.
theorem arithmetic_mod_prime (u v : U3072) :
    (∃ r, u.mul v = some r ∧ r.toNat ≡ u.toNat * v.toNat [MOD PRIME] ∧
      (v.toNat < PRIME → r.toNat < PRIME)) ∧ ∀ malachite : Malachite,
    (Nat.Coprime v.toNat PRIME → ∃ r, u.div malachite.modInverse v = some r ∧ r.toNat < PRIME ∧
      r.toNat * v.toNat ≡ u.toNat [MOD PRIME]) ∧
    (PRIME ∣ v.toNat → u.div malachite.modInverse v = some zero) :=
  ⟨u.mul_spec v, fun malachite => ⟨u.div_spec malachite, u.div_of_dvd malachite⟩⟩

def ofNat (n : Nat) : U3072 := ⟨.ofFn fun i => UInt64.ofNat (n / (2 ^ 64) ^ (i : Nat))⟩

theorem toNat_ofNat {n} (hn : n < SIZE) : (ofNat n).toNat = n := by
  have hdigits : ∀ k, value (2 ^ 64) (fun i => n / (2 ^ 64) ^ i % 2 ^ 64) k = n % (2 ^ 64) ^ k := by
    intro k
    induction k with
    | zero => exact (Nat.mod_one n).symm
    | succ k ih => rw [value_succ, ih, Nat.mul_comm, ← Nat.mod_pow_succ]
  refine Eq.trans (value_congr fun i hi => ?_) ((hdigits 48).trans (Nat.mod_eq_of_lt hn))
  rw [limbAt, ofNat, Vector.getElem?_ofFn, dif_pos hi, Option.getD_some]
  exact UInt64.toNat_ofNat'

end U3072

def Malachite.sample : Malachite where
  modInverse a _ := some (.ofNat (Nat.gcdA a.toNat PRIME % PRIME).toNat)
  correct a hlt hcoprime := by
    have hpos : (0 : Int) < PRIME := Int.natCast_pos.mpr (Nat.zero_lt_of_lt hlt)
    have hinv : ((Nat.gcdA a.toNat PRIME % PRIME).toNat : Int) = Nat.gcdA a.toNat PRIME % PRIME :=
      Int.toNat_of_nonneg (Int.emod_nonneg _ hpos.ne')
    have hlt' : (Nat.gcdA a.toNat PRIME % PRIME).toNat < PRIME := by
      rw [← Int.ofNat_lt, hinv]
      exact Int.emod_lt_of_pos _ hpos
    have hbezout := Nat.gcd_eq_gcd_ab a.toNat PRIME
    rw [hcoprime] at hbezout
    refine ⟨_, rfl, ?_⟩
    rw [toNat_ofNat (hlt'.trans_le (Nat.sub_le _ _))]
    refine ⟨hlt', Int.natCast_modEq_iff.mp ?_⟩
    rw [Nat.cast_mul, hinv]
    calc Nat.gcdA a.toNat PRIME % PRIME * a.toNat ≡ Nat.gcdA a.toNat PRIME * a.toNat [ZMOD PRIME] :=
          (Int.mod_modEq _ _).mul_right _
      _ ≡ Nat.gcdA a.toNat PRIME * a.toNat + PRIME * Nat.gcdB a.toNat PRIME [ZMOD PRIME] :=
          (Int.modEq_add_fac_self).symm
      _ = 1 := by rw [Int.mul_comm, ← hbezout, Nat.cast_one]

theorem U3072.div_unreduced :
    ∃ r, (ofNat 7).div Malachite.sample.modInverse (ofNat (PRIME + 2)) = some r ∧
    r.toNat < PRIME ∧ r.toNat * (PRIME + 2) ≡ 7 [MOD PRIME] := by
  have hv : (ofNat (PRIME + 2)).toNat = PRIME + 2 := toNat_ofNat (by decide +kernel)
  have hu : (ofNat 7).toNat = 7 := toNat_ofNat (by decide +kernel)
  have hdiv := ((arithmetic_mod_prime (.ofNat 7) (.ofNat (PRIME + 2))).2 Malachite.sample).1
  rw [hv, hu] at hdiv
  exact hdiv (by decide +kernel)

def ElementHash.sample : ElementHash where
  stream data := .ofFn fun i => if i.val = 0 then if data.length ≤ 1 then 2 else 3 else 0
  coprime data := by
    by_cases h : data.length ≤ 1
    · simp only [h]
      decide +kernel
    · simp only [h]
      decide +kernel

namespace MuHash

-- A sequence of calls that ends in a hash; the argument of combine comes from calls of its own.
inductive Calls
  | new
  | addElement (calls : Calls) (data : Bytes)
  | removeElement (calls : Calls) (data : Bytes)
  | combine (calls other : Calls)
  | serialize (calls : Calls)

namespace Calls

variable (hash : ElementHash) (malachite : Malachite)

def run : Calls → Option MuHash
  | new => some .new
  | addElement calls data => calls.run.bind (·.addElement hash data)
  | removeElement calls data => calls.run.bind (·.removeElement hash data)
  | combine calls other => calls.run.bind fun self => other.run.bind self.combine
  | serialize calls => calls.run.bind fun self => (self.serialize malachite).map Prod.snd

def commitment (calls : Calls) : Option Bytes :=
  (calls.run hash malachite).bind fun self => (self.serialize malachite).map Prod.fst

def added : Calls → Multiset Nat
  | new => 0
  | addElement calls data => (hash.dataToElement data).toNat ::ₘ calls.added
  | removeElement calls _ => calls.added
  | combine calls other => calls.added + other.added
  | serialize calls => calls.added

def removed : Calls → Multiset Nat
  | new => 0
  | addElement calls _ => calls.removed
  | removeElement calls data => (hash.dataToElement data).toNat ::ₘ calls.removed
  | combine calls other => calls.removed + other.removed
  | serialize calls => calls.removed

end Calls

-- The fraction is the product of what was added over the product of what was removed.
structure Holds (muhash : MuHash) (added removed : Multiset Nat) : Prop where
  numerator : Nat.Coprime muhash.numerator.toNat PRIME
  denominator : Nat.Coprime muhash.denominator.toNat PRIME
  fraction : muhash.numerator.toNat * removed.prod ≡ muhash.denominator.toNat *
    added.prod [MOD PRIME]

section Steps

variable {self other : MuHash} {added removed added' removed' : Multiset Nat} {hash : ElementHash}
  {malachite : Malachite}

theorem holds_new : Holds new 0 0 where
  numerator := by
    exact Nat.coprime_one_left PRIME
  denominator := by
    exact Nat.coprime_one_left PRIME
  fraction := rfl

variable (h : Holds self added removed)
include h

theorem Holds.addElement (data : Bytes) : ∃ next, self.addElement hash data = some next ∧
    Holds next ((hash.dataToElement data).toNat ::ₘ added) removed := by
  obtain ⟨r, hrun, hr, -⟩ := self.numerator.mul_spec (hash.dataToElement data)
  have he := hash.coprime data
  refine ⟨⟨r, self.denominator⟩, by rw [MuHash.addElement, hrun]; rfl,
    coprime_of_modEq hr (h.numerator.mul_left he), h.denominator, ?_⟩
  rw [Multiset.prod_cons]
  calc r.toNat * removed.prod
      ≡ self.numerator.toNat * (hash.dataToElement data).toNat * removed.prod [MOD PRIME] :=
        hr.mul_right _
    _ = (hash.dataToElement data).toNat * (self.numerator.toNat * removed.prod) := by ring
    _ ≡ (hash.dataToElement data).toNat * (self.denominator.toNat * added.prod) [MOD PRIME] :=
        h.fraction.mul_left _
    _ = self.denominator.toNat * ((hash.dataToElement data).toNat * added.prod) := by ring

theorem Holds.removeElement (data : Bytes) :
    ∃ next, self.removeElement hash data = some next ∧
    Holds next added ((hash.dataToElement data).toNat ::ₘ removed) := by
  obtain ⟨r, hrun, hr, -⟩ := self.denominator.mul_spec (hash.dataToElement data)
  have he := hash.coprime data
  refine ⟨⟨self.numerator, r⟩, by rw [MuHash.removeElement, hrun]; rfl, h.numerator,
    coprime_of_modEq hr (h.denominator.mul_left he), ?_⟩
  rw [Multiset.prod_cons]
  calc self.numerator.toNat * ((hash.dataToElement data).toNat * removed.prod)
      = (hash.dataToElement data).toNat * (self.numerator.toNat * removed.prod) := by ring
    _ ≡ (hash.dataToElement data).toNat * (self.denominator.toNat * added.prod) [MOD PRIME] :=
        h.fraction.mul_left _
    _ = self.denominator.toNat * (hash.dataToElement data).toNat * added.prod := by ring
    _ ≡ r.toNat * added.prod [MOD PRIME] := hr.symm.mul_right _

theorem Holds.combine (h' : Holds other added' removed') :
    ∃ next, self.combine other = some next ∧ Holds next (added + added') (removed + removed') := by
  obtain ⟨num, hnum, hn, -⟩ := self.numerator.mul_spec other.numerator
  obtain ⟨den, hden, hd, -⟩ := self.denominator.mul_spec other.denominator
  refine ⟨⟨num, den⟩, by rw [MuHash.combine, hnum, hden]; rfl,
    coprime_of_modEq hn (h.numerator.mul_left h'.numerator),
    coprime_of_modEq hd (h.denominator.mul_left h'.denominator), ?_⟩
  rw [Multiset.prod_add, Multiset.prod_add]
  calc num.toNat * (removed.prod * removed'.prod)
      ≡ self.numerator.toNat * other.numerator.toNat * (removed.prod * removed'.prod) [MOD PRIME] :=
        hn.mul_right _
    _ = self.numerator.toNat * removed.prod * (other.numerator.toNat * removed'.prod) := by ring
    _ ≡ self.denominator.toNat * added.prod * (other.denominator.toNat * added'.prod) [MOD PRIME] :=
        h.fraction.mul h'.fraction
    _ = self.denominator.toNat * other.denominator.toNat * (added.prod * added'.prod) := by ring
    _ ≡ den.toNat * (added.prod * added'.prod) [MOD PRIME] := hd.symm.mul_right _

theorem Holds.serialize (malachite) :
    ∃ quotient, self.serialize malachite = some (leBytes 384 quotient.toNat, ⟨quotient, .one⟩) ∧
    quotient.toNat < PRIME ∧ quotient.toNat * removed.prod ≡ added.prod [MOD PRIME] ∧
    Holds ⟨quotient, .one⟩ added removed := by
  obtain ⟨q, hdiv, hlt, hmod⟩ := self.numerator.div_spec malachite h.denominator
  have hq : q.toNat * removed.prod ≡ added.prod [MOD PRIME] := by
    have hc : self.denominator.toNat * (q.toNat * removed.prod) ≡
        self.denominator.toNat * added.prod [MOD PRIME] := by
      calc self.denominator.toNat * (q.toNat * removed.prod)
          = q.toNat * self.denominator.toNat * removed.prod := by ring
        _ ≡ self.numerator.toNat * removed.prod [MOD PRIME] := hmod.mul_right _
        _ ≡ self.denominator.toNat * added.prod [MOD PRIME] := h.fraction
    exact Nat.ModEq.cancel_left_of_coprime h.denominator.symm hc
  refine ⟨q, ?_, hlt, hq, ?_, ?_, ?_⟩
  · rw [MuHash.serialize, MuHash.normalize, hdiv, ← toLeBytes_eq]
    rfl
  · exact (coprime_of_modEq hmod h.numerator).coprime_mul_right
  · rw [toNat_one]
    exact Nat.coprime_one_left PRIME
  · rw [toNat_one, Nat.one_mul]
    exact hq

end Steps

theorem Calls.run_spec (hash : ElementHash) (malachite) (calls : Calls) :
    ∃ self, calls.run hash malachite = some self ∧
    Holds self (calls.added hash) (calls.removed hash) := by
  induction calls with
  | new => exact ⟨_, rfl, holds_new⟩
  | addElement calls data ih =>
    obtain ⟨self, hrun, hs⟩ := ih
    obtain ⟨next, hadd, hn⟩ := hs.addElement data
    exact ⟨next, by rw [run, hrun, bind_some, hadd], hn⟩
  | removeElement calls data ih =>
    obtain ⟨self, hrun, hs⟩ := ih
    obtain ⟨next, hr, hn⟩ := hs.removeElement data
    exact ⟨next, by rw [run, hrun, bind_some, hr], hn⟩
  | combine calls other ih ih' =>
    obtain ⟨self, hrun, hs⟩ := ih
    obtain ⟨self', hr', hs'⟩ := ih'
    obtain ⟨next, hc, hn⟩ := hs.combine hs'
    exact ⟨next, by rw [run, hrun, bind_some, hr', bind_some, hc], hn⟩
  | serialize calls ih =>
    obtain ⟨self, hrun, hs⟩ := ih
    obtain ⟨q, hse, -, -, hn⟩ := hs.serialize malachite
    exact ⟨_, by rw [run, hrun, bind_some, hse, map_some], hn⟩

theorem quotient_unique {removed added x y} (hcoprime : Nat.Coprime removed PRIME) (hx : x < PRIME)
    (hy : y < PRIME) (hxmod : x * removed ≡ added [MOD PRIME])
    (hymod : y * removed ≡ added [MOD PRIME]) : x = y :=
  Nat.ModEq.eq_of_lt_of_lt
    (Nat.ModEq.cancel_right_of_coprime hcoprime.symm (hxmod.trans hymod.symm)) hx hy

theorem Calls.coprime_removed (hash : ElementHash) (calls : Calls) :
    Nat.Coprime (calls.removed hash).prod PRIME := by
  induction calls with
  | new => exact Nat.coprime_one_left PRIME
  | addElement calls data ih => exact ih
  | removeElement calls data ih =>
    rw [removed, Multiset.prod_cons]
    exact (hash.coprime data).mul_left ih
  | combine calls other ih ih' =>
    rw [removed, Multiset.prod_add]
    exact ih.mul_left ih'
  | serialize calls ih => exact ih

-- No call fails, and the bytes are those of the one quotient below the prime.
theorem Calls.commitment_spec (hash : ElementHash) (malachite : Malachite) (calls : Calls) :
    (∃ quotient, calls.commitment hash malachite = some (leBytes 384 quotient) ∧ quotient < PRIME ∧
      quotient * (calls.removed hash).prod ≡ (calls.added hash).prod [MOD PRIME] ∧
      ∀ other < PRIME, other * (calls.removed hash).prod ≡ (calls.added hash).prod [MOD PRIME] →
      other = quotient) ∧ ∀ calls' : Calls, calls'.added hash = calls.added hash →
    calls'.removed hash = calls.removed hash →
    calls'.commitment hash malachite = calls.commitment hash malachite := by
  have hq : ∀ calls : Calls, ∃ quotient,
      calls.commitment hash malachite = some (leBytes 384 quotient) ∧ quotient < PRIME ∧
        quotient * (calls.removed hash).prod ≡ (calls.added hash).prod [MOD PRIME] := by
    intro calls
    obtain ⟨self, hrun, hse⟩ := calls.run_spec hash malachite
    obtain ⟨quotient, hs, hlt, hmod, -⟩ := hse.serialize malachite
    exact ⟨quotient.toNat, by rw [commitment, hrun, bind_some, hs, map_some], hlt, hmod⟩
  obtain ⟨quotient, hb, hlt, hmod⟩ := hq calls
  have hc := calls.coprime_removed hash
  refine ⟨⟨quotient, hb, hlt, hmod, fun other hot ho =>
    quotient_unique hc hot hlt ho hmod⟩, ?_⟩
  intro calls' ha hr
  obtain ⟨quotient', hb', hlt', hm'⟩ := hq calls'
  rw [ha, hr] at hm'
  rw [hb, hb', quotient_unique hc hlt' hlt hm' hmod]

-- Two elements added, one added and one removed elsewhere, then one more removed.
def sampleCalls : Calls :=
  .removeElement (.serialize (.combine (.addElement (.addElement .new [1]) [2, 1])
    (.removeElement (.addElement .new [3]) [4, 5]))) [6, 7]

theorem Calls.commitment_sample : ∃ quotient,
    sampleCalls.commitment .sample .sample = some (leBytes 384 quotient) ∧ quotient < PRIME ∧
    quotient * 9 ≡ 12 [MOD PRIME] := by
  obtain ⟨quotient, hrun, hlt, hmod, -⟩ := (Calls.commitment_spec .sample .sample sampleCalls).1
  have hadded : (sampleCalls.added .sample).prod = 12 := by decide +kernel
  have hremoved : (sampleCalls.removed .sample).prod = 9 := by decide +kernel
  rw [hadded, hremoved] at hmod
  exact ⟨quotient, hrun, hlt, hmod⟩

end MuHash

end Spora
