import Spora.Cell.Types
import Spora.Lib.Limbs

-- Arithmetic modulo 2 ^ 3072 - 1103717 on 48 limbs of 64 bits. Results are optional: none stands
-- for a failed assertion, a failed overflow check or an index out of bounds.
namespace Spora

abbrev Limb := UInt64

def LIMBS : Nat := 48

def PRIME_DIFF : Limb := 1103717

-- An operation on u64 (or u128) whose exact result is n, with the overflow check of the build
-- profile.
def limb? (n : Nat) : Option Limb := if n < 2 ^ 64 then some (UInt64.ofNat n) else none

def doubleLimb? (n : Nat) : Option Nat := if n < 2 ^ 128 then some n else none

-- The sum and the carry, which the source keeps as a limb.
def overflowingAdd (a b : Limb) : Limb × Limb :=
  (a + b, if a.toNat + b.toNat < 2 ^ 64 then 0 else 1)

def mulWide (a b : Limb) : Limb × Limb :=
  let t := a.toNat * b.toNat
  (UInt64.ofNat t, UInt64.ofNat (t / 2 ^ 64))

def mulnadd3 (c0 c1 d0 d1 d2 n : Limb) : Option (Limb × Limb × Limb) := do
  let t ← doubleLimb? (d0.toNat * n.toNat + c0.toNat)
  let t' ← doubleLimb? (t / 2 ^ 64 + (d1.toNat * n.toNat + c1.toNat))
  let d2n ← limb? (d2.toNat * n.toNat)
  let c2 ← limb? ((UInt64.ofNat (t' / 2 ^ 64)).toNat + d2n.toNat)
  return (UInt64.ofNat t, UInt64.ofNat t', c2)

def muladd3 (a b : Limb) : Limb × Limb × Limb → Option (Limb × Limb × Limb)
  | (low, high, carry) => do
    let (tl, th) := mulWide a b
    let (low, overflow) := overflowingAdd low tl
    let th ← limb? (th.toNat + overflow.toNat)
    let (high, overflow) := overflowingAdd high th
    let carry ← limb? (carry.toNat + overflow.toNat)
    return (low, high, carry)

def muln2 (low high n : Limb) : Option (Limb × Limb) := do
  let tmp := low.toNat * n.toNat
  let tmp' ← doubleLimb? (tmp / 2 ^ 64 + high.toNat * n.toNat)
  return (UInt64.ofNat tmp, UInt64.ofNat tmp')

structure U3072 where
  limbs : Vector Limb 48
deriving DecidableEq, Repr

namespace U3072

def zero : U3072 := ⟨.replicate 48 0⟩

def one : U3072 := ⟨(Vector.replicate 48 0).set 0 1⟩

def UINT_PRIME : U3072 :=
  ⟨(Vector.replicate 48 0xFFFFFFFFFFFFFFFF).set 0 (0xFFFFFFFFFFFFFFFF - (PRIME_DIFF - 1))⟩

def isOverflow (self : U3072) : Bool :=
  if self.limbs[0] ≤ 0xFFFFFFFFFFFFFFFF - PRIME_DIFF then false
  else (List.range' 1 47).all fun i => self.limbs[i]? = some 0xFFFFFFFFFFFFFFFF

def fromLeBytes (bytes : Vector UInt8 384) : U3072 :=
  ⟨.ofFn fun i => UInt64.ofNat (leNat ((bytes.toList.drop (8 * i)).take 8))⟩

def toLeBytes (self : U3072) : Bytes := self.limbs.toList.flatMap fun limb => leBytes 8 limb.toNat

-- The carry loop of both reductions: limb i of source plus the carry goes to limb i of target.
def addCarry (source : Vector Limb 48) :
    Vector Limb 48 × Limb × Limb → Nat → Option (Vector Limb 48 × Limb × Limb)
  | (target, low, high), i => do
    let limb ← source[i]?
    let (low, overflow) := overflowingAdd low limb
    let (high, overflow) := overflowingAdd high overflow
    return (target.setIfInBounds i low, high, overflow)

def fullReduce (self : U3072) : Option U3072 := do
  let (limbs, _, _) ← (List.range LIMBS).foldlM (addCarry self.limbs) (self.limbs, PRIME_DIFF, 0)
  return ⟨limbs⟩

def addColumn (self other : U3072) (k : Nat) (indexes : List Nat) (acc : Limb × Limb × Limb) :
    Option (Limb × Limb × Limb) :=
  indexes.foldlM (fun acc i => do
    let a ← self.limbs[i]?
    let b ← other.limbs[k - i]?
    muladd3 a b acc) acc

-- Round j: the column above the prime's size times the difference, then the column of limb j.
def mulRound (self other : U3072) : Vector Limb 48 × Limb × Limb × Limb → Nat →
    Option (Vector Limb 48 × Limb × Limb × Limb)
  | (tmp, carryLow, carryHigh, _), j => do
    let a ← self.limbs[j + 1]?
    let b ← other.limbs[LIMBS + j - (1 + j)]?
    let (low, high) := mulWide a b
    let (low, high, carry) ← addColumn self other (LIMBS + j)
      (List.range' (2 + j) (LIMBS - (2 + j))) (low, high, 0)
    let acc ← mulnadd3 carryLow carryHigh low high carry PRIME_DIFF
    let (carryLow, carryHigh, carryHighest) ← addColumn self other j (List.range (j + 1)) acc
    return (tmp.setIfInBounds j carryLow, carryHigh, carryHighest, 0)

def reduceIfOverflow (self : U3072) : Option U3072 :=
  if self.isOverflow then self.fullReduce else some self

def mul (self other : U3072) : Option U3072 :=
  if self = one then some other
  else do
    let (tmp, carryLow, carryHigh, carryHighest) ←
      (List.range (LIMBS - 1)).foldlM (mulRound self other) (one.limbs, 0, 0, 0)
    guard (carryHighest = 0)
    let (carryLow, carryHigh, carryHighest) ←
      addColumn self other (LIMBS - 1) (List.range LIMBS) (carryLow, carryHigh, carryHighest)
    let tmp := tmp.setIfInBounds (LIMBS - 1) carryLow
    let (carryLow, carryHigh) ← muln2 carryHigh carryHighest PRIME_DIFF
    let (limbs, carryLow, carryHigh) ←
      (List.range LIMBS).foldlM (addCarry tmp) (self.limbs, carryLow, carryHigh)
    guard (carryHigh = 0)
    guard (carryLow = 0 ∨ carryLow = 1)
    let result ← reduceIfOverflow ⟨limbs⟩
    if carryLow ≠ 0 then result.fullReduce else some result

end U3072

abbrev ModInverse := U3072 → U3072 → Option U3072

namespace U3072

variable (modInverse : ModInverse)

-- The assertion on the inverse is made in debug builds.
def inverse (self : U3072) : Option U3072 := do
  let a ← self.reduceIfOverflow
  if a = zero then some a
  else do
    let inv ← modInverse a UINT_PRIME
    let product ← inv.mul a
    guard (product = one)
    return inv

def div (self other : U3072) : Option U3072 := do
  let reduced ← other.reduceIfOverflow
  let inv ← reduced.inverse modInverse
  let dividend ← self.reduceIfOverflow
  let result ← dividend.mul inv
  result.reduceIfOverflow

end U3072

end Spora
