import Spora.Lib.Limbs
import Mathlib.Data.Nat.Size

-- The integers of n words of 64 bits, the lowest word first. An operator is optional: none stands
-- for a failed debug assertion or an index out of bounds.
namespace Spora

open Limbs

structure Uint (n : Nat) where
  words : List UInt64
  length_words : words.length = n
deriving DecidableEq

def addWord (a b : UInt64) : UInt64 × Bool := (a + b, 2 ^ 64 ≤ a.toNat + b.toNat)

def subWord (a b : UInt64) : UInt64 × Bool := (a - b, a.toNat < b.toNat)

def carryingAdd (lhs rhs : UInt64) (carry : Bool) : UInt64 × Bool :=
  let sum := addWord lhs rhs
  let total := addWord sum.1 carry.toUInt64
  (total.1, sum.2 != total.2)

def borrowingSub (lhs rhs : UInt64) (borrow : Bool) : UInt64 × Bool :=
  let difference := subWord lhs rhs
  let total := subWord difference.1 borrow.toUInt64
  (total.1, difference.2 != total.2)

def splitWords (n : Nat) : UInt64 × UInt64 := (UInt64.ofNat n, UInt64.ofNat (n / 2 ^ 64))

def cmpWords : List UInt64 → List UInt64 → Ordering
  -- the iterators start at the highest word
  | x :: xs, y :: ys => (cmpWords xs ys).then (compare x.toNat y.toNat)
  | _, _ => .eq

namespace Uint

variable {n : Nat}

def word (self : Uint n) (i : Nat) : UInt64 := self.words[i]?.getD 0

def ofFn (f : Nat → UInt64) : Uint n := ⟨(List.range n).map f, by simp⟩

def zero : Uint n := ofFn fun _ => 0

def fromU64 (x : UInt64) : Uint n := ofFn fun i => if i = 0 then x else 0

def asU64 (self : Uint n) : UInt64 := self.word 0

def leadingZeros (word : UInt64) : Nat := 64 - word.toNat.size

def bits (self : Uint n) : Nat :=
  (self.words.zipIdx.reverse.findSome? fun (word, i) =>
    if word ≠ 0 then some (64 * (i + 1) - leadingZeros word) else none).getD 0

def carryLoop {α σ : Type} (step : α → σ → UInt64 × σ) (items : List α) (h : items.length = n)
    (s : σ) : Uint n × σ :=
  (⟨(mapCarry step items s).1, by simp [h]⟩, (mapCarry step items s).2)

theorem length_zip (a b : Uint n) :
    (a.words.zip b.words).length = n := by simp [a.length_words, b.length_words]

def overflowingAdd (self other : Uint n) : Uint n × Bool :=
  carryLoop (fun p => carryingAdd p.1 p.2) (self.words.zip other.words)
    (length_zip self other) false

def overflowingSub (self other : Uint n) : Uint n × Bool :=
  carryLoop (fun p => borrowingSub p.1 p.2) (self.words.zip other.words)
    (length_zip self other) false

-- Once there is no carry the loop ends, which is to add nothing to the words that are left.
def overflowingAddU64 (self : Uint n) (other : UInt64) : Uint n × Bool :=
  let sum := carryLoop (fun x carry => ((addWord x carry).1, (addWord x carry).2.toUInt64))
    self.words self.length_words other
  (sum.1, sum.2 != 0)

def carryingMulU64 (self : Uint n) (other : UInt64) : Uint n × UInt64 :=
  carryLoop (fun x carry => splitWords (carry.toNat + other.toNat * x.toNat)) self.words
    self.length_words 0

def overflowingMulU64 (self : Uint n) (other : UInt64) : Uint n × Bool :=
  let product := self.carryingMulU64 other
  (product.1, product.2 != 0)

def mulRow (self : Uint n) (y : UInt64) (result : List UInt64) : List UInt64 × UInt64 :=
  mapCarry (fun p carry => splitWords (p.1.toNat * y.toNat + p.2.toNat + carry.toNat))
    (self.words.zip result) 0

-- Row j of the product is added to the words of the result from j on, as far as there are any.
def addRow (self other result : Uint n) (j : Nat) : Uint n × UInt64 :=
  (⟨result.words.take j ++ (self.mulRow (other.word j) (result.words.drop j)).1, by
    simp only [mulRow, List.length_append, List.length_take, length_mapCarry, List.length_zip,
      List.length_drop, self.length_words, result.length_words]
    omega⟩, (self.mulRow (other.word j) (result.words.drop j)).2)

def mulRows (self other : Uint n) (rows : Nat) : Uint n × Bool :=
  (List.range rows).foldl (fun acc j =>
    ((self.addRow other acc.1 j).1, acc.2 || (self.addRow other acc.1 j).2 != 0)) (zero, false)

def overflowingMul (self other : Uint n) : Uint n × Bool := self.mulRows other n

def overflowingShl (self : Uint n) (s : Nat) : Uint n × Bool :=
  let leftWords := s % (64 * n) / 64
  let leftShifts := s % (64 * n) % 64
  (ofFn fun i =>
    if i < leftWords then 0
    else (self.word (i - leftWords) <<< UInt64.ofNat leftShifts) |||
      if 0 < leftShifts ∧ leftWords < i then
        self.word (i - 1 - leftWords) >>> UInt64.ofNat (64 - leftShifts) else 0,
    64 * n ≤ s)

def overflowingShr (self : Uint n) (s : Nat) : Uint n × Bool :=
  let leftWords := s % (64 * n) / 64
  let leftShifts := s % (64 * n) % 64
  (ofFn fun i => (self.word (i + leftWords) >>> UInt64.ofNat leftShifts) |||
    if 0 < leftShifts then self.word (i + 1 + leftWords) <<< UInt64.ofNat (64 - leftShifts)
    else 0, 64 * n ≤ s)

def checked (result : Uint n × Bool) : Option (Uint n) := if result.2 then none else some result.1

def setBit (self : Uint n) (shift : Nat) : Option (Uint n) :=
  if shift / 64 < n then
    some ⟨self.words.modify (shift / 64) (· ||| 1 <<< UInt64.ofNat (shift % 64)),
      by simp [self.length_words]⟩
  else none

def divStep (shift : Nat) (subCopy shiftCopy ret : Uint n) : Option (Uint n × Uint n) :=
  if (cmpWords subCopy.words shiftCopy.words).isGE then do
    let ret ← ret.setBit shift
    let subCopy ← checked (subCopy.overflowingSub shiftCopy)
    return (subCopy, ret)
  else some (subCopy, ret)

def divLoop (shift : Nat) (subCopy shiftCopy ret : Uint n) : Option (Uint n × Uint n) := do
  let (subCopy, ret) ← divStep shift subCopy shiftCopy ret
  let shiftCopy ← checked (shiftCopy.overflowingShr 1)
  match shift with
  | 0 => return (ret, subCopy)
  | shift + 1 => divLoop shift subCopy shiftCopy ret

def divRem (self other : Uint n) : Option (Uint n × Uint n) :=
  if other.bits = 0 then none
  else if self.bits < other.bits then some (zero, self)
  else do
    let shiftCopy ← checked (other.overflowingShl (self.bits - other.bits))
    divLoop (self.bits - other.bits) self shiftCopy zero

end Uint

end Spora
