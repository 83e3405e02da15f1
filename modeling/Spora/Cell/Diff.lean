import Spora.Cell.Types
import Spora.Lib.Patch
import Spora.Lib.TreeMap

namespace Spora

open Std

abbrev CellCollection := ExtTreeMap OutPoint CellMeta

-- Difference between two cell states: cells created and cells consumed.
@[ext] structure CellDiff where
  add : CellCollection
  remove : CellCollection
deriving DecidableEq

namespace CellDiff

def empty : CellDiff := ⟨∅, ∅⟩

def addCell (self : CellDiff) (outpoint : OutPoint) (m : CellMeta) : CellDiff :=
  { self with add := self.add.insert outpoint m }

def isEmpty (self : CellDiff) : Bool := self.add.isEmpty && self.remove.isEmpty

def asReversed (self : CellDiff) : CellDiff := ⟨self.remove, self.add⟩

def applyTo (self : CellDiff) (base : CellCollection) : CellCollection :=
  let base := self.remove.keys.foldl (fun b outpoint => b.erase outpoint) base
  self.add.toList.foldl (fun b p => b.insert p.1 p.2) base

-- First loop of the in-place composition. The diff is returned together with the verdict,
-- because a failing composition leaves it half updated.
def applyRemovals (self : CellDiff) : List (OutPoint × CellMeta) → Except String Unit × CellDiff
  | [] => (.ok (), self)
  | (outpoint, m) :: rest =>
    -- created and later consumed within the composed range
    if outpoint ∈ self.add then applyRemovals { self with add := self.add.erase outpoint } rest
    else if outpoint ∈ self.remove then
      (.error s!"cell diff composition tried to remove outpoint {outpoint} twice", self)
    else applyRemovals { self with remove := self.remove.insert outpoint m } rest

-- Second loop. A removed outpoint that comes back is cancelled without looking at its metadata.
def applyAdditions (self : CellDiff) : List (OutPoint × CellMeta) → Except String Unit × CellDiff
  | [] => (.ok (), self)
  | (outpoint, m) :: rest =>
    if outpoint ∈ self.remove then
      applyAdditions { self with remove := self.remove.erase outpoint } rest
    else if outpoint ∈ self.add then
      (.error s!"cell diff composition tried to add outpoint {outpoint} twice", self)
    else applyAdditions { self with add := self.add.insert outpoint m } rest

def withDiffInPlace (self other : CellDiff) : Except String Unit × CellDiff :=
  match self.applyRemovals other.remove.toList with
  | (.error e, self) => (.error e, self)
  | (.ok (), self) => self.applyAdditions other.add.toList

-- The diff seen as a patch of the partial map from outpoints to cells.
def toPatch (self : CellDiff) : Patch OutPoint CellMeta :=
  ⟨fun k => self.add[k]?, fun k => self.remove[k]?⟩

end CellDiff

end Spora
