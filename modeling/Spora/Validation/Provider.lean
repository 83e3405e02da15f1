import Spora.Cell.Types
import Spora.Lib.Outcome
import Spora.Lib.TreeMap

namespace Spora

open Std Outcome

structure ResolvedHeader where
  hash : Hash
  encoded : Bytes
deriving DecidableEq, Repr

-- What the validation in context asks of the cell state. The two answers need not agree.
structure CellStateProvider where
  isCellAvailable : OutPoint → Hash → Except String Bool
  getCellCapacity : OutPoint → Hash → Except String (Option Nat)

-- The state queries of the validators. Availability, capacity and data of a cell are all read
-- off its metadata, by every provider of the node.
structure DagCellProvider where
  getCellAtPov : OutPoint → Hash → Except String (Option CellMetadata)
  getBlockTimestamp : Hash → Except String Nat
  getHeader : Hash → Except String (Option ResolvedHeader)

namespace DagCellProvider

variable (self : DagCellProvider)

def isCellAvailable (outPoint : OutPoint) (pov : Hash) : Except String Bool := do
  return (← self.getCellAtPov outPoint pov).isSome

def getCellCapacity (outPoint : OutPoint) (pov : Hash) : Except String (Option Nat) := do
  return (← self.getCellAtPov outPoint pov).map CellMetadata.capacity

def getCellData (outPoint : OutPoint) (pov : Hash) : Except String (Option Bytes) := do
  return (← self.getCellAtPov outPoint pov).bind CellMetadata.data

def toCellStateProvider : CellStateProvider := ⟨self.isCellAvailable, self.getCellCapacity⟩

end DagCellProvider

-- A base provider seen from `basePov`, with the cells created and spent since.
structure OverlayCellProvider where
  snapshotPov : Hash
  basePov : Hash
  base : DagCellProvider
  baseOverrides : ExtTreeMap OutPoint CellMetadata
  added : ExtTreeMap OutPoint CellMetadata
  removed : ExtTreeSet OutPoint

namespace OverlayCellProvider

def new (base : DagCellProvider) (snapshotPov basePov : Hash) : OverlayCellProvider :=
  ⟨snapshotPov, basePov, base, ∅, ∅, ∅⟩

variable (self : OverlayCellProvider)

def addBaseOverride (outPoint : OutPoint) (metadata : CellMetadata) :
    Except String OverlayCellProvider :=
  if outPoint ∈ self.added ∨ outPoint ∈ self.removed then
    .error s!"overlay attempted to seed an already-mutated outpoint {outPoint}"
  else .ok { self with baseOverrides := self.baseOverrides.insert outPoint metadata }

def addCell (outPoint : OutPoint) (metadata : CellMetadata) : Except String OverlayCellProvider :=
  if outPoint ∈ self.removed ∨ outPoint ∈ self.added then
    .error s!"overlay attempted to create duplicate outpoint {outPoint}"
  else .ok { self with added := self.added.insert outPoint metadata }

def spendCell (outPoint : OutPoint) : Except String OverlayCellProvider :=
  if outPoint ∈ self.removed then
    .error s!"overlay attempted to spend outpoint {outPoint} more than once"
  else if outPoint ∈ self.added then .ok { self with added := self.added.erase outPoint }
  else .ok { self with removed := self.removed.insert outPoint }

def ensureSnapshotPov (pov : Hash) : Except String Unit :=
  if pov = self.snapshotPov then .ok ()
  else .error s!"unexpected POV {pov}, expected {self.snapshotPov}"

def getCellMetadata (outPoint : OutPoint) : Except String (Option CellMetadata) :=
  if outPoint ∈ self.removed then .ok none
  else match self.added[outPoint]? with
    | some metadata => .ok (some metadata)
    | none => match self.baseOverrides[outPoint]? with
      | some metadata => .ok (some metadata)
      | none => self.base.getCellAtPov outPoint self.basePov

def ensureDepAvailable (outPoint : OutPoint) : Except String Unit := do
  if (← self.getCellMetadata outPoint).isSome then return ()
  else throw s!"cell dependency {outPoint} is unavailable in mergeset overlay"

def toProvider : DagCellProvider where
  getCellAtPov outPoint pov := do
    self.ensureSnapshotPov pov
    self.getCellMetadata outPoint
  getBlockTimestamp := self.base.getBlockTimestamp
  getHeader := self.base.getHeader

theorem getCellAtPov_eq_some {overlay : OverlayCellProvider} {o pov m}
    (h : overlay.toProvider.getCellAtPov o pov = .ok (some m)) :
    overlay.added[o]? = some m ∨ overlay.added[o]? = none ∧ (overlay.baseOverrides[o]? = some m ∨
      overlay.baseOverrides[o]? = none ∧
      overlay.base.getCellAtPov o overlay.basePov = .ok (some m)) := by
  obtain ⟨_, -, h⟩ := bind_ok h
  unfold getCellMetadata at h
  split_ifs at h
  · simp at h
  · cases hadd : overlay.added[o]? with
    | some added => simpa [hadd] using h
    | none => cases hover : overlay.baseOverrides[o]? <;> simpa [hadd, hover] using h

end OverlayCellProvider

end Spora
