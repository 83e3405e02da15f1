import Spora.Virtual.Resolve

namespace Spora

open Std

structure SegmentInfo where
  segmentId : Nat
  offset : Nat
  length : Nat
deriving DecidableEq, Repr

structure IndexedCell where
  cellOutput : CellOutput
  cellData : Bytes
  daaScore : Nat
  blockHash : Hash
  isCellbase : Bool
  segmentInfo : Option SegmentInfo
deriving DecidableEq, Repr

structure SpendRecord where
  spentInBlock : Hash
  spentAtDaa : Nat
  cellMeta : IndexedCell
deriving DecidableEq, Repr

inductive StateError
  | cellNotFound
deriving DecidableEq, Repr

structure CellDB where
  cells : ExtTreeMap OutPoint IndexedCell
  spent : ExtTreeMap OutPoint Nat
  spendJournal : ExtTreeMap OutPoint SpendRecord

namespace CellDB

def empty : CellDB := ⟨∅, ∅, ∅⟩

variable (self : CellDB)

-- Data that is kept in a segment is not stored again.
def normalizeMetaForStorage (cellMeta : IndexedCell) : IndexedCell :=
  if cellMeta.segmentInfo.isSome then { cellMeta with cellData := [] } else cellMeta

-- A cell that comes back loses its spent marker and its journal record.
def put (outPoint : OutPoint) (cellMeta : IndexedCell) : CellDB where
  cells := self.cells.insert outPoint (normalizeMetaForStorage cellMeta)
  spent := self.spent.erase outPoint
  spendJournal := self.spendJournal.erase outPoint

def removeLiveCell (outPoint : OutPoint) : CellDB :=
  { self with cells := self.cells.erase outPoint }

def spendInBlock (outPoint : OutPoint) (spentAtDaa : Nat) (spentInBlock : Hash) :
    Except StateError CellDB :=
  match self.cells[outPoint]? with
  | none => .error .cellNotFound
  | some cellMeta => .ok
    { cells := self.cells.erase outPoint
      spent := self.spent.insert outPoint spentAtDaa
      spendJournal := self.spendJournal.insert outPoint ⟨spentInBlock, spentAtDaa, cellMeta⟩ }

def batchPut (cells : List (OutPoint × IndexedCell)) : CellDB :=
  cells.foldl (fun db cell => db.put cell.1 cell.2) self

-- Outpoints that are not live are passed over. The outpoints of a batch are distinct.
def spendIfLive (spend : OutPoint × Nat × Hash) : CellDB :=
  match self.spendInBlock spend.1 spend.2.1 spend.2.2 with
  | .ok db => db
  | .error _ => self

def batchSpendInBlock (spends : List (OutPoint × Nat × Hash)) : CellDB :=
  spends.foldl spendIfLive self

end CellDB

abbrev ScriptTable := ExtTreeMap Hash (ExtTreeSet OutPoint)

namespace ScriptTable

variable (self : ScriptTable)

def addToIndex (scriptHash : Hash) (outPoint : OutPoint) : ScriptTable :=
  self.insert scriptHash ((self[scriptHash]?.getD ∅).insert outPoint)

def removeFromIndex (scriptHash : Hash) (outPoint : OutPoint) : ScriptTable :=
  match self[scriptHash]? with
  | none => self
  | some outPoints =>
    let outPoints := outPoints.erase outPoint
    if outPoints.isEmpty then self.erase scriptHash else self.insert scriptHash outPoints

def getFromIndex (scriptHash : Hash) : ExtTreeSet OutPoint := self[scriptHash]?.getD ∅

end ScriptTable

structure ScriptIndex where
  lock : ScriptTable
  type_ : ScriptTable

namespace ScriptIndex

variable (self : ScriptIndex)

def add (lockHash : Hash) (typeHash : Option Hash) (outPoint : OutPoint) : ScriptIndex where
  lock := self.lock.addToIndex lockHash outPoint
  type_ := typeHash.elim self.type_ fun typeHash => self.type_.addToIndex typeHash outPoint

def remove (lockHash : Hash) (typeHash : Option Hash) (outPoint : OutPoint) : ScriptIndex where
  lock := self.lock.removeFromIndex lockHash outPoint
  type_ := typeHash.elim self.type_ fun typeHash => self.type_.removeFromIndex typeHash outPoint

end ScriptIndex

def placeholderScriptFromHash (scriptHash : Hash) : Script := ⟨scriptHash, 0, []⟩

def indexCellMetaFromDiff (cellMeta : CellMeta) (blockHash : Hash) (blockDaaScore : Nat) :
    IndexedCell where
  cellOutput :=
    { lock := cellMeta.lockScript.getD (placeholderScriptFromHash cellMeta.lockHash)
      type_ := cellMeta.typeScript.or (cellMeta.typeHash.map placeholderScriptFromHash)
      capacity := cellMeta.capacity }
  cellData := cellMeta.data.getD []
  daaScore := blockDaaScore
  blockHash := blockHash
  isCellbase := cellMeta.isCellbase
  segmentInfo := none

-- The digests of transactions with and without their witnesses have domains of their own.
structure WitnessIds (hasher : Hasher) where
  computeWtxid : CellTx → Hash
  wtxid_ne_txid : ∀ tx tx', computeWtxid tx ≠ hasher.txid tx'

structure CellIndexer where
  cellDb : CellDB
  scriptIndex : ScriptIndex
  segments : Bytes

namespace CellIndexer

def empty : CellIndexer := ⟨.empty, ⟨∅, ∅⟩, []⟩

variable (self : CellIndexer)

def updateWithDiff (diff : CellDiff) : CellIndexer :=
  let removed := diff.remove.toList.foldl (fun indexer cell => { indexer with
    scriptIndex := indexer.scriptIndex.remove cell.2.lockHash cell.2.typeHash cell.1
    cellDb := indexer.cellDb.removeLiveCell cell.1 }) self
  diff.add.toList.foldl (fun indexer cell => { indexer with
    cellDb := indexer.cellDb.put cell.1 (indexCellMetaFromDiff cell.2 0 cell.2.blockDaaScore)
    scriptIndex := indexer.scriptIndex.add cell.2.lockHash cell.2.typeHash cell.1 }) removed

def updateWithBlockDiff (block : BlockCellDiff) : CellIndexer where
  cellDb :=
    (self.cellDb.batchSpendInBlock (block.cellDiff.remove.toList.map fun cell =>
      (cell.1, block.blockDaaScore, block.blockHash))).batchPut
    (block.cellDiff.add.toList.map fun cell =>
      (cell.1, indexCellMetaFromDiff cell.2 block.blockHash block.blockDaaScore))
  scriptIndex :=
    block.cellDiff.add.toList.foldl (fun scripts cell =>
        scripts.add cell.2.lockHash cell.2.typeHash cell.1)
      (block.cellDiff.remove.toList.foldl (fun scripts cell =>
        scripts.remove cell.2.lockHash cell.2.typeHash cell.1) self.scriptIndex)
  segments := self.segments

def updateWithBlockDiffs (blockDiffs : List BlockCellDiff) : CellIndexer :=
  blockDiffs.foldl updateWithBlockDiff self

def processCellsChanged (notification : CellsChangedNotification) : CellIndexer :=
  if notification.blockCellDiffs.isEmpty then
    self.updateWithDiff notification.accumulatedCellDiff
  else self.updateWithBlockDiffs notification.blockCellDiffs

-- Data goes to the end of the log; only its place is stored with the cell.
def persistCellData (cellData : Bytes) : Bytes × Option SegmentInfo × CellIndexer :=
  if cellData.isEmpty then ([], none, self)
  else ([], some ⟨0, self.segments.length, cellData.length⟩,
    { self with segments := self.segments ++ cellData })

section Transactions

variable {hasher : Hasher} (txHash : Hash) (tx : CellTx) (daaScore : Nat) (blockHash : Hash)

def indexOutput (hasher : Hasher) (isCellbase : Bool) (indexer : CellIndexer)
    (output : CellOutput × Nat) : CellIndexer :=
  let outPoint : OutPoint := ⟨txHash, output.2⟩
  let (cellData, segmentInfo, indexer) := indexer.persistCellData (tx.outputData output.2)
  { indexer with
    cellDb := indexer.cellDb.put outPoint
      ⟨output.1, cellData, daaScore, blockHash, isCellbase, segmentInfo⟩
    scriptIndex := indexer.scriptIndex.add (hasher.scriptHash output.1.lock)
      (output.1.type_.map hasher.scriptHash) outPoint }

-- The tables are cleaned before the spend, which fails on an outpoint that is not live.
def spendInput (hasher : Hasher) (indexer : CellIndexer) (input : CellInput) :
    Except StateError CellIndexer := do
  let outPoint := input.previousOutput
  let scriptIndex := match indexer.cellDb.cells[outPoint]? with
    | none => indexer.scriptIndex
    | some cell => indexer.scriptIndex.remove (hasher.scriptHash cell.cellOutput.lock)
        (cell.cellOutput.type_.map hasher.scriptHash) outPoint
  let cellDb ← indexer.cellDb.spendInBlock outPoint daaScore blockHash
  return { indexer with scriptIndex := scriptIndex, cellDb := cellDb }

end Transactions

def indexTransaction {hasher : Hasher} (ids : WitnessIds hasher) (tx : CellTx) (daaScore : Nat)
    (blockHash : Hash) (isCellbase : Bool) : Except StateError CellIndexer :=
  let txHash := ids.computeWtxid tx
  tx.inputs.foldlM (spendInput daaScore blockHash hasher)
    (tx.outputs.zipIdx.foldl (indexOutput txHash tx daaScore blockHash hasher isCellbase) self)

def isEmpty : Bool := self.cellDb.cells.isEmpty

def hydrateCellData (cellMeta : IndexedCell) : IndexedCell :=
  match cellMeta.cellData, cellMeta.segmentInfo with
  | [], some segment => { cellMeta with
      cellData := (self.segments.drop segment.offset).take segment.length }
  | _, _ => cellMeta

def getCell (outPoint : OutPoint) : Option IndexedCell :=
  self.cellDb.cells[outPoint]?.map self.hydrateCellData

end CellIndexer

end Spora
