import Spora.Index.CellIndex

namespace Spora

open Std TreeMap ScriptTable List CellDB

namespace ScriptTable

variable {self : ScriptTable} {h k : Hash} {o a : OutPoint}

@[simp] theorem mem_getFromIndex_addToIndex :
    a ∈ (self.addToIndex k o).getFromIndex h ↔ (k = h ∧ o = a) ∨ a ∈ self.getFromIndex h := by
  rw [addToIndex, getFromIndex, getElem?_insert_eq]
  by_cases hk : k = h
  · subst hk
    simp [getFromIndex]
  · simp [hk, getFromIndex]

theorem getFromIndex_removeFromIndex : (self.removeFromIndex k o).getFromIndex h =
    if k = h then (self.getFromIndex h).erase o else self.getFromIndex h := by
  cases hs : self[k]? with
  | none =>
    have hse : self.removeFromIndex k o = self := by simp [removeFromIndex, hs]
    by_cases hk : k = h
    · subst hk
      simp [hse, getFromIndex, hs]
    · simp [hse, hk]
  | some outPoints =>
    have hd : self.removeFromIndex k o = if (outPoints.erase o).isEmpty then self.erase k
        else self.insert k (outPoints.erase o) := by simp [removeFromIndex, hs]
    rw [hd]
    by_cases he : (outPoints.erase o).isEmpty
    · rw [if_pos he, getFromIndex, getElem?_erase_eq]
      by_cases hk : k = h
      · subst hk
        simp [getFromIndex, hs, ExtTreeSet.isEmpty_iff.mp he]
      · simp [hk, getFromIndex]
    · rw [if_neg he, getFromIndex, getElem?_insert_eq]
      by_cases hk : k = h
      · subst hk
        simp [getFromIndex, hs]
      · simp [hk, getFromIndex]

@[simp] theorem mem_getFromIndex_removeFromIndex : a ∈ (self.removeFromIndex k o).getFromIndex h ↔
    a ∈ self.getFromIndex h ∧ ¬ (k = h ∧ o = a) := by
  rw [getFromIndex_removeFromIndex]
  by_cases hk : k = h
  · simp [hk, and_comm]
  · simp [hk]

end ScriptTable

-- The tables list an outpoint only under the hashes of its scripts, and list every outpoint of
-- `live`.
structure ScriptIndex.Covers (scripts : OutPoint → Hash × Option Hash) (live : OutPoint → Prop)
    (index : ScriptIndex) : Prop where
  lock : ∀ h o, o ∈ index.lock.getFromIndex h → (scripts o).1 = h
  type_ : ∀ h o, o ∈ index.type_.getFromIndex h → (scripts o).2 = some h
  lock_live : ∀ o, live o → o ∈ index.lock.getFromIndex (scripts o).1
  type_live : ∀ o h, live o → (scripts o).2 = some h → o ∈ index.type_.getFromIndex h

namespace ScriptIndex

variable {scripts : OutPoint → Hash × Option Hash} {live : OutPoint → Prop} {self : ScriptIndex}

theorem Covers.mono {live'} (hs : self.Covers scripts live) (h : ∀ o, live' o → live o) :
    self.Covers scripts live' :=
  ⟨hs.lock, hs.type_, fun o ho => hs.lock_live o (h o ho),
    fun o k ho hk => hs.type_live o k (h o ho) hk⟩

theorem Covers.remove (hs : self.Covers scripts live) (lh : Hash) (th o) :
    (self.remove lh th o).Covers scripts fun a => live a ∧ o ≠ a := by
  cases th with
  | none =>
    refine ⟨fun h a ha => ?_, hs.type_, fun a ha => ?_, fun a h ha hk => hs.type_live a h ha.1 hk⟩
    · exact hs.lock h a (mem_getFromIndex_removeFromIndex.mp ha).1
    · exact mem_getFromIndex_removeFromIndex.mpr ⟨hs.lock_live a ha.1, fun heq => ha.2 heq.2⟩
  | some th =>
    refine ⟨fun h a ha => ?_, fun h a ha => ?_, fun a ha => ?_, fun a h ha hk => ?_⟩
    · exact hs.lock h a (mem_getFromIndex_removeFromIndex.mp ha).1
    · exact hs.type_ h a (mem_getFromIndex_removeFromIndex.mp ha).1
    · exact mem_getFromIndex_removeFromIndex.mpr ⟨hs.lock_live a ha.1, fun heq => ha.2 heq.2⟩
    · exact mem_getFromIndex_removeFromIndex.mpr ⟨hs.type_live a h ha.1 hk, fun heq => ha.2 heq.2⟩

theorem Covers.add (hs : self.Covers scripts live) {lh th o} (ho : scripts o = (lh, th)) :
    (self.add lh th o).Covers scripts fun a => o = a ∨ live a := by
  have hlo : (scripts o).1 = lh := by rw [ho]
  have ht : (scripts o).2 = th := by rw [ho]
  have hl : ∀ h a, a ∈ (self.add lh th o).type_.getFromIndex h ↔
      (th = some h ∧ o = a) ∨ a ∈ self.type_.getFromIndex h := by
    cases th with
    | none => simp [ScriptIndex.add]
    | some th => simp [ScriptIndex.add]
  refine ⟨fun h a ha => ?_, fun h a ha => ?_, fun a ha => ?_, fun a h ha hk => ?_⟩
  · obtain ⟨rfl, rfl⟩ | ha := mem_getFromIndex_addToIndex.mp ha
    · exact hlo
    · exact hs.lock h a ha
  · obtain ⟨rfl, rfl⟩ | ha := (hl h a).mp ha
    · exact ht
    · exact hs.type_ h a ha
  · refine mem_getFromIndex_addToIndex.mpr ?_
    obtain rfl | ha := ha
    · exact .inl ⟨hlo.symm, rfl⟩
    · exact .inr (hs.lock_live a ha)
  · refine (hl h a).mpr ?_
    obtain rfl | ha := ha
    · exact .inl ⟨ht.symm.trans hk, rfl⟩
    · exact .inr (hs.type_live a h ha hk)

theorem Covers.foldl_remove (hs : self.Covers scripts live) (cells : List (OutPoint × CellMeta)) :
    (cells.foldl (fun scripts cell => scripts.remove cell.2.lockHash cell.2.typeHash cell.1)
      self).Covers scripts fun a => live a ∧ a ∉ cells.map Prod.fst := by
  induction cells generalizing self live with
  | nil => exact hs.mono fun o ho => ho.1
  | cons cell cells ih =>
    refine (ih (hs.remove cell.2.lockHash cell.2.typeHash cell.1)).mono fun a ha => ?_
    rw [map_cons, mem_cons, not_or] at ha
    exact ⟨⟨ha.1, Ne.symm ha.2.1⟩, ha.2.2⟩

theorem Covers.foldl_add (hs : self.Covers scripts live) {cells : List (OutPoint × CellMeta)}
    (hcells : ∀ cell ∈ cells, scripts cell.1 = (cell.2.lockHash, cell.2.typeHash)) :
    (cells.foldl (fun scripts cell => scripts.add cell.2.lockHash cell.2.typeHash cell.1)
      self).Covers scripts fun a => a ∈ cells.map Prod.fst ∨ live a := by
  induction cells generalizing self live with
  | nil => exact hs.mono fun o ho => ho.resolve_left (by simp)
  | cons cell cells ih =>
    have had := hs.add (hcells cell mem_cons_self)
    refine (ih had fun c hc => hcells c (mem_cons_of_mem _ hc)).mono fun a ha => ?_
    rw [map_cons, mem_cons] at ha
    tauto

end ScriptIndex

structure LiveCell where
  cellOutput : CellOutput
  cellData : Bytes
  daaScore : Nat
  isCellbase : Bool
deriving DecidableEq, Repr

def IndexedCell.live (cell : IndexedCell) : LiveCell :=
  ⟨cell.cellOutput, cell.cellData, cell.daaScore, cell.isCellbase⟩

def CellMeta.live (cellMeta : CellMeta) : LiveCell :=
  (indexCellMetaFromDiff cellMeta 0 cellMeta.blockDaaScore).live

theorem live_indexCellMetaFromDiff (cm) (bh : Hash) :
    (indexCellMetaFromDiff cm bh cm.blockDaaScore).live = cm.live := rfl

namespace CellIndexer

variable {self : CellIndexer}

def withDb (self : CellIndexer) (db : CellDB) : CellIndexer := { self with cellDb := db }

def liveCell (self : CellIndexer) (o : OutPoint) : Option LiveCell :=
  (self.getCell o).map IndexedCell.live

@[simp] theorem liveCell_empty (o) : empty.liveCell o = none := by
  simp [liveCell, getCell, empty, CellDB.empty]

theorem liveCell_put (self : CellIndexer) (db o a) {cell} (hcell : cell.segmentInfo = none) :
    (self.withDb (db.put o cell)).liveCell a = if o = a then
      some cell.live else (self.withDb db).liveCell a := by
  have hst : normalizeMetaForStorage cell = cell := by simp [normalizeMetaForStorage, hcell]
  have hh : self.hydrateCellData cell = cell := by
    unfold hydrateCellData
    split
    · next hs => simp [hcell] at hs
    · rfl
  simp only [liveCell, getCell, withDb, put, hst, getElem?_insert_eq]
  by_cases ho : o = a
  · simp only [ho]
    exact congrArg (fun cell => some cell.live) hh
  · simp only [ho]
    rfl

theorem liveCell_spendIfLive (self : CellIndexer) (db spend a) :
    (self.withDb (db.spendIfLive spend)).liveCell a = if spend.1 = a then
      none else (self.withDb db).liveCell a := by
  unfold spendIfLive spendInBlock
  cases hl : db.cells[spend.1]? with
  | none =>
    by_cases ho : spend.1 = a
    · subst ho
      simp [liveCell, getCell, withDb, hl]
    · simp [ho]
  | some cell =>
    simp only [liveCell, getCell, withDb, getElem?_erase_eq]
    by_cases ho : spend.1 = a
    · simp [ho]
    · simp only [ho]
      rfl

theorem liveCell_batchPut (self : CellIndexer) (db) (cells : ExtTreeMap OutPoint CellMeta)
    (i : CellMeta → IndexedCell) (hindex : ∀ m, (i m).segmentInfo = none) (a) :
    (self.withDb (db.batchPut (cells.toList.map fun cell => (cell.1, i cell.2)))).liveCell a =
    (cells[a]?.map fun m => (i m).live).or ((self.withDb db).liveCell a) := by
  rw [batchPut, foldl_map]
  exact get_foldl_insert_toList (fun db a => (self.withDb db).liveCell a)
    (fun m => (i m).live) (fun db p a => liveCell_put self db p.1 a (hindex p.2)) cells db a

theorem liveCell_batchSpendInBlock (self : CellIndexer) (db) (cells : ExtTreeMap OutPoint CellMeta)
    (daa : Nat) (bh : Hash) (a) :
    (self.withDb (db.batchSpendInBlock
      (cells.toList.map fun cell => (cell.1, daa, bh)))).liveCell a =
    cells[a]?.elim ((self.withDb db).liveCell a) fun _ => none := by
  have hs := get_foldl_erase (fun db a => (self.withDb db).liveCell a)
    (fun db o a => liveCell_spendIfLive self db (o, daa, bh) a)
    (cells.toList.map Prod.fst) db a
  rw [foldl_map] at hs
  simp only [batchSpendInBlock, foldl_map, hs]
  cases hc : cells[a]? with
  | none => simp [ExtTreeMap.mem_iff_isSome_getElem?, hc]
  | some m => simp [ExtTreeMap.mem_iff_isSome_getElem?, hc]

variable {blk : BlockCellDiff}

theorem liveCell_updateWithBlockDiff (hscores : ∀ (o : OutPoint) m, blk.cellDiff.add[o]? = some m →
      m.blockDaaScore = blk.blockDaaScore) :
    (self.updateWithBlockDiff blk).liveCell =
    (blk.cellDiff.toPatch.map CellMeta.live).apply self.liveCell := by
  funext a
  have hv : (self.updateWithBlockDiff blk).liveCell a =
      (self.withDb (self.updateWithBlockDiff blk).cellDb).liveCell a := rfl
  have hs : blk.cellDiff.add[a]?.map
      (fun m => (indexCellMetaFromDiff m blk.blockHash blk.blockDaaScore).live) =
      blk.cellDiff.add[a]?.map CellMeta.live := by
    refine Option.map_congr fun m hm => ?_
    rw [← hscores a m hm, live_indexCellMetaFromDiff]
  have hdb : (self.updateWithBlockDiff blk).cellDb =
      (self.cellDb.batchSpendInBlock (blk.cellDiff.remove.toList.map fun cell =>
        (cell.1, blk.blockDaaScore, blk.blockHash))).batchPut
      (blk.cellDiff.add.toList.map fun cell =>
        (cell.1, indexCellMetaFromDiff cell.2 blk.blockHash blk.blockDaaScore)) := rfl
  have hput := fun db => liveCell_batchPut self db blk.cellDiff.add
    (fun m => indexCellMetaFromDiff m blk.blockHash blk.blockDaaScore) (fun _ => rfl) a
  rw [hv, hdb, hput, hs, liveCell_batchSpendInBlock]
  simp only [Patch.apply, Patch.map, CellDiff.toPatch]
  cases blk.cellDiff.remove[a]? <;> rfl

theorem liveCell_updateWithBlockDiffs {bs}
    (hscores : ∀ blk ∈ bs, ∀ (o : OutPoint) m, blk.cellDiff.add[o]? = some m →
      m.blockDaaScore = blk.blockDaaScore) :
    (self.updateWithBlockDiffs bs).liveCell =
    Patch.applyAll (bs.map fun blk => blk.cellDiff.toPatch.map CellMeta.live) self.liveCell := by
  induction bs generalizing self with
  | nil => rfl
  | cons blk bs ih =>
    have hr := @ih (self.updateWithBlockDiff blk) fun b hb => hscores b (mem_cons_of_mem _ hb)
    rw [liveCell_updateWithBlockDiff (hscores blk mem_cons_self)] at hr
    exact hr

theorem covers_updateWithBlockDiff {scripts}
    (hs : self.scriptIndex.Covers scripts fun o => (self.liveCell o).isSome)
    (hscores : ∀ (o : OutPoint) m, blk.cellDiff.add[o]? = some m →
      m.blockDaaScore = blk.blockDaaScore) (hscripts : ∀ o m, blk.cellDiff.add[o]? = some m →
      scripts o = (m.lockHash, m.typeHash)) :
    (self.updateWithBlockDiff blk).scriptIndex.Covers scripts fun o =>
    ((self.updateWithBlockDiff blk).liveCell o).isSome := by
  have hc : ∀ cell ∈ blk.cellDiff.add.toList, scripts cell.1 = (cell.2.lockHash, cell.2.typeHash) :=
      fun cell hce =>
    hscripts cell.1 cell.2 (ExtTreeMap.mem_toList_iff_getElem?_eq_some.mp hce)
  refine ((hs.foldl_remove blk.cellDiff.remove.toList).foldl_add hc).mono fun o ho => ?_
  rw [liveCell_updateWithBlockDiff hscores] at ho
  simp only [ExtTreeMap.map_fst_toList_eq_keys, ExtTreeMap.mem_keys,
    ExtTreeMap.mem_iff_isSome_getElem?]
  simp only [Patch.apply, Patch.map, CellDiff.toPatch] at ho
  cases hadd : blk.cellDiff.add[o]? with
  | some m => exact .inl rfl
  | none =>
    cases hrem : blk.cellDiff.remove[o]? with
    | some m => simp [hadd, hrem] at ho
    | none => exact .inr ⟨by simpa [hadd, hrem] using ho, by simp⟩

theorem covers_updateWithBlockDiffs {scripts bs}
    (hs : self.scriptIndex.Covers scripts fun o => (self.liveCell o).isSome)
    (hscores : ∀ blk ∈ bs, ∀ (o : OutPoint) m, blk.cellDiff.add[o]? = some m →
      m.blockDaaScore = blk.blockDaaScore)
    (hscripts : ∀ blk ∈ bs, ∀ o m, blk.cellDiff.add[o]? = some m →
      scripts o = (m.lockHash, m.typeHash)) :
    (self.updateWithBlockDiffs bs).scriptIndex.Covers scripts fun o =>
    ((self.updateWithBlockDiffs bs).liveCell o).isSome := by
  induction bs generalizing self with
  | nil => exact hs
  | cons blk bs ih =>
    have hbl := covers_updateWithBlockDiff hs (hscores blk mem_cons_self)
      (hscripts blk mem_cons_self)
    exact ih hbl (fun b hb => hscores b (mem_cons_of_mem _ hb))
      fun b hb => hscripts b (mem_cons_of_mem _ hb)

end CellIndexer

end Spora
