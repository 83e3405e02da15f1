import Spora.Index.Lemmas
import Spora.Virtual.Notification

namespace Spora

open Std Outcome CellMeta CellIndexer ExtTreeMap LiveTree

variable {hasher : Hasher}

-- The index shows the live cells of a cell state, and its tables list exactly the live ones under
-- the hashes of their scripts.
structure CellIndexer.Shows (tree : LiveTree hasher) (index : CellIndexer) : Prop where
  live : ∀ o, index.liveCell o = (tree.metaAt o).map CellMeta.live
  lock : ∀ h o, (tree.metaAt o).isSome →
    (o ∈ index.scriptIndex.lock.getFromIndex h ↔ (tree.metaAt o).any (·.lockHash = h))
  type_ : ∀ h o, (tree.metaAt o).isSome →
    (o ∈ index.scriptIndex.type_.getFromIndex h ↔ (tree.metaAt o).any (·.typeHash = some h))

-- Every cell that is created at an outpoint has the scripts which `scripts` gives for it.
def CellDiff.HasScripts (scripts : OutPoint → Hash × Option Hash) (diff : CellDiff) : Prop :=
  ∀ o m, diff.add[o]? = some m → scripts o = (m.lockHash, m.typeHash)

def LiveTree.HasScripts (scripts : OutPoint → Hash × Option Hash) (tree : LiveTree hasher) : Prop :=
  ∀ o m, tree.metaAt o = some m → scripts o = (m.lockHash, m.typeHash)

theorem CellIndexer.Shows.of_covers {scripts} {index : CellIndexer}
    {tree : LiveTree hasher} (htree : tree.HasScripts scripts)
    (hlive : ∀ o, index.liveCell o = (tree.metaAt o).map CellMeta.live)
    (hs : index.scriptIndex.Covers scripts fun o => (index.liveCell o).isSome) :
    index.Shows tree := by
  have hp : ∀ o, (tree.metaAt o).isSome → (index.liveCell o).isSome := fun o ho => by
    simpa [hlive o] using ho
  refine ⟨hlive, fun h o ho => ?_, fun h o ho => ?_⟩
  · obtain ⟨m, hm⟩ := Option.isSome_iff_exists.mp ho
    have hlo : (scripts o).1 = m.lockHash := by rw [htree o m hm]
    simp only [hm, Option.any_some, decide_eq_true_eq]
    constructor
    · intro hl
      rw [← hlo, hs.lock h o hl]
    · intro heq
      rw [← heq, ← hlo]
      exact hs.lock_live o (hp o ho)
  · obtain ⟨m, hm⟩ := Option.isSome_iff_exists.mp ho
    have ht : (scripts o).2 = m.typeHash := by rw [htree o m hm]
    simp only [hm, Option.any_some, decide_eq_true_eq]
    constructor
    · intro hl
      rw [← ht, hs.type_ h o hl]
    · intro heq
      exact hs.type_live o h (hp o ho) (ht.trans heq)

-- The index shows a state whose cells have the scripts of `scripts`, and so do all the entries of
-- its tables.
structure CellIndexer.Follows (scripts : OutPoint → Hash × Option Hash) (tree : LiveTree hasher)
    (index : CellIndexer) : Prop where
  live : ∀ o, index.liveCell o = (tree.metaAt o).map CellMeta.live
  covers : index.scriptIndex.Covers scripts fun o => (index.liveCell o).isSome
  scripts : tree.HasScripts scripts

section Step

variable {scripts : OutPoint → Hash × Option Hash} {i : CellIndexer} {sinkTree : LiveTree hasher}
  {s state' : VirtualState hasher} {note : CellsChangedNotification}

theorem VirtualState.BuiltOn.processCellsChanged_eq (hbuilt : state'.BuiltOn sinkTree)
    (hdiff : note.accumulatedCellDiff = state'.cellDiff)
    (hblocks : note.blockCellDiffs = state'.blockCellDiffs) :
    i.processCellsChanged note = i.updateWithBlockDiffs state'.blockCellDiffs := by
  rw [processCellsChanged, hblocks, hdiff]
  cases hl : state'.blockCellDiffs with
  | cons block bs => simp
  | nil =>
    have he := hbuilt.diff
    rw [hl] at he
    have hn := CellDiff.toPatch_injective (he.trans CellDiff.toPatch_empty.symm)
    rw [hn]
    rfl

theorem VirtualState.BuiltOn.live_eq (hbuilt : state'.BuiltOn sinkTree) (o) :
    (state'.cellStateTree.metaAt o).map live =
    Patch.applyAll (state'.blockCellDiffs.map fun block => block.cellDiff.toPatch.map live)
    (fun o => (sinkTree.metaAt o).map live) o := by
  have hmap := Patch.map_applyAll live
    (state'.blockCellDiffs.map fun block => block.cellDiff.toPatch) sinkTree.metaAt
  rw [List.map_map] at hmap
  rw [hbuilt.tree]
  exact (congrFun hmap o).symm

-- One change of the virtual state: where no block of the mergeset touches an outpoint the index
-- still shows the previous state, which has to be the one of the sink there.
theorem CellIndexer.Follows.step (h : i.Follows scripts s.cellStateTree)
    (hbuilt : state'.BuiltOn sinkTree) (hdiff : note.accumulatedCellDiff = state'.cellDiff)
    (hblocks : note.blockCellDiffs = state'.blockCellDiffs)
    (hadds : ∀ block ∈ note.blockCellDiffs, block.cellDiff.HasScripts scripts)
    (huntouched : ∀ o, ¬ Touched note.blockCellDiffs o → s.cellStateTree.get o = sinkTree.get o) :
    (i.processCellsChanged note).Follows scripts state'.cellStateTree := by
  rw [hbuilt.processCellsChanged_eq hdiff hblocks]
  rw [hblocks] at hadds huntouched
  refine ⟨fun o => ?_, covers_updateWithBlockDiffs h.covers hbuilt.scores hadds, fun o m hm => ?_⟩
  · rw [hbuilt.live_eq, liveCell_updateWithBlockDiffs hbuilt.scores]
    refine Patch.applyAll_eq_of_touched ?_
    by_cases ho : Touched state'.blockCellDiffs o
    · right
      obtain ⟨block, hb, ht⟩ := ho
      refine ⟨_, List.mem_map_of_mem hb, ?_⟩
      rw [mem_iff_isSome_getElem?, mem_iff_isSome_getElem?] at ht
      rw [Patch.map, Option.isSome_map, Option.isSome_map]
      exact ht
    · left
      have hme : s.cellStateTree.metaAt o = sinkTree.metaAt o := by
        rw [metaAt, huntouched o ho, metaAt]
      rw [h.live, hme]
  · rw [hbuilt.tree] at hm
    rcases Patch.mem_of_applyAll_eq_some hm with ⟨q, hq, hadd⟩ | ⟨hs, hu⟩
    · obtain ⟨block, hb, rfl⟩ := List.mem_map.mp hq
      exact hadds block hb o m hadd
    · have ho : ¬ Touched state'.blockCellDiffs o := by
        rintro ⟨block, hb, hadd | hrem⟩
        · have hn : block.cellDiff.add[o]? = none := (hu _ (List.mem_map_of_mem hb)).1
          simp [mem_iff_isSome_getElem?, hn] at hadd
        · have hn : block.cellDiff.remove[o]? = none := (hu _ (List.mem_map_of_mem hb)).2
          simp [mem_iff_isSome_getElem?, hn] at hrem
      refine h.scripts o m ?_
      rw [← hs, metaAt, huntouched o ho, metaAt]

end Step

namespace VirtualStateProcessor

variable {self : VirtualStateProcessor}

-- Changes of the virtual state one after the other, from any stores and tips, with what each of
-- them announces. Every change meets `Good`.
inductive VirtualRun (self : VirtualStateProcessor)
    (Good : VirtualState self.hasher → CellsChangedNotification → LiveTree self.hasher → Prop) :
    VirtualState self.hasher → List CellsChangedNotification → VirtualState self.hasher → Prop
  | done (state : VirtualState self.hasher) : VirtualRun self Good state [] state
  | step {services : ResolveServices} {stores : ChainStores} {rounds : Nat} {tips : List Hash}
      {pruningPoint : Hash} {state last : VirtualState self.hasher}
      {note : CellsChangedNotification} {notes : List CellsChangedNotification}
      {node' : Node self.hasher} {sinkTree : LiveTree self.hasher}
      (hresolve : self.resolveVirtual services rounds tips pruningPoint ⟨stores, state⟩ =
        (.ok note, node'))
      (hresolved : Resolved services note node' sinkTree) (hgood : Good state note sinkTree)
      (hrest : VirtualRun self Good node'.virtualState notes last) :
      VirtualRun self Good state (note :: notes) last

-- The previous virtual state has the cells of the sink's state wherever no block of the new
-- mergeset touches them, and an outpoint always stands for the same scripts.
structure AgreesWithSink {hasher : Hasher} (scripts : OutPoint → Hash × Option Hash)
    (state : VirtualState hasher) (note : CellsChangedNotification) (sinkTree : LiveTree hasher) :
    Prop where
  untouched : ∀ o, ¬ Touched note.blockCellDiffs o → state.cellStateTree.get o = sinkTree.get o
  scripts : ∀ block ∈ note.blockCellDiffs, block.cellDiff.HasScripts scripts

theorem VirtualRun.follows {scripts index state last notes}
    (hrun : VirtualRun self (AgreesWithSink scripts) state notes last)
    (h : index.Follows scripts state.cellStateTree) :
    (notes.foldl processCellsChanged index).Follows scripts last.cellStateTree := by
  induction hrun generalizing index with
  | done => exact h
  | step _ hr hg _ ih =>
    exact ih (h.step hr.builtOn hr.accumulatedCellDiff hr.blockCellDiffs hg.scripts hg.untouched)

-- Over every run of such changes the index shows the virtual state again.
theorem processCellsChanged_shows_virtual {scripts : OutPoint → Hash × Option Hash}
    {index : CellIndexer} {state last : VirtualState self.hasher}
    {notes : List CellsChangedNotification}
    (hrun : VirtualRun self (AgreesWithSink scripts) state notes last)
    (h : index.Follows scripts state.cellStateTree) :
    (notes.foldl CellIndexer.processCellsChanged index).Shows last.cellStateTree := by
  have hl := hrun.follows h
  exact .of_covers hl.scripts hl.live hl.covers

section Line

def lineScripts (_ : OutPoint) : Hash × Option Hash := (Hasher.sample.scriptHash sampleLock, none)

theorem empty_follows : empty.Follows lineScripts sampleNode.virtualState.cellStateTree where
  live o := by
    have hn : sampleNode.virtualState.cellStateTree.metaAt o = none := by simp [metaAt, sampleNode]
    rw [hn, liveCell_empty, Option.map_none]
  covers := by
    refine ⟨fun h o ho => ?_, fun h o ho => ?_, fun o ho => ?_, fun o h ho => ?_⟩
    · simp [CellIndexer.empty, ScriptTable.getFromIndex] at ho
    · simp [CellIndexer.empty, ScriptTable.getFromIndex] at ho
    · simp at ho
    · simp at ho
  scripts o m hm := by simp [metaAt, sampleNode] at hm

def describes (previous : LiveTree Hasher.sample) (state' : VirtualState Hasher.sample)
    (note : CellsChangedNotification) : Bool :=
  decide (applyCellDiffToTree previous state'.cellDiff = state'.cellStateTree) &&
    note.blockCellDiffs.all fun block => block.cellDiff.add.toList.all fun cell =>
      lineScripts cell.1 = (cell.2.lockHash, cell.2.typeHash)

theorem agreesWithSink_of_describes {services note sinkTree} {state : VirtualState Hasher.sample}
    {node' : Node Hasher.sample} (hresolved : Resolved services note node' sinkTree)
    (h : describes state.cellStateTree node'.virtualState note = true) :
    AgreesWithSink lineScripts state note sinkTree := by
  obtain ⟨hdiff, hscripts⟩ := Bool.and_eq_true_iff.mp h
  have hsame := (BuiltOn.applyCellDiffToTree_iff hresolved.builtOn _).mp (of_decide_eq_true hdiff)
  refine ⟨fun o ho => ?_, fun block hb o m hm => ?_⟩
  · have hu := hresolved.builtOn.get_of_not_touched (hresolved.blockCellDiffs ▸ ho)
    have hm := hsame o (by rw [metaAt, metaAt, hu])
    rw [← hu, ← map_metaAt, hm, map_metaAt]
  · have hcell := List.all_eq_true.mp hscripts block hb
    exact of_decide_eq_true
      (List.all_eq_true.mp hcell (o, m) (mem_toList_iff_getElem?_eq_some.mpr hm))

theorem processCellsChanged_shows_next : ∃ note note', firstStep = (.ok note, firstStep.2) ∧
    nextStep = (.ok note', nextStep.2) ∧
    ([note, note'].foldl CellIndexer.processCellsChanged .empty).Shows
    nextStep.2.virtualState.cellStateTree := by
  have hfirst : firstStep.1.toOption.any (describes sampleNode.virtualState.cellStateTree
      firstStep.2.virtualState) = true := by decide +kernel
  have hnext : nextStep.1.toOption.any (describes firstStep.2.virtualState.cellStateTree
      nextStep.2.virtualState) = true := by decide +kernel
  obtain ⟨note, hrun, hd⟩ := exists_of_any_toOption_fst hfirst
  obtain ⟨note', hrun', hd'⟩ := exists_of_any_toOption_fst hnext
  obtain ⟨sinkTree, hresolved, -⟩ := resolveVirtual_eq_ok hrun
  obtain ⟨sinkTree', hresolved', -⟩ := resolveVirtual_eq_ok hrun'
  have hsteps : VirtualRun sample (AgreesWithSink lineScripts) sampleNode.virtualState [note, note']
      nextStep.2.virtualState :=
    .step hrun hresolved (agreesWithSink_of_describes hresolved hd)
      (.step hrun' hresolved' (agreesWithSink_of_describes hresolved' hd') (.done _))
  exact ⟨note, note', hrun, hrun', processCellsChanged_shows_virtual hsteps empty_follows⟩

-- Two blocks at once: the cell of the block between never reaches the index.
theorem processCellsChanged_misses_block : ∃ note note', firstStep = (.ok note, firstStep.2) ∧
    secondStep = (.ok note', secondStep.2) ∧
    CellIndexer.empty.Shows sampleNode.virtualState.cellStateTree ∧
    ¬ ([note, note'].foldl CellIndexer.processCellsChanged .empty).Shows
    secondStep.2.virtualState.cellStateTree := by
  have hf : firstStep.1.toOption.any (fun note => secondStep.1.toOption.any (fun note' => decide
      (([note, note'].foldl processCellsChanged .empty).liveCell (coinbaseCell 3 3).outPoint ≠
        (secondStep.2.virtualState.cellStateTree.metaAt (coinbaseCell 3 3).outPoint).map
          live))) = true := by decide +kernel
  obtain ⟨note, hn, hs⟩ := exists_of_any_toOption_fst hf
  obtain ⟨note', hn', hm⟩ := exists_of_any_toOption_fst hs
  have he := empty_follows
  exact ⟨note, note', hn, hn', .of_covers he.scripts he.live he.covers,
    fun hsh => of_decide_eq_true hm (hsh.live _)⟩

end Line

end VirtualStateProcessor

end Spora
