import Spora.Body.Replay
import Spora.Store.PointOfView
import Spora.Store.Snapshot

namespace Spora

open Std Outcome OverlayCellProvider CellStorage Option

section Locks

def CellInput.isTimestampRelative (input : CellInput) : Bool :=
  input.since ≠ 0 && sinceIsRelative input.since && !sinceIsDaa input.since

-- The locks of a transaction that need no block: absolute ones, and those that count from the score
-- of the cell.
def OtherLocksMet (score : OutPoint → Nat) (tx : CellTx) (currentDaa currentTimestamp : Nat) :
    Prop :=
  ∀ input ∈ tx.inputs, input.since ≠ 0 → input.isTimestampRelative = false →
      if sinceIsRelative input.since then
      score input.previousOutput + sinceValue input.since ≤ U64_MAX ∧
        score input.previousOutput + sinceValue input.since ≤ currentDaa
    else sinceValue input.since ≤ if sinceIsDaa input.since then currentDaa else currentTimestamp

-- The locks that count from a timestamp, with the timestamp to count from for each cell.
def TimestampLocksMet (timestamp : OutPoint → Option Nat) (tx : CellTx) (currentTimestamp : Nat) :
    Prop :=
  ∀ input ∈ tx.inputs, input.isTimestampRelative = true → ∃ t ∈ timestamp input.previousOutput,
      t + sinceValue input.since ≤ U64_MAX ∧ t + sinceValue input.since ≤ currentTimestamp

instance (timestamp : OutPoint → Option Nat) (tx : CellTx) (currentTimestamp : Nat) :
    Decidable (TimestampLocksMet timestamp tx currentTimestamp) :=
  inferInstanceAs (Decidable (∀ input ∈ tx.inputs, _ → ∃ t ∈ timestamp input.previousOutput, _))

variable {prov : DagCellProvider} {pov : Hash} {m : CellMetadata} {inp : CellInput}
  {daa currentTimestamp : Nat}

theorem sinceRequired_eq_ok_iff {since required} : sinceRequired prov since m = .ok required ↔
    if sinceIsRelative since then
      ∃ base, sinceBase prov since m = .ok base ∧ required = base + sinceValue since ∧
      required ≤ U64_MAX
    else required = sinceValue since := by
  unfold sinceRequired
  split_ifs
  · simp only [bind_eq_ok_iff, okOr_eq_ok_iff, checkedAdd_eq_some_iff]
  · rw [Except.ok.injEq, eq_comm]

theorem validateTimeLock_eq_ok_iff
    (hcell : prov.getCellAtPov inp.previousOutput pov = .ok (some m)) (hsince : inp.since ≠ 0) :
    validateTimeLock prov pov daa currentTimestamp inp = .ok () ↔
      ∃ required, sinceRequired prov inp.since m = .ok required ∧
        required ≤ if sinceIsDaa inp.since then daa else currentTimestamp := by
  unfold validateTimeLock resolveCell
  simp only [hsince, if_false, hcell, Except.mapError, ok_bind, okOr_some, bind_eq_ok_iff,
    ensure_eq_ok_iff]

theorem validateTimeLocks_eq_ok_iff {tx score ts} (hcells : ∀ inp ∈ tx.inputs, inp.since ≠ 0 → ∃ m,
      prov.getCellAtPov inp.previousOutput pov = .ok (some m) ∧
      m.blockDaaScore = score inp.previousOutput ∧
      (prov.getBlockTimestamp m.blockHash).toOption = ts inp.previousOutput) :
    validateTimeLocks prov pov tx daa currentTimestamp = .ok () ↔
    OtherLocksMet score tx daa currentTimestamp ∧ TimestampLocksMet ts tx currentTimestamp := by
  have hone : ∀ inp ∈ tx.inputs, validateTimeLock prov pov daa currentTimestamp inp = .ok () ↔
      (inp.since ≠ 0 → inp.isTimestampRelative = false → if sinceIsRelative inp.since then
          score inp.previousOutput + sinceValue inp.since ≤ U64_MAX ∧
            score inp.previousOutput + sinceValue inp.since ≤ daa
        else sinceValue inp.since ≤ if sinceIsDaa inp.since then daa else currentTimestamp) ∧
      (inp.isTimestampRelative = true → ∃ t ∈ ts inp.previousOutput,
        t + sinceValue inp.since ≤ U64_MAX ∧ t + sinceValue inp.since ≤ currentTimestamp) := by
    intro inp hin
    by_cases hs : inp.since = 0
    · simp [validateTimeLock, hs, CellInput.isTimestampRelative]
    obtain ⟨m, hm, hsc, ht⟩ := hcells inp hin hs
    rw [validateTimeLock_eq_ok_iff hm hs]
    simp only [sinceRequired_eq_ok_iff, sinceBase, CellInput.isTimestampRelative, hs, ne_eq,
      ← hsc, ← ht]
    cases hrel : sinceIsRelative inp.since with
    | false => simp
    | true =>
      cases hdaa : sinceIsDaa inp.since with
      | true => simp
      | false =>
        have hst : ∀ t, (prov.getBlockTimestamp m.blockHash).toOption = some t ↔
            prov.getBlockTimestamp m.blockHash = .ok t := fun t => mem_toOption_iff
        simp [mapError_eq_ok_iff, hst, and_assoc]
  unfold validateTimeLocks OtherLocksMet TimestampLocksMet
  rw [forM_eq_ok_iff, ← forall₂_and]
  exact forall₂_congr hone

end Locks

section Reports

namespace ConsensusCellProvider

variable {self : ConsensusCellProvider} {block : Hash} {o : OutPoint} {m : CellMetadata}

-- The block that is named for a cell which the diff of `block` adds: its first source that has the
-- cell, if that can be read.
def creditedTo (self : ConsensusCellProvider) (block : Hash) (o : OutPoint) : Hash :=
  ((self.firstSource block o).filter fun source => ¬ self.storage.Unreadable source o).getD block

-- The block that is named for a cell at a point of view, by the newest diff that adds the cell.
def reportedAt (self : ConsensusCellProvider) (pov : Hash) (o : OutPoint) : Option Hash :=
  ((self.chain.path pov).find? fun block =>
    (self.cellDiffs block).any fun diff => decide (o ∈ diff.add)).map (self.creditedTo · o)

theorem resolveAddedCellInDiff_cases :
    (∃ source m, self.firstSource block o = some source ∧
      self.storage.loadMetadataFromBlock source o = .ok (some m) ∧
      self.resolveAddedCellInDiff block o = .ok (some m)) ∨
    self.creditedTo block o = block ∧ ∀ m, self.resolveAddedCellInDiff block o ≠ .ok (some m) := by
  cases hg : self.ghostdag block with
  | none =>
    have hcredit : self.creditedTo block o = block := by
      by_cases hlacks : self.storage.Lacks block o <;>
        by_cases hst : self.storage.Unreadable block o <;>
          simp [creditedTo, firstSource, sources, hg, hlacks, hst, filter_some]
    cases hload : self.storage.loadMetadataFromBlock block o with
    | error e => exact .inr ⟨hcredit, by simp [resolveAddedCellInDiff, hload]⟩
    | ok found =>
      cases found with
      | none => exact .inr ⟨hcredit, by simp [resolveAddedCellInDiff, hload, hg, okOr]⟩
      | some m =>
        have hlacks : ¬ self.storage.Lacks block o := by
          simp [← loadMetadataFromBlock_eq_none_iff, hload]
        refine .inl ⟨block, m, ?_, hload, by simp [resolveAddedCellInDiff, hload]⟩
        simp [firstSource, sources, hlacks]
  | some data =>
    have hresolve : self.resolveAddedCellInDiff block o = (self.firstSource block o).elim (.ok none)
        (self.storage.loadMetadataFromBlock · o) := by
      rw [resolveAddedCellInDiff_eq (by simp [hg]), firstMetadata_eq_find]
      rfl
    rw [hresolve]
    cases hs : self.firstSource block o with
    | none => exact .inr ⟨by simp [creditedTo, hs], by simp⟩
    | some source =>
      have hlacks : ¬ self.storage.Lacks source o := by simpa using List.find?_some hs
      cases hload : self.storage.loadMetadataFromBlock source o with
      | error e =>
        have hst : self.storage.Unreadable source o :=
          unreadable_iff.mpr fun r => by simp [hload]
        exact .inr ⟨by simp [creditedTo, hs, filter_some, hst], by simp [hload]⟩
      | ok found =>
        cases found with
        | none => exact absurd (loadMetadataFromBlock_eq_none_iff.mp hload) hlacks
        | some m => exact .inl ⟨source, m, rfl, hload, by simp [hload]⟩

theorem blockHash_of_addedCell {cellMeta : CellMeta}
    (h : self.addedCell block o cellMeta = .ok (some m)) :
    m.blockHash = self.creditedTo block o := by
  unfold addedCell at h
  rcases @resolveAddedCellInDiff_cases self block o with
    ⟨source, m', hs, hload, hresolve⟩ | ⟨hcredit, hnot⟩
  · have hst : ¬ self.storage.Unreadable source o := fun hst =>
      unreadable_iff.mp hst _ hload
    rw [hresolve] at h
    cases h
    rw [blockHash_of_loadMetadataFromBlock hload]
    simp [creditedTo, hs, filter_some, hst]
  · rw [hcredit]
    split at h
    · next hresolve => exact absurd hresolve (hnot _)
    · cases h
      rfl
    · split_ifs at h
      cases h
      rfl

theorem blockHash_of_getCellAtPov {pov : Hash}
    (h : self.toProvider.getCellAtPov o pov = .ok (some m)) :
    self.reportedAt pov o = some m.blockHash := by
  unfold reportedAt
  change self.walkDiffs o (self.chain.path pov) = _ at h
  generalize self.chain.path pov = path at h ⊢
  induction path with
  | nil => simp [walkDiffs] at h
  | cons current rest ih =>
    rw [walkDiffs] at h
    split_ifs at h
    · cases h
    · obtain ⟨_, -, h⟩ := bind_ok h
      obtain ⟨diff, hdiff, h⟩ := bind_ok h
      rw [okOr_eq_ok_iff] at hdiff
      split_ifs at h
      · cases h
      · cases hadd : diff.add[o]? with
        | none =>
          rw [hadd] at h
          rw [List.find?_cons_of_neg (by simp [hdiff, TreeMap.not_mem_of_getElem? hadd])]
          exact ih h
        | some cellMeta =>
          rw [hadd] at h
          rw [List.find?_cons_of_pos (by simp [hdiff, TreeMap.mem_of_getElem? hadd]),
            map_some, blockHash_of_addedCell h]

end ConsensusCellProvider

-- Whatever block a cell of the tree is from, the seeded overrides report the snapshot block.
theorem blockHash_of_seedBaseOverridesFromTree {hasher : Hasher} {tree : LiveTree hasher}
    {c d : ReplayValidationContext} (hstart : c.provider.baseOverrides = ∅)
    (h : seedBaseOverridesFromTree c tree = .ok d) {o : OutPoint} {m : CellMetadata}
    (hm : d.provider.baseOverrides[o]? = some m) : m.blockHash = c.snapshotPov := by
  refine (foldlM_invariant (P := fun s => s.snapshotPov = c.snapshotPov ∧
    ∀ (o : OutPoint) (m : CellMetadata), s.provider.baseOverrides[o]? = some m →
      m.blockHash = c.snapshotPov) (fun s e _ s' hs hst => ?_) ⟨rfl, by simp [hstart]⟩ h).2 o m hm
  unfold seedBaseOverride at hst
  dsimp only at hst
  split_ifs at hst
  · cases hst
    exact hs
  · obtain ⟨provider, hp, hst⟩ := bind_ok hst
    rw [mapError_eq_ok_iff, addBaseOverride] at hp
    cases hst
    split_ifs at hp
    cases hp
    refine ⟨hs.1, fun o m hm => ?_⟩
    rw [TreeMap.getElem?_insert_eq] at hm
    split_ifs at hm
    · rw [← some.inj hm]
      exact hs.1
    · exact hs.2 o m hm

end Reports

inductive ValidationPath
  | body
  | replay
  | snapshot
deriving DecidableEq, Repr

-- The three ways over one chain state: the overlay that body validation builds for a block, a
-- replay context over the overrides seeded from a tree, and the snapshot of a virtual state.
structure ValidationPaths where
  consensus : ConsensusCellProvider
  processor : BlockBodyProcessor
  reads_consensus : processor.baseProvider = consensus.toProvider
  block : Block
  overlay : OverlayCellProvider
  built : processor.buildBodyValidationProvider block = .ok overlay
  tree : LiveTree processor.hasher
  start : ReplayValidationContext
  start_base : start.provider.base = processor.baseProvider
  start_overrides : start.provider.baseOverrides = ∅
  seeded : ReplayValidationContext
  seeds : seedBaseOverridesFromTree start tree = .ok seeded
  context : ReplayValidationContext
  frame : ReplayValidationContext.SameFrame seeded context
  snapshot : VirtualSnapshotCellProvider
  snapshot_storage : snapshot.storage = consensus.storage

namespace ValidationPaths

variable (self : ValidationPaths)

def provider : ValidationPath → DagCellProvider
  | .body => self.overlay.toProvider
  | .replay => self.context.provider.toProvider
  | .snapshot => self.snapshot.toProvider

def pov : ValidationPath → Hash
  | .body => self.block.hash
  | .replay => self.context.snapshotPov
  | .snapshot => self.snapshot.snapshotPov

def cellAt (path : ValidationPath) (o : OutPoint) : Except String (Option CellMetadata) :=
  (self.provider path).getCellAtPov o (self.pov path)

-- The block that each path reports for a cell, read off the stores: body validation the block that
-- was merged or the one that the lookup from the selected parent credits, replay the snapshot block
-- for every seeded cell, and the snapshot the first block with the cell that it looks at.
def reportedBlock : ValidationPath → OutPoint → Option Hash
  | .body, o => (self.overlay.added[o]?.map CellMetadata.blockHash).or
      (self.consensus.reportedAt (self.processor.blockGhostdagData self.block).selectedParent o)
  | .replay, o => (self.context.provider.added[o]?.map CellMetadata.blockHash).or
      (if o ∈ self.seeded.provider.baseOverrides then some self.start.snapshotPov
      else self.consensus.reportedAt self.start.provider.basePov o)
  | .snapshot, o => (self.snapshot.overrides[o]?.map CellMetadata.blockHash).or
      (((self.snapshot.sources o).find? fun block =>
        !decide (self.snapshot.storage.Lacks block o)).or (some self.snapshot.snapshotPov))

-- The timestamp of a block; to the snapshot, the zero hash is the block being built.
def timestampOf (path : ValidationPath) (block : Hash) : Option Nat :=
  if path = .snapshot ∧ block = NONE then some self.snapshot.templateTimestamp
  else (self.consensus.storage.headers block).map Header.timestamp

def verdict (path : ValidationPath) (tx : CellTx) (currentDaa currentTimestamp : Nat) : Bool :=
  (validateTimeLocks (self.provider path) (self.pov path) tx currentDaa currentTimestamp).isOk

-- On every path the locked inputs are the given live cells, whatever block they are reported in.
def Resolves (cell : OutPoint → CellMetadata) (tx : CellTx) : Prop :=
  ∀ path, ∀ input ∈ tx.inputs, input.since ≠ 0 → ∃ block, self.cellAt path input.previousOutput =
      .ok (some { cell input.previousOutput with blockHash := block })

-- All paths agree, and they count from the block that created each cell.
structure LocksMeanTheSame (paths : ValidationPaths) (cell : OutPoint → CellMetadata)
    (created : OutPoint → Hash) (tx : CellTx) (currentDaa currentTimestamp : Nat) : Prop where
  verdicts : ∀ path path', paths.verdict path tx currentDaa currentTimestamp =
    paths.verdict path' tx currentDaa currentTimestamp
  measured : ∀ path, paths.verdict path tx currentDaa currentTimestamp = true ↔
    OtherLocksMet (fun o => (cell o).blockDaaScore) tx currentDaa currentTimestamp ∧
      TimestampLocksMet
        (fun o => (paths.consensus.storage.headers (created o)).map Header.timestamp) tx
        currentTimestamp

theorem context_base : self.context.provider.base = self.consensus.toProvider := by
  rw [← self.frame.base, (seedBaseOverridesFromTree_eq_ok self.seeds).base, self.start_base,
    self.reads_consensus]

theorem toOption_getBlockTimestamp (path) (block : Hash) :
    ((self.provider path).getBlockTimestamp block).toOption = self.timestampOf path block := by
  have hh : (self.consensus.toProvider.getBlockTimestamp block).toOption =
      (self.consensus.storage.headers block).map Header.timestamp := by
    simp only [ConsensusCellProvider.toProvider, getBlockTimestamp]
    cases self.consensus.storage.headers block <;> rfl
  cases path with
  | body =>
    have hb := (BlockBodyProcessor.buildBodyValidationProvider_sameBase self.built).base
    simp only [provider, toProvider, hb, new,
      self.reads_consensus, hh, timestampOf, reduceCtorEq, false_and, if_false]
  | replay =>
    simp only [provider, toProvider, context_base, hh, timestampOf,
      reduceCtorEq, false_and, if_false]
  | snapshot =>
    simp only [provider, VirtualSnapshotCellProvider.toProvider, timestampOf, true_and]
    split_ifs
    · rfl
    · rw [self.snapshot_storage]
      exact hh

variable {self} {cell : OutPoint → CellMetadata} {tx : CellTx}

theorem reportedBlock_eq {path o m} (h : self.cellAt path o = .ok (some m)) :
    self.reportedBlock path o = some m.blockHash := by
  cases path with
  | body =>
    have hb := BlockBodyProcessor.buildBodyValidationProvider_sameBase self.built
    rcases getCellAtPov_eq_some h with hadd | ⟨hadd, hover | ⟨-, hbase⟩⟩
    · simp [reportedBlock, hadd]
    · simp [hb.baseOverrides, new] at hover
    · rw [hb.base, hb.basePov, new, self.reads_consensus] at hbase
      simp [reportedBlock, hadd, ConsensusCellProvider.blockHash_of_getCellAtPov hbase]
  | replay =>
    rcases getCellAtPov_eq_some h with hadd | ⟨hadd, hover | ⟨hover, hbase⟩⟩
    · simp [reportedBlock, hadd]
    · rw [← self.frame.baseOverrides] at hover
      simp [reportedBlock, hadd, TreeMap.mem_of_getElem? hover,
        blockHash_of_seedBaseOverridesFromTree self.start_overrides self.seeds hover]
    · rw [← self.frame.baseOverrides] at hover
      rw [context_base, ← self.frame.basePov,
        (seedBaseOverridesFromTree_eq_ok self.seeds).basePov] at hbase
      simp [reportedBlock, hadd, TreeMap.not_mem_of_getElem? hover,
        ConsensusCellProvider.blockHash_of_getCellAtPov hbase]
  | snapshot =>
    obtain ⟨_, -, h⟩ := bind_ok h
    cases hover : self.snapshot.overrides[o]? with
    | some metadata =>
      simp only [VirtualSnapshotCellProvider.resolveSnapshotMetadata, hover] at h
      cases h
      simp [reportedBlock, hover]
    | none =>
      rw [self.snapshot.resolveSnapshotMetadata_eq hover, firstMetadata_eq_find] at h
      simp only [reportedBlock, hover, map_none, none_or]
      cases hfind : (self.snapshot.sources o).find? fun block =>
          !decide (self.snapshot.storage.Lacks block o) with
      | none =>
        rw [hfind] at h
        obtain ⟨entry, -, rfl⟩ := map_eq_some_iff.mp (Except.ok.inj h)
        rfl
      | some source =>
        have hlacks : ¬ self.snapshot.storage.Lacks source o := by simpa using List.find?_some hfind
        rw [hfind] at h
        obtain ⟨found, hload, h⟩ := bind_ok h
        cases found with
        | none => exact absurd (loadMetadataFromBlock_eq_none_iff.mp hload) hlacks
        | some metadata =>
          cases h
          rw [blockHash_of_loadMetadataFromBlock hload]
          rfl

theorem verdict_iff (h : self.Resolves cell tx) (path)
    (currentDaa currentTimestamp : Nat) : self.verdict path tx currentDaa currentTimestamp = true ↔
    OtherLocksMet (fun o => (cell o).blockDaaScore) tx currentDaa currentTimestamp ∧
    TimestampLocksMet (fun o => (self.reportedBlock path o).bind (self.timestampOf path)) tx
    currentTimestamp := by
  have hce : ∀ input ∈ tx.inputs, input.since ≠ 0 → ∃ m,
      (self.provider path).getCellAtPov input.previousOutput (self.pov path) = .ok (some m) ∧
        m.blockDaaScore = (cell input.previousOutput).blockDaaScore ∧
          ((self.provider path).getBlockTimestamp m.blockHash).toOption =
            (self.reportedBlock path input.previousOutput).bind (self.timestampOf path) := by
    intro input hin hs
    obtain ⟨block, hc⟩ := h path input hin hs
    refine ⟨_, hc, rfl, ?_⟩
    rw [self.toOption_getBlockTimestamp, reportedBlock_eq hc]
    rfl
  unfold verdict
  rw [isOk_iff, ← validateTimeLocks_eq_ok_iff hce]
  refine ⟨?_, fun hok => ⟨(), hok⟩⟩
  rintro ⟨_, hok⟩
  exact hok

end ValidationPaths

section Line

open VirtualStateProcessor

def lineNode : Node Hasher.sample := (sample.resolveVirtual lineNetwork 9 [3] 1 sampleNode).2

def lineConsensus : ConsensusCellProvider := sampleConsensus lineNetwork [1, 2, 3] lineNode.stores

def lineBody : BlockBodyProcessor :=
  { BlockBodyProcessor.sample with
    blockTransactions := lineNetwork.blocks.blockTransactions
    daaScores := lineNetwork.blocks.daaScores
    ghostdagData := lineNetwork.ghostdagData
    baseProvider := lineConsensus.toProvider }

def lockedTx (since : Nat) : CellTx :=
  ⟨CELL_TX_VERSION, [⟨(coinbaseCell 2 2).outPoint, since⟩], [], [], [⟨sampleLock, none, 1⟩],
    [[]], [[]]⟩

def lockedBlock : Block := ⟨(lineBlock 4).header, [lockedTx 0]⟩

def lineOverlay : Except RuleError OverlayCellProvider :=
  lineBody.buildBodyValidationProvider lockedBlock

def lineStart : ReplayValidationContext :=
  lineBody.virtualProcessor.buildReplayValidationContext 4 3 4 4

def lineSeeded : Except RuleError ReplayValidationContext :=
  seedBaseOverridesFromTree lineStart (lineBlock 3).cellState

def linePaths : ValidationPaths where
  consensus := lineConsensus
  processor := lineBody
  reads_consensus := rfl
  block := lockedBlock
  overlay := lineOverlay.toOption.getD (.new lineConsensus.toProvider 4 3)
  built := eq_ok_getD_of_isSome (by decide +kernel) _
  tree := (lineBlock 3).cellState
  start := lineStart
  start_base := rfl
  start_overrides := rfl
  seeded := lineSeeded.toOption.getD lineStart
  seeds := eq_ok_getD_of_isSome (by decide +kernel) _
  context := lineSeeded.toOption.getD lineStart
  frame := .refl _
  snapshot := ⟨lineConsensus.storage, lineNode.virtualState, 4, ∅⟩
  snapshot_storage := rfl

def lineCell : CellMetadata := CellMetadata.ofCellMeta (coinbaseCell 2 2)

theorem linePaths_resolves (since : Nat) :
    linePaths.Resolves (fun _ => lineCell) (lockedTx since) := by
  intro path input hin _
  obtain rfl := List.mem_singleton.mp hin
  have hb : (linePaths.cellAt .body lineCell.outPoint).toOption =
      some (some { lineCell with blockHash := 2 }) := by decide +kernel
  have hr : (linePaths.cellAt .replay lineCell.outPoint).toOption =
      some (some { lineCell with blockHash := 4 }) := by decide +kernel
  have hs : (linePaths.cellAt .snapshot lineCell.outPoint).toOption =
      some (some { lineCell with blockHash := 2 }) := by decide +kernel
  cases path with
  | body => exact ⟨2, mem_toOption_iff.mp hb⟩
  | replay => exact ⟨4, mem_toOption_iff.mp hr⟩
  | snapshot => exact ⟨2, mem_toOption_iff.mp hs⟩

end Line

end Spora
