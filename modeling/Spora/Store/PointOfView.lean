import Spora.Store.Storage
import Spora.Cell.Diff.Rollback
import Spora.Virtual.Initial

namespace Spora

open Std Outcome List Option CellStorage

-- The fields of a cell that a lookup has to give as the diff recorded them.
structure CellMetadata.Records (m : CellMetadata) (cellMeta : CellMeta) : Prop where
  capacity : m.capacity = cellMeta.capacity
  dataBytes : m.dataBytes = cellMeta.dataBytes
  lockHash : m.lockHash = cellMeta.lockHash
  typeHash : m.typeHash = cellMeta.typeHash
  dataHash : m.dataHash = cellMeta.dataHash
  blockDaaScore : m.blockDaaScore = cellMeta.blockDaaScore
  isCellbase : m.isCellbase = cellMeta.isCellbase

instance (m : CellMetadata) (cellMeta : CellMeta) : Decidable (m.Records cellMeta) :=
  decidable_of_iff (m.capacity = cellMeta.capacity ∧ m.dataBytes = cellMeta.dataBytes ∧
      m.lockHash = cellMeta.lockHash ∧ m.typeHash = cellMeta.typeHash ∧
        m.dataHash = cellMeta.dataHash ∧
      m.blockDaaScore = cellMeta.blockDaaScore ∧ m.isCellbase = cellMeta.isCellbase)
    ⟨fun ⟨h₁, h₂, h₃, h₄, h₅, h₆, h₇⟩ => ⟨h₁, h₂, h₃, h₄, h₅, h₆, h₇⟩,
      fun ⟨h₁, h₂, h₃, h₄, h₅, h₆, h₇⟩ => ⟨h₁, h₂, h₃, h₄, h₅, h₆, h₇⟩⟩

namespace CellStorage

variable (self : CellStorage)

def Stores (block : Hash) (outpoint : OutPoint) (cellMeta : CellMeta) : Prop :=
  ∃ transactions header tx txIndex output persistedData,
    self.blockTransactions.access block = some transactions ∧ self.headers block = some header ∧
    self.findOutput transactions outpoint = some (tx, txIndex, output) ∧
    self.loadDataFromSegments outpoint = .ok persistedData ∧
    (cellMetadataFromOutput self.hasher block header.daaScore (txIndex == 0 && tx.isCoinbase)
      outpoint.txHash outpoint.index output
      (persistedData.getD (tx.outputData outpoint.index))).Records cellMeta

-- A block whose body or header is gone, or whose output has data in a segment that cannot be read.
def Unreadable (block : Hash) (outpoint : OutPoint) : Prop :=
  ∀ transactions header, self.blockTransactions.access block = some transactions →
    self.headers block = some header → (self.findOutput transactions outpoint).isSome ∧
      ∀ persistedData, self.loadDataFromSegments outpoint ≠ .ok persistedData

variable {self} {b : Hash} {o : OutPoint} {cm : CellMeta}

theorem stores_iff :
    self.Stores b o cm ↔ ∃ m, self.loadMetadataFromBlock b o = .ok (some m) ∧ m.Records cm := by
  simp only [loadMetadataFromBlock_eq_ok_iff]
  constructor
  · rintro ⟨txs, header, tx, ti, output, data, htxs, hh, hf, hd, hr⟩
    exact ⟨_, ⟨txs, header, htxs, hh, .inr ⟨tx, ti, output, data, hf, hd, rfl⟩⟩, hr⟩
  · rintro ⟨m, ⟨txs, header, htxs, hh, hc⟩, hr⟩
    obtain ⟨-, hn⟩ | ⟨tx, ti, output, data, hf, hd, hm⟩ := hc
    · contradiction
    · cases hm
      exact ⟨txs, header, tx, ti, output, data, htxs, hh, hf, hd, hr⟩

theorem unreadable_iff : self.Unreadable b o ↔ ∀ r, self.loadMetadataFromBlock b o ≠ .ok r := by
  simp only [ne_eq, loadMetadataFromBlock_eq_ok_iff]
  constructor
  · rintro h r ⟨txs, header, htxs, hh, hc⟩
    obtain ⟨hs, hd⟩ := h txs header htxs hh
    obtain ⟨hn, -⟩ | ⟨_, _, _, data, -, hr, -⟩ := hc
    · simp [hn] at hs
    · exact hd data hr
  · intro h txs header htxs hh
    cases hf : self.findOutput txs o with
    | none => exact absurd ⟨txs, header, htxs, hh, .inl ⟨hf, rfl⟩⟩ (h none)
    | some found =>
      obtain ⟨tx, ti, output⟩ := found
      refine ⟨rfl, fun data hr => ?_⟩
      exact h _ ⟨txs, header, htxs, hh, .inr ⟨tx, ti, output, data, hf, hr, rfl⟩⟩

instance (self : CellStorage) (b : Hash) (o : OutPoint) : Decidable (self.Unreadable b o) :=
  decidable_of_iff ((self.loadMetadataFromBlock b o).isOk = false) (by
    rw [unreadable_iff]
    cases self.loadMetadataFromBlock b o <;> simp [Except.isOk, Except.toBool])

theorem firstMetadata_eq_find {blocks} : self.firstMetadata o blocks =
    (blocks.find? fun b => !decide (self.Lacks b o)).elim (.ok none)
    (self.loadMetadataFromBlock · o) := by
  induction blocks with
  | nil => rfl
  | cons b blocks ih =>
    by_cases hl : self.Lacks b o
    · simp [firstMetadata, loadMetadataFromBlock_eq_none_iff.mpr hl, hl, ih]
    · simp only [firstMetadata, hl, decide_false, Bool.not_false, find?_cons_of_pos, elim_some]
      cases hlo : self.loadMetadataFromBlock b o with
      | error e => rfl
      | ok found =>
        cases found with
        | some m => rfl
        | none => exact absurd (loadMetadataFromBlock_eq_none_iff.mp hlo) hl

end CellStorage

namespace ConsensusCellProvider

variable (self : ConsensusCellProvider)

-- Where the metadata of a cell that the diff of a block adds is looked for.
def sources (block : Hash) : List Hash :=
  block :: (self.ghostdag block).elim [] fun data =>
    data.selectedParent :: data.mergesetBlues.drop 1

def firstSource (block : Hash) (o : OutPoint) : Option Hash :=
  (self.sources block).find? fun source => !decide (self.storage.Lacks source o)

-- The record of the diff stands in for a cell that no source has, and if it comes with scripts or
-- data, also for one behind a source that cannot be read.
def SourcesFit (block : Hash) (o : OutPoint) (cellMeta : CellMeta) : Prop :=
  ∀ source ∈ self.firstSource block o, self.storage.Stores source o cellMeta ∨
      self.storage.Unreadable source o ∧
        (cellMeta.lockScript.isSome || cellMeta.typeScript.isSome || cellMeta.data.isSome) = true

variable {self} {block : Hash} {o : OutPoint} {cellMeta : CellMeta}

theorem resolveAddedCellInDiff_eq (h : (self.ghostdag block).isSome) :
    self.resolveAddedCellInDiff block o = self.storage.firstMetadata o (self.sources block) := by
  obtain ⟨data, hd⟩ := isSome_iff_exists.mp h
  unfold resolveAddedCellInDiff sources
  rw [hd]
  rfl

theorem records_syntheticMetadata : (syntheticMetadata block cellMeta).Records cellMeta :=
  ⟨rfl, rfl, rfl, rfl, rfl, rfl, rfl⟩

theorem addedCell_records_iff (h : (self.ghostdag block).isSome) :
    (∃ m, self.addedCell block o cellMeta = .ok (some m) ∧ m.Records cellMeta) ↔
    self.SourcesFit block o cellMeta := by
  unfold addedCell SourcesFit
  rw [resolveAddedCellInDiff_eq h, firstMetadata_eq_find]
  cases hs : self.firstSource block o with
  | none =>
    rw [firstSource] at hs
    simp [hs, records_syntheticMetadata]
  | some source =>
    have hla : ¬ self.storage.Lacks source o := by simpa using find?_some hs
    rw [firstSource] at hs
    simp only [hs, elim_some, mem_some_iff, forall_eq']
    cases hl : self.storage.loadMetadataFromBlock source o with
    | error e =>
      have hst : self.storage.Unreadable source o := unreadable_iff.mpr fun r => by simp [hl]
      have hstores : ¬ self.storage.Stores source o cellMeta := by simp [stores_iff, hl]
      by_cases hf : (cellMeta.lockScript.isSome || cellMeta.typeScript.isSome ||
          cellMeta.data.isSome) = true
      · simp only [hf, hst, and_self, or_true, iff_true]
        exact ⟨_, rfl, records_syntheticMetadata⟩
      · simp [hf, hstores]
    | ok found =>
      have hr : ¬ self.storage.Unreadable source o := fun hst =>
        unreadable_iff.mp hst found hl
      cases found with
      | none => exact absurd (loadMetadataFromBlock_eq_none_iff.mp hl) hla
      | some m => simp [stores_iff, hl, hr]

-- The blocks from a point of view down to genesis, all of them committed. Below genesis stands the
-- origin, which never gets a status.
structure CommittedChain (provider : ConsensusCellProvider) (pov : Hash) (blocks : List Hash) :
    Prop where
  path : ∃ below, provider.chain.path pov = blocks ++ ORIGIN :: below
  status : ∀ block ∈ blocks, provider.statuses block = some .statusCellValid
  diff : ∀ block ∈ blocks, (provider.cellDiffs block).isSome
  exists_block : ∀ block ∈ blocks, block ≠ NONE
  origin : provider.statuses ORIGIN = none

variable (self)

-- The cell state after the stored diffs of a chain, the newest block of which comes first.
def replay (blocks : List Hash) : CellCollection :=
  CellDiff.applyAllTo (blocks.reverse.filterMap self.cellDiffs) ∅

def Shows (answer : Except String (Option CellMetadata)) : Option CellMeta → Prop
  | none => answer = .ok none
  | some cellMeta => ∃ m, answer = .ok (some m) ∧ m.Records cellMeta

def newestDiff (blocks : List Hash) (o : OutPoint) : Option (Hash × CellDiff) :=
  blocks.findSome? fun block => do
    let diff ← self.cellDiffs block
    if o ∈ diff.remove ∨ o ∈ diff.add then some (block, diff) else none

-- Some diff of the chain is about the outpoint, and if the newest of them adds it, it does not also
-- remove it, and the first source with the cell has it as recorded.
def LookupFits (blocks : List Hash) (o : OutPoint) : Prop :=
  ∃ block diff, self.newestDiff blocks o = some (block, diff) ∧
    ∀ cellMeta ∈ diff.add[o]?, o ∉ diff.remove ∧ self.SourcesFit block o cellMeta

variable {self} {blocks : List Hash} {diff : CellDiff}

theorem replay_cons (h : self.cellDiffs block = some diff) : (self.replay (block :: blocks))[o]? =
      (diff.add[o]?).or (if o ∈ diff.remove then none else (self.replay blocks)[o]?) := by
  have hd : (block :: blocks).reverse.filterMap self.cellDiffs =
      blocks.reverse.filterMap self.cellDiffs ++ [diff] := by
    simp [h]
  unfold replay
  rw [hd, CellDiff.applyAllTo, foldl_append, foldl_cons, foldl_nil, CellDiff.getElem?_applyTo]
  simp only [CellDiff.toPatch, Patch.apply, ExtTreeMap.mem_iff_isSome_getElem?]
  cases diff.remove[o]? <;> rfl

theorem newestDiff_cons (h : self.cellDiffs block = some diff) :
    self.newestDiff (block :: blocks) o =
      if o ∈ diff.remove ∨ o ∈ diff.add then some (block, diff) else self.newestDiff blocks o := by
  unfold newestDiff
  rw [findSome?_cons, h]
  by_cases hmem : o ∈ diff.remove ∨ o ∈ diff.add <;> simp [hmem]

theorem walkDiffs_cons (hne : block ≠ NONE) (hstatus : self.statuses block = some .statusCellValid)
    (hdiff : self.cellDiffs block = some diff) {rest} :
    self.walkDiffs o (block :: rest) = if o ∈ diff.remove then .ok none
      else match diff.add[o]? with
        | some cellMeta => self.addedCell block o cellMeta
        | none => self.walkDiffs o rest := by
  have hq : self.ensureQueryablePov block = .ok () := by
    simp [ensureQueryablePov, hstatus, BlockStatus.hasBlockBody, BlockStatus.isCellValidOrPending]
  simp only [walkDiffs, hne, hq, hdiff]
  rfl

theorem walkDiffs_origin (h : self.statuses ORIGIN = none) {below r} :
    self.walkDiffs o (ORIGIN :: below) ≠ .ok r := by
  have hne : ORIGIN ≠ NONE := by decide
  simp [walkDiffs, ensureQueryablePov, hne, h, okOr]

theorem shows_walkDiffs_iff {below}
    (hstatus : ∀ block ∈ blocks, self.statuses block = some .statusCellValid)
    (hdiff : ∀ block ∈ blocks, (self.cellDiffs block).isSome) (hne : ∀ block ∈ blocks, block ≠ NONE)
    (hghostdag : ∀ block ∈ blocks, (self.ghostdag block).isSome)
    (horigin : self.statuses ORIGIN = none) :
    Shows (self.walkDiffs o (blocks ++ ORIGIN :: below)) (self.replay blocks)[o]? ↔
    self.LookupFits blocks o := by
  induction blocks with
  | nil =>
    simp only [LookupFits, newestDiff, findSome?_nil, reduceCtorEq, false_and, exists_false,
      iff_false]
    exact walkDiffs_origin horigin
  | cons block blocks ih =>
    rw [forall_mem_cons] at hstatus hdiff hne hghostdag
    obtain ⟨diff, hs⟩ := isSome_iff_exists.mp hdiff.1
    rw [cons_append, walkDiffs_cons hne.1 hstatus.1 hs, replay_cons hs]
    unfold LookupFits
    rw [newestDiff_cons hs]
    by_cases hr : o ∈ diff.remove
    · -- the walk stops here with nothing, whatever the diff adds
      simp only [hr]
      cases hadd : diff.add[o]? with
      | none => simp [Shows, hadd]
      | some cellMeta => simp [Shows, hadd, hr]
    · cases hadd : diff.add[o]? with
      | none =>
        have hnot := TreeMap.not_mem_of_getElem? hadd
        simp only [hr, hnot]
        exact ih hstatus.2 hdiff.2 hne.2 hghostdag.2
      | some cellMeta =>
        have hmem := TreeMap.mem_of_getElem? hadd
        simp only [hr, hmem, if_false, or_true, if_true, some_or]
        simp only [Shows, addedCell_records_iff hghostdag.1, Option.some.injEq, Prod.mk.injEq]
        constructor
        · intro hfit
          refine ⟨block, diff, ⟨rfl, rfl⟩, fun recorded hre => ⟨hr, ?_⟩⟩
          rw [hadd, mem_some_iff] at hre
          exact hre ▸ hfit
        · rintro ⟨_, _, ⟨rfl, rfl⟩, hfit⟩
          exact (hfit cellMeta hadd).2

theorem CommittedChain.ghostdag_isSome {pov} (h : self.CommittedChain pov blocks) :
    ∀ block ∈ blocks, (self.ghostdag block).isSome := by
  obtain ⟨below, hpa⟩ := h.path
  clear h
  induction blocks generalizing pov with
  | nil => simp
  | cons first blocks ih =>
    rw [Forest.path_eq_cons] at hpa
    obtain ⟨rfl, ht⟩ := List.cons.inj hpa
    cases hp : self.chain.parent pov with
    | none => simp [hp] at ht
    | some parent =>
      rw [hp] at ht
      obtain ⟨data, hd, -⟩ := map_eq_some_iff.mp hp
      rw [forall_mem_cons]
      exact ⟨by simp [hd], ih ht⟩

-- A lookup along a chain of committed blocks shows what the replayed diffs leave exactly for
-- outpoints that some diff is about and whose newest record is the one their first source gives.
theorem shows_getCellAtPov_iff {pov : Hash} (h : self.CommittedChain pov blocks) (o : OutPoint) :
    Shows (self.toProvider.getCellAtPov o pov) (self.replay blocks)[o]? ↔
    self.LookupFits blocks o := by
  obtain ⟨below, hp⟩ := h.path
  change Shows (self.walkDiffs o (self.chain.path pov)) _ ↔ _
  rw [hp]
  exact shows_walkDiffs_iff h.status h.diff h.exists_block h.ghostdag_isSome h.origin

end ConsensusCellProvider

section Rooted

open ConsensusCellProvider

def lookupNetwork : ResolveServices := sampleNetwork [lineBlock 1, lineBlock 2, lineBlock 3]

def lookupNode : Node Hasher.sample :=
  (VirtualStateProcessor.sample.resolveVirtual lookupNetwork 9 [3] 1
    (processGenesis Hasher.sample lookupNetwork ⟨1, 0, 0, 1⟩ (.fresh fun hash => if hash ≤
      3 then some .statusCellPendingVerification else none))).2

def lookupConsensus : ConsensusCellProvider where
  storage := (sampleConsensus lookupNetwork [1, 2, 3] lookupNode.stores).storage
  ghostdag hash := if hash = 1 then some ⟨0, ORIGIN, [], []⟩
    else (lookupNetwork.ghostdagData hash).filter fun data => data.selectedParent < hash ∧
      hash < ORIGIN
  cellDiffs := lookupNode.stores.cellDiffs
  statuses := lookupNode.stores.statuses
  rank hash := if hash = ORIGIN then 0 else hash + 1
  rank_lt := by
    intro block data hdata
    split at hdata
    · next hgenesis =>
        obtain rfl := Option.some.inj hdata
        subst hgenesis
        decide
    · obtain ⟨hlt, horigin⟩ : data.selectedParent < block ∧ block < ORIGIN := by
        simpa using (Option.filter_eq_some_iff.mp hdata).2
      rw [if_neg (Nat.ne_of_lt horigin)]
      split_ifs
      · exact Nat.succ_pos block
      · exact Nat.succ_lt_succ hlt

theorem committedChain_lookupConsensus : lookupConsensus.CommittedChain 3 [3, 2, 1] where
  path := ⟨[], by decide +kernel⟩
  status := by decide +kernel
  diff := by decide +kernel
  exists_block := by decide +kernel
  origin := by decide +kernel

theorem lookupFits_coinbaseCell :
    lookupConsensus.LookupFits [3, 2, 1] (coinbaseCell 2 2).outPoint := by
  refine (shows_getCellAtPov_iff committedChain_lookupConsensus (coinbaseCell 2 2).outPoint).mp ?_
  have hr : ((lookupConsensus.toProvider.getCellAtPov (coinbaseCell 2 2).outPoint 3).toOption.any
      fun found => found.any fun m => decide (m.Records (coinbaseCell 2 2))) =
        true := by decide +kernel
  obtain ⟨found, ha, hf⟩ := any_toOption_iff.mp hr
  obtain ⟨m, rfl, hm⟩ := (any_eq_true _ _).mp hf
  exact ⟨m, ha, of_decide_eq_true hm⟩

-- An outpoint that no diff is about is an error instead of a cell that is not there.
theorem lookup_fails_below_genesis : lookupConsensus.CommittedChain 3 [3, 2, 1] ∧
    (lookupConsensus.replay [3, 2, 1])[(⟨77, 0⟩ : OutPoint)]? = none ∧
    lookupConsensus.toProvider.getCellAtPov ⟨77, 0⟩ 3 ≠ .ok none := by
  refine ⟨committedChain_lookupConsensus, by decide +kernel, fun ha => ?_⟩
  contradiction

end Rooted

end Spora
