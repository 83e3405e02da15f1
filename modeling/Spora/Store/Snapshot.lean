import Spora.Store.Storage
import Spora.Virtual.Bookkeeping

namespace Spora

open Std Outcome CellStorage BlockTransactionsStore Hasher

def syntheticMetadataFromTreeEntry (outpoint : OutPoint) (entry : CellEntry) : CellMetadata :=
  CellMetadata.ofCellMeta (cellEntryToMeta outpoint entry)

-- The view of the virtual state that the mempool and block templates validate against.
structure VirtualSnapshotCellProvider where
  storage : CellStorage
  virtualState : VirtualState storage.hasher
  templateTimestamp : Nat
  overrides : ExtTreeMap OutPoint CellMetadata

namespace VirtualSnapshotCellProvider

variable (self : VirtualSnapshotCellProvider)

def snapshotPov : Hash := self.virtualState.ghostdagData.selectedParent

def ensureSnapshotPov (pov : Hash) : Except String Unit :=
  ensure (pov = self.snapshotPov) s!"unexpected POV {pov}, expected {self.snapshotPov}"

def liveInTree (outPoint : OutPoint) : Bool := (self.virtualState.cellStateTree.get outPoint).isSome

def resolveVirtualOnlyMetadata (outpoint : OutPoint) : Except String (Option CellMetadata) :=
  self.storage.firstMetadata outpoint
    (self.virtualState.ghostdagData.selectedParent :: self.virtualState.ghostdagData.mergesetBlues)

def resolveLocatedMetadata (outPoint : OutPoint) : Except String (Option CellMetadata) :=
  match self.storage.blockTransactions.getTransactionLocation outPoint.txHash with
  | .error _ => .ok none
  | .ok (creatorBlock, txIndex) =>
    let isSelectedParentCoinbase := creatorBlock == self.snapshotPov && txIndex == 0
    if self.liveInTree outPoint || isSelectedParentCoinbase then
      self.storage.loadMetadataFromBlock creatorBlock outPoint
    else .ok none

def resolveSnapshotMetadata (outPoint : OutPoint) : Except String (Option CellMetadata) :=
  match self.overrides[outPoint]? with
  | some metadata => .ok (some metadata)
  | none => do
    match ← self.resolveLocatedMetadata outPoint with
    | some metadata => return some metadata
    | none =>
      let virtualOnly ← if self.liveInTree outPoint then self.resolveVirtualOnlyMetadata outPoint
        else pure none
      match virtualOnly with
      | some metadata => return some metadata
      | none => return (self.virtualState.cellStateTree.get outPoint).map fun treeEntry =>
        { syntheticMetadataFromTreeEntry outPoint treeEntry with blockHash := self.snapshotPov }

def toProvider : DagCellProvider where
  getCellAtPov outPoint pov := do
    self.ensureSnapshotPov pov
    self.resolveSnapshotMetadata outPoint
  -- cells of the template itself have no block yet
  getBlockTimestamp blockHash :=
    if blockHash = NONE then .ok self.templateTimestamp
    else self.storage.getBlockTimestamp blockHash
  getHeader := self.storage.getHeader

-- The place of the transaction is looked at for a live cell and for the coinbase of the sink.
def locatedSource (outPoint : OutPoint) : List Hash :=
  match self.storage.blockTransactions.txidxs outPoint.txHash with
  | none => []
  | some (creatorBlock, txIndex) =>
    if self.liveInTree outPoint || creatorBlock == self.snapshotPov && txIndex == 0 then
      [creatorBlock]
    else []

def sources (outPoint : OutPoint) : List Hash :=
  self.locatedSource outPoint ++ if self.liveInTree outPoint then
      self.virtualState.ghostdagData.selectedParent :: self.virtualState.ghostdagData.mergesetBlues
    else []

theorem resolveLocatedMetadata_eq (o) :
    self.resolveLocatedMetadata o = self.storage.firstMetadata o (self.locatedSource o) := by
  unfold resolveLocatedMetadata locatedSource getTransactionLocation
  cases self.storage.blockTransactions.txidxs o.txHash with
  | none => rfl
  | some place =>
    obtain ⟨creatorBlock, ti⟩ := place
    simp only [okOr_some]
    split_ifs
    · simp only [firstMetadata]
      cases self.storage.loadMetadataFromBlock creatorBlock o with
      | error e => rfl
      | ok found => cases found <;> rfl
    · rfl

theorem resolveSnapshotMetadata_eq {o : OutPoint} (h : self.overrides[o]? = none) :
    self.resolveSnapshotMetadata o = (do
      match ← self.storage.firstMetadata o (self.sources o) with
      | some md => return some md
      | none => return (self.virtualState.cellStateTree.get o).map fun treeEntry =>
        { syntheticMetadataFromTreeEntry o treeEntry with blockHash := self.snapshotPov }) := by
  unfold resolveSnapshotMetadata sources
  simp only [h, resolveLocatedMetadata_eq, firstMetadata_append, bind_assoc]
  congr 1
  funext found
  cases found with
  | some md => rfl
  | none =>
    by_cases hl : self.liveInTree o = true
    · simp only [hl]
      rfl
    · simp only [hl]
      rfl

end VirtualSnapshotCellProvider

structure CellMetadata.Matches (m : CellMetadata) (entry : CellEntry) : Prop where
  capacity : m.capacity = entry.capacity
  lockHash : m.lockHash = entry.lockHash
  typeHash : m.typeHash = entry.typeHash
  dataHash : m.dataHash = entry.dataHash
  blockDaaScore : m.blockDaaScore = entry.blockDaaScore
  isCellbase : m.isCellbase = entry.isCellbase

namespace VirtualSnapshotCellProvider

variable (self : VirtualSnapshotCellProvider)

def AgreesWithTree (o : OutPoint) : Prop :=
  match self.virtualState.cellStateTree.get o with
  | none => self.resolveSnapshotMetadata o = .ok none
  | some entry => ∃ m, self.resolveSnapshotMetadata o = .ok (some m) ∧ m.Matches entry

-- What is left of the blocks that are looked at for an outpoint: they keep their bodies, data that
-- was moved to a segment is the data of the cell, and the outputs of the sink's coinbase are live.
structure Retains (snapshot : VirtualSnapshotCellProvider) (χ : OutPoint → CellMeta)
    (o : OutPoint) : Prop where
  bodies : ∀ block ∈ snapshot.sources o,
    (snapshot.storage.blockTransactions.access block).isSome ∧
      (snapshot.storage.headers block).isSome
  data : ∃ persistedData, snapshot.storage.loadDataFromSegments o = .ok persistedData ∧
    ∀ data ∈ persistedData, snapshot.storage.hasher.computeDataHash data = (χ o).dataHash
  coinbase : snapshot.liveInTree o = false →
    ∀ block ∈ snapshot.locatedSource o, snapshot.storage.Lacks block o

variable {self}

theorem agreesWithTree_of_sources {o : OutPoint} (hoverride : self.overrides[o]? = none)
    (hdead : self.liveInTree o = false → ∀ block ∈ self.locatedSource o, self.storage.Lacks block o)
    (hlive : ∀ entry, self.virtualState.cellStateTree.get o = some entry →
      ∀ block ∈ self.sources o, self.storage.Lacks block o ∨
      ∃ m, self.storage.loadMetadataFromBlock block o = .ok (some m) ∧ m.Matches entry) :
    self.AgreesWithTree o := by
  unfold AgreesWithTree
  rw [self.resolveSnapshotMetadata_eq hoverride]
  cases hentry : self.virtualState.cellStateTree.get o with
  | none =>
    have hl : self.liveInTree o = false := by simp [liveInTree, hentry]
    have hsources : self.sources o = self.locatedSource o := by simp [sources, hl]
    have hnone : self.storage.firstMetadata o (self.sources o) = .ok none := by
      rw [hsources]
      rcases @firstMetadata_cases _ _ (fun _ => False) _ fun block hblock =>
        .inl (hdead hl block hblock) with hnone | ⟨_, _, hfalse⟩
      · exact hnone
      · contradiction
    simp [hnone]
  | some entry =>
    rcases firstMetadata_cases (hlive entry hentry) with hnone | ⟨m, hm, hmatch⟩
    · exact ⟨_, by rw [hnone]; rfl, rfl, rfl, rfl, rfl, rfl, rfl⟩
    · exact ⟨m, by rw [hm]; rfl, hmatch⟩

end VirtualSnapshotCellProvider

open VirtualStateProcessor

-- The bodies of a store, with the scores that their headers give them.
def storedBlocks (headers : Hash → Option Header) (store : BlockTransactionsStore) : BlockStores :=
  ⟨store.access, fun block => (headers block).map Header.daaScore⟩

-- What a pruning run is given: the reachability tree, the blocks that are kept as they are, and
-- those whose relations are kept.
structure PruningProcessor where
  getChildren : Hash → List Hash
  isDagAncestorOf : Hash → Hash → Bool
  keepBlocks : List Hash
  keepRelations : Hash → Bool

namespace PruningProcessor

variable (self : PruningProcessor) (retentionPeriodRoot : Hash)

-- The blocks that the traversal deletes. It does not enter the future of the retention root, and
-- stops early if the process exits.
def deleted : Nat → List Hash → List Hash
  | 0, _ => []
  | _, [] => []
  | rounds + 1, current :: queue =>
    if self.isDagAncestorOf retentionPeriodRoot current then deleted rounds queue
    else
      let later := deleted rounds (queue ++ self.getChildren current)
      if current ∈ self.keepBlocks then later else current :: later

def deleteBatch (stores : ChainStores) (current : Hash) : ChainStores where
  statuses := Function.update stores.statuses current
    (if self.keepRelations current then (stores.statuses current).map fun status =>
      if status = .statusInvalid then status else .statusHeaderOnly
    else none)
  cellDiffs := Function.update stores.cellDiffs current none
  cellRoots := Function.update stores.cellRoots current none
  acceptanceData := Function.update stores.acceptanceData current none

def prune (rounds : Nat) (stores : ChainStores) (store : BlockTransactionsStore) :
    ChainStores × BlockTransactionsStore :=
  let deleted := self.deleted retentionPeriodRoot rounds (self.getChildren ORIGIN)
  (deleted.foldl self.deleteBatch stores, deleted.foldl .deleteBatch store)

variable {self}

theorem not_isDagAncestorOf_of_mem_deleted {root rounds queue b}
    (h : b ∈ self.deleted root rounds queue) : self.isDagAncestorOf root b = false := by
  induction rounds generalizing queue with
  | zero => simp [deleted] at h
  | succ rounds ih =>
    cases queue with
    | nil => simp [deleted] at h
    | cons current queue =>
      rw [deleted] at h
      split_ifs at h with hfuture hkeep
      · exact ih h
      · exact ih h
      · rcases List.mem_cons.mp h with rfl | h
        · simpa using hfuture
        · exact ih h

theorem foldl_deleteBatch {ds : List Hash} {stores : ChainStores} (b : Hash) :
    (ds.foldl self.deleteBatch stores).cellDiffs b =
        (if b ∈ ds then none else stores.cellDiffs b) ∧
      (ds.foldl self.deleteBatch stores).cellRoots b =
        (if b ∈ ds then none else stores.cellRoots b) := by
  induction ds generalizing stores with
  | nil => simp
  | cons d ds ih =>
    rw [List.foldl_cons]
    obtain ⟨hdiff, hroot⟩ := @ih (self.deleteBatch stores d)
    rw [hdiff, hroot]
    by_cases hb : b = d <;> simp [deleteBatch, hb]

-- Deleting whole blocks, and none above a block that stays, is a pruning of the stored states.
theorem prunes_foldl_deleteBatch {chain : Forest Hash} {ds : List Hash} {stores : ChainStores}
    (htogether : ∀ b, stores.cellDiffs b = none → stores.cellRoots b = none)
    (hupward : ∀ a b, b ∈ chain.path a → a ∈ ds → b ∈ ds ∨ stores.cellDiffs b = none) :
    Prunes chain stores (ds.foldl self.deleteBatch stores) := by
  refine ⟨fun b hb => ?_, fun b hb => ?_, fun a b hab hb ha => ?_⟩
  · rw [foldl_deleteBatch b |>.1] at hb
    rw [(foldl_deleteBatch b).1, (foldl_deleteBatch b).2]
    split_ifs at hb ⊢ with hmem
    · contradiction
    · exact ⟨rfl, rfl⟩
  · rw [(foldl_deleteBatch b).1] at hb
    rw [(foldl_deleteBatch b).2]
    split_ifs at hb ⊢ with hmem
    · rfl
    · exact htogether b hb
  · rw [(foldl_deleteBatch b).1] at hb
    rw [(foldl_deleteBatch a).1]
    by_cases had : a ∈ ds
    · rcases hupward a b hab had with hd | hd <;> simp [hd] at hb
    · rwa [if_neg had]

end PruningProcessor

-- A node with the bodies it stores, from genesis on: blocks that meet `Inserts` are inserted,
-- virtual is resolved over the stored bodies, and pruning deletes states and bodies below a
-- retention root in the past of the sink.
inductive StoredNode (self : VirtualStateProcessor) (dag : ResolveServices)
    (Inserts : Hash → List CellTx → Prop) : Node self.hasher → BlockTransactionsStore → Prop
  | genesis (genesis : GenesisBlock) (statuses : Hash → Option BlockStatus) :
      StoredNode self dag Inserts (processGenesis self.hasher dag genesis (.fresh statuses)) .empty
  | insert {node : Node self.hasher} {store store' : BlockTransactionsStore} {hash : Hash}
      {transactions : List CellTx} (h : StoredNode self dag Inserts node store)
      (hinserts : Inserts hash transactions)
      (hinsert : store.insertBatch self.hasher hash transactions = .ok store') :
      StoredNode self dag Inserts
        { node with stores := node.stores.setStatus hash .statusCellPendingVerification } store'
  | resolve {node node' : Node self.hasher} {store : BlockTransactionsStore}
      {services : ResolveServices} {rounds : Nat} {tips : List Hash} {pruningPoint : Hash}
      {verdict : Except RuleError CellsChangedNotification}
      (h : StoredNode self dag Inserts node store) (hshares : Shares dag services)
      (hblocks : services.blocks = storedBlocks dag.headers store)
      (hresolve : self.resolveVirtual services rounds tips pruningPoint node = (verdict, node')) :
      StoredNode self dag Inserts node' store
  | prune {node : Node self.hasher} {store : BlockTransactionsStore} {pruning : PruningProcessor}
      {retentionPeriodRoot : Hash} {rounds : Nat} (h : StoredNode self dag Inserts node store)
      (hupward : ∀ a b, b ∈ dag.chain.path a →
        a ∈ pruning.deleted retentionPeriodRoot rounds (pruning.getChildren ORIGIN) →
        b ∈ pruning.deleted retentionPeriodRoot rounds (pruning.getChildren ORIGIN) ∨
          node.stores.cellDiffs b = none)
      (hsink : pruning.isDagAncestorOf retentionPeriodRoot
        node.virtualState.ghostdagData.selectedParent = true) :
      StoredNode self dag Inserts
        { node with stores := (pruning.prune retentionPeriodRoot rounds node.stores store).1 }
        (pruning.prune retentionPeriodRoot rounds node.stores store).2

section History

variable {self : VirtualStateProcessor} {dag : ResolveServices} {χ : OutPoint → CellMeta}
  {node : Node self.hasher} {store : BlockTransactionsStore}

theorem access_of_foldl_deleteBatch {ds : List Hash} {hash txs}
    (h : (ds.foldl deleteBatch store).access hash = some txs) :
    store.access hash = some txs := by
  induction ds generalizing store with
  | nil => exact h
  | cons d ds ih =>
    have hd := ih h
    by_cases hne : hash = d
    · simp [deleteBatch, hne] at hd
    · simpa [deleteBatch, hne] using hd

def InsertsCharted (self : VirtualStateProcessor) (dag : ResolveServices) (χ : OutPoint → CellMeta)
    (hash : Hash) (transactions : List CellTx) : Prop :=
  ∀ header ∈ dag.headers hash, ChartedBody χ self.hasher header.daaScore transactions

-- Along every history in which an outpoint stands for one cell, the stored bodies and the states
-- of the node have that cell for it.
theorem StoredNode.reached (hroots : dag.digests.Separates χ self.hasher)
    (h : StoredNode self dag (InsertsCharted self dag χ) node store) :
    (∀ hash transactions, store.access hash = some transactions →
      InsertsCharted self dag χ hash transactions) ∧
    Reached self (·.Charted χ self.hasher) dag (StartNode χ dag) node := by
  induction h with
  | genesis genesis statuses =>
    exact ⟨by simp [empty], .start (.genesis _ _)⟩
  | @insert node store store' hash transactions _ hinserts hinsert ih =>
    obtain ⟨hbodies, hreached⟩ := ih
    obtain ⟨_, -, hinsert⟩ := bind_ok hinsert
    cases hinsert
    refine ⟨fun block txs htxs => ?_, .arrive hreached _⟩
    rcases eq_or_ne block hash with rfl | hne
    · obtain rfl : transactions = txs := by simpa using htxs
      exact hinserts
    · exact hbodies block txs (by simpa [hne] using htxs)
  | resolve _ hshares hblocks hresolve ih =>
    refine ⟨ih.1, .resolve ih.2 hshares ?_ hresolve⟩
    rw [hblocks]
    refine BlockStores.charted_of_bodies fun hash txs daaScore htxs hscore => ?_
    obtain ⟨header, hheader, rfl⟩ := Option.map_eq_some_iff.mp hscore
    exact ih.1 hash txs htxs header hheader
  | @prune node store pruning root rounds _ hupward hsink ih =>
    obtain ⟨hbodies, hreached⟩ := ih
    obtain ⟨state, hsettled⟩ := hreached.settled hroots (fun _ h => h) fun _ h => h
    refine ⟨fun hash txs htxs => hbodies hash txs (access_of_foldl_deleteBatch htxs),
      .prune hreached (PruningProcessor.prunes_foldl_deleteBatch (fun b hb => ?_) hupward) ?_⟩
    · simpa [hb] using hsettled.settled.together b
    · rw [PruningProcessor.prune, (PruningProcessor.foldl_deleteBatch _).1, if_neg]
      · exact hsettled.stored
      · intro hdeleted
        simp [PruningProcessor.not_isDagAncestorOf_of_mem_deleted hdeleted] at hsink

-- A stored output of an outpoint that stands for one cell shows the entry of that cell.
theorem matches_of_charted {storage : CellStorage} {txs : List CellTx} {o : OutPoint}
    {entry : CellEntry} {tx : CellTx} {txIndex daaScore : Nat} {output : CellOutput}
    {persistedData : Option Bytes} (hbody : ChartedBody χ storage.hasher daaScore txs)
    (hfind : storage.findOutput txs o = some (tx, txIndex, output))
    (hentry : cellEntryToMeta o entry = χ o)
    (hdata : ∀ data ∈ persistedData, storage.hasher.computeDataHash data = (χ o).dataHash)
    (block : Hash) :
    (cellMetadataFromOutput storage.hasher block daaScore (txIndex == 0 && tx.isCoinbase) o.txHash
      o.index output (persistedData.getD (tx.outputData o.index))).Matches entry := by
  obtain ⟨hmem, hid, hout⟩ := findOutput_eq_some hfind
  have ho : (⟨storage.hasher.txid tx, o.index⟩ : OutPoint) = o := by rw [hid]
  have hcell := (hbody _ hmem).2 _ (List.mem_map_of_mem
    (List.mem_zipIdx_iff_getElem?.mpr hout : (output, o.index) ∈ tx.outputs.zipIdx))
  simp only [ho] at hcell
  rw [← hcell] at hentry hdata
  refine ⟨?_, ?_, ?_, ?_, ?_, ?_⟩
  · exact (congrArg CellMeta.capacity hentry).symm
  · exact (congrArg CellMeta.lockHash hentry).symm
  · exact (congrArg CellMeta.typeHash hentry).symm
  · refine .trans ?_ (congrArg CellMeta.dataHash hentry).symm
    cases persistedData with
    | none => rfl
    | some data => exact hdata data rfl
  · exact (congrArg CellMeta.blockDaaScore hentry).symm
  · exact (congrArg CellMeta.isCellbase hentry).symm

def snapshotOf (self : VirtualStateProcessor) (dag : ResolveServices) (storage : CellStorage)
    (templateTimestamp : Nat) (overrides : ExtTreeMap OutPoint CellMetadata)
    (node : Node self.hasher) (store : BlockTransactionsStore) : VirtualSnapshotCellProvider where
  storage :=
    { storage with hasher := self.hasher, blockTransactions := store, headers := dag.headers }
  virtualState := node.virtualState
  templateTimestamp := templateTimestamp
  overrides := overrides

end History

section Twins

-- Blocks 2 and 4 have the same coinbase and different scores. The coinbase is accepted from block
-- 2.
def twinCell : OutPoint := (coinbaseCell 2 2).outPoint

def twinNetwork : ResolveServices := keyedNetwork
  [⟨1, 1, [1], [], 1, [], .empty⟩, ⟨2, 1, [1], [sampleCoinbase 2], 2, [], .empty⟩,
   ⟨3, 2, [2], [], 3, [twinCell.txHash], cellsTree [coinbaseCell 2 2]⟩,
   ⟨4, 1, [1], [sampleCoinbase 2], 5, [], .empty⟩]

def twinBody (block : Hash) : List CellTx := (twinNetwork.blocks.blockTransactions block).getD []

def insertTwin (state : Node sample × BlockTransactionsStore) (block : Hash) :
    Except StoreError (Node sample × BlockTransactionsStore) := do
  let store ← state.2.insertBatch sample block (twinBody block)
  return ({ state.1 with stores := state.1.stores.setStatus block .statusCellPendingVerification },
    store)

def twinServices (store : BlockTransactionsStore) : ResolveServices :=
  { twinNetwork with blocks := storedBlocks twinNetwork.headers store }

def twinResolved : Except StoreError (Node sample × BlockTransactionsStore) := do
  let state ← [1, 2, 3].foldlM insertTwin
    (processGenesis sample twinNetwork ⟨1, 0, 0, 1⟩ (.fresh fun _ => none), .empty)
  return ((sample.resolveVirtual (twinServices state.2) 9 [3] 1 state.1).2, state.2)

def twinState : Node sample × BlockTransactionsStore :=
  twinResolved.toOption.getD (sampleNode, .empty)

theorem twinResolved_eq : twinResolved = .ok twinState :=
  eq_ok_getD_of_isSome (by decide +kernel) _

def twinSnapshot (state : Node sample × BlockTransactionsStore) :
    VirtualSnapshotCellProvider :=
  snapshotOf sample twinNetwork (sampleConsensus twinNetwork [] sampleStores).storage 0 ∅ state.1
    state.2

variable {Inserts : Hash → List CellTx → Prop}

theorem insertTwin_stored {state state' block}
    (h : StoredNode sample twinNetwork Inserts state.1 state.2)
    (hinserts : Inserts block (twinBody block)) (hinsert : insertTwin state block = .ok state') :
    StoredNode sample twinNetwork Inserts state'.1 state'.2 := by
  obtain ⟨store, hs, hst⟩ := bind_ok hinsert
  cases hst
  exact .insert h hinserts hs

theorem twinResolved_stored {state} (hinserts : ∀ block ∈ [1, 2, 3], Inserts block (twinBody block))
    (h : twinResolved = .ok state) :
    StoredNode sample twinNetwork Inserts state.1 state.2 := by
  obtain ⟨inserted, hin, hstate⟩ := bind_ok h
  cases hstate
  have hst := foldlM_invariant
    (fun _ block hblock _ hs hinsert => insertTwin_stored hs (hinserts block hblock) hinsert)
    (.genesis _ _) hin
  have hshares : Shares twinNetwork (twinServices inserted.2) := ⟨rfl, rfl, rfl⟩
  exact .resolve hst hshares rfl rfl

def twinPruning : PruningProcessor where
  getChildren block := if block = ORIGIN then [1] else if block < 3 then [block + 1] else []
  isDagAncestorOf this queried := decide (this ≤ queried)
  keepBlocks := [2]
  keepRelations _ := false

def twinPruned : Node sample × BlockTransactionsStore :=
  ({ twinState.1 with stores := (twinPruning.prune 2 9 twinState.1.stores twinState.2).1 },
    (twinPruning.prune 2 9 twinState.1.stores twinState.2).2)

end Twins

end Spora
