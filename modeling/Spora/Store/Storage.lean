import Spora.Index.CellIndex

namespace Spora

open Std Outcome

inductive StoreError
  | hashAlreadyExists (hash : Hash)
  | keyNotFound (key : Hash)
deriving DecidableEq, Repr

instance : ToString StoreError where
  toString
    | .hashAlreadyExists hash => s!"hash already exists: {hash}"
    | .keyNotFound key => s!"key {key} not found"

-- The bodies of blocks, and for each transaction the place it was stored last.
structure BlockTransactionsStore where
  access : Hash → Option (List CellTx)
  txidxs : Hash → Option (Hash × Nat)

namespace BlockTransactionsStore

def empty : BlockTransactionsStore := ⟨fun _ => none, fun _ => none⟩

variable (self : BlockTransactionsStore)

def get (hash : Hash) : Except StoreError (List CellTx) :=
  okOr (self.access hash) (.keyNotFound hash)

def getTransactionLocation (txId : Hash) : Except StoreError (Hash × Nat) :=
  okOr (self.txidxs txId) (.keyNotFound txId)

def insertBatch (hasher : Hasher) (hash : Hash) (transactions : List CellTx) :
    Except StoreError BlockTransactionsStore := do
  ensure (self.access hash = none) (.hashAlreadyExists hash)
  return { access := Function.update self.access hash (some transactions)
           txidxs := transactions.zipIdx.foldl (fun txidxs (tx, tidx) =>
             Function.update txidxs (hasher.txid tx) (some (hash, tidx))) self.txidxs }

-- The places of the deleted transactions stay.
def deleteBatch (hash : Hash) : BlockTransactionsStore :=
  { self with access := Function.update self.access hash none }

end BlockTransactionsStore

structure CellStorage where
  hasher : Hasher
  blockTransactions : BlockTransactionsStore
  headers : Hash → Option Header
  encodeHeader : Header → Bytes
  cellData : Hash → Option SegmentInfo
  readSegment : SegmentInfo → Except String Bytes

namespace CellStorage

variable (self : CellStorage)

def loadDataFromSegments (outpoint : OutPoint) : Except String (Option Bytes) :=
  match self.cellData (self.hasher.outpointHash outpoint) with
  | none => .ok none
  | some segmentInfo => do
    let data ← (self.readSegment segmentInfo).mapError fun e => s!"Segment read error: {e}"
    return some data

def findOutput (transactions : List CellTx) (outpoint : OutPoint) :
    Option (CellTx × Nat × CellOutput) := do
  let (tx, txIndex) ← transactions.zipIdx.find? fun entry =>
    self.hasher.txid entry.1 = outpoint.txHash
  let output ← tx.outputs[outpoint.index]?
  return (tx, txIndex, output)

def loadMetadataFromBlock (block : Hash) (outpoint : OutPoint) :
    Except String (Option CellMetadata) := do
  let transactions ← (self.blockTransactions.get block).mapError fun e =>
    s!"Transaction lookup error: {e}"
  let header ← okOr (self.headers block) s!"Header lookup error: {StoreError.keyNotFound block}"
  match self.findOutput transactions outpoint with
  | none => return none
  | some (tx, txIndex, output) =>
    -- data that was moved to a segment is preferred to the data of the transaction
    let persistedData ← self.loadDataFromSegments outpoint
    return some (cellMetadataFromOutput self.hasher block header.daaScore
      (txIndex == 0 && tx.isCoinbase) outpoint.txHash outpoint.index output
      (persistedData.getD (tx.outputData outpoint.index)))

def getBlockTimestamp (block : Hash) : Except String Nat := do
  let header ← okOr (self.headers block)
    s!"Header timestamp lookup error: {StoreError.keyNotFound block}"
  return header.timestamp

def getHeader (block : Hash) : Except String (Option ResolvedHeader) :=
  .ok ((self.headers block).map fun header => ⟨block, self.encodeHeader header⟩)

def firstMetadata (outpoint : OutPoint) : List Hash → Except String (Option CellMetadata)
  | [] => .ok none
  | block :: blocks => do
    match ← self.loadMetadataFromBlock block outpoint with
    | some metadata => return some metadata
    | none => firstMetadata outpoint blocks

def Lacks (block : Hash) (outpoint : OutPoint) : Prop :=
  ∃ transactions header, self.blockTransactions.access block = some transactions ∧
    self.headers block = some header ∧ self.findOutput transactions outpoint = none

variable {self} {block : Hash} {outpoint : OutPoint}

theorem loadMetadataFromBlock_eq_ok_iff {r} : self.loadMetadataFromBlock block outpoint = .ok r ↔
    ∃ txs header, self.blockTransactions.access block = some txs ∧
    self.headers block = some header ∧
    (self.findOutput txs outpoint = none ∧ r = none ∨ ∃ tx ti out data,
      self.findOutput txs outpoint = some (tx, ti, out) ∧
      self.loadDataFromSegments outpoint = .ok data ∧
      r = some (cellMetadataFromOutput self.hasher block header.daaScore
      (ti == 0 && tx.isCoinbase) outpoint.txHash outpoint.index out
      (data.getD (tx.outputData outpoint.index)))) := by
  unfold loadMetadataFromBlock BlockTransactionsStore.get
  simp only [bind_eq_ok_iff, mapError_eq_ok_iff, okOr_eq_ok_iff]
  constructor
  · rintro ⟨txs, htxs, header, hh, h⟩
    refine ⟨txs, header, htxs, hh, ?_⟩
    split at h
    · next hf => exact .inl ⟨hf, (Except.ok.inj h).symm⟩
    · next tx ti out hf =>
        obtain ⟨data, hd, h⟩ := bind_ok h
        exact .inr ⟨tx, ti, out, data, hf, hd, (Except.ok.inj h).symm⟩
  · rintro ⟨txs, header, htxs, hh, h⟩
    refine ⟨txs, htxs, header, hh, ?_⟩
    rcases h with ⟨hf, rfl⟩ | ⟨tx, ti, out, data, hf, hd, rfl⟩
    · simp [hf]
    · simp [hf, hd]

theorem loadMetadataFromBlock_eq_none_iff :
    self.loadMetadataFromBlock block outpoint = .ok none ↔ self.Lacks block outpoint := by
  simp [loadMetadataFromBlock_eq_ok_iff, Lacks]

theorem blockHash_of_loadMetadataFromBlock {m}
    (h : self.loadMetadataFromBlock block outpoint = .ok (some m)) : m.blockHash = block := by
  obtain ⟨_, _, -, -, ⟨-, hn⟩ | ⟨_, _, _, _, -, -, hs⟩⟩ := loadMetadataFromBlock_eq_ok_iff.mp h
  · contradiction
  · rw [Option.some.inj hs]
    rfl

instance (self : CellStorage) (block : Hash) (outpoint : OutPoint) :
    Decidable (self.Lacks block outpoint) :=
  decidable_of_iff ((self.loadMetadataFromBlock block outpoint).toOption = some none)
    (mem_toOption_iff.trans loadMetadataFromBlock_eq_none_iff)

theorem firstMetadata_cases {P : CellMetadata → Prop} {bs}
    (h : ∀ block ∈ bs, self.Lacks block outpoint ∨
      ∃ m, self.loadMetadataFromBlock block outpoint = .ok (some m) ∧ P m) :
    self.firstMetadata outpoint bs = .ok none ∨
    ∃ m, self.firstMetadata outpoint bs = .ok (some m) ∧ P m := by
  induction bs with
  | nil => exact .inl rfl
  | cons block bs ih =>
    rw [List.forall_mem_cons] at h
    rcases h.1 with hlacks | ⟨m, hload, hm⟩
    · simpa [firstMetadata, loadMetadataFromBlock_eq_none_iff.mpr hlacks] using ih h.2
    · exact .inr ⟨m, by simp [firstMetadata, hload], hm⟩

theorem findOutput_eq_some {txs tx txIndex output}
    (h : self.findOutput txs outpoint = some (tx, txIndex, output)) :
    (tx, txIndex) ∈ txs.zipIdx ∧ self.hasher.txid tx = outpoint.txHash ∧
    tx.outputs[outpoint.index]? = some output := by
  obtain ⟨e, he, h⟩ := Option.bind_eq_some_iff.mp h
  obtain ⟨out, hout, h⟩ := Option.bind_eq_some_iff.mp h
  cases h
  exact ⟨List.mem_of_find?_eq_some he, by simpa using List.find?_some he, hout⟩

theorem firstMetadata_append {bs others} : self.firstMetadata outpoint (bs ++ others) = (do
      match ← self.firstMetadata outpoint bs with
      | some md => return some md
      | none => self.firstMetadata outpoint others) := by
  induction bs with
  | nil => rfl
  | cons block bs ih =>
    rw [List.cons_append, firstMetadata, firstMetadata, bind_assoc]
    congr 1
    funext found
    cases found with
    | none => exact ih
    | some md => rfl

end CellStorage

def NONE : Hash := 0

-- The hash of the virtual block below genesis: 32 bytes `0xfe`.
def ORIGIN : Hash := leNat (List.replicate 32 0xfe)

namespace BlockStatus

def hasBlockBody : BlockStatus → Bool
  | .statusCellValid | .statusCellPendingVerification | .statusDisqualifiedFromChain => true
  | .statusInvalid | .statusHeaderOnly => false

def isCellValidOrPending : BlockStatus → Bool
  | .statusCellValid | .statusCellPendingVerification => true
  | .statusInvalid | .statusDisqualifiedFromChain | .statusHeaderOnly => false

end BlockStatus

-- Cell queries that follow the stored diffs along a selected chain. The rank stands for the blue
-- work: it falls from a block to its selected parent.
structure ConsensusCellProvider where
  storage : CellStorage
  ghostdag : Hash → Option GhostdagData
  cellDiffs : Hash → Option CellDiff
  statuses : Hash → Option BlockStatus
  rank : Hash → Nat
  rank_lt : ∀ {block : Hash} {data : GhostdagData}, ghostdag block = some data →
    rank data.selectedParent < rank block

namespace ConsensusCellProvider

variable (self : ConsensusCellProvider)

def chain : Forest Hash where
  parent block := (self.ghostdag block).map GhostdagData.selectedParent
  rank := self.rank
  rank_lt := by
    intro a b hab
    obtain ⟨data, hdata, rfl⟩ := Option.map_eq_some_iff.mp hab
    exact self.rank_lt hdata

def ensureQueryablePov (pov : Hash) : Except String Unit :=
  if pov = NONE then .ok ()
  else do
    let status ← okOr (self.statuses pov) s!"Status lookup error: {StoreError.keyNotFound pov}"
    ensure (status.hasBlockBody && status.isCellValidOrPending)
      s!"POV block {pov} is not queryable (status: {repr status})"

-- The block of the diff itself, its selected parent and the other blues of its mergeset.
def resolveAddedCellInDiff (pov : Hash) (outpoint : OutPoint) :
    Except String (Option CellMetadata) := do
  match ← self.storage.loadMetadataFromBlock pov outpoint with
  | some metadata => return some metadata
  | none =>
    let ghostdagData ← okOr
      (self.ghostdag pov) s!"GhostDAG lookup error: {StoreError.keyNotFound pov}"
    self.storage.firstMetadata outpoint
      (ghostdagData.selectedParent :: ghostdagData.mergesetBlues.drop 1)

-- What a diff records of a cell, if the block that holds it is not found.
def syntheticMetadata (current : Hash) (cellMeta : CellMeta) : CellMetadata :=
  { CellMetadata.ofCellMeta cellMeta with blockHash := current }

def addedCell (current : Hash) (outpoint : OutPoint) (cellMeta : CellMeta) :
    Except String (Option CellMetadata) :=
  match self.resolveAddedCellInDiff current outpoint with
  | .ok (some metadata) => .ok (some metadata)
  | .ok none => .ok (some (syntheticMetadata current cellMeta))
  | .error err =>
    if cellMeta.lockScript.isSome || cellMeta.typeScript.isSome || cellMeta.data.isSome then
      .ok (some (syntheticMetadata current cellMeta))
    else .error err

-- The walk over the blocks of a selected chain; it must not run out of them.
def walkDiffs (outpoint : OutPoint) : List Hash → Except String (Option CellMetadata)
  | [] => .error "GhostDAG lookup error: key not found"
  | current :: rest =>
    if current = NONE then .ok none
    else do
      self.ensureQueryablePov current
      let diff ← okOr (self.cellDiffs current)
        s!"Cell diff lookup error: {StoreError.keyNotFound current}"
      if outpoint ∈ diff.remove then return none
      else match diff.add[outpoint]? with
        | some cellMeta => self.addedCell current outpoint cellMeta
        | none => walkDiffs outpoint rest

def getCellAtPovInternal (outpoint : OutPoint) (pov : Hash) : Except String (Option CellMetadata) :=
  self.walkDiffs outpoint (self.chain.path pov)

def toProvider : DagCellProvider where
  getCellAtPov := self.getCellAtPovInternal
  getBlockTimestamp := self.storage.getBlockTimestamp
  getHeader := self.storage.getHeader

end ConsensusCellProvider

section SampleConsensus

def sampleStore (network : ResolveServices) (blocks : List Hash) : BlockTransactionsStore :=
  let insert (store : BlockTransactionsStore) (block : Hash) : Except StoreError
      BlockTransactionsStore :=
    store.insertBatch Hasher.sample block ((network.blocks.blockTransactions block).getD [])
  (blocks.foldlM insert .empty).toOption.getD .empty

def sampleConsensus (network : ResolveServices) (blocks : List Hash) (stores : ChainStores) :
    ConsensusCellProvider where
  storage := ⟨Hasher.sample, sampleStore network blocks, network.headers, fun _ => [],
    fun _ => none, fun _ => .error "no segment"⟩
  ghostdag hash := (network.ghostdagData hash).filter fun data => data.selectedParent < hash
  cellDiffs := stores.cellDiffs
  statuses := stores.statuses
  rank := id
  rank_lt := by
    intro block data hdata
    simpa using (Option.filter_eq_some_iff.mp hdata).2

end SampleConsensus

end Spora
