import Spora.Virtual.Resolve

namespace Spora

open Std Outcome

structure GenesisBlock where
  hash : Hash
  timestamp : Nat
  bits : Nat
  daaScore : Nat

namespace GenesisBlock

-- Genesis has no transactions in the cell model.
def buildGenesisTransactions (_ : GenesisBlock) : List CellTx := []

end GenesisBlock

def VirtualState.fromGenesis (hasher : Hasher) (genesis : GenesisBlock)
    (ghostdagData : GhostdagData) :
    VirtualState hasher where
  parents := [genesis.hash]
  ghostdagData := ghostdagData
  daaScore := genesis.daaScore
  bits := genesis.bits
  pastMedianTime := genesis.timestamp
  cellStateTree := .empty
  cellDiff := .empty
  blockCellDiffs := []
  acceptedTxIds := genesis.buildGenesisTransactions.map hasher.txid
  mergesetRewards := ∅
  mergesetNonDaa := ExtTreeSet.insert ∅ genesis.hash

def ChainStores.fresh (statuses : Hash → Option BlockStatus) : ChainStores :=
  ⟨statuses, fun _ => none, fun _ => none, fun _ => none⟩

def processGenesis (hasher : Hasher) (services : ResolveServices) (genesis : GenesisBlock)
    (stores : ChainStores) : Node hasher where
  stores := stores.commitCellState genesis.hash .empty
    (services.digests.root (.empty : LiveTree hasher)) []
  virtualState := .fromGenesis hasher genesis (services.ghostdag [genesis.hash])

inductive PruningImportError
  | importedMultisetHashMismatch (expected found : Hash)
  | panicked (message : String)
deriving DecidableEq, Repr

section Import

variable {hasher : Hasher}

def importedCellDiff (importedCellTree : LiveTree hasher) : CellDiff where
  add := (importedCellTree.iterByOutpoint.map fun cell =>
    (cell.1, cellEntryToMeta cell.1 cell.2)).foldl (fun m p => m.insert p.1 p.2) ∅
  remove := ∅

-- Checks the imported set against the header and makes it the state of the pruning point and of the
-- virtual block on top of it.
def importPruningPointCellSet (services : ResolveServices) (bits : Nat) (newPruningPoint : Hash)
    (importedCellTree : LiveTree hasher) (stores : ChainStores) :
    Except PruningImportError (Node hasher) := do
  let header ← okOr (services.headers newPruningPoint) (.panicked "pruning point header must exist")
  let importedCellRoot := services.digests.root importedCellTree
  ensure (importedCellRoot = header.cellRoot)
    (.importedMultisetHashMismatch header.cellRoot importedCellRoot)
  let expectedCommitment := services.digests.cellCommitmentV0 importedCellRoot
  ensure (expectedCommitment = header.cellCommitment)
    (.importedMultisetHashMismatch header.cellCommitment expectedCommitment)
  let transactions ← okOr (services.blocks.blockTransactions newPruningPoint)
    (.panicked "pruning point transactions must exist")
  let validatedTransactions :=
    if transactions.head?.any CellTx.isCoinbase then transactions.tail else transactions
  return { stores := { stores with
             statuses := Function.update stores.statuses newPruningPoint (some .statusCellValid)
             cellDiffs := Function.update stores.cellDiffs newPruningPoint
               (some (importedCellDiff importedCellTree))
             cellRoots := Function.update stores.cellRoots newPruningPoint (some importedCellRoot) }
           virtualState :=
             { parents := [newPruningPoint]
               ghostdagData := services.ghostdag [newPruningPoint]
               daaScore := header.daaScore
               bits := bits
               pastMedianTime := header.timestamp
               cellStateTree := importedCellTree
               cellDiff := .empty
               blockCellDiffs := []
               acceptedTxIds := validatedTransactions.map hasher.txid
               mergesetRewards := ∅
               mergesetNonDaa := ExtTreeSet.insert ∅ newPruningPoint } }

theorem toPatch_importedCellDiff (tree : LiveTree hasher) :
    (importedCellDiff tree).toPatch = ⟨tree.metaAt, fun _ => none⟩ := by
  ext1 o
  · refine TreeMap.getElem?_foldl_insert_empty (fun o m => ?_) o
    simp only [List.mem_map, Prod.mk.injEq, Prod.exists, LiveTree.mem_iterByOutpoint]
    constructor
    · rintro ⟨o', entry, hget, rfl, rfl⟩
      simp [LiveTree.metaAt, hget]
    · intro hm
      obtain ⟨entry, hget, rfl⟩ := Option.map_eq_some_iff.mp hm
      exact ⟨o, entry, hget, rfl, rfl⟩
  · simp [importedCellDiff, CellDiff.toPatch]

end Import

end Spora
