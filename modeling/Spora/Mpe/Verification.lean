import Spora.Body.Isolation
import Spora.Mpe.CellState

namespace Spora

open Std Outcome

-- The digests that a header commits to: the MuHash root of the live cells, its versioned
-- commitment, the root of the data segments and the Merkle root over ids.
structure StateDigests where
  cellRoot : ExtTreeMap Hash CellEntry → Hash
  cellCommitmentV0 : Hash → Hash
  segmentRoot : List Bytes → Hash
  merkleRoot : List Hash → Hash

namespace StateDigests

variable (self : StateDigests)

def root {hasher : Hasher} (tree : LiveTree hasher) : Hash := self.cellRoot tree.tree.cells

def computeBlockSegmentRoot (transactions : List CellTx) : Hash :=
  self.segmentRoot ((transactions.flatMap CellTx.outputsData).filter fun chunk => !chunk.isEmpty)

def sample : StateDigests where
  cellRoot cells := Hasher.digest (cells.toList.flatMap fun cell => [cell.1, cell.2.capacity])
  cellCommitmentV0 root := Hasher.digest [0, root]
  segmentRoot chunks := Hasher.digest (chunks.flatMap fun chunk => chunk.map UInt8.toNat)
  merkleRoot ids := Hasher.digest ids

end StateDigests

-- Compares the state of an executed mergeset with the commitments of the header. The coinbase of
-- the block takes no part in it.
def verifyExpectedCellState {hasher : Hasher} (digests : StateDigests) (stores : BlockStores)
    (ctx : CellProcessingContext hasher) (header : Header) : Except RuleError Unit := do
  let blockTxs ← okOr (stores.blockTransactions header.hash)
    (.cellValidationError s!"failed loading block transactions for {header.hash}")
  let cellRoot := digests.root ctx.cellStateTree
  ensure (cellRoot = header.cellRoot) (.badCellRoot
    (s!"Cell root mismatch for block {header.hash}:\nExpected: {header.cellRoot}\n" ++
      s!"Calculated: {cellRoot}\nTree size: {ctx.cellStateTree.tree.cells.size} cells\n" ++
      s!"Diff: +{ctx.mergesetCellDiff.add.size} cells, -{ctx.mergesetCellDiff.remove.size} cells\n"
        ++
      s!"Selected parent: {ctx.ghostdagData.selectedParent}"))
  let commitment := digests.cellCommitmentV0 cellRoot
  ensure (commitment = header.cellCommitment) (.badCellCommitment
    (s!"Cell commitment mismatch for block {header.hash}:\n" ++
      s!"Expected commitment: {header.cellCommitment}\nCalculated commitment: {commitment}\n" ++
      s!"Cell root: {cellRoot}"))
  let segmentRoot := digests.computeBlockSegmentRoot blockTxs
  ensure (segmentRoot = header.segmentRoot) (.cellValidationError
    (s!"Segment root mismatch for block {header.hash}: expected {header.segmentRoot}, " ++
      s!"calculated {segmentRoot}"))
  let acceptedIdMerkleRoot := digests.merkleRoot ctx.acceptedTxIds
  ensure (acceptedIdMerkleRoot = header.acceptedIdMerkleRoot)
    (.badAcceptedIDMerkleRoot header.hash header.acceptedIdMerkleRoot acceptedIdMerkleRoot)

end Spora
