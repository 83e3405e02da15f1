import Spora.Virtual.Resolve

namespace Spora

open Std Outcome

def BLOCK_VERSION : Nat := 1

-- The whole header. Its direct parents are the first level of the parents.
structure TemplateHeader extends Header where
  version : Nat
  parentsByLevel : List (List Hash)
  bits : Nat
  nonce : Nat
  blueWork : Nat
  pruningPoint : Hash
deriving DecidableEq, Repr

structure MutableBlock where
  header : TemplateHeader
  transactions : List CellTx
deriving DecidableEq, Repr

structure BlockTemplate where
  block : MutableBlock
  minerData : MinerData
  coinbaseHasRedReward : Bool
  selectedParentTimestamp : Nat
  selectedParentDaaScore : Nat
  selectedParentHash : Hash
  calculatedFees : List Nat
deriving DecidableEq, Repr

-- What a template takes from the rest of consensus. The digest of a header covers all of its other
-- fields.
structure TemplateServices where
  hasher : Hasher
  coinbaseManager : CoinbaseManager
  digests : StateDigests
  calcMerkleRoot : List Hash → Hash
  headerHash : TemplateHeader → Hash
  headers : Hash → Option Header
  blueWork : GhostdagData → Nat
  pruningPoint : Hash
  expectedHeaderPruningPoint : GhostdagData → Hash
  calcBlockParents : Hash → List Hash → List (List Hash)

namespace TemplateServices

variable (self : TemplateServices)

def calcHashMerkleRootCell (txs : List CellTx) : Hash :=
  self.calcMerkleRoot (txs.map self.hasher.txid)

def finalize (header : TemplateHeader) : TemplateHeader :=
  { header with hash := self.headerHash header }

-- The header of a template apart from its hash. The timestamp is that of the clock, if it is late
-- enough.
def templateHeader (virtualState : VirtualState self.hasher) (txs : List CellTx) (unixNow : Nat) :
    TemplateHeader :=
  let parentsByLevel := self.calcBlockParents self.pruningPoint virtualState.parents
  let cellRoot := self.digests.root virtualState.cellStateTree
  { hash := 0
    directParents := parentsByLevel.headD []
    hashMerkleRoot := self.calcHashMerkleRootCell txs
    acceptedIdMerkleRoot := self.digests.merkleRoot virtualState.acceptedTxIds
    cellCommitment := self.digests.cellCommitmentV0 cellRoot
    cellRoot := cellRoot
    segmentRoot := self.digests.computeBlockSegmentRoot txs
    timestamp := max (virtualState.pastMedianTime + 1) unixNow
    daaScore := virtualState.daaScore
    blueScore := virtualState.ghostdagData.blueScore
    version := BLOCK_VERSION
    parentsByLevel := parentsByLevel
    bits := virtualState.bits
    nonce := 0
    blueWork := self.blueWork virtualState.ghostdagData
    pruningPoint := self.expectedHeaderPruningPoint virtualState.ghostdagData }

-- A coinbase that cannot be made and a selected parent without a header abort.
def buildBlockTemplateFromVirtualStateCell (virtualState : VirtualState self.hasher)
    (minerData : MinerData) (txs : List CellTx) (calculatedFees : List Nat) (unixNow : Nat) :
    Except RuleError BlockTemplate := do
  let coinbase ← (self.coinbaseManager.expectedCoinbaseTransaction virtualState.daaScore minerData
    virtualState.ghostdagData virtualState.mergesetRewards virtualState.mergesetNonDaa).mapError
        fun _ =>
      .panicked "coinbase transaction creation must succeed"
  let txs := coinbase.tx :: txs
  let header := self.finalize (self.templateHeader virtualState txs unixNow)
  let selectedParentHash := virtualState.ghostdagData.selectedParent
  let selectedParent ← okOr (self.headers selectedParentHash)
    (.panicked "selected parent timestamp must exist")
  return {
    block := ⟨header, txs⟩
    minerData := minerData
    coinbaseHasRedReward := coinbase.hasRedReward
    selectedParentTimestamp := selectedParent.timestamp
    selectedParentDaaScore := selectedParent.daaScore
    selectedParentHash := selectedParentHash
    calculatedFees := calculatedFees }

def replacePayload (coinbaseTx : CellTx) (newPayload : Bytes) : CellTx :=
  match coinbaseTx.outputsData with
  | _ :: rest => { coinbaseTx with outputsData := newPayload :: rest }
  | [] => { coinbaseTx with witnesses := newPayload :: coinbaseTx.witnesses.tail }

def replaceRedReward (coinbaseTx : CellTx) (lockScript : Script) : CellTx :=
  { coinbaseTx with
    outputs := coinbaseTx.outputs.dropLast ++
      (coinbaseTx.outputs.getLast?.map fun lastOutput => { lastOutput
        with lock := lockScript }).toList }

def modifyBlockTemplate (newMinerData : MinerData) (blockTemplate : BlockTemplate) (unixNow : Nat) :
    Except CoinbaseError BlockTemplate := do
  let coinbaseTx ← okOr blockTemplate.block.transactions.head? .panicked
  let newPayload ← self.coinbaseManager.modifyCoinbasePayload (coinbaseTx.payload.getD [])
    newMinerData
  let coinbaseTx := replacePayload coinbaseTx newPayload
  let coinbaseTx := if blockTemplate.coinbaseHasRedReward then
    replaceRedReward coinbaseTx newMinerData.lockScript else coinbaseTx
  let transactions := coinbaseTx :: blockTemplate.block.transactions.tail
  let header := { blockTemplate.block.header with
    hashMerkleRoot := self.calcHashMerkleRootCell transactions
    timestamp := max blockTemplate.block.header.timestamp unixNow }
  return { blockTemplate with
    block := ⟨self.finalize header, transactions⟩
    minerData := newMinerData }

end TemplateServices

end Spora
