import Spora.Body.Mass
import Spora.Coinbase.Manager
import Spora.Validation.Scripts

namespace Spora

open Std Outcome

-- The header fields that body validation and chain verification read. The direct parents are the
-- first level of the parents.
structure Header where
  hash : Hash
  directParents : List Hash
  hashMerkleRoot : Hash
  acceptedIdMerkleRoot : Hash
  cellCommitment : Hash
  cellRoot : Hash
  segmentRoot : Hash
  timestamp : Nat
  daaScore : Nat
  blueScore : Nat
deriving DecidableEq, Repr

structure Block where
  header : Header
  transactions : List CellTx
deriving DecidableEq, Repr

def Block.hash (self : Block) : Hash := self.header.hash

-- The stores, managers and limits of the body processor. The digest over the transaction ids is
-- a parameter, as the other digests are; so is the GHOSTDAG manager, which is asked only for a
-- block that has no stored data yet.
structure BlockBodyProcessor where
  hasher : Hasher
  engine : ScriptEngine
  calcMerkleRoot : List Hash → Hash
  coinbaseManager : CoinbaseManager
  massCalculator : MassCalculator
  maxBlockMass : Nat
  ghostdagK : Nat
  coinbaseMaturity : Nat
  blockTransactions : Hash → Option (List CellTx)
  daaScores : Hash → Option Nat
  hasBlockBody : Hash → Bool
  ghostdagData : Hash → Option GhostdagData
  ghostdag : List Hash → GhostdagData
  baseProvider : DagCellProvider

namespace BlockBodyProcessor

variable (self : BlockBodyProcessor) (block : Block)

def checkHasTransactions : Except RuleError Unit :=
  ensure (block.transactions ≠ []) .noTransactions

def checkHashMerkleRoot : Except RuleError Unit :=
  let calculated := self.calcMerkleRoot (block.transactions.map self.hasher.txid)
  ensure (calculated = block.header.hashMerkleRoot)
    (.badMerkleRoot block.header.hashMerkleRoot calculated)

-- The coinbase of a block; indexing an empty list aborts.
def coinbase : Except RuleError CellTx :=
  okOr block.transactions.head? (.panicked "index out of bounds")

def checkOnlyOneCoinbase : Except RuleError Unit := do
  ensure ((← coinbase block).isCoinbase = true) .firstTxNotCoinbase
  match block.transactions.tail.findIdx? CellTx.isCoinbase with
  | some i => throw (.multipleCoinbases i)
  | none => return ()

def checkTransactionsInIsolation : Except RuleError Unit :=
  block.transactions.forM fun tx =>
    if tx.isCoinbase then .ok ()
    else (validateCellTxInIsolation tx ({} : CellConsensusParams).maxCellDataSize).mapError fun e =>
      .cellValidationError s!"Isolation validation failed for tx {self.hasher.txid tx}: {e}"

def checkCoinbaseHasZeroMass : Except RuleError Unit := do
  let payload := (← coinbase block).payload.getD []
  let coinbaseData ← (self.coinbaseManager.deserializeCoinbasePayload payload).mapError
    .badCoinbasePayload
  ensure (coinbaseData.massCommitment = 0) .coinbaseNonZeroMassCommitment

def addNonContextualMasses (acc : NonContextualMasses) (tx : CellTx) :
    Except RuleError NonContextualMasses := do
  let masses := self.massCalculator.calcNonContextualMassesCell tx
  let total : NonContextualMasses := ⟨saturatingAdd acc.computeMass masses.computeMass,
    saturatingAdd acc.transientMass masses.transientMass⟩
  ensure (total.computeMass ≤ self.maxBlockMass)
    (.exceedsComputeMassLimit total.computeMass self.maxBlockMass)
  ensure (total.transientMass ≤ self.maxBlockMass)
    (.exceedsTransientMassLimit total.transientMass self.maxBlockMass)
  return total

def checkBlockMass : Except RuleError Mass := do
  return (← block.transactions.foldlM self.addNonContextualMasses ⟨0, 0⟩, ⟨0⟩)

def insertOnce {α : Type} [Ord α] [TransOrd α] (duplicate : α → RuleError) (existing : ExtTreeSet α)
    (key : α) : Except RuleError (ExtTreeSet α) := do
  ensure (existing.contains key = false) (duplicate key)
  return existing.insert key

def blockInputs : List OutPoint := block.transactions.flatMap CellTx.spends

def checkDuplicateTransactions : Except RuleError Unit := do
  let _ ← (block.transactions.map self.hasher.txid).foldlM (insertOnce .duplicateTransactions) ∅

def checkBlockDoubleSpends : Except RuleError Unit := do
  let _ ← (blockInputs block).foldlM (insertOnce .doubleSpendInSameBlock) ∅

def checkNoChainedTransactions : Except RuleError Unit :=
  let created : ExtTreeSet OutPoint :=
    (block.transactions.flatMap (CellTx.creates self.hasher)).foldl (fun set o => set.insert o) ∅
  (blockInputs block).forM fun o => ensure (o ∉ created) (.chainedTransaction o)

def validateBodyInIsolation : Except RuleError Mass := do
  checkHasTransactions block
  self.checkHashMerkleRoot block
  checkOnlyOneCoinbase block
  self.checkTransactionsInIsolation block
  self.checkCoinbaseHasZeroMass block
  let mass ← self.checkBlockMass block
  self.checkDuplicateTransactions block
  checkBlockDoubleSpends block
  self.checkNoChainedTransactions block
  return mass

end BlockBodyProcessor

end Spora
