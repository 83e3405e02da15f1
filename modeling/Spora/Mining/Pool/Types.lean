import Spora.Lib.EdgeMap
import Spora.Lib.Stateful
import Spora.Mining.Selectors

namespace Spora

open Std

inductive Priority
  | low
  | high
deriving DecidableEq, Repr

inductive Orphan
  | forbidden
  | allowed
deriving DecidableEq, Repr

inductive RbfPolicy
  | forbidden
  | allowed
  | mandatory
deriving DecidableEq, Repr

inductive CellPoolError
  | txExists (wtxid : Hash)
  | txNotFound (wtxid : Hash)
  | mempoolFull (maxSize : Nat)
  | rbfFailed
deriving DecidableEq, Repr

inductive CellMirrorError
  | missingParentTransaction
  | feeNotPopulated
  | computeResourcesNotPopulated
  | cellPool (error : CellPoolError)
deriving DecidableEq, Repr

inductive NonStandardError
  | rejectStorageMass (id : Hash) (mass maximum : Nat)
  | rejectInsufficientFee (id : Hash) (fee minimumFee : Nat)
deriving DecidableEq, Repr

inductive MempoolRuleError
  | rejectTxRule (error : TxRuleError)
  | rejectMissingOutpoint
  | rejectAlreadyAccepted (id : Hash)
  | rejectDuplicate (id : Hash)
  | rejectDoubleSpendInMempool (outpoint : OutPoint) (owner : Hash)
  | rejectRbfNoDoubleSpend
  | rejectRbfTooManyDoubleSpendingTransactions
  | rejectMempoolIsFull
  | rejectNonStandard (error : NonStandardError)
  | rejectImmatureSpend (error : TxRuleError)
  | rejectMissingTransaction (id : Hash)
  | rejectBadOrphanMass (mass maximum : Nat)
  | rejectDuplicateOrphan (id : Hash)
  | rejectDoubleSpendOrphan (id owner : Hash)
  | rejectDisallowedOrphan (id : Hash)
  | rejectMissingOrphanOutpoint (index : Nat) (id : Hash) (outpoint : OutPoint)
  | rejectMissingOrphanTransaction (id : Hash)
  | rejectOrphanPoolIsFull (count maximum : Nat)
  | rejectCellMirror (id : Hash) (error : CellMirrorError)
deriving DecidableEq, Repr

-- `overCapacity` is the assertion that an inserted transaction fits in, `panicked` any other failed
-- assertion, an unwrap of `None` or an arithmetic overflow.
inductive MempoolFault
  | rule (error : MempoolRuleError)
  | overCapacity
  | panicked
deriving DecidableEq, Repr

abbrev PoolRun (σ α : Type) := Stateful MempoolFault σ α

structure MempoolConfig where
  maximumTransactionCount : Nat
  mempoolSizeLimit : Nat
  transactionExpireIntervalDaaScore : Nat
  transactionExpireScanIntervalDaaScore : Nat
  transactionExpireScanIntervalMilliseconds : Nat
  acceptedTransactionExpireIntervalDaaScore : Nat
  acceptedTransactionExpireScanIntervalDaaScore : Nat
  acceptedTransactionExpireScanIntervalMilliseconds : Nat
  orphanExpireIntervalDaaScore : Nat
  orphanExpireScanIntervalDaaScore : Nat
  maximumOrphanTransactionMass : Nat
  maximumOrphanTransactionCount : Nat
  acceptNonStandard : Bool
  minimumRelayTransactionFee : Nat
deriving DecidableEq, Repr

-- What the mempool is run with. Fee rates and weights are doubles, of which only comparisons
-- matter: a fee rate is a pair of fee and mass, and `weight` is the rank of the cached weight in
-- the total order of the doubles. `beats` compares the conflict keys of two transactions with their
-- fees and cycles. Hash tables are walked through in some order, which `iteration` stands for.
-- `mempoolEstimatedBytes` reads capacities of vectors, which are no part of a value.
structure MempoolServices where
  config : MempoolConfig
  hasher : Hasher
  wtxid : CellTx → Hash
  txid_eq_of_wtxid_eq : ∀ {a b : CellTx}, wtxid a = wtxid b → hasher.txid a = hasher.txid b
  weight : Nat → Nat → Int
  feerateGt : Nat × Nat → Nat × Nat → Bool
  beats : CellTx × Nat × Nat → CellTx × Nat × Nat → Bool
  mempoolEstimatedBytes : MutableTransaction → Nat
  iteration : List Hash → List Hash
  iteration_perm : ∀ ids, (iteration ids).Perm ids

namespace MempoolServices

@[simp] theorem mem_iteration (env : MempoolServices) {ids id} :
    id ∈ env.iteration ids ↔ id ∈ ids := (env.iteration_perm ids).mem_iff

abbrev txids (env : MempoolServices) (keys : List FeerateTransactionKey) : List Hash :=
  keys.map fun key => env.hasher.txid key.tx

end MempoolServices

namespace MutableTransaction

variable (self : MutableTransaction)

def calculatedFeerate : Option (Nat × Nat) :=
  self.selectionMass.bind fun mass => self.calculatedFee.map fun fee => (fee, mass)

def projectedCellPoolCycles : Option Nat :=
  self.verifiedCycles.or (self.effectiveComputeMass.map fun effectiveComputeMass =>
    min (max effectiveComputeMass self.tx.estimatedSerializedSize * DEFAULT_CYCLES_PER_BYTE)
      U64_MAX)

def hasParentInSet (possibleParents : List Hash) : Bool :=
  self.tx.spends.any fun outpoint => possibleParents.contains outpoint.txHash

end MutableTransaction

end Spora
