import Spora.Mining.Pool.Transactions

namespace Spora

open Std Stateful

namespace Mempool

structure OrphanPool where
  allOrphans : ExtTreeMap Hash MempoolTransaction
  cellTransactionIds : ExtTreeMap Hash Hash
  chainedOrphans : EdgeMap Hash
  outpointOwnerId : ExtTreeMap OutPoint Hash
  lastExpireScan : Nat

namespace OrphanPool

def new : OrphanPool := ⟨∅, ∅, ∅, ∅, 0⟩

variable (env : MempoolServices) (self : OrphanPool)

def has (id : Hash) : Bool := id ∈ self.allOrphans

def outpointOrphan (outpoint : OutPoint) : Option MempoolTransaction :=
  self.outpointOwnerId[outpoint]?.bind fun id => self.allOrphans[id]?

def getEffectiveParentTransactionIdsInPool (tx : CellTx) : ExtTreeSet Hash :=
  let cellParents := tx.spends.filterMap fun outpoint => self.cellTransactionIds[outpoint.txHash]?
  (idSet (getParentTransactionIdsInPool self.allOrphans tx ++ cellParents)).erase
    (env.hasher.txid tx)

def getTransactionIdsWithParentTransaction (parentId : Hash) : List Hash :=
  env.iteration ((self.allOrphans.toList.filter fun entry =>
    parentId ∈ self.getEffectiveParentTransactionIdsInPool env entry.2.mtx.tx).map Prod.fst)

def getRedeemerIds (id : Hash) : List Hash :=
  getRedeemerIdsInPool env self.allOrphans self.chainedOrphans id

def checkOrphanDuplicate (tx : MempoolTransaction) : Except MempoolFault Unit :=
  if tx.id env ∈ self.allOrphans then .error (.rule (.rejectDuplicateOrphan (tx.id env)))
  else .ok ()

def checkOrphanMass (tx : MempoolTransaction) : Except MempoolFault Unit :=
  match tx.mtx.calculatedNonContextualMasses with
  | none => .error .panicked
  | some masses =>
    let mass := max masses.computeMass masses.transientMass
    if mass > env.config.maximumOrphanTransactionMass then
      .error (.rule (.rejectBadOrphanMass mass env.config.maximumOrphanTransactionMass))
    else .ok ()

def checkOrphanDoubleSpend (tx : MempoolTransaction) : Except MempoolFault Unit :=
  tx.mtx.tx.spends.forM fun outpoint =>
    match self.outpointOrphan outpoint with
    | some orphan =>
      if orphan.id env ≠ tx.id env then
        .error (.rule (.rejectDoubleSpendOrphan (tx.id env) (orphan.id env))) else .ok ()
    | none => .ok ()

def withoutOrphan (id : Hash) (transaction : MempoolTransaction) : OrphanPool :=
  let parents := { self
    with allOrphans := self.allOrphans.erase id }.getEffectiveParentTransactionIdsInPool env
    transaction.mtx.tx
  let chained := parents.toList.foldl (fun (chained : EdgeMap Hash) parent =>
    let chained := chained.dropEdge parent id
    if (chained.targets parent).isEmpty then chained.erase parent else chained) self.chainedOrphans
  { self with
    allOrphans := self.allOrphans.erase id
    cellTransactionIds := self.cellTransactionIds.erase (transaction.id env)
    chainedOrphans := chained.erase id
    outpointOwnerId := transaction.mtx.tx.spends.foldl ExtTreeMap.erase self.outpointOwnerId }

-- The last input that had no owner, in the order in which their entries are taken out.
def missingOutpoint : List (OutPoint × Nat) → ExtTreeMap OutPoint Hash → Option (OutPoint × Nat)
  | [], _ => none
  | (outpoint, index) :: rest, owners =>
    (missingOutpoint rest (owners.erase outpoint)).or (if outpoint ∈ owners then none
      else some (outpoint, index))

def removeSingleOrphan (id : Hash) : PoolRun OrphanPool MempoolTransaction := do
  let self ← get
  let transaction ← okOr self.allOrphans[id]? (.rule (.rejectMissingOrphanTransaction id))
  set (self.withoutOrphan env id transaction)
  match missingOutpoint transaction.mtx.tx.spends.zipIdx self.outpointOwnerId with
  | some (outpoint, index) =>
    throw (.rule (.rejectMissingOrphanOutpoint index (transaction.id env) outpoint))
  | none => return transaction

def removeOrphans (ids : List Hash) : PoolRun OrphanPool (List MempoolTransaction) :=
  ids.mapM (removeSingleOrphan env)

def removeOrphan (id : Hash) (removeRedeemers : Bool) :
    PoolRun OrphanPool (List MempoolTransaction) := do
  let self ← get
  if !self.has id then return []
  removeOrphans env (id :: if removeRedeemers then self.getRedeemerIds env id else [])

def removeRedeemersOf (id : Hash) : PoolRun OrphanPool (List MempoolTransaction) := do
  let self ← get
  removeOrphans env (self.getRedeemerIds env id)

def getRandomLowPriorityOrphan : Option Hash :=
  (env.iteration self.allOrphans.keys).find? fun id => self.allOrphans[id]?.any fun tx =>
    tx.priority = .low

-- Each turn takes an orphan out, so that their number bounds the loop.
def limitOrphanPoolSizeFrom (freeSlots : Nat) : Nat → PoolRun OrphanPool Unit
  | 0 => return
  | turns + 1 => do
    let self ← get
    if self.allOrphans.size + freeSlots > env.config.maximumOrphanTransactionCount then
      match self.getRandomLowPriorityOrphan env with
      | none =>
        throw (.rule
          (.rejectOrphanPoolIsFull self.allOrphans.size env.config.maximumOrphanTransactionCount))
      | some id =>
        discard (removeOrphan env id false)
        limitOrphanPoolSizeFrom freeSlots turns

def limitOrphanPoolSize (freeSlots : Nat) : PoolRun OrphanPool Unit := do
  let self ← get
  limitOrphanPoolSizeFrom env freeSlots (self.allOrphans.size + 1)

def withOrphan (transaction : MempoolTransaction) : OrphanPool :=
  let id := transaction.id env
  let outpointOwnerId := transaction.mtx.tx.spends.foldl
    (fun owners outpoint => owners.insert outpoint id) self.outpointOwnerId
  let parents := self.getEffectiveParentTransactionIdsInPool env transaction.mtx.tx
  let incoming :=
    parents.toList.foldl (fun chained parent => chained.addEdge parent id) self.chainedOrphans
  let redeemers := (transaction.mtx.tx.creates env.hasher).filterMap fun outpoint =>
    ({ self with outpointOwnerId }.outpointOrphan outpoint).map (MempoolTransaction.id env)
  { self with
    outpointOwnerId
    chainedOrphans := redeemers.foldl (fun chained redeemer => chained.addEdge id redeemer) incoming
    cellTransactionIds := self.cellTransactionIds.insert id id
    allOrphans := self.allOrphans.insert id transaction }

def tryAddMempoolTransactionOrphan (transaction : MempoolTransaction) :
    PoolRun OrphanPool Unit := do
  if env.config.maximumOrphanTransactionCount = 0 then return
  let self ← get
  lift (self.checkOrphanDuplicate env transaction)
  lift (checkOrphanMass env transaction)
  lift (self.checkOrphanDoubleSpend env transaction)
  limitOrphanPoolSize env 1
  modify fun self => self.withOrphan env transaction

def resolveInputs (outpoint : OutPoint) (slot : Option CellMetadata) (mtx : MutableTransaction) :
    MutableTransaction :=
  { mtx with
    resolvedCellMetadata :=
        (mtx.tx.spends.zip mtx.resolvedCellMetadata).map fun (spent, metadata) =>
      if spent = outpoint then slot else metadata }

-- An orphan that spends an outpoint of a removed transaction has it resolved no longer.
def forgetOutpoint (outpoint : OutPoint) : OrphanPool :=
  match self.outpointOwnerId[outpoint]? with
  | none => self
  | some id =>
    { self with allOrphans := self.allOrphans.modify id fun orphan =>
        { orphan with mtx := resolveInputs outpoint none orphan.mtx } }

def updateOrphansAfterTransactionRemoved (removed : MempoolTransaction) (removeRedeemers : Bool) :
    PoolRun OrphanPool (List MempoolTransaction) := do
  if removeRedeemers then removeRedeemersOf env (removed.id env)
  else
    modify fun self => (removed.mtx.tx.creates env.hasher).foldl forgetOutpoint self
    return []

def expireLowPriorityTransactions (virtualDaaScore : Nat) : PoolRun OrphanPool Unit :=
  do
  let self ← get
  if virtualDaaScore < self.lastExpireScan + env.config.orphanExpireScanIntervalDaaScore then return
  let expired := env.iteration ((self.allOrphans.toList.filter fun entry =>
    entry.2.priority = .low ∧
      virtualDaaScore > entry.2.addedAtDaaScore + env.config.orphanExpireIntervalDaaScore).map
        Prod.fst)
  expired.forM fun id => discard (removeOrphan env id false)
  modify fun self => { self with lastExpireScan := virtualDaaScore }

end OrphanPool

end Mempool

end Spora
