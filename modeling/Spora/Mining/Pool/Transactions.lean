import Spora.Mining.Pool.CellPool

namespace Spora

open Std Stateful

-- The cell view of a transaction is the transaction itself: that is what each caller hands over.
structure MempoolTransaction where
  mtx : MutableTransaction
  cellWtxid : Option Hash
  priority : Priority
  addedAtDaaScore : Nat
deriving DecidableEq, Repr

namespace MempoolTransaction

def new (mtx : MutableTransaction) (priority : Priority) (addedAtDaaScore : Nat) :
    MempoolTransaction :=
  ⟨mtx, none, priority, addedAtDaaScore⟩

def id (env : MempoolServices) (self : MempoolTransaction) : Hash := env.hasher.txid self.mtx.tx

def refreshCellMirror (self : MempoolTransaction) : MempoolTransaction :=
  { self with cellWtxid := none }

end MempoolTransaction

namespace Mempool

-- The position of a key among the keys: by weight, then by fee, then by id.
def keyLt (env : MempoolServices) (a b : FeerateTransactionKey) : Prop :=
  env.weight a.fee a.mass < env.weight b.fee b.mass ∨
      (env.weight a.fee a.mass = env.weight b.fee b.mass ∧
      (a.fee < b.fee ∨ (a.fee = b.fee ∧ env.hasher.txid a.tx < env.hasher.txid b.tx)))

instance (env : MempoolServices) (a b : FeerateTransactionKey) : Decidable (keyLt env a b) :=
  inferInstanceAs (Decidable (_ ∨ _))

def sameKey (env : MempoolServices) (a b : FeerateTransactionKey) : Bool :=
  env.weight a.fee a.mass == env.weight b.fee b.mass && a.fee == b.fee &&
    env.hasher.txid a.tx == env.hasher.txid b.tx

structure ReadyTransactions where
  searchTree : List FeerateTransactionKey
  totalMass : Nat
deriving DecidableEq, Repr

namespace ReadyTransactions

def empty : ReadyTransactions := ⟨[], 0⟩

variable (env : MempoolServices) (self : ReadyTransactions)

def insert (key : FeerateTransactionKey) : ReadyTransactions :=
  if self.searchTree.any (sameKey env key) then self
  else
    ⟨self.searchTree.takeWhile (fun k => keyLt env k key) ++ key ::
      self.searchTree.dropWhile (fun k => keyLt env k key), self.totalMass + key.mass⟩

-- The mass that is taken off is that of the given key. The code aborts if that is above the total.
def remove (key : FeerateTransactionKey) : ReadyTransactions :=
  if self.searchTree.any (sameKey env key) then
    ⟨self.searchTree.eraseP (sameKey env key), self.totalMass - key.mass⟩
  else self

end ReadyTransactions

structure MempoolCellSet where
  spentOutpointOwnerId : ExtTreeMap OutPoint Hash
  createdOutpointOwnerId : ExtTreeMap OutPoint Hash

structure DoubleSpend where
  outpoint : OutPoint
  ownerId : Hash
deriving DecidableEq, Repr

def DoubleSpend.toRuleError (self : DoubleSpend) : MempoolFault :=
  .rule (.rejectDoubleSpendInMempool self.outpoint self.ownerId)

namespace MempoolCellSet

variable (env : MempoolServices) (self : MempoolCellSet)

def addTransaction (tx : CellTx) : MempoolCellSet where
  spentOutpointOwnerId := tx.spends.foldl
    (fun spent outpoint => spent.insert outpoint (env.hasher.txid tx)) self.spentOutpointOwnerId
  createdOutpointOwnerId := (tx.creates env.hasher).foldl
    (fun created outpoint => created.insert outpoint (env.hasher.txid tx))
      self.createdOutpointOwnerId

def removeTransaction (tx : CellTx) : MempoolCellSet where
  spentOutpointOwnerId := tx.spends.foldl ExtTreeMap.erase self.spentOutpointOwnerId
  createdOutpointOwnerId :=
    (tx.creates env.hasher).foldl ExtTreeMap.erase self.createdOutpointOwnerId

def doubleSpends (tx : CellTx) : List DoubleSpend :=
  tx.spends.filterMap fun outpoint =>
    (self.spentOutpointOwnerId[outpoint]?).bind fun ownerId =>
      if ownerId = env.hasher.txid tx then none else some ⟨outpoint, ownerId⟩

def getFirstDoubleSpend (tx : CellTx) : Option DoubleSpend := (self.doubleSpends env tx).head?

def getDoubleSpendTransactionIds (tx : CellTx) : List DoubleSpend :=
  (self.doubleSpends env tx).foldl (fun found doubleSpend =>
    if found.any (fun other => other.ownerId == doubleSpend.ownerId) then found
    else found ++ [doubleSpend]) []

end MempoolCellSet

structure TransactionsPool where
  allTransactions : ExtTreeMap Hash MempoolTransaction
  cellTransactionIds : ExtTreeMap Hash Hash
  cellWtxids : ExtTreeMap Hash Hash
  parentTransactions : EdgeMap Hash
  chainedTransactions : EdgeMap Hash
  readyTransactions : ReadyTransactions
  lastExpireScanDaaScore : Nat
  lastExpireScanTime : Nat
  estimatedSize : Nat
  cellSet : MempoolCellSet
  cellPool : CellPool

def idSet (ids : List Hash) : ExtTreeSet Hash := ids.foldl ExtTreeSet.insert ∅

@[simp] theorem mem_idSet {ids id} : id ∈ idSet ids ↔ id ∈ ids := by
  simp [idSet, TreeMap.mem_foldl_insert]

-- The ids that are chained to one, directly or not, in the order of a breadth-first walk.
def getRedeemerIdsInPool (env : MempoolServices) (all : ExtTreeMap Hash MempoolTransaction)
    (chained : EdgeMap Hash) (id : Hash) : List Hash :=
  let redeemers id := (env.iteration (chained.targets id).toList).filter (· ∈ all)
  if id ∈ all then Worklist.closure redeemers all.size (redeemers id) else []

def getParentTransactionIdsInPool (all : ExtTreeMap Hash MempoolTransaction) (tx : CellTx) :
    List Hash :=
  (tx.spends.map OutPoint.txHash).filter (· ∈ all)

namespace TransactionsPool

def new (env : MempoolServices) (unixNow : Nat) : TransactionsPool where
  allTransactions := ∅
  cellTransactionIds := ∅
  cellWtxids := ∅
  parentTransactions := ∅
  chainedTransactions := ∅
  readyTransactions := .empty
  lastExpireScanDaaScore := 0
  lastExpireScanTime := unixNow
  estimatedSize := 0
  cellSet := ⟨∅, ∅⟩
  cellPool := .new env.config.maximumTransactionCount

variable (env : MempoolServices) (self : TransactionsPool)

def has (id : Hash) : Bool := id ∈ self.allTransactions

def len : Nat := self.allTransactions.size

def buildParentCellIdContext (parentIds : List Hash) : Except MempoolFault Unit :=
  parentIds.forM fun parentId =>
    if parentId ∈ self.allTransactions then .ok ()
    else .error (.rule (.rejectCellMirror parentId .missingParentTransaction))

-- From the inputs, from the outpoints that pool transactions create and from the cell ids.
def getEffectiveParentTransactionIdsInPool (tx : CellTx) : ExtTreeSet Hash :=
  let created := tx.spends.filterMap fun outpoint => self.cellSet.createdOutpointOwnerId[outpoint]?
  let cellParents := tx.spends.filterMap fun outpoint =>
    (self.cellSet.createdOutpointOwnerId[outpoint]?).or self.cellTransactionIds[outpoint.txHash]?
  (idSet (getParentTransactionIdsInPool self.allTransactions tx ++ created ++ cellParents)).erase
    (env.hasher.txid tx)

def getTransactionIdsWithParentTransaction (parentId : Hash) : List Hash :=
  env.iteration ((self.allTransactions.toList.filter fun entry =>
    parentId ∈ self.getEffectiveParentTransactionIdsInPool env entry.2.mtx.tx).map Prod.fst)

def cellEntry (tx : MempoolTransaction) : Option PoolEntry :=
  tx.cellWtxid.bind fun wtxid => self.cellPool.txs[wtxid]?

def hasRemainingCellDependencies (tx : MempoolTransaction) : Bool :=
  (self.cellEntry tx).elim false fun entry => !entry.dependencies.isEmpty

def isReady (tx : MempoolTransaction) : Bool :=
  (self.getEffectiveParentTransactionIdsInPool env tx.mtx.tx).isEmpty &&
    !self.hasRemainingCellDependencies tx

def feerateKey (tx : MempoolTransaction) :
    PoolRun TransactionsPool FeerateTransactionKey :=
  okOr (FeerateTransactionKey.ofMutableTransaction tx.mtx) .panicked

def refreshReadyStatus (id : Hash) : PoolRun TransactionsPool Unit := do
  let self ← get
  match self.allTransactions[id]? with
  | none => return
  | some tx =>
    let key ← feerateKey tx
    let readyTransactions :=
      if self.isReady env tx then self.readyTransactions.insert env key
      else self.readyTransactions.remove env key
    set { self with readyTransactions }

def getCellRedeemerIdsInPool (id : Hash) : List Hash :=
  match self.allTransactions[id]?.bind MempoolTransaction.cellWtxid with
  | none => []
  | some rootWtxid =>
    let dependents wtxid :=
      (self.cellPool.txs[wtxid]?.elim [] PoolEntry.dependents).filter (· ∈ self.cellWtxids)
    (Worklist.closure dependents (self.cellWtxids.size + 1) [rootWtxid]).tail.filterMap fun wtxid =>
      self.cellWtxids[wtxid]?

def getRedeemerIds (id : Hash) : List Hash :=
  (Mempool.getRedeemerIdsInPool env self.allTransactions self.chainedTransactions id ++
    self.getCellRedeemerIdsInPool id).eraseDups

def onCellPool {α : Type} (id : Hash) :
    Stateful CellPoolError CellPool α → PoolRun TransactionsPool α :=
  zoom (fun error => .rule (.rejectCellMirror id (.cellPool error))) TransactionsPool.cellPool
    fun self cellPool => { self with cellPool }

def addCellMirror (transaction : MempoolTransaction) :
    PoolRun TransactionsPool MempoolTransaction := do
  let id := transaction.id env
  let fee ← okOr transaction.mtx.calculatedFee (.rule (.rejectCellMirror id .feeNotPopulated))
  let cycles ← okOr transaction.mtx.projectedCellPoolCycles
    (.rule (.rejectCellMirror id .computeResourcesNotPopulated))
  let wtxid ← onCellPool id (CellPool.add env transaction.mtx.tx fee cycles)
  return { transaction with cellWtxid := some wtxid }

-- A transaction with its mirror, entered into all indexes but the frontier.
def withTransaction (transaction : MempoolTransaction) (transactionSize : Nat) : TransactionsPool :=
  let id := transaction.id env
  let parents := self.getEffectiveParentTransactionIdsInPool env transaction.mtx.tx
  { self with
    parentTransactions := self.parentTransactions.insert id parents
    chainedTransactions := parents.toList.foldl (fun chained parent => chained.addEdge parent id)
      self.chainedTransactions
    cellTransactionIds := self.cellTransactionIds.insert id id
    cellWtxids := transaction.cellWtxid.elim self.cellWtxids fun wtxid =>
      self.cellWtxids.insert wtxid id
    cellSet := self.cellSet.addTransaction env transaction.mtx.tx
    estimatedSize := self.estimatedSize + transactionSize
    allTransactions := self.allTransactions.insert id transaction }

def addMempoolTransaction (transaction : MempoolTransaction) (transactionSize : Nat) :
    PoolRun TransactionsPool MempoolTransaction := do
  let self ← get
  let id := transaction.id env
  require (!self.has id) .panicked
  require transaction.mtx.isFullyPopulated .panicked
  lift (self.buildParentCellIdContext
    (getParentTransactionIdsInPool self.allTransactions transaction.mtx.tx))
  let transaction ← addCellMirror env transaction.refreshCellMirror
  modify fun self => self.withTransaction env transaction transactionSize
  refreshReadyStatus env id
  return transaction

def withoutRelations (id : Hash) : TransactionsPool :=
  let chained := (self.parentTransactions.targets id).toList.foldl
    (fun chained parent => chained.dropEdge parent id) self.chainedTransactions
  { self with
    chainedTransactions := chained.erase id
    parentTransactions :=
      ((chained.targets id).toList.foldl (fun parents child => parents.dropEdge child id)
      self.parentTransactions).erase id }

def withoutTransaction (id : Hash) (removed : MempoolTransaction) : TransactionsPool :=
  { self with
    allTransactions := self.allTransactions.erase id
    cellTransactionIds := self.cellTransactionIds.erase (removed.id env)
    cellWtxids := removed.cellWtxid.elim self.cellWtxids self.cellWtxids.erase }

def subEstimatedSize (bytes : Nat) : PoolRun TransactionsPool Unit := do
  let self ← get
  require (bytes ≤ self.estimatedSize) .panicked
  set { self with estimatedSize := self.estimatedSize - bytes }

def removeCellMirror (id : Hash) : Option Hash → PoolRun TransactionsPool Unit
  | none => return
  | some wtxid => discard (onCellPool id (CellPool.remove wtxid))

def withoutCells (key : FeerateTransactionKey) (tx : CellTx) : TransactionsPool :=
  { self with
    readyTransactions := self.readyTransactions.remove env key
    cellSet := self.cellSet.removeTransaction env tx }

def takeOut (id : Hash) (existing : Option MempoolTransaction) :
    PoolRun TransactionsPool MempoolTransaction := do
  modify fun self => self.withoutRelations id
  let removed ← okOr existing (.rule (.rejectMissingTransaction id))
  modify fun self => self.withoutTransaction env id removed
  let key ← feerateKey removed
  modify fun self => self.withoutCells env key removed.mtx.tx
  subEstimatedSize (env.mempoolEstimatedBytes removed.mtx)
  return removed

def maybeReady (chainedChildren : ExtTreeSet Hash) (cellDependents : List Hash) : List Hash :=
  (idSet (chainedChildren.toList ++ cellDependents.filterMap fun wtxid =>
    self.cellWtxids[wtxid]?)).toList

def removeTransaction (id : Hash) : PoolRun TransactionsPool MempoolTransaction := do
  let self ← get
  let chainedChildren := self.chainedTransactions.targets id
  let cellDependents := (self.allTransactions[id]?.bind self.cellEntry).elim [] PoolEntry.dependents
  removeCellMirror id (self.allTransactions[id]?.bind MempoolTransaction.cellWtxid)
  let removed ← takeOut env id self.allTransactions[id]?
  let self ← get
  (env.iteration (self.maybeReady chainedChildren cellDependents)).forM (refreshReadyStatus env)
  let self ← get
  require (self.allTransactions.isEmpty → self.estimatedSize = 0) .panicked
  return removed

-- The recomputed transaction in the place of the existing one, before it has its mirror again.
def withRevalidated (existing transaction : MempoolTransaction) : TransactionsPool :=
  { self with
    estimatedSize := self.estimatedSize + env.mempoolEstimatedBytes transaction.mtx
    cellTransactionIds := (self.cellTransactionIds.erase (existing.id env)).insert
      (transaction.id env) (transaction.id env) }

def withMirror (transaction : MempoolTransaction) (wtxid : Hash) : TransactionsPool :=
  { self with
    allTransactions :=
      self.allTransactions.insert (transaction.id env) { transaction with cellWtxid := some wtxid }
    cellWtxids := self.cellWtxids.insert wtxid (transaction.id env) }

def withRelations (transaction : MempoolTransaction) (previousParents : ExtTreeSet Hash) :
    TransactionsPool :=
  let id := transaction.id env
  let chained := previousParents.toList.foldl (fun chained parent => chained.dropEdge parent id)
    self.chainedTransactions
  let effectiveParents := self.getEffectiveParentTransactionIdsInPool env transaction.mtx.tx
  { self with
    parentTransactions := self.parentTransactions.insert id effectiveParents
    chainedTransactions :=
      effectiveParents.toList.foldl (fun chained parent => chained.addEdge parent id) chained }

def removePreviousMirror (id : Hash) : Option Hash → PoolRun TransactionsPool Bool
  | none => return true
  | some wtxid => do
    match ← attempt (onCellPool id (CellPool.remove wtxid)) with
    | .error _ => return false
    | .ok _ =>
      modify fun self => { self with cellWtxids := self.cellWtxids.erase wtxid }
      return true

def restoreMirror (transaction : MempoolTransaction) (fee cycles : Nat)
    (previousParents : ExtTreeSet Hash) :
    PoolRun TransactionsPool Bool := do
  let id := transaction.id env
  match ← attempt (onCellPool id (CellPool.add env transaction.mtx.tx fee cycles)) with
  | .error _ => return false
  | .ok wtxid =>
    modify fun self =>
      (self.withMirror env transaction wtxid).withRelations env transaction previousParents
    refreshReadyStatus env id
    return true

def updateRevalidatedTransaction (transaction : MempoolTransaction) :
    PoolRun TransactionsPool Bool := do
  let self ← get
  let id := transaction.id env
  let previousParents := self.parentTransactions.targets id
  if !(← removePreviousMirror id (self.allTransactions[id]?.bind MempoolTransaction.cellWtxid)) then
    return false
  match self.allTransactions[id]? with
  | none => return false
  | some existing =>
    match self.buildParentCellIdContext
        (getParentTransactionIdsInPool self.allTransactions existing.mtx.tx) with
    | .error _ => return false
    | .ok _ =>
      let transaction := ⟨transaction.mtx, none, existing.priority, existing.addedAtDaaScore⟩
      subEstimatedSize (env.mempoolEstimatedBytes existing.mtx)
      modify fun self => self.withRevalidated env existing transaction
      match transaction.mtx.calculatedFee with
      | none => return false
      | some fee =>
        modify fun self =>
          { self with allTransactions := self.allTransactions.insert id transaction }
        match transaction.mtx.projectedCellPoolCycles with
        | none => return false
        | some cycles => restoreMirror env transaction fee cycles previousParents

-- The ready transactions of low priority, the lowest fee rates first, until there is room. Those
-- that the transaction descends from are passed over.
def selectForEviction (transaction : MutableTransaction) (transactionSize : Nat)
    (feerateThreshold : Nat × Nat) :
    List FeerateTransactionKey → List Hash → Nat → Except MempoolFault (List Hash)
  | [], _, _ => .error (.rule .rejectMempoolIsFull)
  | key :: keys, txsToRemove, selectionOverallSize =>
    match self.allTransactions[env.hasher.txid key.tx]? with
    | none => .error .panicked
    | some tx =>
      if tx.priority ≠ .low then
        selectForEviction transaction transactionSize feerateThreshold keys txsToRemove
          selectionOverallSize
      else if transaction.hasParentInSet (self.getRedeemerIds env (tx.id env) ++ [tx.id env]) then
        selectForEviction transaction transactionSize feerateThreshold keys txsToRemove
          selectionOverallSize
      else
        match tx.mtx.calculatedFeerate with
        | none => .error .panicked
        | some feerate =>
          if env.feerateGt feerate feerateThreshold then .error (.rule .rejectMempoolIsFull)
          else
            let txsToRemove := txsToRemove ++ [tx.id env]
            let selectionOverallSize := selectionOverallSize + env.mempoolEstimatedBytes tx.mtx
            if txsToRemove.length > self.len + 1 then .error .panicked
            else if self.len + 1 - txsToRemove.length ≤ env.config.maximumTransactionCount then
              if selectionOverallSize > self.estimatedSize + transactionSize then .error .panicked
              else if self.estimatedSize + transactionSize - selectionOverallSize ≤
                  env.config.mempoolSizeLimit then
                .ok txsToRemove
              else selectForEviction transaction transactionSize feerateThreshold keys txsToRemove
                selectionOverallSize
            else selectForEviction transaction transactionSize feerateThreshold keys txsToRemove
              selectionOverallSize

def hasRoom (transactionSize : Nat) : Bool :=
  self.len < env.config.maximumTransactionCount &&
    self.estimatedSize + transactionSize ≤ env.config.mempoolSizeLimit

def limitTransactionCount (transaction : MutableTransaction) (transactionSize : Nat) :
    Except MempoolFault (List Hash) :=
  if self.hasRoom env transactionSize then .ok []
  else match transaction.calculatedFeerate with
    | none => .error .panicked
    | some feerateThreshold =>
      self.selectForEviction env transaction transactionSize feerateThreshold
        self.readyTransactions.searchTree [] 0

def checkDoubleSpends (tx : CellTx) : Except MempoolFault Unit :=
  match self.cellSet.getFirstDoubleSpend env tx with
  | some doubleSpend => .error doubleSpend.toRuleError
  | none => .ok ()

def getDoubleSpendOwner (doubleSpend : DoubleSpend) : Except MempoolFault MempoolTransaction :=
  match self.allTransactions[doubleSpend.ownerId]? with
  | some transaction => .ok transaction
  | none => .error doubleSpend.toRuleError

def collectExpiredLowPriorityTransactions (virtualDaaScore unixNow : Nat) :
    PoolRun TransactionsPool (List Hash) := do
  let self ← get
  if virtualDaaScore < self.lastExpireScanDaaScore +
      env.config.transactionExpireScanIntervalDaaScore ∨
      unixNow < self.lastExpireScanTime + env.config.transactionExpireScanIntervalMilliseconds then
    return []
  set { self with lastExpireScanDaaScore := virtualDaaScore, lastExpireScanTime := unixNow }
  return env.iteration ((self.allTransactions.toList.filter fun entry =>
    entry.2.priority = .low ∧
      virtualDaaScore > entry.2.addedAtDaaScore + env.config.transactionExpireIntervalDaaScore).map
        Prod.fst)

end TransactionsPool

end Mempool

end Spora
