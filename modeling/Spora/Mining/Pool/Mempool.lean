import Spora.Mining.Pool.Orphans

namespace Spora

open Std Stateful

structure AcceptedTransactions where
  transactions : ExtTreeMap Hash Nat
  lastExpireScanDaaScore : Nat
  lastExpireScanTime : Nat

structure Mempool where
  transactionPool : Mempool.TransactionsPool
  orphanPool : Mempool.OrphanPool
  acceptedTransactions : AcceptedTransactions

structure TransactionPostValidation where
  removed : Option CellTx
  accepted : Option CellTx
deriving DecidableEq, Repr

def MAXIMUM_STANDARD_TRANSACTION_MASS : Nat := 500000

def cellOutputToMetadata (hasher : Hasher) (outPoint : OutPoint) (output : CellOutput)
    (outputData : Bytes) (blockDaaScore : Nat) (isCellbase : Bool) : CellMetadata where
  outPoint := outPoint
  capacity := output.capacity
  dataBytes := outputData.length
  lockHash := hasher.scriptHash output.lock
  typeHash := output.type_.map hasher.scriptHash
  dataHash := hasher.cellDataHash outputData
  blockDaaScore := blockDaaScore
  isCellbase := isCellbase
  blockHash := 0
  lockCodeHash := none
  typeCodeHash := none
  lockScript := some output.lock
  typeScript := output.type_
  data := some outputData

namespace Mempool

def new (env : MempoolServices) (unixNow : Nat) : Mempool :=
  ⟨.new env unixNow, .new, ⟨∅, 0, unixNow⟩⟩

variable (env : MempoolServices) (self : Mempool)

def onTransactionPool {α : Type} :
    PoolRun TransactionsPool α → PoolRun Mempool α :=
  zoom (fun fault => fault) Mempool.transactionPool fun self transactionPool =>
    { self with transactionPool }

def onOrphanPool {α : Type} :
    PoolRun OrphanPool α → PoolRun Mempool α :=
  zoom (fun fault => fault) Mempool.orphanPool fun self orphanPool => { self with orphanPool }

def removeAndUpdateOrphans (removeRedeemers : Bool) (txId : Hash) :
    PoolRun Mempool Unit := do
  let tx ← onTransactionPool (TransactionsPool.removeTransaction env txId)
  discard (onOrphanPool (OrphanPool.updateOrphansAfterTransactionRemoved env tx removeRedeemers))

-- An orphan's removal stops there, and always takes its redeemers along.
def removeTransaction (id : Hash) (removeRedeemers : Bool) : PoolRun Mempool Unit :=
  do
  let self ← get
  if self.orphanPool.has id then discard (onOrphanPool (OrphanPool.removeOrphan env id true))
  else if self.transactionPool.has id then
    (id :: if removeRedeemers then self.transactionPool.getRedeemerIds env id else []).forM
      (removeAndUpdateOrphans env removeRedeemers)

def getDoubleSpendFeerate (doubleSpend : DoubleSpend) : Except MempoolFault (Nat × Nat) := do
  let owner ← self.transactionPool.getDoubleSpendOwner doubleSpend
  match owner.mtx.calculatedFeerate with
  | some feerate => .ok feerate
  | none => .error doubleSpend.toRuleError

def getReplaceByFeeConstraint (tx : CellTx) : RbfPolicy → Except MempoolFault (Option (Nat × Nat))
  | .forbidden => do
    self.transactionPool.checkDoubleSpends env tx
    return none
  | .allowed => do
    let doubleSpends := self.transactionPool.cellSet.getDoubleSpendTransactionIds env tx
    if doubleSpends.isEmpty then return none
    let threshold ← doubleSpends.foldlM (fun threshold doubleSpend => do
      let feerate ← self.getDoubleSpendFeerate doubleSpend
      return if env.feerateGt feerate threshold then feerate else threshold) (0, 1)
    return some threshold
  | .mandatory =>
    match self.transactionPool.cellSet.getDoubleSpendTransactionIds env tx with
    | [] => .error (.rule .rejectRbfNoDoubleSpend)
    | [doubleSpend] => (self.getDoubleSpendFeerate doubleSpend).map some
    | _ => .error (.rule .rejectRbfTooManyDoubleSpendingTransactions)

def validateDoubleSpendingTransaction (transaction : MutableTransaction)
    (doubleSpend : DoubleSpend) :
    Except MempoolFault MempoolTransaction := do
  let owner ← self.transactionPool.getDoubleSpendOwner doubleSpend
  match transaction.calculatedFeerate, owner.mtx.calculatedFeerate with
  | some transactionFeerate, some doubleSpendFeerate =>
    if env.feerateGt transactionFeerate doubleSpendFeerate then .ok owner
    else .error doubleSpend.toRuleError
  | _, _ => .error doubleSpend.toRuleError

-- The double spends are removed after the fee rate is compared with all of them.
def replaceDoubleSpends (transaction : MutableTransaction) :
    List DoubleSpend → PoolRun Mempool (Option CellTx)
  | [] => return none
  | first :: rest => do
    let self ← get
    let removed ← lift (self.validateDoubleSpendingTransaction env transaction first)
    lift (rest.forM fun doubleSpend => discard
      (self.validateDoubleSpendingTransaction env transaction doubleSpend))
    (first :: rest).forM fun doubleSpend => removeTransaction env doubleSpend.ownerId true
    return some removed.mtx.tx

def executeReplaceByFee (transaction : MutableTransaction) (rbfPolicy : RbfPolicy) :
    PoolRun Mempool (Option CellTx) := do
  let self ← get
  let doubleSpends := self.transactionPool.cellSet.getDoubleSpendTransactionIds env transaction.tx
  match rbfPolicy with
  | .forbidden =>
    lift (self.transactionPool.checkDoubleSpends env transaction.tx)
    return none
  | .allowed => replaceDoubleSpends env transaction doubleSpends
  | .mandatory =>
    match doubleSpends with
    | [] => throw (.rule .rejectRbfNoDoubleSpend)
    | [doubleSpend] => replaceDoubleSpends env transaction [doubleSpend]
    | _ => throw (.rule .rejectRbfTooManyDoubleSpendingTransactions)

def validateTransactionUnacceptance (id : Hash) : Except MempoolFault Unit :=
  if id ∈ self.acceptedTransactions.transactions then .error (.rule (.rejectAlreadyAccepted id))
  else .ok ()

def minimumRequiredTransactionRelayFee (mass : Nat) : Except MempoolFault Nat :=
  if mass * env.config.minimumRelayTransactionFee > U64_MAX then .error .panicked
  else
    let minimumFee := mass * env.config.minimumRelayTransactionFee / 1000
    .ok (min (if minimumFee = 0 then env.config.minimumRelayTransactionFee else minimumFee) MAX_SAU)

def checkTransactionStandardInContext (transaction : MutableTransaction) :
    Except MempoolFault Unit := do
  let id := env.hasher.txid transaction.tx
  let storageMass ← (transaction.contextualStorageMass).elim (.error .panicked) .ok
  if storageMass > MAXIMUM_STANDARD_TRANSACTION_MASS then
    throw (.rule
      (.rejectNonStandard (.rejectStorageMass id storageMass MAXIMUM_STANDARD_TRANSACTION_MASS)))
  let selectionMass ← (transaction.selectionMass).elim (.error .panicked) .ok
  let minimumFee ← minimumRequiredTransactionRelayFee env selectionMass
  let fee ← (transaction.calculatedFee).elim (.error .panicked) .ok
  if fee < minimumFee then
    throw (.rule (.rejectNonStandard (.rejectInsufficientFee id fee minimumFee)))

def validateTransactionInContext (transaction : MutableTransaction) : Except MempoolFault Unit :=
  if env.config.acceptNonStandard then .ok () else checkTransactionStandardInContext env transaction

-- Evictions take descendants along, so that there may be room before the list is through.
def makeRoom (transactionSize : Nat) : List Hash → PoolRun Mempool Unit
  | [] => return
  | id :: ids => do
    removeTransaction env id true
    let self ← get
    if self.transactionPool.hasRoom env transactionSize then return
    makeRoom transactionSize ids

def insertValidated (transaction : MutableTransaction) (priority : Priority) (rbfPolicy : RbfPolicy)
    (virtualDaaScore : Nat) : PoolRun Mempool TransactionPostValidation := do
  lift (validateTransactionInContext env transaction)
  let removed ← executeReplaceByFee env transaction rbfPolicy
  let self ← get
  let transactionSize := env.mempoolEstimatedBytes transaction
  let txsToRemove ← lift
    (self.transactionPool.limitTransactionCount env transaction transactionSize)
  makeRoom env transactionSize txsToRemove
  let self ← get
  require (self.transactionPool.hasRoom env transactionSize) .overCapacity
  let accepted ← onTransactionPool (TransactionsPool.addMempoolTransaction env
    (.new transaction priority virtualDaaScore) transactionSize)
  return ⟨removed, some accepted.mtx.tx⟩

def postValidateAndInsertTransaction (validationResult : Except MempoolRuleError Unit)
    (transaction : MutableTransaction) (priority : Priority) (orphan : Orphan)
    (rbfPolicy : RbfPolicy) (virtualDaaScore : Nat) :
    PoolRun Mempool TransactionPostValidation := do
  let self ← get
  let id := env.hasher.txid transaction.tx
  require (!self.transactionPool.has id) (.rule (.rejectDuplicate id))
  lift (self.validateTransactionUnacceptance id)
  match validationResult with
  | .ok _ => insertValidated env transaction priority rbfPolicy virtualDaaScore
  | .error .rejectMissingOutpoint =>
    require (orphan ≠ .forbidden) (.rule (.rejectDisallowedOrphan id))
    discard (lift (self.getReplaceByFeeConstraint env transaction.tx rbfPolicy))
    onOrphanPool
      (OrphanPool.tryAddMempoolTransactionOrphan env (.new transaction priority virtualDaaScore))
    return ⟨none, none⟩
  | .error error => throw (.rule error)

def getOrphanTransactionRbfPolicy : Priority → RbfPolicy
  | .high => .forbidden
  | .low => .allowed

def unorphanTransaction (id : Hash) : PoolRun Mempool MempoolTransaction := do
  match ← onOrphanPool (OrphanPool.removeOrphan env id false) with
  | [transaction] =>
    let self ← get
    lift (self.validateTransactionUnacceptance (transaction.id env))
    discard (lift (self.getReplaceByFeeConstraint env transaction.mtx.tx
      (getOrphanTransactionRbfPolicy transaction.priority)))
    return transaction
  | _ => throw .panicked

-- Fills the slot of the first input that spends an outpoint, if it is open.
def resolveFirstInput (outpoint : OutPoint) (metadata : CellMetadata) (mtx : MutableTransaction) :
    MutableTransaction :=
  match mtx.tx.spends.findIdx? (· = outpoint) with
  | some index =>
    if mtx.resolvedCellMetadata[index]? = some none then
      { mtx with resolvedCellMetadata := mtx.resolvedCellMetadata.set index (some metadata) }
    else mtx
  | none => mtx

def withOrphanMtx (ownerId : Hash) (mtx : MutableTransaction) : Mempool :=
  { self with
    orphanPool :=
      { self.orphanPool with
        allOrphans := self.orphanPool.allOrphans.modify ownerId fun orphan =>
          { orphan with mtx } } }

-- One output of an accepted transaction: the orphan that spends it has it resolved, and is taken
-- out when nothing is missing any more. An orphan that fails its checks then is dropped.
def unorphanAfterOutput (transaction : CellTx) (blockDaaScore : Nat)
    (unorphaned : List MempoolTransaction) (entry : CellOutput × Nat) :
    PoolRun Mempool (List MempoolTransaction) := do
  let self ← get
  let outpoint : OutPoint := ⟨env.hasher.txid transaction, entry.2⟩
  match self.orphanPool.outpointOwnerId[outpoint]?, self.orphanPool.outpointOrphan outpoint with
  | some ownerId, some orphan =>
    let mtx := resolveFirstInput outpoint (cellOutputToMetadata env.hasher outpoint entry.1
      (transaction.outputData entry.2) blockDaaScore false) orphan.mtx
    set (self.withOrphanMtx ownerId mtx)
    if mtx = orphan.mtx ∨ !mtx.isVerifiable then return unorphaned
    match ← attempt (unorphanTransaction env (orphan.id env)) with
    | .ok transaction => return unorphaned ++ [transaction]
    | .error (.rule _) => return unorphaned
    | .error fault => throw fault
  | _, _ => return unorphaned

def getUnorphanedTransactionsAfterAcceptedCellTransaction (transaction : CellTx)
    (blockDaaScore : Nat) :
    PoolRun Mempool (List MempoolTransaction) :=
  transaction.outputs.zipIdx.foldlM (unorphanAfterOutput env transaction blockDaaScore) []

def resolveTransactionIdByCellTransactionId (id : Hash) : Option Hash :=
  (self.transactionPool.cellTransactionIds[id]?).or self.orphanPool.cellTransactionIds[id]?

def getLocalTransactionIdsWithParentTransaction (parentId : Hash) : List Hash :=
  self.transactionPool.getTransactionIdsWithParentTransaction env parentId ++
    self.orphanPool.getTransactionIdsWithParentTransaction env parentId

def findLocalTransactionIdForAcceptedCellTx (acceptedTx : CellTx) : Option Hash :=
  let candidateIds := idSet (acceptedTx.spends.flatMap fun outpoint =>
    self.getLocalTransactionIdsWithParentTransaction env outpoint.txHash)
  (env.iteration candidateIds.toList).find? fun candidateId =>
    ((self.transactionPool.allTransactions[candidateId]?).or
        self.orphanPool.allOrphans[candidateId]?).any fun candidate =>
      candidate.mtx.tx = acceptedTx

def removeDoubleSpendsCell (transaction : CellTx) : PoolRun Mempool Unit := do
  let self ← get
  let transactionsToRemove := idSet (transaction.spends.filterMap fun outpoint =>
    self.transactionPool.cellSet.spentOutpointOwnerId[outpoint]?)
  (env.iteration transactionsToRemove.toList).forM fun id => removeTransaction env id true

def withAccepted (blockDaaScore : Nat) (ids : List Hash) : Mempool :=
  { self with
    acceptedTransactions :=
      { self.acceptedTransactions with
        transactions := ids.foldl (fun transactions id => transactions.insert id blockDaaScore)
          self.acceptedTransactions.transactions } }

-- An accepted transaction that is an orphan here keeps its redeemers.
def removeAccepted (id : Hash) : PoolRun Mempool Unit := do
  let self ← get
  if self.orphanPool.has id then return else removeTransaction env id false

-- Takes the orphans with a parent among some ids out, to be tried again.
def takeOrphansOf (parentIds : List Hash) (unorphaned : List MempoolTransaction) :
    PoolRun Mempool (List MempoolTransaction) := do
  let self ← get
  let candidateOrphanIds :=
    idSet (parentIds.flatMap (self.orphanPool.getTransactionIdsWithParentTransaction env))
  (env.iteration candidateOrphanIds.toList).foldlM (fun unorphaned orphanId => do
    let removed ← onOrphanPool (OrphanPool.removeOrphan env orphanId false)
    return unorphaned ++ removed) unorphaned

def handleNewBlockTransaction (blockDaaScore : Nat) (unorphaned : List MempoolTransaction)
    (transaction : CellTx) :
    PoolRun Mempool (List MempoolTransaction) := do
  let self ← get
  let transactionId := env.hasher.txid transaction
  let resolvedId := ((self.resolveTransactionIdByCellTransactionId transactionId).or
    (self.findLocalTransactionIdForAcceptedCellTx env transaction)).getD transactionId
  removeAccepted env resolvedId
  removeDoubleSpendsCell env transaction
  discard (onOrphanPool (OrphanPool.removeOrphan env resolvedId false))
  modify fun self => self.withAccepted blockDaaScore [transactionId, resolvedId]
  let newlyUnorphaned ← getUnorphanedTransactionsAfterAcceptedCellTransaction env transaction
    blockDaaScore
  if newlyUnorphaned.isEmpty then takeOrphansOf env [transactionId, resolvedId] unorphaned
  else return unorphaned ++ newlyUnorphaned

def handleNewBlockTransactions (blockDaaScore : Nat) (blockTransactions : List CellTx) :
    PoolRun Mempool (List MempoolTransaction) :=
  blockTransactions.tail.foldlM (handleNewBlockTransaction env blockDaaScore) []

def updateRevalidatedTransaction (transaction : MempoolTransaction) :
    PoolRun Mempool Bool :=
  onTransactionPool (TransactionsPool.updateRevalidatedTransaction env transaction)

def expireOrphanLowPriorityTransactions (virtualDaaScore : Nat) :
    PoolRun Mempool Unit :=
  onOrphanPool (OrphanPool.expireLowPriorityTransactions env virtualDaaScore)

def expireAcceptedTransactions (virtualDaaScore unixNow : Nat) :
    PoolRun Mempool Unit := do
  let self ← get
  let accepted := self.acceptedTransactions
  if virtualDaaScore < accepted.lastExpireScanDaaScore +
      env.config.acceptedTransactionExpireScanIntervalDaaScore ∨
      unixNow < accepted.lastExpireScanTime +
          env.config.acceptedTransactionExpireScanIntervalMilliseconds then
    return
  set { self with
    acceptedTransactions :=
      ⟨accepted.transactions.filter fun _ daaScore =>
        !decide (virtualDaaScore > daaScore + env.config.acceptedTransactionExpireIntervalDaaScore),
      virtualDaaScore, unixNow⟩ }

def collectExpiredLowPriorityTransactions (virtualDaaScore unixNow : Nat) :
    PoolRun Mempool (List Hash) :=
  onTransactionPool (TransactionsPool.collectExpiredLowPriorityTransactions env virtualDaaScore
    unixNow)

inductive Operation
  | postValidateAndInsertTransaction (validationResult : Except MempoolRuleError Unit)
      (transaction : MutableTransaction) (priority : Priority) (orphan : Orphan)
        (rbfPolicy : RbfPolicy)
      (virtualDaaScore : Nat)
  | getUnorphanedTransactionsAfterAcceptedCellTransaction (transaction : CellTx)
      (blockDaaScore : Nat)
  | removeTransaction (id : Hash) (removeRedeemers : Bool)
  | handleNewBlockTransactions (blockDaaScore : Nat) (blockTransactions : List CellTx)
  | updateRevalidatedTransaction (transaction : MempoolTransaction)
  | expireOrphanLowPriorityTransactions (virtualDaaScore : Nat)
  | expireAcceptedTransactions (virtualDaaScore unixNow : Nat)
  | collectExpiredLowPriorityTransactions (virtualDaaScore unixNow : Nat)

def Operation.run : Operation → PoolRun Mempool Unit
  | .postValidateAndInsertTransaction validationResult transaction priority orphan rbfPolicy
    virtualDaaScore =>
    discard (Mempool.postValidateAndInsertTransaction env validationResult transaction priority
      orphan rbfPolicy
      virtualDaaScore)
  | .getUnorphanedTransactionsAfterAcceptedCellTransaction transaction blockDaaScore =>
    discard (Mempool.getUnorphanedTransactionsAfterAcceptedCellTransaction env transaction
      blockDaaScore)
  | .removeTransaction id removeRedeemers => Mempool.removeTransaction env id removeRedeemers
  | .handleNewBlockTransactions blockDaaScore blockTransactions =>
    discard (Mempool.handleNewBlockTransactions env blockDaaScore blockTransactions)
  | .updateRevalidatedTransaction transaction =>
    discard (Mempool.updateRevalidatedTransaction env transaction)
  | .expireOrphanLowPriorityTransactions virtualDaaScore =>
    Mempool.expireOrphanLowPriorityTransactions env virtualDaaScore
  | .expireAcceptedTransactions virtualDaaScore unixNow =>
    Mempool.expireAcceptedTransactions env virtualDaaScore unixNow
  | .collectExpiredLowPriorityTransactions virtualDaaScore unixNow =>
    discard (Mempool.collectExpiredLowPriorityTransactions env virtualDaaScore unixNow)

-- The states that operations of a kind lead to from the empty mempool, whatever they return and in
-- whatever order the hash tables are walked through.
inductive Reachable (allowed : Mempool → Operation → Prop) : Mempool → Prop
  | new (unixNow : Nat) : Reachable allowed (.new env unixNow)
  | step {s : Mempool} (operation : Operation) (iteration : List Hash → List Hash)
      (iteration_perm : ∀ ids, (iteration ids).Perm ids) (reachable : Reachable allowed s)
        (ok : allowed s operation) :
      Reachable allowed ((operation.run { env with iteration, iteration_perm }).after s)

variable {env}

variable {allowed : Mempool → Operation → Prop}

theorem Reachable.then {s} (hs : Reachable env allowed s)
    (op) (ok : allowed s op) : Reachable env allowed ((op.run env).after s) :=
  .step op env.iteration env.iteration_perm hs ok

def Follows (env : MempoolServices) (allowed : Mempool → Operation → Prop) :
    Mempool → List Operation → Prop
  | _, [] => True
  | s, operation :: operations => allowed s operation ∧
      Follows env allowed ((operation.run env).after s) operations

instance Follows.decidable {allowed : Mempool → Operation → Prop}
    [∀ s operation, Decidable (allowed s operation)] :
    ∀ (s : Mempool) (operations : List Operation), Decidable (Follows env allowed s operations)
  | _, [] => .isTrue trivial
  | _, _ :: operations => @instDecidableAnd _ _ _ (Follows.decidable _ operations)

def afterAll (env : MempoolServices) (operations : List Operation) : Mempool :=
  operations.foldl (fun s operation => (operation.run env).after s) (.new env 0)

theorem Reachable.follow {s} (hs : Reachable env allowed s) {ops} (h : Follows env allowed s ops) :
    Reachable env allowed (ops.foldl (fun s op => (op.run env).after s) s) := by
  induction ops generalizing s with
  | nil => exact hs
  | cons op ops ih => exact ih (hs.then op h.1) h.2

theorem reachable_afterAll {ops}
    (h : Follows env allowed (.new env 0) ops) : Reachable env allowed (afterAll env ops) :=
  (Reachable.new 0).follow h

end Mempool

end Spora
