import Spora.Mining.Pool.Mempool

namespace Spora

open Std Stateful

namespace Mempool

variable {env : MempoolServices}

section Orphans

-- An invariant that orphans may leave under, be changed under and be scanned under.
structure OrphanPool.Stable (env : MempoolServices) (Q : OrphanPool → Prop) : Prop where
  withoutOrphan : ∀ {pool : OrphanPool} (id : Hash) (transaction : MempoolTransaction), Q pool →
    Q (pool.withoutOrphan env id transaction)
  withMtx : ∀ {pool : OrphanPool} (id : Hash) (f : MutableTransaction → MutableTransaction),
    Q pool → Q { pool with allOrphans := pool.allOrphans.modify id fun orphan => { orphan
      with mtx := f orphan.mtx } }
  scanned : ∀ {pool : OrphanPool} (lastExpireScan : Nat), Q pool → Q { pool with lastExpireScan }

namespace OrphanPool.Stable

variable {Q : OrphanPool → Prop} (hQ : OrphanPool.Stable env Q)

include hQ

theorem removeSingleOrphan (id : Hash) : Keeps Q (removeSingleOrphan env id) := by
  refine .ofGet fun self hs => .bind .ofOkOr fun tx =>
    .bind (.ofSet (hQ.withoutOrphan id tx hs)) fun _ => ?_
  split
  · exact .ofThrow
  · exact .ofPure

theorem removeOrphans (ids) : Keeps Q (removeOrphans env ids) :=
  .mapM fun id _ => hQ.removeSingleOrphan id

theorem removeOrphan (id : Hash) (redeem : Bool) : Keeps Q (removeOrphan env id redeem) := by
  refine .ofGet fun self hs => .ite (fun _ => .ofPure) fun _ => ?_
  exact hQ.removeOrphans _

theorem limitOrphanPoolSizeFrom (freeSlots turns : Nat) :
    Keeps Q (limitOrphanPoolSizeFrom env freeSlots turns) := by
  induction turns with
  | zero => exact .ofPure
  | succ turns ih =>
    refine .ofGet fun self hs => .ite (fun _ => ?_) fun _ => .ofPure
    split
    · exact .ofThrow
    · exact .bind (.map (hQ.removeOrphan _ _)) fun _ => ih

theorem tryAddMempoolTransactionOrphan {tx} (hadd : ∀ pool, Q pool → Q (pool.withOrphan env tx)) :
    Keeps Q (tryAddMempoolTransactionOrphan env tx) := by
  refine .ite (fun _ => .ofPure) fun _ => .ofGet fun self _ => ?_
  refine .bind .ofLift fun _ => .bind .ofLift fun _ => .bind .ofLift fun _ => ?_
  exact .bind (.ofGet fun _ _ => hQ.limitOrphanPoolSizeFrom _ _) fun _ => .ofModify hadd

theorem forgetOutpoint {pool} (h : Q pool) (o) : Q (pool.forgetOutpoint o) := by
  unfold OrphanPool.forgetOutpoint
  split
  · exact h
  · exact hQ.withMtx _ _ h

theorem updateOrphansAfterTransactionRemoved (removed) (redeem : Bool) :
    Keeps Q (updateOrphansAfterTransactionRemoved env removed redeem) := by
  refine .ite (fun _ => .ofGet fun _ _ => hQ.removeOrphans _) fun _ => ?_
  refine .bind (.ofModify fun pool hp => ?_) fun _ => .ofPure
  induction removed.mtx.tx.creates env.hasher generalizing pool with
  | nil => exact hp
  | cons o os ih => exact ih _ (hQ.forgetOutpoint hp o)

theorem expireLowPriorityTransactions (daa : Nat) :
    Keeps Q (expireLowPriorityTransactions env daa) := by
  refine .ofGet fun self _ => .ite (fun _ => .ofPure) fun _ => ?_
  exact .bind (.forM fun id _ => .map (hQ.removeOrphan id false)) fun _ => .ofModify fun _ =>
    hQ.scanned daa

end OrphanPool.Stable

end Orphans

structure TransactionsPool.Stable (env : MempoolServices) (P : TransactionsPool → Prop) : Prop where
  removeTransaction : ∀ id : Hash, Keeps P (TransactionsPool.removeTransaction env id)
  scanned : ∀ {pool : TransactionsPool} (lastExpireScanDaaScore lastExpireScanTime : Nat), P pool →
    P { pool with lastExpireScanDaaScore, lastExpireScanTime }

structure Parts (P : TransactionsPool → Prop) (Q : OrphanPool → Prop) (s : Mempool) : Prop where
  transactionPool : P s.transactionPool
  orphanPool : Q s.orphanPool

structure Stable (env : MempoolServices) (P : TransactionsPool → Prop) (Q : OrphanPool → Prop) :
    Prop where
  transactionPool : TransactionsPool.Stable env P
  orphanPool : OrphanPool.Stable env Q

variable {P : TransactionsPool → Prop} {Q : OrphanPool → Prop}

theorem onTransactionPool_keeps {α} {step : PoolRun TransactionsPool α}
    (h : Keeps P step) : Keeps (Parts P Q) (onTransactionPool step) :=
  .ofZoom h (fun _ hs => hs.transactionPool) fun _ _ hs ht => ⟨ht, hs.orphanPool⟩

theorem onOrphanPool_keeps {α} {step : PoolRun OrphanPool α}
    (h : Keeps Q step) : Keeps (Parts P Q) (onOrphanPool step) :=
  .ofZoom h (fun _ hs => hs.orphanPool) fun _ _ hs ht => ⟨hs.transactionPool, ht⟩

namespace Stable

variable (h : Stable env P Q)

include h

theorem removeTransaction (id : Hash) (redeem : Bool) :
    Keeps (Parts P Q) (removeTransaction env id redeem) := by
  refine .ofGet fun self _ =>
    .ite (fun _ => .map (onOrphanPool_keeps (h.orphanPool.removeOrphan id true))) fun _ => ?_
  refine .ite (fun _ => .forM fun txId _ => ?_) fun _ => .ofPure
  refine .bind (onTransactionPool_keeps (h.transactionPool.removeTransaction txId)) fun tx => ?_
  exact .map (onOrphanPool_keeps (h.orphanPool.updateOrphansAfterTransactionRemoved tx redeem))

theorem replaceDoubleSpends (tx dss) : Keeps (Parts P Q) (replaceDoubleSpends env tx dss) := by
  cases dss with
  | nil => exact .ofPure
  | cons first rest =>
    refine .ofGet fun _ _ => .bind .ofLift fun _ => .bind .ofLift fun _ => ?_
    exact .bind (.forM fun ds _ => h.removeTransaction _ true) fun _ => .ofPure

theorem executeReplaceByFee (tx rbf) : Keeps (Parts P Q) (executeReplaceByFee env tx rbf) := by
  refine .ofGet fun self _ => ?_
  cases rbf with
  | forbidden => exact .bind .ofLift fun _ => .ofPure
  | allowed => exact h.replaceDoubleSpends _ _
  | mandatory =>
    dsimp only
    split
    · exact .ofThrow
    · exact h.replaceDoubleSpends _ _
    · exact .ofThrow

theorem makeRoom (size : Nat) (ids) : Keeps (Parts P Q) (makeRoom env size ids) := by
  induction ids with
  | nil => exact .ofPure
  | cons id ids ih =>
    exact .bind (h.removeTransaction id true) fun _ => .ofGet fun _ _ =>
      .ite (fun _ => .ofPure) fun _ => ih

theorem insertValidated {tx prio daa}
    (hadd : Keeps P (TransactionsPool.addMempoolTransaction env (.new tx prio daa)
      (env.mempoolEstimatedBytes tx))) (rbf) :
    Keeps (Parts P Q) (insertValidated env tx prio rbf daa) := by
  refine .bind .ofLift fun _ => .bind (h.executeReplaceByFee _ _) fun _ => .ofGet fun _ _ => ?_
  refine .bind .ofLift fun _ => .bind (h.makeRoom _ _) fun _ => .ofGet fun _ _ =>
    .bind .ofRequire fun _ => ?_
  exact .bind (onTransactionPool_keeps hadd) fun _ => .ofPure

theorem postValidateAndInsertTransaction {res tx prio daa}
    (hadd : res = .ok () → Keeps P (TransactionsPool.addMempoolTransaction env
      (.new tx prio daa) (env.mempoolEstimatedBytes tx)))
    (horphan : res ≠ .ok () → ∀ pool, Q pool → Q (pool.withOrphan env (.new tx prio daa)))
    (orph rbf) :
    Keeps (Parts P Q)
    (postValidateAndInsertTransaction env res tx prio orph rbf daa) := by
  refine .ofGet fun self _ => .bind .ofRequire fun _ => .bind .ofLift fun _ => ?_
  split
  · exact h.insertValidated (hadd rfl) _
  · refine .bind .ofRequire fun _ => .bind (.map .ofLift) fun _ => ?_
    exact .bind (onOrphanPool_keeps (h.orphanPool.tryAddMempoolTransactionOrphan (horphan nofun)))
      fun _ => .ofPure
  · exact .ofThrow

theorem unorphanTransaction (id : Hash) : Keeps (Parts P Q) (unorphanTransaction env id) := by
  refine .bind (onOrphanPool_keeps (h.orphanPool.removeOrphan id false)) fun txs => ?_
  split
  · exact .ofGet fun _ _ => .bind .ofLift fun _ => .bind (.map .ofLift) fun _ => .ofPure
  · exact .ofThrow

theorem withOrphanMtx {s : Mempool} (hs : s.Parts P Q) (ownerId : Hash) (mtx) :
    (s.withOrphanMtx ownerId mtx).Parts P Q :=
  ⟨hs.transactionPool, h.orphanPool.withMtx ownerId (fun _ => mtx) hs.orphanPool⟩

theorem unorphanAfterOutput (tx) (daa : Nat) (un entry) :
    Keeps (Parts P Q) (unorphanAfterOutput env tx daa un entry) := by
  refine .ofGet fun self hs => ?_
  dsimp only
  split
  · refine .bind (.ofSet (h.withOrphanMtx hs _ _)) fun _ => .ite (fun _ => .ofPure) fun _ => ?_
    refine .bind (.ofAttempt (h.unorphanTransaction _)) fun r => ?_
    split
    · exact .ofPure
    · exact .ofPure
    · exact .ofThrow
  · exact .ofPure

theorem getUnorphanedTransactionsAfterAcceptedCellTransaction (tx) (daa : Nat) :
    Keeps (Parts P Q) (getUnorphanedTransactionsAfterAcceptedCellTransaction env tx daa) :=
  .foldlM fun un entry _ => h.unorphanAfterOutput tx daa un entry

theorem removeDoubleSpendsCell (tx) : Keeps (Parts P Q) (removeDoubleSpendsCell env tx) :=
  .ofGet fun _ _ => .forM fun id _ => h.removeTransaction id true

theorem takeOrphansOf (parentIds un) : Keeps (Parts P Q) (takeOrphansOf env parentIds un) :=
  .ofGet fun _ _ => .foldlM fun _ orphanId _ =>
    .bind (onOrphanPool_keeps (h.orphanPool.removeOrphan orphanId false)) fun _ => .ofPure

theorem handleNewBlockTransaction (daa : Nat) (un tx) :
    Keeps (Parts P Q) (handleNewBlockTransaction env daa un tx) := by
  refine .ofGet fun self _ =>
    .bind (.ofGet fun _ _ => .ite (fun _ => .ofPure) fun _ => h.removeTransaction _ _) fun _ => ?_
  refine .bind (h.removeDoubleSpendsCell tx) fun _ => ?_
  refine .bind (.map (onOrphanPool_keeps (h.orphanPool.removeOrphan _ false))) fun _ => ?_
  refine .bind (.ofModify fun _ hs => ⟨hs.transactionPool, hs.orphanPool⟩) fun _ => ?_
  refine .bind (h.getUnorphanedTransactionsAfterAcceptedCellTransaction _ _) fun newlyUnorphaned =>
    ?_
  exact .ite (fun _ => h.takeOrphansOf _ _) fun _ => .ofPure

theorem handleNewBlockTransactions (daa : Nat) (txs) :
    Keeps (Parts P Q) (handleNewBlockTransactions env daa txs) :=
  .foldlM fun un tx _ => h.handleNewBlockTransaction daa un tx

omit h in
theorem expireAcceptedTransactions (daa now : Nat) :
    Keeps (Parts P Q) (expireAcceptedTransactions env daa now) :=
  .ofGet fun _ hs => .ite (fun _ => .ofPure) fun _ => .ofSet ⟨hs.transactionPool, hs.orphanPool⟩

theorem collectExpiredLowPriorityTransactions (daa now : Nat) :
    Keeps (Parts P Q) (collectExpiredLowPriorityTransactions env daa now) := by
  refine onTransactionPool_keeps (.ofGet fun _ hs => .ite (fun _ => .ofPure) fun _ => ?_)
  exact .bind (.ofSet (h.transactionPool.scanned _ _ hs)) fun _ => .ofPure

end Stable

def Operation.Respects (env : MempoolServices) (P : TransactionsPool → Prop)
    (Q : OrphanPool → Prop) : Operation → Prop
  | .postValidateAndInsertTransaction (.ok _) transaction priority _ _ virtualDaaScore =>
    Keeps P (TransactionsPool.addMempoolTransaction env (.new transaction priority virtualDaaScore)
      (env.mempoolEstimatedBytes transaction))
  | .postValidateAndInsertTransaction (.error _) transaction priority _ _ virtualDaaScore =>
    ∀ pool, Q pool → Q (pool.withOrphan env (.new transaction priority virtualDaaScore))
  | .updateRevalidatedTransaction transaction =>
    Keeps P (TransactionsPool.updateRevalidatedTransaction env transaction)
  | _ => True

theorem Stable.run (h : Stable env P Q) {op : Operation} (hop : op.Respects env P Q) :
    Keeps (Parts P Q) (op.run env) := by
  cases op with
  | postValidateAndInsertTransaction res tx prio orph rbf virtualDaaScore =>
    cases res with
    | ok _ =>
      refine .map (h.postValidateAndInsertTransaction (fun _ => hop) ?_ _ _)
      exact fun hne => absurd rfl hne
    | error _ =>
      refine .map (h.postValidateAndInsertTransaction ?_ (fun _ => hop) _ _)
      intro heq
      contradiction
  | getUnorphanedTransactionsAfterAcceptedCellTransaction tx daa =>
    exact .map (h.getUnorphanedTransactionsAfterAcceptedCellTransaction _ _)
  | removeTransaction id redeem => exact h.removeTransaction _ _
  | handleNewBlockTransactions daa txs => exact .map (h.handleNewBlockTransactions _ _)
  | updateRevalidatedTransaction tx => exact .map (onTransactionPool_keeps hop)
  | expireOrphanLowPriorityTransactions virtualDaaScore =>
    exact onOrphanPool_keeps (h.orphanPool.expireLowPriorityTransactions _)
  | expireAcceptedTransactions virtualDaaScore now => exact expireAcceptedTransactions _ _
  | collectExpiredLowPriorityTransactions virtualDaaScore now =>
    exact .map (h.collectExpiredLowPriorityTransactions _ _)

end Mempool

end Spora
