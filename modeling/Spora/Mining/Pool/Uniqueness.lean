import Spora.Mining.Pool.Parts

namespace Spora

open Std Stateful ExtTreeMap

namespace Mempool

variable {env : MempoolServices} {A B : Hash → Prop}

def TransactionsPool.Within (A : Hash → Prop) (pool : TransactionsPool) : Prop :=
  ∀ id ∈ pool.allTransactions, A id

def OrphanPool.Within (B : Hash → Prop) (pool : OrphanPool) : Prop := ∀ id ∈ pool.allOrphans, B id

abbrev Within (A B : Hash → Prop) : Mempool → Prop :=
  Parts (TransactionsPool.Within A) (OrphanPool.Within B)

namespace OrphanPool

theorem Within.withOrphan {self : OrphanPool} (h : self.Within B) {transaction}
    (hid : B (transaction.id env)) : (self.withOrphan env transaction).Within B := by
  intro other ho
  rcases mem_insert.mp ho with heq | ho
  · rw [LawfulEqCmp.compare_eq_iff_eq] at heq
    exact heq ▸ hid
  · exact h other ho

theorem stable_within : OrphanPool.Stable env (Within B) where
  withoutOrphan _ _ h other hother := h other (mem_of_mem_erase hother)
  withMtx _ _ h other hother := h other (mem_modify.mp hother)
  scanned _ h := h

end OrphanPool

namespace TransactionsPool

theorem onCellPool_keeps {α} (id : Hash) (step : Stateful CellPoolError CellPool α) :
    Keeps (Within A) (onCellPool id step) :=
  .ofZoom (J := fun _ => True) (Triple.intro fun _ _ => by split <;>
    trivial) (fun _ _ => trivial) fun _ _ h _ => h

theorem refreshReadyStatus_keeps (id : Hash) : Keeps (Within A) (refreshReadyStatus env id) := by
  refine .ofGet fun self hs => ?_
  split
  · exact .ofPure
  · exact .bind .ofOkOr fun _ => .ofSet hs

theorem subEstimatedSize_keeps (bytes : Nat) : Keeps (Within A) (subEstimatedSize bytes) :=
  .ofGet fun _ hs => .bind .ofRequire fun _ => .ofSet hs

theorem removeCellMirror_keeps (id : Hash) (wtxid) :
    Keeps (Within A) (removeCellMirror id wtxid) := by
  cases wtxid with
  | none => exact .ofPure
  | some wtxid => exact .map (onCellPool_keeps id _)

theorem takeOut_keeps (id : Hash) (old) :
    Keeps (Within A) (takeOut env id old) := by
  refine .bind (.ofModify fun _ h => h) fun _ => .bind .ofOkOr fun removed => ?_
  refine .bind (.ofModify fun pool h other ho => h other (mem_of_mem_erase ho)) fun _ => ?_
  refine .bind .ofOkOr fun _ => .bind (.ofModify fun _ h => h) fun _ => ?_
  exact .bind (subEstimatedSize_keeps _) fun _ => .ofPure

theorem removeTransaction_keeps (id : Hash) : Keeps (Within A) (removeTransaction env id) := by
  refine .ofGet fun self _ => .bind (removeCellMirror_keeps id _) fun _ =>
    .bind (takeOut_keeps id _) fun removed => ?_
  refine .ofGet fun _ _ => .bind (.forM fun child _ => refreshReadyStatus_keeps child) fun _ => ?_
  exact .ofGet fun _ _ => .bind .ofRequire fun _ => .ofPure

theorem Within.insert {self : TransactionsPool} (h : self.Within A) {id} (hid : A id)
    (transaction) : ∀ other ∈ self.allTransactions.insert id transaction, A other := by
  intro other ho
  rcases mem_insert.mp ho with heq | ho
  · rw [LawfulEqCmp.compare_eq_iff_eq] at heq
    exact heq ▸ hid
  · exact h other ho

theorem addMempoolTransaction_keeps {transaction} (hid : A (transaction.id env)) (size : Nat) :
    Keeps (Within A) (addMempoolTransaction env transaction size) := by
  refine .ofGet fun self _ => .bind .ofRequire fun _ => .bind .ofRequire fun _ =>
    .bind .ofLift fun _ => ?_
  refine Triple.bind (Q := fun mirrored pool => mirrored.id env = transaction.id env ∧
    pool.Within A) ?_ fun mirrored => ?_
  · refine Triple.bind Keeps.ofOkOr fun fee => Triple.bind Keeps.ofOkOr fun cycles => ?_
    exact Triple.bind (onCellPool_keeps _ _) fun wtxid => Triple.ofPure fun _ hp => ⟨rfl, hp⟩
  · refine Triple.assume fun hm => ?_
    refine Keeps.bind (.ofModify fun pool hp => ?_) fun _ =>
      .bind (refreshReadyStatus_keeps _) fun _ => .ofPure
    exact hp.insert (hm ▸ hid) _

theorem removePreviousMirror_keeps (id : Hash) (wtxid) :
    Keeps (Within A) (removePreviousMirror id wtxid) := by
  cases wtxid with
  | none => exact .ofPure
  | some wtxid =>
    refine .bind (.ofAttempt (onCellPool_keeps id _)) fun r => ?_
    cases r with
    | error _ => exact .ofPure
    | ok _ => exact .bind (.ofModify fun _ h => h) fun _ => .ofPure

theorem restoreMirror_keeps {transaction} (hid : A (transaction.id env)) (fee cycles : Nat)
    (prev) : Keeps (Within A) (restoreMirror env transaction fee cycles prev) := by
  refine .bind (.ofAttempt (onCellPool_keeps _ _)) fun r => ?_
  cases r with
  | error _ => exact .ofPure
  | ok wtxid =>
    refine .bind (.ofModify fun _ h => ?_) fun _ => .bind (refreshReadyStatus_keeps _) fun _ =>
      .ofPure
    exact h.insert hid _

theorem updateRevalidatedTransaction_keeps (transaction) :
    Keeps (Within A) (updateRevalidatedTransaction env transaction) := by
  refine .ofGet fun self hs => .bind (removePreviousMirror_keeps _ _) fun removed =>
    .ite (fun _ => .ofPure) fun _ => ?_
  cases he : self.allTransactions[transaction.id env]? with
  | none => exact .ofPure
  | some old =>
    have hid := hs _ (TreeMap.mem_of_getElem? he)
    dsimp only
    split
    · exact .ofPure
    · refine .bind (subEstimatedSize_keeps _) fun _ => .bind (.ofModify fun _ h => h) fun _ => ?_
      split
      · exact .ofPure
      · refine .bind (.ofModify fun _ h => h.insert hid _) fun _ => ?_
        split
        · exact .ofPure
        · refine restoreMirror_keeps ?_ _ _ _
          exact hid

theorem stable_within : TransactionsPool.Stable env (Within A) where
  removeTransaction := removeTransaction_keeps
  scanned _ _ h := h

end TransactionsPool

theorem stable_within : Stable env (TransactionsPool.Within A) (OrphanPool.Within B) :=
  ⟨TransactionsPool.stable_within, OrphanPool.stable_within⟩

def Unique (s : Mempool) : Prop :=
  ∀ id, ¬ (id ∈ s.transactionPool.allTransactions ∧ id ∈ s.orphanPool.allOrphans)

-- A validated transaction that is to be inserted is not an orphan at the time.
def Operation.InsertsNoOrphan (env : MempoolServices) (s : Mempool) : Operation → Prop
  | .postValidateAndInsertTransaction (.ok _) transaction _ _ _ _ =>
    env.hasher.txid transaction.tx ∉ s.orphanPool.allOrphans
  | _ => True

instance (env : MempoolServices) (s : Mempool) :
    ∀ operation : Operation, Decidable (operation.InsertsNoOrphan env s)
  | .postValidateAndInsertTransaction (.ok _) transaction _ _ _ _ =>
    inferInstanceAs (Decidable (env.hasher.txid transaction.tx ∉ s.orphanPool.allOrphans))
  | .postValidateAndInsertTransaction (.error _) _ _ _ _ _ => .isTrue trivial
  | .getUnorphanedTransactionsAfterAcceptedCellTransaction .. => .isTrue trivial
  | .removeTransaction .. => .isTrue trivial
  | .handleNewBlockTransactions .. => .isTrue trivial
  | .updateRevalidatedTransaction .. => .isTrue trivial
  | .expireOrphanLowPriorityTransactions .. => .isTrue trivial
  | .expireAcceptedTransactions .. => .isTrue trivial
  | .collectExpiredLowPriorityTransactions .. => .isTrue trivial

theorem Within.self (s : Mempool) :
    s.Within (· ∈ s.transactionPool.allTransactions) (· ∈ s.orphanPool.allOrphans) :=
  ⟨fun _ => id, fun _ => id⟩

theorem Within.mono {A' B'} {s : Mempool} (h : s.Within A B) (hA : ∀ id, A id → A' id)
    (hB : ∀ id, B id → B' id) : s.Within A' B' :=
  ⟨fun id hid => hA id (h.transactionPool id hid), fun id hid => hB id (h.orphanPool id hid)⟩

theorem Unique.of_within {t : Mempool} (h : ∀ id, A id → ¬ B id) (ht : t.Within A B) : t.Unique :=
  fun id hid => h id (ht.transactionPool id hid.1) (ht.orphanPool id hid.2)

variable {transaction : MutableTransaction}

theorem postValidateAndInsertTransaction_of_has {s}
    (h : env.hasher.txid transaction.tx ∈ s.transactionPool.allTransactions) (res prio orph rbf)
    (daa : Nat) :
    (postValidateAndInsertTransaction env res transaction prio orph rbf daa).after s = s := by
  have hholds : (!s.transactionPool.has (env.hasher.txid transaction.tx)) = false := by
    simp [TransactionsPool.has, h]
  unfold postValidateAndInsertTransaction Stateful.after
  rw [exec_bind, exec_get]
  dsimp only
  rw [hholds]
  rfl

variable {s : Mempool}

theorem Unique.after_insert (h : s.Unique)
    (horphan : env.hasher.txid transaction.tx ∉ s.orphanPool.allOrphans) (prio orph rbf)
    (daa : Nat) :
    ((postValidateAndInsertTransaction env (.ok ()) transaction prio orph rbf
      daa).after s).Unique := by
  have hk : Keeps (Within (fun id => id ∈ s.transactionPool.allTransactions ∨
      id = env.hasher.txid transaction.tx) (· ∈ s.orphanPool.allOrphans))
      (postValidateAndInsertTransaction env (.ok ()) transaction prio orph rbf daa) :=
    stable_within.postValidateAndInsertTransaction
      (fun _ => TransactionsPool.addMempoolTransaction_keeps (.inr rfl) _)
        (fun hne => absurd rfl hne) _ _
  refine .of_within ?_ (hk.after ((Within.self s).mono (fun _ => .inl) fun _ => id))
  rintro id (hid | rfl)
  · exact fun hid' => h id ⟨hid, hid'⟩
  · exact horphan

theorem Unique.after_reject (h : s.Unique) {error} (prio orph rbf) (daa : Nat) :
    ((postValidateAndInsertTransaction env (.error error) transaction prio orph rbf
      daa).after s).Unique := by
  by_cases hp : env.hasher.txid transaction.tx ∈ s.transactionPool.allTransactions
  · rw [postValidateAndInsertTransaction_of_has hp]
    exact h
  · have hk : Keeps (Within (· ∈ s.transactionPool.allTransactions)
        (fun id => id ∈ s.orphanPool.allOrphans ∨ id = env.hasher.txid transaction.tx))
        (postValidateAndInsertTransaction env (.error error) transaction prio orph rbf daa) := by
      refine stable_within.postValidateAndInsertTransaction ?_
        (fun _ _ hp => hp.withOrphan (.inr rfl)) _ _
      intro heq
      contradiction
    refine .of_within ?_ (hk.after ((Within.self s).mono (fun _ => id) fun _ => .inl))
    rintro id hid (hid' | rfl)
    · exact h id ⟨hid, hid'⟩
    · exact hp hid

theorem Unique.after_run (h : s.Unique) {op : Operation} (hop : op.InsertsNoOrphan env s) :
    ((op.run env).after s).Unique := by
  have hk : op.Respects env (TransactionsPool.Within (· ∈ s.transactionPool.allTransactions))
      (OrphanPool.Within (· ∈ s.orphanPool.allOrphans)) → ((op.run env).after s).Unique := fun hr =>
    .of_within (fun id hp ho => h id ⟨hp, ho⟩) ((stable_within.run hr).after (Within.self s))
  cases op with
  | postValidateAndInsertTransaction res transaction prio orph rbf daa =>
    rw [Operation.run, after_discard]
    cases res with
    | ok _ => exact h.after_insert hop prio orph rbf daa
    | error _ => exact h.after_reject prio orph rbf daa
  | updateRevalidatedTransaction transaction =>
    exact hk (TransactionsPool.updateRevalidatedTransaction_keeps transaction)
  | _ => exact hk trivial

theorem Unique.of_reachable (hs : Reachable env (Operation.InsertsNoOrphan env) s) : s.Unique := by
  induction hs with
  | new now => exact fun id hid => not_mem_empty hid.1
  | step op iteration iteration_perm _ hop ih => exact ih.after_run hop

theorem reachable_unique (hs : Reachable env (Operation.InsertsNoOrphan env) s) : s.Unique :=
  Unique.of_reachable hs

section Sample

def sampleServices (maximumTransactionCount mempoolSizeLimit : Nat) : MempoolServices where
  config :=
    { maximumTransactionCount, mempoolSizeLimit
      transactionExpireIntervalDaaScore := 60
      transactionExpireScanIntervalDaaScore := 10
      transactionExpireScanIntervalMilliseconds := 10000
      acceptedTransactionExpireIntervalDaaScore := 120
      acceptedTransactionExpireScanIntervalDaaScore := 10
      acceptedTransactionExpireScanIntervalMilliseconds := 10000
      orphanExpireIntervalDaaScore := 60
      orphanExpireScanIntervalDaaScore := 10
      maximumOrphanTransactionMass := 100000
      maximumOrphanTransactionCount := 500
      acceptNonStandard := false
      minimumRelayTransactionFee := 1000 }
  hasher := .sample
  wtxid := Hasher.sample.txid
  txid_eq_of_wtxid_eq := id
  weight fee mass := fee * 1000000 / mass
  feerateGt a b := a.1 * b.2 > b.1 * a.2
  beats a b := a.2.1 > b.2.1
  mempoolEstimatedBytes mtx := 100 * (mtx.tx.inputs.length + mtx.tx.outputs.length)
  iteration ids := ids
  iteration_perm := List.Perm.refl

def sampleTx (inputs : List OutPoint) (capacities : List Nat) : CellTx where
  version := CELL_TX_VERSION
  inputs := inputs.map fun previousOutput => ⟨previousOutput, 0⟩
  cellDeps := []
  headerDeps := []
  outputs := capacities.map fun capacity => ⟨default, none, capacity⟩
  outputsData := capacities.map fun _ => []
  witnesses := []

def sampleMetadata (outPoint : OutPoint) : CellMetadata :=
  cellOutputToMetadata Hasher.sample outPoint ⟨default, none, 1000⟩ [] 0 false

def sampleMutableTx (inputs : List OutPoint) (capacities : List Nat) (fee : Nat) :
    MutableTransaction where
  tx := sampleTx inputs capacities
  resolvedCellMetadata := inputs.map fun outPoint => some (sampleMetadata outPoint)
  calculatedFee := some fee
  calculatedNonContextualMasses := some ⟨1000, 1000⟩
  calculatedContextualMasses := some ⟨1000⟩
  verifiedCycles := some 5000

def sampleInsertion (validationResult : Except MempoolRuleError Unit)
    (transaction : MutableTransaction) : Operation :=
  .postValidateAndInsertTransaction validationResult transaction .low .allowed .allowed 100

-- The first submission misses an outpoint, the second does not any more.
def resubmittedTx : MutableTransaction := sampleMutableTx [⟨1, 0⟩] [900] 5000

theorem resubmitted_in_both_pools : ∃ s, Reachable (sampleServices 10 100000) (fun _ _ => True) s ∧
    s = afterAll (sampleServices 10 100000) [sampleInsertion (.error .rejectMissingOutpoint)
      resubmittedTx, sampleInsertion (.ok ()) resubmittedTx] ∧ ¬ s.Unique := by
  refine ⟨_, reachable_afterAll (by decide +kernel), rfl,
    fun hu => hu (Hasher.sample.txid resubmittedTx.tx) ?_⟩
  decide +kernel

theorem unique_afterOrphan :
    let s := afterAll (sampleServices 10 100000)
      [sampleInsertion (.error .rejectMissingOutpoint) (sampleMutableTx [⟨2, 0⟩] [900] 5000),
        sampleInsertion (.ok ()) resubmittedTx]
    s.Unique ∧ s.transactionPool.allTransactions.size = 1 ∧ s.orphanPool.allOrphans.size = 1 := by
  exact ⟨reachable_unique (reachable_afterAll (by decide +kernel)), by decide +kernel,
    by decide +kernel⟩

end Sample

end Mempool

end Spora
