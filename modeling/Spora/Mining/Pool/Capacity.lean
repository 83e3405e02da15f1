import Spora.Mining.Pool.Replacement

namespace Spora

open Std Stateful Outcome ExtTreeMap TransactionsPool List

namespace Mempool

variable {env : MempoolServices}

namespace TransactionsPool

-- No outpoint is spent twice, the index of the spent outpoints is exact and the limits are kept.
structure Sound (env : MempoolServices) (pool : TransactionsPool) : Prop where
  conflictFree : ∀ {outpoint : OutPoint} {id other : Hash} {tx otherTx : MempoolTransaction},
    pool.allTransactions[id]? = some tx → pool.allTransactions[other]? = some otherTx →
      outpoint ∈ tx.mtx.tx.spends → outpoint ∈ otherTx.mtx.tx.spends → id = other
  spent : ∀ {outpoint : OutPoint} {id : Hash}, pool.cellSet.spentOutpointOwnerId[outpoint]? =
    some id ↔ ∃ tx : MempoolTransaction, pool.allTransactions[id]? = some tx ∧
      outpoint ∈ tx.mtx.tx.spends
  count : pool.len ≤ env.config.maximumTransactionCount
  size : pool.estimatedSize ≤ env.config.mempoolSizeLimit

variable {pool : TransactionsPool} {outpoints : List OutPoint}

structure Admits (env : MempoolServices) (outpoints : List OutPoint) (pool : TransactionsPool) :
    Prop where
  coherent : pool.Coherent env
  sound : pool.Sound env
  free : ∀ outpoint ∈ outpoints, pool.cellSet.spentOutpointOwnerId[outpoint]? = none

section Removal

variable {id : Hash} {tx : MempoolTransaction} {e : PoolEntry} {key : FeerateTransactionKey}

theorem getElem?_spent_removed (o) :
    (Coherent.removed env pool id tx e key).cellSet.spentOutpointOwnerId[o]? =
      if o ∈ tx.mtx.tx.spends then none else pool.cellSet.spentOutpointOwnerId[o]? :=
  TreeMap.getElem?_foldl_erase o

theorem sound_removed (h : pool.Sound env) (htx : pool.allTransactions[id]? = some tx) :
    (Coherent.removed env pool id tx e key).Sound env := by
  have hget : ∀ {other} {ot}, (Coherent.removed env pool id tx e key).allTransactions[other]? =
        some ot ↔ id ≠ other ∧ pool.allTransactions[other]? = some ot := by
    intro other ot
    have hall : (Coherent.removed env pool id tx e key).allTransactions =
        (Coherent.takenOut env (Coherent.withoutMirror pool (env.wtxid tx.mtx.tx) e) id tx
          key).allTransactions := rfl
    rw [hall]
    exact Coherent.getElem?_takenOut_eq_some
  refine ⟨fun hone ho => ?_, fun {o other} => ?_, ?_, ?_⟩
  · exact h.conflictFree (hget.mp hone).2 (hget.mp ho).2
  · rw [getElem?_spent_removed]
    simp only [hget]
    split_ifs with hmem
    · simp only [false_iff, not_exists, not_and]
      rintro ot ⟨hne, hot⟩ hs
      exact hne (h.conflictFree htx hot hmem hs)
    · rw [h.spent]
      refine exists_congr fun ot => ⟨fun ho => ⟨⟨?_, ho.1⟩, ho.2⟩, fun ho => ⟨ho.1.2, ho.2⟩⟩
      rintro rfl
      rw [htx, Option.some.injEq] at ho
      exact hmem (ho.1 ▸ ho.2)
  · exact (size_erase_le).trans h.count
  · exact (Nat.sub_le _ _).trans h.size

theorem removeTransaction_admits (id : Hash) :
    Keeps (Admits env outpoints) (removeTransaction env id) := by
  refine Triple.intro fun pool h => ?_
  obtain ⟨fault, after, he, ha, hc⟩ | ⟨tx, e, key, htx, hen, -, he⟩ :=
    h.coherent.exec_removeTransaction id
  · rw [he]
    rcases hc with rfl | ⟨rfl, -⟩
    · exact h
    · exact ⟨ha, ⟨h.sound.conflictFree, h.sound.spent, h.sound.count, h.sound.size⟩, h.free⟩
  · rw [he]
    refine ⟨h.coherent.removed_coherent htx hen key, sound_removed h.sound htx, fun o hf => ?_⟩
    rw [getElem?_spent_removed, h.free o hf, ite_self]

end Removal

theorem stable_admits : Stable env (Admits env outpoints) where
  removeTransaction := removeTransaction_admits
  scanned _ _ h := ⟨stable_coherent.scanned _ _ h.coherent,
    ⟨h.sound.conflictFree, h.sound.spent, h.sound.count, h.sound.size⟩, h.free⟩

section Addition

variable {transaction : MempoolTransaction} {cp : CellPool} {size : Nat}

theorem sound_added (h : pool.Sound env) (hnew : transaction.id env ∉ pool.allTransactions)
    (hfree : ∀ o ∈ transaction.mtx.tx.spends, pool.cellSet.spentOutpointOwnerId[o]? = none)
    (hroom : pool.hasRoom env size = true) : (added env pool cp transaction size).Sound env := by
  have hen : ∀ other, (entered env pool cp transaction size).allTransactions[other]? =
      if transaction.id env = other then some (mirrorOf env transaction)
      else pool.allTransactions[other]? :=
    Coherent.getElem?_entered
  have hget : ∀ other, (added env pool cp transaction size).allTransactions[other]? =
      if transaction.id env = other then some (mirrorOf env transaction)
      else pool.allTransactions[other]? := hen
  have hs : ∀ o, (added env pool cp transaction size).cellSet.spentOutpointOwnerId[o]? =
        if o ∈ transaction.mtx.tx.spends then some (transaction.id env)
        else pool.cellSet.spentOutpointOwnerId[o]? := fun _ => TreeMap.getElem?_foldl_insert_const
  have he : ∀ {o} {id}, (added env pool cp transaction size).cellSet.spentOutpointOwnerId[o]? =
        some id ↔ ∃ tx : MempoolTransaction,
          (added env pool cp transaction size).allTransactions[id]? = some tx ∧
          o ∈ tx.mtx.tx.spends := by
    intro o id
    rw [hs, hget]
    by_cases hid : transaction.id env = id
    · subst hid
      rw [if_pos rfl]
      split_ifs with hmem
      · simp [mirrorOf, hmem]
      · have hn : pool.cellSet.spentOutpointOwnerId[o]? ≠ some (transaction.id env) := by
          rw [ne_eq, h.spent]
          rintro ⟨tx, htx, -⟩
          exact hnew (mem_iff.mpr ⟨tx, htx⟩)
        simp [mirrorOf, hmem, hn]
    · rw [if_neg hid]
      split_ifs with hmem
      · simp only [Option.some.injEq, hid, false_iff]
        rintro htx
        rw [← h.spent, hfree o hmem] at htx
        contradiction
      · exact h.spent
  rw [hasRoom, Bool.and_eq_true, decide_eq_true_eq, decide_eq_true_eq] at hroom
  refine ⟨fun {o id other tx ot} htx ho hmem hm' => ?_, he, ?_, hroom.2⟩
  · exact Option.some.inj ((he.mpr ⟨tx, htx, hmem⟩).symm.trans (he.mpr ⟨ot, ho, hm'⟩))
  · have hsi : (added env pool cp transaction size).len ≤ pool.len + 1 := size_insert_le
    exact hsi.trans hroom.1

theorem addMempoolTransaction_sound (h : pool.Admits env transaction.mtx.tx.spends)
    (hroom : pool.hasRoom env size = true) :
    ((addMempoolTransaction env transaction size).after pool).Sound env := by
  obtain ⟨fault, cp, he, -⟩ | ⟨rem, fee, cycles, hnew, -, -, -, he⟩ :=
    h.coherent.exec_addMempoolTransaction transaction size
  · rw [Stateful.after, he]
    exact ⟨h.sound.conflictFree, h.sound.spent, h.sound.count, h.sound.size⟩
  · rw [Stateful.after, he]
    exact sound_added h.sound hnew h.free hroom

end Addition

-- The transactions that stay when the given ones and all that is chained to them go.
def left (env : MempoolServices) (pool : TransactionsPool) (ids : List Hash) :
    List (Hash × MempoolTransaction) :=
  pool.allTransactions.toList.filter fun entry =>
    ids.all fun id => entry.1 ≠ id ∧ entry.1 ∉ pool.getRedeemerIds env id

-- There is room once they are gone, each counted once.
def RoomLeft (env : MempoolServices) (pool : TransactionsPool) (transactionSize : Nat)
    (ids : List Hash) : Prop :=
  (pool.left env ids).length < env.config.maximumTransactionCount ∧
    ((pool.left env ids).map fun entry => env.mempoolEstimatedBytes entry.2.mtx).sum +
      transactionSize ≤ env.config.mempoolSizeLimit

variable {before : TransactionsPool} {ids : List Hash} {size : Nat}

theorem hasRoom_iff (h : pool.Coherent env) : pool.hasRoom env size = true ↔
    pool.allTransactions.toList.length < env.config.maximumTransactionCount ∧
    (pool.allTransactions.toList.map fun entry => env.mempoolEstimatedBytes entry.2.mtx).sum +
    size ≤ env.config.mempoolSizeLimit := by
  rw [hasRoom, Bool.and_eq_true, decide_eq_true_eq, decide_eq_true_eq, h.estimatedSize,
    TreeMap.total, len, ExtTreeMap.length_toList]

-- Transactions that are listed once free what they are counted for.
theorem RoomLeft.of_nodup (hnodup : ids.Nodup) (hids : ∀ id ∈ ids, id ∈ pool.allTransactions)
    (h : pool.Coherent env) (hfrees : pool.Frees env size ids) : pool.RoomLeft env size ids := by
  let gone := pool.allTransactions.toList.filter fun entry => decide (entry.1 ∈ ids)
  let rest := pool.allTransactions.toList.filter fun entry => !decide (entry.1 ∈ ids)
  have hall : (gone ++ rest).Perm pool.allTransactions.toList := filter_append_perm _ _
  have hleft : (pool.left env ids).Sublist rest := by
    refine monotone_filter_right _ fun entry hentry => ?_
    have hnot := all_eq_true.mp hentry
    simp only [Bool.not_eq_true', decide_eq_false_iff_not]
    exact fun hmem => (of_decide_eq_true (hnot _ hmem)).1 rfl
  have hgone : (gone.map Prod.fst).Perm ids := by
    refine (perm_ext_iff_of_nodup ?_ hnodup).mpr fun id => ⟨fun hmem => ?_, fun hid => ?_⟩
    · exact (TreeMap.nodup_map_fst_toList _).sublist (filter_sublist.map _)
    · obtain ⟨entry, hentry, rfl⟩ := mem_map.mp hmem
      exact of_decide_eq_true (mem_filter.mp hentry).2
    · obtain ⟨tx, htx⟩ := mem_iff.mp (hids id hid)
      exact mem_map.mpr ⟨(id, tx), mem_filter.mpr
        ⟨mem_toList_iff_getElem?_eq_some.mpr htx, decide_eq_true hid⟩, rfl⟩
  have hbytes : (gone.map fun entry => env.mempoolEstimatedBytes entry.2.mtx).sum =
      (ids.map (pool.bytesOf env)).sum := by
    rw [← (hgone.map _).sum_eq, List.map_map]
    refine congrArg List.sum (List.map_congr_left fun entry hentry => ?_)
    have htx := mem_toList_iff_getElem?_eq_some.mp (List.mem_filter.mp hentry).1
    simp [bytesOf, htx]
  have hcount := hall.length_eq
  have hsum := (hall.map fun entry => env.mempoolEstimatedBytes entry.2.mtx).sum_eq
  have hlength := hgone.length_eq
  have hleft' := TreeMap.sum_map_le_of_subperm hleft.subperm fun entry =>
    env.mempoolEstimatedBytes entry.2.mtx
  obtain ⟨hc, hs⟩ := hfrees
  rw [h.estimatedSize, TreeMap.total] at hs
  rw [len, ← ExtTreeMap.length_toList] at hc
  simp only [length_append, length_map, map_append, sum_append]
    at hcount hsum hlength
  have := hleft.length_le
  exact ⟨by omega, by omega⟩

end TransactionsPool

section Room

variable {s t u : Mempool} {transaction : MutableTransaction} {ids : List Hash} {size : Nat}

-- The transactions of `left` are among those of a pool that has lost only what is chained to the
-- given ones.
theorem Emptied.left_subset {S} (h : s.Emptied env S t) (hs : s.transactionPool.Coherent env)
    (hids : ∀ id ∈ ids, id ∈ s.transactionPool.allTransactions)
    (hlost : ∀ id, S id → ∃ x ∈ ids, s.Taken x id) :
    (s.transactionPool.left env ids).Subperm t.transactionPool.allTransactions.toList := by
  refine subperm_of_subset ((TreeMap.nodup_toList _).filter _) fun entry hentry => ?_
  obtain ⟨hmem, hleft⟩ := mem_filter.mp hentry
  rw [mem_toList_iff_getElem?_eq_some] at hmem ⊢
  rw [h.without.kept, hmem]
  intro hS
  obtain ⟨x, hx, htaken⟩ := hlost _ hS
  have hnot := of_decide_eq_true (all_eq_true.mp hleft x hx)
  rcases htaken with heq | hp
  · exact hnot.1 heq
  · exact hnot.2 ((hs.mem_getRedeemerIds (hids x hx)).mpr hp)

theorem Emptied.subset_left {S} (h : s.Emptied env S t) (hs : s.transactionPool.Coherent env)
    (hids : ∀ id ∈ ids, id ∈ s.transactionPool.allTransactions) (hgone : ∀ id ∈ ids, S id) :
    t.transactionPool.allTransactions.toList.Subperm (s.transactionPool.left env ids) := by
  refine subperm_of_subset (TreeMap.nodup_toList _) fun entry hentry => ?_
  rw [mem_toList_iff_getElem?_eq_some] at hentry
  have hkept : ∀ x ∈ ids, ¬ s.Taken x entry.1 := fun x hx ht =>
    h.without.gone (h.of_taken (hgone x hx) ht) (TransactionsPool.mem_iff.mpr ⟨_, hentry⟩)
  refine mem_filter.mpr
    ⟨mem_toList_iff_getElem?_eq_some.mpr (h.without.getElem?_of_getElem? hentry), ?_⟩
  refine all_eq_true.mpr fun x hx =>
    decide_eq_true ⟨fun heq => hkept x hx (.inl heq), fun hmem => ?_⟩
  exact hkept x hx (.inr ((hs.mem_getRedeemerIds (hids x hx)).mp hmem))

theorem exec_makeRoom_ok (hunique : s.Unique) {S} (h : s.Emptied env S t)
    (hids : ∀ id ∈ ids, id ∈ s.transactionPool.allTransactions)
    (hexec : (makeRoom env size ids).exec t = (.ok (), u)) :
    ∃ S', s.Emptied env S' u ∧ (∀ id, S id → S' id) ∧
    (∀ id, S' id → S id ∨ ∃ x ∈ ids, s.Taken x id) ∧
    (u.transactionPool.hasRoom env size = true ∨ ∀ id ∈ ids, S' id) := by
  induction ids generalizing t S with
  | nil =>
    rw [Prod.mk.injEq] at hexec
    exact ⟨S, hexec.2 ▸ h, fun _ => id, fun _ => .inl, .inr (by simp)⟩
  | cons id ids ih =>
    rw [forall_mem_cons] at hids
    obtain ⟨_, middle, hre, hr⟩ := exec_bind_eq_ok.mp hexec
    obtain ⟨S₁, h₁, hid, hsub, hup⟩ := h.removeTransaction hunique hids.1 hre
    have hup' : ∀ other, S₁ other → S other ∨ ∃ x ∈ id :: ids, s.Taken x other := fun other ho =>
      (hup other ho).imp_right fun ht => ⟨id, mem_cons_self, ht⟩
    rw [exec_get_bind] at hr
    split_ifs at hr with hro
    · rw [Prod.mk.injEq] at hr
      exact ⟨S₁, hr.2 ▸ h₁, hsub, hup', .inl (hr.2 ▸ hro)⟩
    · obtain ⟨S₂, h₂, hs₂, hup₂, hroom⟩ := ih h₁ hids.2 hr
      refine ⟨S₂, h₂, fun other ho => hs₂ other (hsub other ho), fun other ho => ?_, ?_⟩
      · rcases hup₂ other ho with h₁ | ⟨x, hx, ht⟩
        · exact hup' other h₁
        · exact .inr ⟨x, mem_cons_of_mem _ hx, ht⟩
      · exact hroom.imp_right fun hall => forall_mem_cons.mpr ⟨hs₂ id hid, hall⟩

-- After the evictions there is room exactly if there is without the transactions listed.
theorem hasRoom_after_makeRoom_iff (h : s.transactionPool.Coherent env) (hunique : s.Unique)
    (hids : ∀ id ∈ ids, id ∈ s.transactionPool.allTransactions)
    (hexec : (makeRoom env size ids).exec s = (.ok (), t)) :
    t.transactionPool.hasRoom env size = true ↔ s.transactionPool.RoomLeft env size ids := by
  obtain ⟨S, he, -, hup, hroom⟩ := exec_makeRoom_ok hunique (.refl h) hids hexec
  have hle := he.left_subset h hids fun id hS => (hup id hS).resolve_left fun hfalse => hfalse
  constructor
  · rw [TransactionsPool.hasRoom_iff he.coherent]
    rintro ⟨hcount, hsize⟩
    have hbytes := TreeMap.sum_map_le_of_subperm hle fun entry =>
      env.mempoolEstimatedBytes entry.2.mtx
    exact ⟨hle.length_le.trans_lt hcount, by omega⟩
  · rintro ⟨hcount, hsize⟩
    rcases hroom with hroom | hgone
    · exact hroom
    · have hge := he.subset_left h hids hgone
      rw [TransactionsPool.hasRoom_iff he.coherent]
      have hbytes := TreeMap.sum_map_le_of_subperm hge fun entry =>
        env.mempoolEstimatedBytes entry.2.mtx
      exact ⟨hge.length_le.trans_lt hcount, by omega⟩

end Room

section Faults

abbrev OtherFault (fault : MempoolFault) : Prop := fault ≠ .overCapacity

theorem OrphanPool.removeOrphans_raises (ids) :
    Raises OtherFault (OrphanPool.removeOrphans env ids) := by
  refine .mapM fun id => ?_
  refine .bind .ofGet fun self => .bind (.ofOkOr nofun) fun transaction => .bind .ofSet fun _ => ?_
  split
  · exact .ofThrow nofun
  · exact .ofPure

theorem TransactionsPool.onCellPool_raises {α} (id : Hash)
    (step : Stateful CellPoolError CellPool α) :
    Raises OtherFault (onCellPool id step) := .ofZoom fun _ _ _ _ => nofun

theorem TransactionsPool.refreshReadyStatus_raises (id : Hash) :
    Raises OtherFault (refreshReadyStatus env id) := by
  refine .bind .ofGet fun self => ?_
  split
  · exact .ofPure
  · exact .bind (.ofOkOr nofun) fun _ => .ofSet

theorem TransactionsPool.takeOut_raises (id : Hash) (old) :
    Raises OtherFault (takeOut env id old) := by
  refine .bind .ofModify fun _ => .bind (.ofOkOr nofun) fun _ => .bind .ofModify fun _ =>
    .bind (.ofOkOr nofun) fun _ => ?_
  refine .bind .ofModify fun _ => .bind (.bind .ofGet fun _ => ?_) fun _ => .ofPure
  exact .bind (.ofRequire nofun) fun _ => .ofSet

theorem TransactionsPool.removeTransaction_raises (id : Hash) :
    Raises OtherFault (removeTransaction env id) := by
  refine .bind .ofGet fun self => .bind ?_ fun _ => .bind (takeOut_raises id _) fun _ =>
    .bind .ofGet fun _ => ?_
  · cases self.allTransactions[id]?.bind MempoolTransaction.cellWtxid with
    | none => exact .ofPure
    | some wtxid => exact .map (onCellPool_raises id _)
  · refine .bind (.forM refreshReadyStatus_raises) fun _ => .bind .ofGet fun _ => ?_
    exact .bind (.ofRequire nofun) fun _ => .ofPure

theorem TransactionsPool.addMempoolTransaction_raises (transaction) (size : Nat) :
    Raises OtherFault (addMempoolTransaction env transaction size) := by
  refine .bind .ofGet fun self => .bind (.ofRequire nofun) fun _ =>
    .bind (.ofRequire nofun) fun _ => ?_
  rw [Coherent.buildParentCellIdContext_eq_ok]
  refine .bind (.ofLift nofun) fun _ => .bind ?_ fun _ => .bind .ofModify fun _ => ?_
  · refine .bind (.ofOkOr nofun) fun _ => .bind (.ofOkOr nofun) fun _ =>
      .bind (onCellPool_raises _ _) fun _ => .ofPure
  · exact .bind (refreshReadyStatus_raises _) fun _ => .ofPure

theorem removeTransaction_raises (id : Hash) (redeem : Bool) :
    Raises OtherFault (removeTransaction env id redeem) := by
  refine .bind .ofGet fun self =>
    .ite (.map (.ofZoom (.bind .ofGet fun _ => ?_))) (.ite (.forM fun txId => ?_) .ofPure)
  · exact .ite .ofPure (OrphanPool.removeOrphans_raises _)
  · refine .bind (.ofZoom (TransactionsPool.removeTransaction_raises txId)) fun tx =>
      .map (.ofZoom (.ite ?_ ?_))
    · exact .bind .ofGet fun _ => OrphanPool.removeOrphans_raises _
    · exact .bind .ofModify fun _ => .ofPure

theorem makeRoom_raises (size : Nat) (ids) : Raises OtherFault (makeRoom env size ids) := by
  induction ids with
  | nil => exact .ofPure
  | cons id ids ih =>
    exact .bind (removeTransaction_raises id true) fun _ => .bind .ofGet fun _ => .ite .ofPure ih

variable {s t : Mempool} {transaction : MutableTransaction} {fault : MempoolFault}

theorem validateDoubleSpendingTransaction_fails (ds) :
    Fails OtherFault (s.validateDoubleSpendingTransaction env transaction ds) := by
  refine .bind ?_ fun owner => ?_
  · unfold TransactionsPool.getDoubleSpendOwner
    split
    · exact .ofOk
    · exact .ofError nofun
  · split
    · exact .ite .ofOk (.ofError nofun)
    · exact .ofError nofun

theorem replaceDoubleSpends_raises (dss) :
    Raises OtherFault (replaceDoubleSpends env transaction dss) := by
  cases dss with
  | nil => exact .ofPure
  | cons first rest =>
    refine .bind .ofGet fun _ =>
      .bind (.ofLift (validateDoubleSpendingTransaction_fails first)) fun _ => ?_
    refine .bind (.ofLift (Fails.forM fun ds => ?_)) fun _ => ?_
    · exact Fails.bind (validateDoubleSpendingTransaction_fails ds) fun _ => .ofOk
    · exact .bind (.forM fun ds => removeTransaction_raises _ true) fun _ => .ofPure

theorem executeReplaceByFee_raises (rbfPolicy) :
    Raises OtherFault (executeReplaceByFee env transaction rbfPolicy) := by
  refine .bind .ofGet fun self => ?_
  cases rbfPolicy with
  | forbidden =>
    refine .bind (.ofLift ?_) fun _ => .ofPure
    unfold TransactionsPool.checkDoubleSpends
    split
    · exact Fails.ofError nofun
    · exact Fails.ofOk
  | allowed => exact replaceDoubleSpends_raises _
  | mandatory =>
    dsimp only
    split
    · exact .ofThrow nofun
    · exact replaceDoubleSpends_raises _
    · exact .ofThrow nofun

theorem validateTransactionInContext_fails :
    Fails OtherFault (validateTransactionInContext env transaction) := by
  have hs : ∀ o : Option Nat,
      Fails OtherFault (o.elim (Except.error MempoolFault.panicked) Except.ok) := by
    rintro (_ | a)
    · exact .ofError nofun
    · exact .ofOk
  refine .ite .ofOk (.bind (hs _) fun _ => .ite (.bind (.ofError nofun) fun _ => ?_) ?_)
  all_goals
    refine .bind (hs _) fun _ => .bind (.ite (.ofError nofun) .ofOk) fun _ =>
      .bind (hs _) fun _ => ?_
    exact .ite (.ofError nofun) .ofOk

theorem selectForEviction_fails {pool : TransactionsPool} {size thr keys ids selectionOverallSize} :
    Fails OtherFault (pool.selectForEviction env transaction size thr keys ids
      selectionOverallSize) := by
  induction keys generalizing ids selectionOverallSize with
  | nil => exact .ofError nofun
  | cons key keys ih =>
    unfold TransactionsPool.selectForEviction
    split
    · exact .ofError nofun
    · refine .ite ih (.ite ih ?_)
      split
      · exact .ofError nofun
      · refine .ite (.ofError nofun)
          (.ite (.ofError nofun) (.ite (.ite (.ofError nofun) (.ite .ofOk ih)) ih))

theorem limitTransactionCount_fails {pool : TransactionsPool} {size} :
    Fails OtherFault (pool.limitTransactionCount env transaction size) := by
  refine .ite .ofOk ?_
  split
  · exact .ofError nofun
  · exact selectForEviction_fails

end Faults

section Insertion

variable {s t : Mempool} {transaction : MutableTransaction} {prio : Priority} {rbf : RbfPolicy}
  {daa : Nat}

abbrev Admits (env : MempoolServices) (outpoints : List OutPoint) : Mempool → Prop :=
  Parts (TransactionsPool.Admits env outpoints) fun _ => True

theorem stable_admits {outpoints} :
    Stable env (TransactionsPool.Admits env outpoints) fun _ => True :=
  ⟨TransactionsPool.stable_admits, ⟨fun _ _ _ => trivial, fun _ _ _ => trivial, fun _ _ => trivial⟩⟩

variable (h : s.transactionPool.Coherent env) (hunique : s.Unique)
  (hsound : s.transactionPool.Sound env)
  (hnew : env.hasher.txid transaction.tx ∉ s.transactionPool.allTransactions)

include h hunique hsound hnew

theorem admits_of_executeReplaceByFee {removed}
    (hexec : (executeReplaceByFee env transaction rbf).exec s = (.ok removed, t)) :
    t.transactionPool.Admits env transaction.tx.spends ∧ ∃ S, s.Emptied env S t := by
  have hk : Keeps (Admits env [])
      (executeReplaceByFee env transaction rbf) := stable_admits.executeReplaceByFee _ _
  have ha := (hk.of_exec ⟨⟨h, hsound, by simp⟩, trivial⟩ hexec).transactionPool
  obtain ⟨owners, hc, ho, hr⟩ := exec_executeReplaceByFee_ok hexec
  obtain ⟨S, he, hl, -⟩ := (Emptied.refl h).forM_removeTransaction hunique ho hr
  refine ⟨⟨ha.coherent, ha.sound, fun o hmem => ?_⟩, S, he⟩
  rw [Option.eq_none_iff_forall_ne_some]
  intro id how
  -- the owner was a conflict already, and is gone
  obtain ⟨tx, htx, hs⟩ := ha.sound.spent.mp how
  have hb := he.without.getElem?_of_getElem? htx
  have hco : Conflicts env s.transactionPool transaction.tx id := by
    refine ⟨?_, o, hmem, hsound.spent.mpr ⟨tx, hb, hs⟩⟩
    rintro rfl
    exact hnew (TransactionsPool.mem_iff.mpr ⟨tx, hb⟩)
  exact he.without.gone (hl id ((hc id).mpr hco)) (TransactionsPool.mem_iff.mpr ⟨tx, htx⟩)

theorem insertValidated_sound :
    ((insertValidated env transaction prio rbf daa).after s).transactionPool.Sound env := by
  have hr : Triple (· = s) (executeReplaceByFee env transaction rbf)
      (fun _ => Admits env transaction.tx.spends)
      fun t => t.transactionPool.Sound env := by
    refine Triple.intro fun u hu => ?_
    subst hu
    rcases he : (executeReplaceByFee env transaction rbf).exec u with ⟨fault | removed, t⟩
    · have hk : Keeps (Admits env [])
          (executeReplaceByFee env transaction rbf) := stable_admits.executeReplaceByFee _ _
      exact (hk.of_exec ⟨⟨h, hsound, by simp⟩, trivial⟩ he).transactionPool.sound
    · exact ⟨(admits_of_executeReplaceByFee h hunique hsound hnew he).1, trivial⟩
  have hro : ∀ ids, Triple (Admits env transaction.tx.spends)
      (makeRoom env (env.mempoolEstimatedBytes transaction) ids)
      (fun _ => Admits env transaction.tx.spends)
      fun t => t.transactionPool.Sound env := fun ids =>
    Triple.failing (stable_admits.makeRoom _ ids) fun _ ht => ht.transactionPool.sound
  have hadd : ∀ self, self.transactionPool.hasRoom env (env.mempoolEstimatedBytes transaction) =
      true → Triple (fun u => self = u ∧
        u.Admits env transaction.tx.spends)
      (onTransactionPool (TransactionsPool.addMempoolTransaction env (.new transaction prio daa)
        (env.mempoolEstimatedBytes transaction)))
      (fun _ t => t.transactionPool.Sound env) fun t => t.transactionPool.Sound env := by
    rintro self hs
    refine Triple.intro ?_
    rintro u ⟨rfl, hu⟩
    have ha : ((TransactionsPool.addMempoolTransaction env (.new transaction prio daa)
        (env.mempoolEstimatedBytes transaction)).after self.transactionPool).Sound env :=
      TransactionsPool.addMempoolTransaction_sound hu.transactionPool hs
    rw [onTransactionPool, exec_zoom]
    rcases he : (TransactionsPool.addMempoolTransaction env (.new transaction prio daa)
        (env.mempoolEstimatedBytes transaction)).exec self.transactionPool
          with ⟨fault | accepted, pool⟩
    · rw [Stateful.after, he] at ha
      exact ha
    · rw [Stateful.after, he] at ha
      exact ha
  have hall : Triple (· = s) (insertValidated env transaction prio rbf daa)
      (fun _ t => t.transactionPool.Sound env) fun t => t.transactionPool.Sound env := by
    refine .bind (.ofLift (fun _ _ _ hu => hu) fun u hu => hu ▸ hsound) fun _ => ?_
    refine .bind hr fun removed => .bind (Triple.ofGet fun u hu => hu) fun self => ?_
    refine .bind (.ofLift (fun _ _ _ hu => hu) fun u hu => hu.transactionPool.sound) fun ids =>
      .bind (hro ids) fun _ => ?_
    refine .bind (Q := fun self u => self = u ∧ u.Admits env transaction.tx.spends)
      (.ofGet fun u hu => ⟨rfl, hu⟩) fun self =>
        .bind (.ofRequire fun u hu => hu.2.transactionPool.sound) fun _ => ?_
    exact .assume fun hholds => .bind (hadd self hholds) fun _ => .ofPure fun _ ht => ht
  exact hall.after rfl

-- The evictions that the loop counts on free less than it counts, as a transaction with two keys is
-- counted twice.
def TransactionsPool.Overcounts (env : MempoolServices) (pool : TransactionsPool)
    (transaction : MutableTransaction) : Prop :=
  ∃ keys, pool.Evicts env transaction (env.mempoolEstimatedBytes transaction) keys ∧
    ¬ pool.RoomLeft env (env.mempoolEstimatedBytes transaction)
      (env.txids keys)

omit hsound hnew in
theorem hasRoom_iff_not_overcounts {size ids} (hsize : size = env.mempoolEstimatedBytes transaction)
    (hlimit : s.transactionPool.limitTransactionCount env transaction size = .ok ids)
    (hexec : (makeRoom env size ids).exec s = (.ok (), t)) :
    t.transactionPool.hasRoom env size = true ↔ ¬ s.transactionPool.Overcounts env transaction := by
  subst hsize
  have hids := fun id hid => (evicted_unrelated h hlimit id hid).1
  obtain ⟨keys, hevicts, rfl⟩ :=
    TransactionsPool.limitTransactionCount_ok (fun htx => (h.keyed htx).1) hlimit
  rw [hasRoom_after_makeRoom_iff h hunique hids hexec]
  refine ⟨fun hleft => ?_, fun hnot => by_contra fun hleft => hnot ⟨keys, hevicts, hleft⟩⟩
  rintro ⟨keys', hevicts', hleft'⟩
  exact hleft' (hevicts.unique hevicts' ▸ hleft)

-- The insertion gets as far as the assertion; `t` is the mempool once the double spends are gone.
structure ReachesAssertion (env : MempoolServices) (s : Mempool) (transaction : MutableTransaction)
    (rbfPolicy : RbfPolicy) (t : Mempool) : Prop where
  new : env.hasher.txid transaction.tx ∉ s.transactionPool.allTransactions
  unaccepted : env.hasher.txid transaction.tx ∉ s.acceptedTransactions.transactions
  inContext : validateTransactionInContext env transaction = .ok ()
  replaced : ∃ removed, (executeReplaceByFee env transaction rbfPolicy).exec s = (.ok removed, t)
  evicted : ∃ ids roomy, t.transactionPool.limitTransactionCount env transaction
      (env.mempoolEstimatedBytes transaction) = .ok ids ∧
    (makeRoom env (env.mempoolEstimatedBytes transaction) ids).exec t = (.ok (), roomy)

theorem insertValidated_overCapacity_iff
    (hunaccepted : env.hasher.txid transaction.tx ∉ s.acceptedTransactions.transactions) :
    ((insertValidated env transaction prio rbf daa).exec s).1 =
    .error .overCapacity ↔ ∃ t, ReachesAssertion env s transaction rbf t ∧
    t.transactionPool.Overcounts env transaction := by
  constructor
  · intro heq
    have he : (insertValidated env transaction prio rbf daa).exec s = (.error .overCapacity, _) :=
      Prod.ext heq rfl
    rcases exec_bind_eq_error.mp he with hf | ⟨_, _, hf, he⟩
    · exact absurd rfl (Raises.ofLift validateTransactionInContext_fails _ _ _ hf)
    obtain ⟨hcontext, rfl⟩ := exec_lift_eq_ok.mp hf
    rcases exec_bind_eq_error.mp he with hr | ⟨removed, middle, hr, he⟩
    · exact absurd rfl (executeReplaceByFee_raises rbf _ _ _ hr)
    obtain ⟨ha, S, hem⟩ := admits_of_executeReplaceByFee h hunique hsound hnew hr
    rw [exec_get_bind] at he
    rcases exec_bind_eq_error.mp he with hl | ⟨ids, _, hl, he⟩
    · exact absurd rfl (Raises.ofLift limitTransactionCount_fails _ _ _ hl)
    obtain ⟨hids, rfl⟩ := exec_lift_eq_ok.mp hl
    rcases exec_bind_eq_error.mp he with hro | ⟨_, roomy, hro, he⟩
    · exact absurd rfl (makeRoom_raises _ ids _ _ _ hro)
    refine ⟨_, ⟨hnew, hunaccepted, hcontext, ⟨removed, hr⟩, ids, roomy, hids, hro⟩,
      by_contra fun hnot => ?_⟩
    have hholds :=
      (hasRoom_iff_not_overcounts ha.coherent (hem.unique hunique) rfl hids hro).mpr hnot
    rw [exec_get_bind, exec_bind_of_ok (exec_require _ hholds _)] at he
    rcases exec_bind_eq_error.mp he with hadd | ⟨_, _, -, he⟩
    · exact Raises.ofZoom (TransactionsPool.addMempoolTransaction_raises _ _) _ _ _ hadd rfl
    · simp at he
  · rintro ⟨middle, ⟨-, -, hcontext, ⟨removed, hr⟩, ids, roomy, hids, hro⟩, hover⟩
    obtain ⟨ha, S, hem⟩ := admits_of_executeReplaceByFee h hunique hsound hnew hr
    have hholds := mt (hasRoom_iff_not_overcounts ha.coherent (hem.unique hunique) rfl hids hro).mp
      (not_not.mpr hover)
    rw [insertValidated, exec_bind_of_ok (exec_lift_eq_ok.mpr ⟨hcontext, rfl⟩), exec_bind_of_ok hr,
      exec_get_bind, exec_bind_of_ok (exec_lift_eq_ok.mpr ⟨hids, rfl⟩), exec_bind_of_ok hro,
        exec_get_bind,
      exec_bind_of_error (exec_require_of_not _ hholds _)]

end Insertion

section Theorem

variable {s : Mempool}

-- The insertion keeps the pool sound. Its capacity assertion fails exactly if it is reached with a
-- pool where the evictions free less than they are counted for, which takes a transaction that is
-- listed twice.
theorem insertion_keeps_limits (h : s.transactionPool.Coherent env) (hunique : s.Unique)
    (hsound : s.transactionPool.Sound env) (transaction : MutableTransaction) (priority : Priority)
    (orphan : Orphan) (rbfPolicy : RbfPolicy) (virtualDaaScore : Nat) :
    ((postValidateAndInsertTransaction env (.ok ()) transaction priority orphan rbfPolicy
      virtualDaaScore).after s).transactionPool.Sound env ∧
    (((postValidateAndInsertTransaction env (.ok ()) transaction priority orphan rbfPolicy
      virtualDaaScore).exec s).1 = .error .overCapacity ↔
      ∃ t, ReachesAssertion env s transaction rbfPolicy t ∧
      t.transactionPool.Overcounts env transaction) ∧
    ∀ t keys, ReachesAssertion env s transaction rbfPolicy t →
    t.transactionPool.Overcounts env transaction →
    t.transactionPool.Evicts env transaction (env.mempoolEstimatedBytes transaction) keys →
    ¬ (env.txids keys).Nodup := by
  rw [← and_assoc]
  refine ⟨?_, fun t keys hreach hover hevicts hnodup => ?_⟩
  · by_cases hholds : (!s.transactionPool.has (env.hasher.txid transaction.tx)) = true
    · have hnew : env.hasher.txid transaction.tx ∉ s.transactionPool.allTransactions := by
        simpa [TransactionsPool.has] using hholds
      rw [Stateful.after, postValidateAndInsertTransaction, exec_get_bind,
        exec_bind_of_ok (exec_require _ hholds _)]
      by_cases ha : env.hasher.txid transaction.tx ∈ s.acceptedTransactions.transactions
      · rw [validateTransactionUnacceptance, if_pos ha]
        refine ⟨hsound, fun heq => ?_, fun hreach => ?_⟩
        · cases heq
        · obtain ⟨t, hreach, -⟩ := hreach
          exact absurd ha hreach.unaccepted
      · rw [validateTransactionUnacceptance, if_neg ha]
        exact ⟨insertValidated_sound h hunique hsound hnew,
          insertValidated_overCapacity_iff h hunique hsound hnew ha⟩
    · rw [Stateful.after, postValidateAndInsertTransaction, exec_get_bind,
        exec_bind_of_error (exec_require_of_not _ hholds _)]
      refine ⟨hsound, fun heq => absurd heq (by simp), fun hreach => absurd ?_ hholds⟩
      obtain ⟨t, hreach, -⟩ := hreach
      simpa [TransactionsPool.has] using hreach.new
  · obtain ⟨removed, hr⟩ := hreach.replaced
    have hcoherent := (admits_of_executeReplaceByFee h hunique hsound hreach.new hr).1.coherent
    obtain ⟨keys', hevicts', hleft⟩ := hover
    rw [hevicts'.unique hevicts] at hleft
    refine hleft (.of_nodup hnodup (fun id hid => ?_) hcoherent hevicts.frees)
    obtain ⟨key, hkey, rfl⟩ := mem_map.mp hid
    exact (hevicts.unrelated hkey).1

theorem TransactionsPool.Sound.of_toList {pool : TransactionsPool}
    (hspends : ∀ entry ∈ pool.allTransactions.toList, ∀ o ∈ entry.2.mtx.tx.spends,
      pool.cellSet.spentOutpointOwnerId[o]? = some entry.1)
    (howners : ∀ entry ∈ pool.cellSet.spentOutpointOwnerId.toList,
      pool.allTransactions[entry.2]?.any fun tx => entry.1 ∈ tx.mtx.tx.spends)
    (hcount : pool.len ≤ env.config.maximumTransactionCount)
    (hsize : pool.estimatedSize ≤ env.config.mempoolSizeLimit) :
    pool.Sound env := by
  have hs : ∀ {o} {id} {tx : MempoolTransaction}, pool.allTransactions[id]? = some tx →
      o ∈ tx.mtx.tx.spends → pool.cellSet.spentOutpointOwnerId[o]? = some id := fun htx hmem =>
    hspends (_, _) (mem_toList_iff_getElem?_eq_some.mpr htx) _ hmem
  refine ⟨fun hone hot hmem hm' => ?_,
    fun {o id} => ⟨fun ho => ?_, fun ⟨tx, htx, hmem⟩ => hs htx hmem⟩, hcount, hsize⟩
  · exact Option.some.inj ((hs hone hmem).symm.trans (hs hot hm'))
  · have hany := howners (o, id) (mem_toList_iff_getElem?_eq_some.mpr ho)
    cases htx : pool.allTransactions[id]? with
    | none => simp [htx] at hany
    | some tx => exact ⟨tx, rfl, by simpa [htx] using hany⟩

-- 500 bytes of room, of which two transactions take 400 and a third one needs all.
def cheapTx : MutableTransaction := sampleMutableTx [⟨1, 0⟩] [900] 5000

def dearTx : MutableTransaction := sampleMutableTx [⟨2, 0⟩] [900] 7000

def largeTx : MutableTransaction := sampleMutableTx [⟨3, 0⟩] [100, 100, 100, 100] 9000

def twoInserted : List Operation :=
  [sampleInsertion (.ok ()) cheapTx, sampleInsertion (.ok ()) dearTx]

-- The cheap transaction is revalidated with another fee, which leaves its former key in the
-- frontier.
def cheapTwice : Mempool :=
  afterAll (sampleServices 10 500) (twoInserted ++
    [.updateRevalidatedTransaction (.new { cheapTx with calculatedFee := some 6000 } .low 100)])

theorem unique_cheapTwice : cheapTwice.Unique :=
  @Unique.of_reachable (sampleServices 10 500) _ (reachable_afterAll (by decide +kernel))

theorem sound_cheapTwice : cheapTwice.transactionPool.Sound (sampleServices 10 500) := by
  refine .of_toList ?_ ?_ ?_ ?_
  all_goals decide +kernel

theorem large_over_capacity :
    Reachable (sampleServices 10 500) (Operation.Revalidates (sampleServices 10 500)) cheapTwice ∧
    cheapTwice.Unique ∧
    cheapTwice.transactionPool.Sound (sampleServices 10 500) ∧ largeTx.isFullyPopulated = true ∧
    ((postValidateAndInsertTransaction (sampleServices 10 500) (.ok ()) largeTx .low .allowed
      .allowed 100).exec cheapTwice).1 = .error .overCapacity := by
  refine ⟨reachable_afterAll (by decide +kernel), unique_cheapTwice, sound_cheapTwice, ?_, ?_⟩
  all_goals decide +kernel

-- The large transaction reaches the assertion with its evictions overcounted, and one that fits in
-- does not.
def smallTx : MutableTransaction := sampleMutableTx [⟨3, 0⟩] [] 9000

theorem small_inserted :
    (∃ t, ReachesAssertion (sampleServices 10 500) cheapTwice largeTx .allowed t ∧
      t.transactionPool.Overcounts (sampleServices 10 500) largeTx) ∧
    (¬ ∃ t, ReachesAssertion (sampleServices 10 500) cheapTwice smallTx .allowed t ∧
      t.transactionPool.Overcounts (sampleServices 10 500) smallTx) ∧
    Hasher.sample.txid smallTx.tx ∈
    ((postValidateAndInsertTransaction (sampleServices 10 500) (.ok ()) smallTx .low
      .allowed .allowed 100).after cheapTwice).transactionPool.allTransactions := by
  have hcoherent : cheapTwice.transactionPool.Coherent (sampleServices 10 500) :=
    reachable_coherent (reachable_afterAll (by decide +kernel))
  have hlimits := fun transaction =>
    (insertion_keeps_limits hcoherent unique_cheapTwice sound_cheapTwice transaction .low .allowed
      .allowed 100).2.1
  exact ⟨(hlimits largeTx).mp (by decide +kernel), mt (hlimits smallTx).mpr (by decide +kernel),
    by decide +kernel⟩

end Theorem

end Mempool

end Spora
