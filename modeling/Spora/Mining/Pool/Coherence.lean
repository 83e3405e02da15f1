import Spora.Mining.Pool.Parts

namespace Spora

open Std Stateful List TreeMap Option EdgeMap CellPool TransactionsPool MutableTransaction

namespace Mempool

open FeerateTransactionKey (ofMutableTransaction)

theorem mem_getParentTransactionIdsInPool {all tx id} :
    id ∈ getParentTransactionIdsInPool all tx ↔ id ∈ all ∧ tx.spendsFrom id := by
  simp only [getParentTransactionIdsInPool, mem_filter, List.mem_map, decide_eq_true_eq]
  exact and_comm

section Frontier

variable {env : MempoolServices} {ready : ReadyTransactions} {key : FeerateTransactionKey}

def ReadyTransactions.Distinct (env : MempoolServices) (ready : ReadyTransactions) : Prop :=
  ready.searchTree.Pairwise fun a b => ¬ sameKey env a b = true

theorem sameKey_self (key) : sameKey env key key = true := by simp [sameKey]

theorem sameKey_comm (a b) : sameKey env a b = sameKey env b a := by
  simp only [sameKey, Bool.beq_comm]

theorem sameKey_of_sameKey {a b} (ha : sameKey env key a = true) (hb : sameKey env key b = true) :
    sameKey env a b = true := by
  simp only [sameKey, Bool.and_eq_true, beq_iff_eq] at ha hb ⊢
  exact ⟨⟨ha.1.1.symm.trans hb.1.1, ha.1.2.symm.trans hb.1.2⟩, ha.2.symm.trans hb.2⟩

theorem txid_eq_of_sameKey {other} (h : sameKey env key other = true) :
    env.hasher.txid key.tx = env.hasher.txid other.tx := by
  simp only [sameKey, Bool.and_eq_true, beq_iff_eq] at h
  exact h.2

theorem ReadyTransactions.insert_perm (h : ¬ ready.searchTree.any (sameKey env key) = true) :
    (ready.insert env key).searchTree.Perm (key :: ready.searchTree) := by
  unfold ReadyTransactions.insert
  rw [if_neg h]
  refine perm_middle.trans (.cons key ?_)
  rw [takeWhile_append_dropWhile]

theorem ReadyTransactions.Distinct.insert (h : ready.Distinct env) (key) :
    (ready.insert env key).Distinct env := by
  by_cases hany : ready.searchTree.any (sameKey env key) = true
  · rw [ReadyTransactions.insert, if_pos hany]
    exact h
  · have hs : ∀ a b, ¬ sameKey env a b = true → ¬ sameKey env b a = true := fun a b hab =>
      sameKey_comm a b ▸ hab
    rw [ReadyTransactions.Distinct, (ReadyTransactions.insert_perm hany).pairwise_iff (hs _ _),
      pairwise_cons]
    refine ⟨fun other ho hsame => hany ?_, h⟩
    exact any_eq_true.mpr ⟨other, ho, hsame⟩

theorem ReadyTransactions.Distinct.remove (h : ready.Distinct env) (key) :
    (ready.remove env key).Distinct env := by
  unfold ReadyTransactions.remove
  split_ifs
  · exact h.sublist eraseP_sublist
  · exact h

end Frontier

namespace TransactionsPool

variable {env : MempoolServices}

-- What holds between the indexes of a pool. The keys of the frontier need not be current, nor need
-- each parent in the pool be registered as one.
structure Coherent (env : MempoolServices) (pool : TransactionsPool) : Prop where
  keyed : ∀ {id : Hash} {tx : MempoolTransaction}, pool.allTransactions[id]? = some tx →
    tx.id env = id ∧ (∃ key, ofMutableTransaction tx.mtx = some key) ∧
      tx.cellWtxid = some (env.wtxid tx.mtx.tx)
  inverse : ∀ {parent child : Hash}, pool.parentTransactions.Edge child parent ↔
    pool.chainedTransactions.Edge parent child
  chained : ∀ {parent child : Hash}, pool.chainedTransactions.Edge parent child →
    parent ∈ pool.allTransactions ∧ parent ≠ child ∧ ∃ tx : MempoolTransaction,
      pool.allTransactions[child]? = some tx ∧ tx.mtx.tx.spendsFrom parent
  cellTransactionIds : ∀ {cellId id : Hash}, pool.cellTransactionIds[cellId]? = some id ↔
    cellId ∈ pool.allTransactions ∧ id = cellId
  cellWtxids : ∀ {wtxid id : Hash}, pool.cellWtxids[wtxid]? = some id ↔
    ∃ tx : MempoolTransaction, pool.allTransactions[id]? = some tx ∧ env.wtxid tx.mtx.tx = wtxid
  created : ∀ {outpoint : OutPoint} {id : Hash}, pool.cellSet.createdOutpointOwnerId[outpoint]? =
    some id ↔ outpoint.txHash = id ∧ ∃ tx : MempoolTransaction,
      pool.allTransactions[id]? = some tx ∧ outpoint.index < tx.mtx.tx.outputs.length
  estimatedSize : pool.estimatedSize = TreeMap.total (fun tx => env.mempoolEstimatedBytes tx.mtx)
    pool.allTransactions
  linked : pool.cellPool.Linked env
  mirrored : ∀ {wtxid : Hash} {entry : PoolEntry}, pool.cellPool.txs[wtxid]? = some entry →
    ∃ tx : MempoolTransaction, pool.allTransactions[env.hasher.txid entry.tx]? = some tx ∧
      tx.mtx.tx = entry.tx
  registered : ∀ {parent child : Hash} {parentEntry childEntry : PoolEntry},
    pool.cellPool.txs[parent]? = some parentEntry →
    pool.cellPool.txs[child]? = some childEntry → parent ∈ childEntry.dependencies →
      pool.chainedTransactions.Edge (env.hasher.txid parentEntry.tx) (env.hasher.txid childEntry.tx)
  distinct : pool.readyTransactions.Distinct env

variable {pool : TransactionsPool}

theorem coherent_new (now : Nat) : (new env now).Coherent env where
  keyed h := by simp [new] at h
  inverse := by simp [new]
  chained h := by simp [new] at h
  cellTransactionIds := by simp [new]
  cellWtxids := by simp [new]
  created := by simp [new]
  estimatedSize := by simp [new]
  linked := CellPool.linked_new _
  mirrored h := by simp [new, CellPool.new] at h
  registered h := by simp [new, CellPool.new] at h
  distinct := .nil

theorem mem_iff {id} : id ∈ pool.allTransactions ↔ ∃ tx, pool.allTransactions[id]? = some tx := by
  rw [ExtTreeMap.mem_iff_isSome_getElem?, isSome_iff_exists]

namespace Coherent

theorem mem_effectiveParents (h : pool.Coherent env) {tx id} :
    id ∈ pool.getEffectiveParentTransactionIdsInPool env tx ↔
    id ∈ pool.allTransactions ∧ tx.spendsFrom id ∧ id ≠ env.hasher.txid tx := by
  have hc : ∀ {o : OutPoint}, pool.cellSet.createdOutpointOwnerId[o]? = some id →
      id ∈ pool.allTransactions ∧ o.txHash = id := fun ho =>
    ⟨mem_iff.mpr ((h.created.mp ho).2.imp fun _ htx => htx.1), (h.created.mp ho).1⟩
  unfold getEffectiveParentTransactionIdsInPool
  rw [ExtTreeSet.mem_erase, ne_eq, LawfulEqCmp.compare_eq_iff_eq, mem_idSet, mem_append, mem_append,
    mem_getParentTransactionIdsInPool, mem_filterMap, mem_filterMap]
  constructor
  · rintro ⟨hne, (hp | ⟨o, hmem, ho⟩) | ⟨o, hmem, ho⟩⟩
    · exact ⟨hp.1, hp.2, Ne.symm hne⟩
    · exact ⟨(hc ho).1, ⟨o, hmem, (hc ho).2⟩, Ne.symm hne⟩
    · rcases or_eq_some_iff.mp ho with ho | ⟨-, hce⟩
      · exact ⟨(hc ho).1, ⟨o, hmem, (hc ho).2⟩, Ne.symm hne⟩
      · obtain ⟨hin, rfl⟩ := h.cellTransactionIds.mp hce
        exact ⟨hin, ⟨o, hmem, rfl⟩, Ne.symm hne⟩
  · rintro ⟨hin, hs, hne⟩
    exact ⟨Ne.symm hne, .inl (.inl ⟨hin, hs⟩)⟩

theorem withCellPool (h : pool.Coherent env) {cellPool : CellPool} (hlinked : cellPool.Linked env)
    (hbelow : cellPool.Below pool.cellPool) : { pool with cellPool }.Coherent env where
  keyed := h.keyed
  inverse := h.inverse
  chained := h.chained
  cellTransactionIds := h.cellTransactionIds
  cellWtxids := h.cellWtxids
  created := h.created
  estimatedSize := h.estimatedSize
  linked := hlinked
  mirrored hentry := by
    obtain ⟨before, hb, htx, -⟩ := hbelow.entries hentry
    exact htx ▸ h.mirrored hb
  registered hpa hch hmem := by
    obtain ⟨parentBefore, hp, htx, -⟩ := hbelow.entries hpa
    obtain ⟨cb, hc, htx', hd, -⟩ := hbelow.entries hch
    rw [← htx, ← htx']
    exact h.registered hp hc (hd hmem)
  distinct := h.distinct

theorem withReadyTransactions (h : pool.Coherent env) {readyTransactions}
    (hdistinct : readyTransactions.Distinct env) : { pool with readyTransactions }.Coherent env :=
  ⟨h.keyed, h.inverse, h.chained, h.cellTransactionIds, h.cellWtxids, h.created, h.estimatedSize,
    h.linked, h.mirrored, h.registered, hdistinct⟩

section Removal

variable {id : Hash}

theorem edge_chained_withoutRelations (h : pool.Coherent env) {parent child} :
    (pool.withoutRelations id).chainedTransactions.Edge parent child ↔
    pool.chainedTransactions.Edge parent child ∧ parent ≠ id ∧ child ≠ id := by
  have hin : parent ∈ (pool.parentTransactions.targets id).toList ↔
      pool.chainedTransactions.Edge parent id := by
    rw [ExtTreeSet.mem_toList]
    exact h.inverse
  rw [withoutRelations, edge_erase, edge_foldl_dropEdge, hin]
  constructor
  · rintro ⟨⟨he, hnot⟩, hp⟩
    exact ⟨he, hp, fun hc => hnot ⟨hc ▸ he, hc⟩⟩
  · rintro ⟨he, hp, hc⟩
    exact ⟨⟨he, fun hnot => hc hnot.2⟩, hp⟩

theorem edge_parents_withoutRelations (h : pool.Coherent env) {parent child} :
    (pool.withoutRelations id).parentTransactions.Edge child parent ↔
    pool.parentTransactions.Edge child parent ∧ parent ≠ id ∧ child ≠ id := by
  rw [withoutRelations, edge_erase, edge_foldl_dropEdge, ExtTreeSet.mem_toList]
  have hf : ∀ {child}, child ∈ targets ((pool.parentTransactions.targets id).toList.foldl
      (fun chained parent => chained.dropEdge parent id) pool.chainedTransactions) id ↔
        pool.chainedTransactions.Edge id child ∧
            ¬ (id ∈ (pool.parentTransactions.targets id).toList ∧ child = id) :=
    edge_foldl_dropEdge
  rw [hf]
  constructor
  · rintro ⟨⟨he, hnot⟩, hc⟩
    refine ⟨he, ?_, hc⟩
    rintro rfl
    exact hnot ⟨⟨h.inverse.mp he, fun hs => hc hs.2⟩, rfl⟩
  · rintro ⟨he, hp, hc⟩
    exact ⟨⟨he, fun hnot => hp hnot.2⟩, hc⟩

variable {tx : MempoolTransaction}

theorem mem_creates {H} {cellTx : CellTx} {o} : o ∈ cellTx.creates H ↔
    o.txHash = H.txid cellTx ∧ o.index < cellTx.outputs.length := by
  simp only [CellTx.creates, List.mem_map, mem_range]
  constructor
  · rintro ⟨index, hin, rfl⟩
    exact ⟨rfl, hin⟩
  · rintro ⟨htx, hin⟩
    exact ⟨o.index, hin, by rw [← htx]⟩

theorem txid_ne_of_getElem? (h : pool.Coherent env) (htx : pool.allTransactions[id]? = some tx)
    {wtxid entry} (hentry : pool.cellPool.txs[wtxid]? = some entry)
    (hne : env.wtxid tx.mtx.tx ≠ wtxid) :
    env.hasher.txid entry.tx ≠ id := by
  rintro rfl
  obtain ⟨tx', htx', heq⟩ := h.mirrored hentry
  rw [htx] at htx'
  cases htx'
  exact hne (heq ▸ h.linked.keyed hentry)

def takenOut (env : MempoolServices) (pool : TransactionsPool) (id : Hash) (tx : MempoolTransaction)
    (key : FeerateTransactionKey) : TransactionsPool :=
  { ((pool.withoutRelations id).withoutTransaction env id tx).withoutCells env key tx.mtx.tx with
    estimatedSize := pool.estimatedSize - env.mempoolEstimatedBytes tx.mtx }

theorem getElem?_takenOut {key} (other : Hash) :
    (takenOut env pool id tx key).allTransactions[other]? = if id = other then
      none else pool.allTransactions[other]? :=
  getElem?_erase_eq _ id other

theorem getElem?_takenOut_eq_some {key other ot} :
    (takenOut env pool id tx key).allTransactions[other]? = some ot ↔
    id ≠ other ∧ pool.allTransactions[other]? = some ot := by
  rw [getElem?_takenOut]
  split_ifs with heq
  · simp [heq]
  · simp [heq]

theorem mem_takenOut {key other} :
    other ∈ (takenOut env pool id tx key).allTransactions ↔
    id ≠ other ∧ other ∈ pool.allTransactions := by
  rw [mem_iff, mem_iff]
  simp [getElem?_takenOut_eq_some]

theorem takenOut_coherent (h : pool.Coherent env) (htx : pool.allTransactions[id]? = some tx)
    (hcell : env.wtxid tx.mtx.tx ∉ pool.cellPool.txs) (key) :
    (takenOut env pool id tx key).Coherent env := by
  obtain ⟨hid, -, hw⟩ := h.keyed htx
  have hne : ∀ {wtxid} {entry : PoolEntry}, pool.cellPool.txs[wtxid]? = some entry →
      env.hasher.txid entry.tx ≠ id := fun hentry => h.txid_ne_of_getElem? htx hentry fun heq =>
    hcell (heq ▸ mem_of_getElem? hentry)
  exact
  { keyed := fun ho => h.keyed (getElem?_takenOut_eq_some.mp ho).2
    inverse := h.edge_parents_withoutRelations.trans
      ((h.inverse.and Iff.rfl).trans h.edge_chained_withoutRelations.symm)
    chained := by
      intro parent child hed
      obtain ⟨hed, hp, hc⟩ := h.edge_chained_withoutRelations.mp hed
      obtain ⟨hin, hd, childTx, hch, hs⟩ := h.chained hed
      exact ⟨mem_takenOut.mpr ⟨Ne.symm hp, hin⟩, hd, childTx,
        getElem?_takenOut_eq_some.mpr ⟨Ne.symm hc, hch⟩, hs⟩
    cellTransactionIds := by
      intro cellId other
      have hget : (takenOut env pool id tx key).cellTransactionIds[cellId]? =
          if tx.id env = cellId then none else pool.cellTransactionIds[cellId]? :=
            getElem?_erase_eq _ _ _
      rw [hget, hid, mem_takenOut]
      split_ifs with heq
      · simp [heq]
      · rw [h.cellTransactionIds]
        simp [heq]
    cellWtxids := by
      intro wtxid other
      have hget : (takenOut env pool id tx key).cellWtxids[wtxid]? =
          if env.wtxid tx.mtx.tx = wtxid then none else pool.cellWtxids[wtxid]? := by
        simp only [takenOut, withoutTransaction, hw]
        exact getElem?_erase_eq _ _ _
      simp only [hget, getElem?_takenOut_eq_some]
      split_ifs with heq
      · simp only [false_iff, not_exists, not_and]
        rintro otherTx ⟨ho, hot⟩ hsame
        have hkey := (h.keyed hot).1
        exact ho (hid.symm.trans ((env.txid_eq_of_wtxid_eq (heq.trans hsame.symm)).trans hkey))
      · rw [h.cellWtxids]
        refine exists_congr fun otherTx => ⟨fun ho => ⟨⟨?_, ho.1⟩, ho.2⟩, fun ho => ⟨ho.1.2, ho.2⟩⟩
        rintro rfl
        rw [htx, Option.some.injEq] at ho
        exact heq (ho.1 ▸ ho.2)
    created := by
      intro outpoint other
      have hget : (takenOut env pool id tx key).cellSet.createdOutpointOwnerId[outpoint]? =
          if outpoint ∈ tx.mtx.tx.creates env.hasher then none
          else pool.cellSet.createdOutpointOwnerId[outpoint]? :=
        getElem?_foldl_erase outpoint
      have htxid : env.hasher.txid tx.mtx.tx = id := hid
      simp only [hget, getElem?_takenOut_eq_some, mem_creates, htxid]
      split_ifs with hmem
      · simp only [false_iff, not_and, not_exists]
        rintro rfl otherTx ⟨ho, -⟩
        exact absurd hmem.1.symm ho
      · rw [h.created]
        refine and_congr_right fun how => exists_congr fun otherTx => ?_
        refine ⟨fun ho => ⟨⟨?_, ho.1⟩, ho.2⟩, fun ho => ⟨ho.1.2, ho.2⟩⟩
        rintro rfl
        rw [htx, Option.some.injEq] at ho
        exact hmem ⟨how, ho.1 ▸ ho.2⟩
    estimatedSize := by
      have ht :=
        total_of_getElem? (f := fun tx : MempoolTransaction => env.mempoolEstimatedBytes tx.mtx) htx
      change pool.estimatedSize - env.mempoolEstimatedBytes tx.mtx = _
      rw [h.estimatedSize, ht]
      exact Nat.add_sub_cancel_left _ _
    linked := h.linked
    mirrored := by
      intro wtxid entry hentry
      obtain ⟨entryTx, he, heq⟩ := h.mirrored hentry
      exact ⟨entryTx, getElem?_takenOut_eq_some.mpr ⟨Ne.symm (hne hentry), he⟩, heq⟩
    registered := fun hp hc hmem => h.edge_chained_withoutRelations.mpr
      ⟨h.registered hp hc hmem, hne hp, hne hc⟩
    distinct := h.distinct.remove key }

end Removal

end Coherent

section Refresh

def readyAfter (env : MempoolServices) (pool : TransactionsPool)
    (readyTransactions : ReadyTransactions) (id : Hash) :
    ReadyTransactions :=
  match pool.allTransactions[id]? with
  | none => readyTransactions
  | some tx =>
    match ofMutableTransaction tx.mtx with
    | none => readyTransactions
    | some key => if pool.isReady env tx then
        readyTransactions.insert env key else readyTransactions.remove env key

theorem distinct_readyAfter {ready} (h : ready.Distinct env) (id : Hash) :
    (pool.readyAfter env ready id).Distinct env := by
  unfold readyAfter
  split
  · exact h
  · split
    · exact h
    · split_ifs
      · exact h.insert _
      · exact h.remove _

theorem distinct_foldl_readyAfter {ready} (h : ready.Distinct env) (ids : List Hash) :
    (ids.foldl (pool.readyAfter env) ready).Distinct env := by
  induction ids generalizing ready with
  | nil => exact h
  | cons id ids ih => exact ih (distinct_readyAfter h id)

variable (hkeys : ∀ {id : Hash} {tx : MempoolTransaction}, pool.allTransactions[id]? = some tx →
  ∃ key, ofMutableTransaction tx.mtx = some key)

include hkeys

theorem exec_refreshReadyStatus (readyTransactions : ReadyTransactions) (id : Hash) :
    (refreshReadyStatus env id).exec { pool with readyTransactions } =
      (.ok (), { pool with readyTransactions := pool.readyAfter env readyTransactions id }) := by
  unfold refreshReadyStatus readyAfter
  rw [exec_bind, exec_get]
  dsimp only
  cases htx : pool.allTransactions[id]? with
  | none => rfl
  | some tx =>
    obtain ⟨key, hkey⟩ := hkeys htx
    simp only [feerateKey, hkey]
    rfl

theorem exec_forM_refreshReadyStatus (readyTransactions : ReadyTransactions) (ids : List Hash) :
    (ids.forM (refreshReadyStatus env)).exec { pool with readyTransactions } =
      (.ok (),
      { pool with readyTransactions := ids.foldl (pool.readyAfter env) readyTransactions }) := by
  induction ids generalizing readyTransactions with
  | nil => rfl
  | cons id ids ih =>
    rw [exec_forM_cons, exec_bind, exec_refreshReadyStatus hkeys]
    exact ih _

end Refresh

namespace Coherent

variable {id : Hash} {tx : MempoolTransaction}

theorem exec_takeOut {key} (hkey : ofMutableTransaction tx.mtx = some key)
    (hbytes : env.mempoolEstimatedBytes tx.mtx ≤ pool.estimatedSize) :
    (takeOut env id (some tx)).exec pool = (.ok tx, takenOut env pool id tx key) := by
  have hsub : env.mempoolEstimatedBytes tx.mtx ≤
      (((pool.withoutRelations id).withoutTransaction env id tx).withoutCells env key
        tx.mtx.tx).estimatedSize := hbytes
  simp only [takeOut, okOr, feerateKey, hkey, elim_some, exec_bind, exec_modify, exec_lift,
    subEstimatedSize, exec_get, require, if_pos hsub]
  rfl

def withoutMirror (pool : TransactionsPool) (wtxid : Hash) (entry : PoolEntry) : TransactionsPool :=
  { pool with cellPool := pool.cellPool.withoutEntry wtxid entry }

def taken (env : MempoolServices) (pool : TransactionsPool) (id : Hash) (tx : MempoolTransaction)
    (entry : PoolEntry) (key : FeerateTransactionKey) : TransactionsPool :=
  takenOut env (withoutMirror pool (env.wtxid tx.mtx.tx) entry) id tx key

-- The pool without a transaction that has a mirror, and with the status of its children refreshed.
def removed (env : MempoolServices) (pool : TransactionsPool) (id : Hash) (tx : MempoolTransaction)
    (entry : PoolEntry) (key : FeerateTransactionKey) : TransactionsPool :=
  let taken := taken env pool id tx entry key
  { taken with
    readyTransactions := (env.iteration
      (taken.maybeReady (pool.chainedTransactions.targets id) entry.dependents)).foldl
      (taken.readyAfter env) taken.readyTransactions }

theorem bytes_le (h : pool.Coherent env) (htx : pool.allTransactions[id]? = some tx) :
    env.mempoolEstimatedBytes tx.mtx ≤ pool.estimatedSize := by
  rw [h.estimatedSize]
  exact le_total (f := fun tx : MempoolTransaction => env.mempoolEstimatedBytes tx.mtx) htx

theorem exec_removeCellMirror (id wtxid : Hash) : (removeCellMirror id (some wtxid)).exec pool =
    match pool.cellPool.txs[wtxid]? with
    | none => (.error (.rule (.rejectCellMirror id (.cellPool (.txNotFound wtxid)))), pool)
    | some entry => (.ok (), withoutMirror pool wtxid entry) := by
  rw [removeCellMirror, exec_discard, onCellPool, exec_zoom, exec_remove]
  cases pool.cellPool.txs[wtxid]? with
  | none => rfl
  | some entry => rfl

theorem wtxid_not_mem_withoutEntry (h : pool.Coherent env) {wtxid entry}
    (hentry : pool.cellPool.txs[wtxid]? = some entry) :
    wtxid ∉ (pool.cellPool.withoutEntry wtxid entry).txs := by
  rw [ExtTreeMap.mem_iff_isSome_getElem?, h.linked.getElem?_withoutEntry hentry, if_pos rfl]
  exact Bool.false_ne_true

section Removed

variable (h : pool.Coherent env) (htx : pool.allTransactions[id]? = some tx) {e : PoolEntry}
  (hentry : pool.cellPool.txs[env.wtxid tx.mtx.tx]? = some e)

include h htx hentry

theorem taken_coherent (key) : (taken env pool id tx e key).Coherent env := by
  have hc := h.withCellPool (h.linked.withoutEntry hentry) (h.linked.below_withoutEntry hentry)
  exact hc.takenOut_coherent htx (h.wtxid_not_mem_withoutEntry hentry) key

theorem removed_coherent (key) : (removed env pool id tx e key).Coherent env :=
  (h.taken_coherent htx hentry key).withReadyTransactions
    (distinct_foldl_readyAfter (h.taken_coherent htx hentry key).distinct _)

theorem exec_removeTransaction_of_entry {key} (hkey : ofMutableTransaction tx.mtx = some key) :
    (removeTransaction env id).exec pool = (.ok tx, removed env pool id tx e key) := by
  have hw := (h.keyed htx).2.2
  have ht := h.taken_coherent htx hentry key
  have hd : (pool.allTransactions[id]?.bind pool.cellEntry).elim [] PoolEntry.dependents =
      e.dependents := by
    rw [htx, bind_some, cellEntry, hw, bind_some, hentry, elim_some]
  have hm : (removeCellMirror id (some (env.wtxid tx.mtx.tx))).exec pool =
      (.ok (), withoutMirror pool (env.wtxid tx.mtx.tx) e) := by
    rw [exec_removeCellMirror, hentry]
  have hta : (takeOut env id (some tx)).exec (withoutMirror pool (env.wtxid tx.mtx.tx) e) =
      (.ok tx, taken env pool id tx e key) := exec_takeOut hkey (h.bytes_le htx)
  have hr :
      ((env.iteration ((taken env pool id tx e key).maybeReady (pool.chainedTransactions.targets id)
      e.dependents)).forM (refreshReadyStatus env)).exec (taken env pool id tx e key) =
        (.ok (), removed env pool id tx e key) :=
    exec_forM_refreshReadyStatus (fun ho => (ht.keyed ho).2.1) _ _
  have hs : (removed env pool id tx e key).allTransactions.isEmpty = true →
      (removed env pool id tx e key).estimatedSize = 0 := by
    intro he
    rw [(h.removed_coherent htx hentry key).estimatedSize, ExtTreeMap.isEmpty_iff.mp he,
      total_empty]
  rw [removeTransaction, exec_get_bind, hd, htx, bind_some, hw, exec_bind_of_ok hm,
    exec_bind_of_ok hta, exec_get_bind, exec_bind_of_ok hr, exec_get_bind,
    exec_bind_of_ok (exec_require _ hs _), exec_pure]

end Removed

theorem exec_removeTransaction_of_none (hnone : pool.allTransactions[id]? = none) :
    (removeTransaction env id).exec pool = (.error (.rule (.rejectMissingTransaction id)),
      pool.withoutRelations id) := by
  have ht : (takeOut env id none).exec pool =
      (.error (.rule (.rejectMissingTransaction id)), pool.withoutRelations id) := by
    simp only [takeOut, okOr, elim_none, exec_bind, exec_modify, exec_lift]
  rw [removeTransaction, exec_get_bind, hnone]
  exact exec_bind_of_ok rfl |>.trans (exec_bind_of_error ht)

theorem exec_removeTransaction_of_no_entry (h : pool.Coherent env)
    (htx : pool.allTransactions[id]? = some tx) (hentry : pool.cellPool.txs[env.wtxid tx.mtx.tx]? =
      none) : (removeTransaction env id).exec pool =
    (.error (.rule (.rejectCellMirror id (.cellPool (.txNotFound (env.wtxid tx.mtx.tx))))),
      pool) := by
  have hm : (removeCellMirror id (some (env.wtxid tx.mtx.tx))).exec pool =
      (.error (.rule (.rejectCellMirror id (.cellPool (.txNotFound (env.wtxid tx.mtx.tx))))),
          pool) := by
    rw [exec_removeCellMirror, hentry]
  rw [removeTransaction, exec_get_bind, htx]
  simp only [bind_some, (h.keyed htx).2.2]
  exact exec_bind_of_error hm

theorem withoutRelations_coherent (h : pool.Coherent env)
    (hnone : pool.allTransactions[id]? = none) :
    (pool.withoutRelations id).Coherent env := by
  have hen : ∀ {parent child}, pool.chainedTransactions.Edge parent child → parent ≠ id ∧
      child ≠ id := by
    intro parent child he
    obtain ⟨hp, -, tx, htx, -⟩ := h.chained he
    obtain ⟨parentTx, hpa⟩ := mem_iff.mp hp
    refine ⟨?_, ?_⟩
    · rintro rfl
      rw [hnone] at hpa
      contradiction
    · rintro rfl
      rw [hnone] at htx
      contradiction
  have he : ∀ {parent child}, (pool.withoutRelations id).chainedTransactions.Edge parent child ↔
      pool.chainedTransactions.Edge parent child :=
    h.edge_chained_withoutRelations.trans ⟨And.left, fun he => ⟨he, hen he⟩⟩
  have he' : ∀ {parent child}, (pool.withoutRelations id).parentTransactions.Edge child parent ↔
      pool.parentTransactions.Edge child parent :=
    h.edge_parents_withoutRelations.trans ⟨And.left, fun he => ⟨he, hen (h.inverse.mp he)⟩⟩
  exact ⟨h.keyed, he'.trans (h.inverse.trans he.symm), fun hc => h.chained (he.mp hc),
    h.cellTransactionIds, h.cellWtxids, h.created, h.estimatedSize, h.linked, h.mirrored,
    fun hp hch hmem => he.mpr (h.registered hp hch hmem), h.distinct⟩

theorem exec_removeTransaction (h : pool.Coherent env) (id : Hash) :
    (∃ fault after, (removeTransaction env id).exec pool = (.error fault, after) ∧
      after.Coherent env ∧
      (after = pool ∨ after = pool.withoutRelations id ∧ id ∉ pool.allTransactions)) ∨
    ∃ tx entry key, pool.allTransactions[id]? = some tx ∧
    pool.cellPool.txs[env.wtxid tx.mtx.tx]? = some entry ∧
    ofMutableTransaction tx.mtx = some key ∧
    (removeTransaction env id).exec pool = (.ok tx, removed env pool id tx entry key) := by
  cases htx : pool.allTransactions[id]? with
  | none =>
    refine .inl ⟨_, _, exec_removeTransaction_of_none htx, h.withoutRelations_coherent htx,
      .inr ⟨rfl, fun hmem => ?_⟩⟩
    obtain ⟨tx, htx'⟩ := mem_iff.mp hmem
    rw [htx] at htx'
    contradiction
  | some tx =>
    cases hentry : pool.cellPool.txs[env.wtxid tx.mtx.tx]? with
    | none => exact .inl ⟨_, _, h.exec_removeTransaction_of_no_entry htx hentry, h, .inl rfl⟩
    | some entry =>
      obtain ⟨key, hkey⟩ := (h.keyed htx).2.1
      exact .inr ⟨tx, entry, key, rfl, hentry, hkey,
        h.exec_removeTransaction_of_entry htx hentry hkey⟩

theorem removeTransaction_keeps (id : Hash) : Keeps (Coherent env) (removeTransaction env id) := by
  refine Triple.intro fun pool h => ?_
  obtain ⟨fault, after, he, ha, -⟩ | ⟨tx, entry, key, htx, hentry, -, he⟩ :=
    h.exec_removeTransaction id
  · rw [he]
    exact ha
  · rw [he]
    exact h.removed_coherent htx hentry key

end Coherent

section Addition

variable {t : MempoolTransaction} {size : Nat}

def mirrorOf (env : MempoolServices) (transaction : MempoolTransaction) : MempoolTransaction :=
  { transaction with cellWtxid := some (env.wtxid transaction.mtx.tx) }

def entered (env : MempoolServices) (pool : TransactionsPool) (cellPool : CellPool)
    (transaction : MempoolTransaction) (size : Nat) : TransactionsPool :=
  { pool with cellPool }.withTransaction env (mirrorOf env transaction) size

def added (env : MempoolServices) (pool : TransactionsPool) (cellPool : CellPool)
    (transaction : MempoolTransaction) (size : Nat) : TransactionsPool :=
  let entered := entered env pool cellPool transaction size
  { entered with
    readyTransactions := entered.readyAfter env entered.readyTransactions (transaction.id env) }

namespace Coherent

variable {cellPool : CellPool}

theorem getElem?_entered (other : Hash) :
    (entered env pool cellPool t size).allTransactions[other]? =
    if t.id env = other then some (mirrorOf env t) else pool.allTransactions[other]? :=
  getElem?_insert_eq _ _ _ _

theorem mem_entered {other} : other ∈ (entered env pool cellPool t size).allTransactions ↔
    other = t.id env ∨ other ∈ pool.allTransactions := by
  rw [mem_iff, getElem?_entered, mem_iff]
  split_ifs with heq
  · simp [heq]
  · simp [Ne.symm heq]

theorem exists_key_of_isFullyPopulated {mtx} (h : mtx.isFullyPopulated = true) :
    ∃ key, ofMutableTransaction mtx = some key := by
  simp only [isFullyPopulated, Bool.and_eq_true, isSome_iff_exists] at h
  obtain ⟨⟨⟨-, fee, hfee⟩, masses, hm⟩, contextual, hc⟩ := h
  simp [ofMutableTransaction, selectionMass,
    contextualStorageMass, hfee, hm, hc]

theorem exists_key_entered (h : pool.Coherent env) (hpopulated : t.mtx.isFullyPopulated = true)
    {other : Hash} {tx}
    (htx : (entered env pool cellPool t size).allTransactions[other]? = some tx) :
    ∃ key, ofMutableTransaction tx.mtx = some key := by
  rw [getElem?_entered] at htx
  split_ifs at htx with heq
  · rw [Option.some.injEq] at htx
    rw [← htx]
    exact exists_key_of_isFullyPopulated hpopulated
  · exact (h.keyed htx).2.1

theorem exists_mirror_of_remains (h : pool.Coherent env) {remaining}
    (hremains : Remains env pool.cellPool remaining) {wtxid : Hash} {entry}
    (hentry : remaining.txs[wtxid]? = some entry) :
    ∃ tx, pool.allTransactions[env.hasher.txid entry.tx]? = some tx ∧ tx.mtx.tx = entry.tx := by
  obtain ⟨before, hb, htx, -⟩ := hremains.2.entries hentry
  rw [← htx]
  exact h.mirrored hb

theorem registered_entered (h : pool.Coherent env) {remaining}
    (hremains : Remains env pool.cellPool remaining)
    (hfresh : env.wtxid t.mtx.tx ∉ remaining.txs) {fee cycles} {parent child : Hash} {pe ce}
    (hparent : (remaining.withEntry env t.mtx.tx fee cycles).txs[parent]? = some pe)
    (hchild : (remaining.withEntry env t.mtx.tx fee cycles).txs[child]? = some ce)
    (hmem : parent ∈ ce.dependencies) :
    pool.chainedTransactions.Edge (env.hasher.txid pe.tx) (env.hasher.txid ce.tx) ∨
    (env.hasher.txid ce.tx = t.id env ∧ env.hasher.txid pe.tx ∈ pool.allTransactions ∧
      t.mtx.tx.spendsFrom (env.hasher.txid pe.tx)) := by
  obtain ⟨before, hb, hs⟩ := hremains.1.spends_withEntry hchild hmem
  have hp : before.tx = pe.tx := by
    obtain ⟨before', hb', htx, -⟩ :=
      getElem?_withEntry_of_ne (wtxid_ne_of_getElem? hfresh hb) hparent
    rw [hb, Option.some.injEq] at hb'
    exact hb' ▸ htx
  by_cases heq : env.wtxid t.mtx.tx = child
  · subst heq
    rw [getElem?_withEntry_self] at hchild
    cases hchild
    obtain ⟨tx, htx, -⟩ := h.exists_mirror_of_remains hremains hb
    exact .inr ⟨rfl, mem_iff.mpr ⟨tx, hp ▸ htx⟩, hp ▸ hs⟩
  · obtain ⟨cb, hc, hchildTx, hd, -⟩ := getElem?_withEntry_of_ne heq hchild
    obtain ⟨parentOld, hpa, htx, -⟩ := hremains.2.entries hb
    obtain ⟨childOld, hch, htx', hsub, -⟩ := hremains.2.entries hc
    have he := h.registered hpa hch (hsub (hd ▸ hmem))
    rw [htx, htx', hp, hchildTx] at he
    exact .inl he

section New

variable (h : pool.Coherent env) (hnew : t.id env ∉ pool.allTransactions)

include h hnew

omit h in
theorem id_ne_of_getElem? {other : Hash} {tx : MempoolTransaction}
    (htx : pool.allTransactions[other]? = some tx) :
    t.id env ≠ other := by
  rintro rfl
  exact hnew (mem_iff.mpr ⟨tx, htx⟩)

theorem mem_effectiveParents_new {parent} :
    parent ∈ pool.getEffectiveParentTransactionIdsInPool env t.mtx.tx ↔
    parent ∈ pool.allTransactions ∧ t.mtx.tx.spendsFrom parent := by
  rw [h.mem_effectiveParents]
  refine ⟨fun hp => ⟨hp.1, hp.2.1⟩, fun hp => ⟨hp.1, hp.2, ?_⟩⟩
  rintro rfl
  exact hnew hp.1

theorem edge_chained_entered {parent child} :
    (entered env pool cellPool t size).chainedTransactions.Edge parent child ↔
    pool.chainedTransactions.Edge parent child ∨
    (child = t.id env ∧ parent ∈ pool.allTransactions ∧ t.mtx.tx.spendsFrom parent) := by
  have he : (entered env pool cellPool t size).chainedTransactions.Edge parent child ↔
      pool.chainedTransactions.Edge parent child ∨ (parent ∈
        (pool.getEffectiveParentTransactionIdsInPool env t.mtx.tx).toList ∧ child = t.id env) :=
    edge_foldl_addEdge
  rw [he, ExtTreeSet.mem_toList, h.mem_effectiveParents_new hnew]
  exact or_congr Iff.rfl and_comm

theorem edge_parents_entered {parent child} :
    (entered env pool cellPool t size).parentTransactions.Edge child parent ↔
    pool.parentTransactions.Edge child parent ∨
    (child = t.id env ∧ parent ∈ pool.allTransactions ∧ t.mtx.tx.spendsFrom parent) := by
  have he : (entered env pool cellPool t size).parentTransactions.Edge child parent ↔
      if t.id env = child then parent ∈ pool.getEffectiveParentTransactionIdsInPool env t.mtx.tx
      else pool.parentTransactions.Edge child parent := edge_insert
  rw [he, h.mem_effectiveParents_new hnew]
  split_ifs with heq
  · have hn : ¬ pool.parentTransactions.Edge child parent := fun he => by
      obtain ⟨-, -, tx, htx, -⟩ := h.chained (h.inverse.mp he)
      exact id_ne_of_getElem? hnew htx heq
    rw [or_iff_right hn, and_iff_right heq.symm]
  · have hne := Ne.symm heq
    rw [or_iff_left fun hand => hne hand.1]

theorem entered_coherent {remaining : CellPool}
    (hremains : Remains env pool.cellPool remaining)
    (hfresh : env.wtxid t.mtx.tx ∉ remaining.txs) (hpopulated : t.mtx.isFullyPopulated = true)
    (fee cycles : Nat) :
    (entered env pool (remaining.withEntry env t.mtx.tx fee cycles) t
      (env.mempoolEstimatedBytes t.mtx)).Coherent env where
  keyed {other tx} htx := by
    rw [getElem?_entered] at htx
    split_ifs at htx with heq
    · rw [Option.some.injEq] at htx
      subst htx
      exact ⟨heq, exists_key_of_isFullyPopulated hpopulated, rfl⟩
    · exact h.keyed htx
  inverse := by
    intro parent child
    rw [h.edge_parents_entered hnew, h.edge_chained_entered hnew, h.inverse]
  chained {parent child} he := by
    rcases (h.edge_chained_entered hnew).mp he with he | ⟨rfl, hp, hs⟩
    · obtain ⟨hp, hd, tx, htx, hs⟩ := h.chained he
      refine ⟨mem_entered.mpr (.inr hp), hd, tx, ?_, hs⟩
      rw [getElem?_entered, if_neg (id_ne_of_getElem? hnew htx)]
      exact htx
    · refine ⟨mem_entered.mpr (.inr hp), fun heq => hnew (heq ▸ hp), mirrorOf env t, ?_, hs⟩
      rw [getElem?_entered, if_pos rfl]
  cellTransactionIds {cellId other} := by
    have hget : (entered env pool (remaining.withEntry env t.mtx.tx fee cycles) t
        (env.mempoolEstimatedBytes t.mtx)).cellTransactionIds[cellId]? =
          if t.id env = cellId then some (t.id env) else pool.cellTransactionIds[cellId]? :=
      getElem?_insert_eq _ _ _ _
    rw [hget, mem_entered]
    split_ifs with heq
    · subst heq
      simp [eq_comm]
    · rw [h.cellTransactionIds]
      simp [Ne.symm heq]
  cellWtxids {wtxid other} := by
    have hget : (entered env pool (remaining.withEntry env t.mtx.tx fee cycles) t
        (env.mempoolEstimatedBytes t.mtx)).cellWtxids[wtxid]? =
          if env.wtxid t.mtx.tx = wtxid then some (t.id env) else pool.cellWtxids[wtxid]? :=
      getElem?_insert_eq _ _ _ _
    simp only [hget, getElem?_entered]
    split_ifs with hw ho ho
    · simp [ho, hw, mirrorOf]
    · simp only [Option.some.injEq, ho, false_iff, not_exists, not_and]
      intro tx htx hsame
      exact ho ((env.txid_eq_of_wtxid_eq (hw.trans hsame.symm)).trans (h.keyed htx).1)
    · rw [h.cellWtxids]
      simp only [← ho, Option.some.injEq]
      constructor
      · rintro ⟨tx, htx, -⟩
        exact absurd rfl (id_ne_of_getElem? hnew htx)
      · rintro ⟨tx, rfl, hsame⟩
        exact absurd hsame hw
    · exact h.cellWtxids
  created {outpoint other} := by
    have hget : (entered env pool (remaining.withEntry env t.mtx.tx fee cycles) t
        (env.mempoolEstimatedBytes t.mtx)).cellSet.createdOutpointOwnerId[outpoint]? =
          if outpoint ∈ t.mtx.tx.creates env.hasher then some (t.id env)
          else pool.cellSet.createdOutpointOwnerId[outpoint]? := getElem?_foldl_insert_const
    have hc : outpoint ∈ t.mtx.tx.creates env.hasher ↔ outpoint.txHash = t.id env ∧
        outpoint.index < t.mtx.tx.outputs.length := mem_creates
    simp only [hget, getElem?_entered]
    split_ifs with hmem ho ho
    · subst ho
      exact ⟨fun _ => ⟨(hc.mp hmem).1, _, rfl, (hc.mp hmem).2⟩, fun _ => rfl⟩
    · simp only [Option.some.injEq, ho, false_iff, not_and]
      exact fun how => absurd ((hc.mp hmem).1.symm.trans how) ho
    · rw [h.created]
      simp only [← ho, Option.some.injEq]
      constructor
      · rintro ⟨-, tx, htx, -⟩
        exact absurd rfl (id_ne_of_getElem? hnew htx)
      · rintro ⟨how, tx, rfl, hin⟩
        exact absurd (hc.mpr ⟨how, hin⟩) hmem
    · exact h.created
  estimatedSize := by
    have hn := ExtTreeMap.getElem?_eq_none hnew
    have ht := total_insert (f := fun tx : MempoolTransaction => env.mempoolEstimatedBytes tx.mtx)
      (v := mirrorOf env t) hn
    change pool.estimatedSize + env.mempoolEstimatedBytes t.mtx =
      total _ (pool.allTransactions.insert _ _)
    rw [h.estimatedSize, Nat.add_comm]
    exact ht.symm
  linked := hremains.1.withEntry hfresh
  mirrored {wtxid entry} hentry := by
    by_cases heq : env.wtxid t.mtx.tx = wtxid
    · subst heq
      have hse := getElem?_withEntry_self.symm.trans hentry
      rw [Option.some.injEq] at hse
      subst hse
      exact ⟨mirrorOf env t, by rw [getElem?_entered]; exact if_pos rfl, rfl⟩
    · obtain ⟨before, hb, htx, -⟩ := getElem?_withEntry_of_ne heq hentry
      obtain ⟨tx, htx', heq'⟩ := h.exists_mirror_of_remains hremains hb
      refine ⟨tx, ?_, heq'.trans htx⟩
      rw [getElem?_entered, if_neg (id_ne_of_getElem? hnew (htx ▸ htx'))]
      exact htx ▸ htx'
  registered hp hch hmem :=
    (h.edge_chained_entered hnew).mpr (h.registered_entered hremains hfresh hp hch hmem)
  distinct := h.distinct

theorem added_coherent {remaining} (hremains : Remains env pool.cellPool remaining)
    (hfresh : env.wtxid t.mtx.tx ∉ remaining.txs) (hpopulated : t.mtx.isFullyPopulated = true)
    (fee cycles : Nat) :
    (added env pool (remaining.withEntry env t.mtx.tx fee cycles) t
      (env.mempoolEstimatedBytes t.mtx)).Coherent env :=
  (h.entered_coherent hnew hremains hfresh hpopulated fee cycles).withReadyTransactions
    (distinct_readyAfter h.distinct _)

end New

theorem buildParentCellIdContext_eq_ok (tx) :
    pool.buildParentCellIdContext (getParentTransactionIdsInPool pool.allTransactions tx) =
    .ok () := by
  have hall : ∀ ids, (∀ id ∈ ids, id ∈ pool.allTransactions) →
      pool.buildParentCellIdContext ids = .ok () := by
    intro ids hids
    induction ids with
    | nil => rfl
    | cons id ids ih =>
      rw [forall_mem_cons] at hids
      change (if id ∈ pool.allTransactions then Except.ok () else _) >>= (fun _ => _) = _
      rw [if_pos hids.1]
      exact ih hids.2
  exact hall _ fun id hid => (mem_getParentTransactionIdsInPool.mp hid).1

theorem exists_fee_cycles_of_isFullyPopulated {mtx : MutableTransaction}
    (hpopulated : mtx.isFullyPopulated = true) :
    ∃ fee cycles, mtx.calculatedFee = some fee ∧ mtx.projectedCellPoolCycles = some cycles := by
  simp only [isFullyPopulated, Bool.and_eq_true, isSome_iff_exists] at hpopulated
  obtain ⟨⟨⟨-, fee, hfee⟩, masses, hm⟩, -⟩ := hpopulated
  cases hc : mtx.verifiedCycles with
  | none => simp [projectedCellPoolCycles,
      effectiveComputeMass, hm, hfee]
  | some cycles => simp [projectedCellPoolCycles, hfee, hc]

theorem exec_addCellMirror (h : pool.Coherent env) (hpopulated : t.mtx.isFullyPopulated = true) :
    (∃ fault cellPool, (addCellMirror env t.refreshCellMirror).exec pool =
      (.error fault, { pool with cellPool }) ∧ Remains env pool.cellPool cellPool) ∨
    ∃ remaining fee cycles, Remains env pool.cellPool remaining ∧
      env.wtxid t.mtx.tx ∉ remaining.txs ∧ (addCellMirror env t.refreshCellMirror).exec pool =
        (.ok (mirrorOf env t),
        { pool with cellPool := remaining.withEntry env t.mtx.tx fee cycles }) := by
  obtain ⟨fee, cycles, hfee, hc⟩ := exists_fee_cycles_of_isFullyPopulated hpopulated
  have hs : Triple (Remains env pool.cellPool) (add env t.mtx.tx fee cycles)
      (Entered env pool.cellPool t.mtx.tx fee cycles)
          (Remains env pool.cellPool) :=
    add_spec
  have hadd := hs.apply ⟨h.linked, .refl _⟩
  have he : (addCellMirror env t.refreshCellMirror).exec pool =
      ((onCellPool (t.id env) (add env t.mtx.tx fee cycles) >>= fun wtxid =>
        pure { t.refreshCellMirror with cellWtxid := some wtxid }) :
          PoolRun TransactionsPool MempoolTransaction).exec pool := by
    simp only [addCellMirror, MempoolTransaction.refreshCellMirror, hfee, hc]
    rfl
  rw [he, exec_bind, onCellPool, exec_zoom]
  rcases hr : (add env t.mtx.tx fee cycles).exec pool.cellPool
    with ⟨error | wtxid, cellPool⟩
  · rw [hr] at hadd
    exact .inl ⟨_, cellPool, rfl, hadd⟩
  · rw [hr] at hadd
    obtain ⟨remaining, hremains, hfresh, rfl, rfl⟩ := hadd
    exact .inr ⟨remaining, fee, cycles, hremains, hfresh, rfl⟩

theorem exec_addMempoolTransaction (h : pool.Coherent env) (t) (size : Nat) :
    (∃ fault cellPool, (addMempoolTransaction env t size).exec pool =
      (.error fault, { pool with cellPool }) ∧
      Remains env pool.cellPool cellPool) ∨
    ∃ remaining fee cycles, t.id env ∉ pool.allTransactions ∧ t.mtx.isFullyPopulated = true ∧
      Remains env pool.cellPool remaining ∧ env.wtxid t.mtx.tx ∉ remaining.txs ∧
      (addMempoolTransaction env t size).exec pool = (.ok (mirrorOf env t),
        added env pool (remaining.withEntry env t.mtx.tx fee cycles) t size) := by
  by_cases hnew : t.id env ∈ pool.allTransactions
  · have hholds : ¬ (!pool.has (t.id env)) = true := by simp [has, hnew]
    refine .inl ⟨.panicked, pool.cellPool, ?_, h.linked, .refl _⟩
    rw [addMempoolTransaction, exec_get_bind, exec_bind_of_error (exec_require_of_not _ hholds _)]
  have hholds : (!pool.has (t.id env)) = true := by simp [has, hnew]
  cases hp : t.mtx.isFullyPopulated with
  | false =>
    refine .inl ⟨.panicked, pool.cellPool, ?_, h.linked, .refl _⟩
    rw [addMempoolTransaction, exec_get_bind, exec_bind_of_ok (exec_require _ hholds _), hp]
    rfl
  | true =>
    have hc := exec_lift (σ := TransactionsPool)
      (pool.buildParentCellIdContext (getParentTransactionIdsInPool pool.allTransactions t.mtx.tx))
        pool
    rw [buildParentCellIdContext_eq_ok] at hc
    rw [addMempoolTransaction, exec_get_bind, exec_bind_of_ok (exec_require _ hholds _),
      exec_bind_of_ok (exec_require _ hp _), buildParentCellIdContext_eq_ok, exec_bind_of_ok hc]
    rcases h.exec_addCellMirror hp with ⟨fault, cellPool, he, hremains⟩ |
      ⟨remaining, fee, cycles, hremains, hfresh, he⟩
    · exact .inl ⟨fault, cellPool, exec_bind_of_error he, hremains⟩
    · refine .inr ⟨remaining, fee, cycles, hnew, rfl, hremains, hfresh, ?_⟩
      have hm : (modify fun pool : TransactionsPool => pool.withTransaction env
          (mirrorOf env t) size : PoolRun TransactionsPool PUnit).exec
            { pool with cellPool := remaining.withEntry env t.mtx.tx fee cycles } =
          (.ok ⟨⟩, entered env pool (remaining.withEntry env t.mtx.tx fee cycles) t size) := rfl
      have hr : (refreshReadyStatus env (t.id env)).exec
          (entered env pool (remaining.withEntry env t.mtx.tx fee cycles) t size) =
            (.ok (), added env pool (remaining.withEntry env t.mtx.tx fee cycles) t size) :=
        exec_refreshReadyStatus (h.exists_key_entered hp) _ _
      rw [exec_bind_of_ok he, exec_bind_of_ok hm, exec_bind_of_ok hr, exec_pure]

theorem mem_of_addMempoolTransaction (h : pool.Coherent env) {accepted after}
    (hexec : (addMempoolTransaction env t size).exec pool = (.ok accepted, after)) {other}
    (hother : other ∈ pool.allTransactions) : other ∈ after.allTransactions := by
  obtain ⟨fault, cellPool, he, -⟩ | ⟨remaining, fee, cycles, -, -, -, -, hok⟩ :=
    h.exec_addMempoolTransaction t size
  · simp [he] at hexec
  · have hmem : other ∈ (entered env pool (remaining.withEntry env t.mtx.tx fee cycles) t
        size).allTransactions := mem_entered.mpr (.inr hother)
    rw [hok, Prod.mk.injEq] at hexec
    rw [← hexec.2]
    exact hmem

theorem addMempoolTransaction_keeps (t) : Keeps (Coherent env)
    (addMempoolTransaction env t (env.mempoolEstimatedBytes t.mtx)) := by
  refine Triple.intro fun pool h => ?_
  obtain ⟨fault, cellPool, he, hremains⟩ |
      ⟨remaining, fee, cycles, hnew, hp, hremains, hfresh, he⟩ :=
    h.exec_addMempoolTransaction t (env.mempoolEstimatedBytes t.mtx)
  · rw [he]
    exact h.withCellPool hremains.1 hremains.2
  · rw [he]
    exact h.added_coherent hnew hremains hfresh hp fee cycles

end Coherent

end Addition

section Revalidation

variable {t existing : MempoolTransaction}

def recomputed (transaction existing : MempoolTransaction) : MempoolTransaction :=
  ⟨transaction.mtx, none, existing.priority, existing.addedAtDaaScore⟩

def revalidated (env : MempoolServices) (pool : TransactionsPool) (cellPool : CellPool)
    (transaction existing : MempoolTransaction) : TransactionsPool :=
  { pool with
    cellPool
    allTransactions := pool.allTransactions.insert (transaction.id env)
      (mirrorOf env (recomputed transaction existing))
    estimatedSize := pool.estimatedSize - env.mempoolEstimatedBytes existing.mtx +
      env.mempoolEstimatedBytes transaction.mtx
  }.withRelations env transaction (pool.parentTransactions.targets (transaction.id env))

namespace Coherent

theorem exec_removePreviousMirror (id wtxid : Hash) :
    (removePreviousMirror id (some wtxid)).exec pool =
    match pool.cellPool.txs[wtxid]? with
    | none => (.ok false, pool)
    | some entry => (.ok true,
          { withoutMirror pool wtxid entry with cellWtxids := pool.cellWtxids.erase wtxid }) := by
  rw [removePreviousMirror, exec_bind, exec_attempt, onCellPool, exec_zoom, exec_remove]
  cases pool.cellPool.txs[wtxid]? with
  | none => rfl
  | some entry => rfl

def unmirrored (env : MempoolServices) (pool : TransactionsPool) (entry : PoolEntry)
    (transaction existing : MempoolTransaction) : TransactionsPool :=
  { withoutMirror pool (env.wtxid existing.mtx.tx) entry with
    cellWtxids := pool.cellWtxids.erase (env.wtxid existing.mtx.tx)
    cellTransactionIds := (pool.cellTransactionIds.erase (existing.id env)).insert
      (transaction.id env) (transaction.id env)
    allTransactions :=
      pool.allTransactions.insert (transaction.id env) (recomputed transaction existing)
    estimatedSize :=
      pool.estimatedSize - env.mempoolEstimatedBytes existing.mtx +
        env.mempoolEstimatedBytes transaction.mtx }

theorem exists_unmirrored (h : pool.Coherent env) {after}
    (hexec : (updateRevalidatedTransaction env t).exec pool = (.ok true, after)) :
    ∃ (existing : MempoolTransaction) (entry : PoolEntry) (fee cycles : Nat),
    pool.allTransactions[t.id env]? = some existing ∧
    pool.cellPool.txs[env.wtxid existing.mtx.tx]? = some entry ∧
    (restoreMirror env (recomputed t existing) fee cycles
      (pool.parentTransactions.targets (t.id env))).exec
    (unmirrored env pool entry t existing) = (.ok true, after) := by
  unfold updateRevalidatedTransaction at hexec
  rw [exec_get_bind] at hexec
  cases htx : pool.allTransactions[t.id env]? with
  | none =>
    simp only [htx, bind_none] at hexec
    rw [exec_bind_of_ok (m := removePreviousMirror _ none) rfl] at hexec
    simp at hexec
  | some existing =>
    simp only [htx, bind_some, (h.keyed htx).2.2, buildParentCellIdContext_eq_ok] at hexec
    rw [exec_bind, exec_removePreviousMirror] at hexec
    cases hentry : pool.cellPool.txs[env.wtxid existing.mtx.tx]? with
    | none =>
      simp [hentry] at hexec
    | some entry =>
      have hsub := h.bytes_le htx
      simp only [hentry, Bool.not_true, Bool.false_eq_true, if_false, subEstimatedSize, exec_bind,
        exec_get, withoutMirror, require, hsub] at hexec
      cases hfee : t.mtx.calculatedFee with
      | none =>
        simp [hfee] at hexec
      | some fee =>
        simp only [hfee, exec_bind] at hexec
        cases hc : t.mtx.projectedCellPoolCycles with
        | none =>
          simp [hc] at hexec
        | some cycles =>
          simp only [hc] at hexec
          exact ⟨existing, entry, fee, cycles, rfl, hentry, hexec⟩

theorem getElem?_revalidated {cellPool} (other : Hash) :
    (revalidated env pool cellPool t existing).allTransactions[other]? =
      if t.id env = other then some (mirrorOf env (recomputed t existing))
      else pool.allTransactions[other]? :=
  getElem?_insert_eq _ _ _ _

theorem exec_refreshReadyStatus_of_no_key {cellPool} (hkey : ofMutableTransaction t.mtx = none) :
    (refreshReadyStatus env (t.id env)).exec (revalidated env pool cellPool t existing) =
    (.error .panicked, revalidated env pool cellPool t existing) := by
  unfold refreshReadyStatus
  rw [exec_get_bind, getElem?_revalidated, if_pos rfl]
  have hl : (feerateKey (mirrorOf env (recomputed t existing))).exec
      (revalidated env pool cellPool t existing) =
          (.error .panicked, revalidated env pool cellPool t existing) := by
    simp only [feerateKey, mirrorOf, recomputed, hkey, okOr, elim_none, exec_lift]
  exact exec_bind_of_error hl

section Same

variable (h : pool.Coherent env) (htx : pool.allTransactions[t.id env]? = some existing)
  (hsame : t.mtx.tx = existing.mtx.tx)

include h htx hsame

theorem withRelations_unmirrored (entry cellPool) :
    ({ unmirrored env pool entry t existing with cellPool }.withMirror env (recomputed t existing)
      (env.wtxid t.mtx.tx)).withRelations env (recomputed t existing)
        (pool.parentTransactions.targets (t.id env)) =
        revalidated env pool cellPool t existing := by
  have hce := h.cellTransactionIds.mpr ⟨mem_iff.mpr ⟨existing, htx⟩, rfl⟩
  have hwt := h.cellWtxids.mpr ⟨existing, htx, rfl⟩
  have hc : (pool.cellTransactionIds.erase (existing.id env)).insert (t.id env) (t.id env) =
      pool.cellTransactionIds := by
    rw [(h.keyed htx).1]
    exact insert_erase_self hce
  have hw : (pool.cellWtxids.erase (env.wtxid existing.mtx.tx)).insert (env.wtxid t.mtx.tx)
      (t.id env) = pool.cellWtxids := by
    rw [hsame]
    exact insert_erase_self hwt
  have hall : (pool.allTransactions.insert (t.id env) (recomputed t existing)).insert
      (t.id env) (mirrorOf env (recomputed t existing)) =
        pool.allTransactions.insert (t.id env) (mirrorOf env (recomputed t existing)) :=
    insert_insert_self
  have hm : { unmirrored env pool entry t existing with cellPool }.withMirror env
      (recomputed t existing) (env.wtxid t.mtx.tx) = { pool with
          cellPool
          allTransactions :=
            pool.allTransactions.insert (t.id env) (mirrorOf env (recomputed t existing))
          estimatedSize := pool.estimatedSize - env.mempoolEstimatedBytes existing.mtx +
            env.mempoolEstimatedBytes t.mtx } := by
    simp only [withMirror, unmirrored, withoutMirror, mk.injEq, and_true]
    exact ⟨hall, hc, hw⟩
  rw [hm]
  rfl

omit h hsame in
theorem mem_revalidated {cellPool : CellPool} {other : Hash} :
    other ∈ (revalidated env pool cellPool t existing).allTransactions ↔
    other ∈ pool.allTransactions := by
  rw [mem_iff, getElem?_revalidated, mem_iff]
  split_ifs with heq
  · simp [← heq, htx]
  · rfl

theorem mem_effectiveParents_revalidated {cellPool : CellPool} {estimatedSize : Nat}
    {parent : Hash} :
    parent ∈ { pool with
      cellPool
      allTransactions :=
        pool.allTransactions.insert (t.id env) (mirrorOf env (recomputed t existing))
      estimatedSize }.getEffectiveParentTransactionIdsInPool env t.mtx.tx ↔
        parent ∈ pool.allTransactions ∧ existing.mtx.tx.spendsFrom parent ∧ parent ≠ t.id env := by
  have hpa : ∀ tx, getParentTransactionIdsInPool
      (pool.allTransactions.insert (t.id env) (mirrorOf env (recomputed t existing))) tx =
        getParentTransactionIdsInPool pool.allTransactions tx := by
    intro tx
    refine filter_congr fun id _ => ?_
    have hmem : id ∈ (revalidated env pool pool.cellPool t existing).allTransactions ↔
      id ∈ pool.allTransactions := mem_revalidated htx
    exact decide_eq_decide.mpr hmem
  have hp : parent ∈ pool.getEffectiveParentTransactionIdsInPool env t.mtx.tx ↔
      parent ∈ pool.allTransactions ∧ t.mtx.tx.spendsFrom parent ∧ parent ≠ t.id env :=
    h.mem_effectiveParents
  rw [getEffectiveParentTransactionIdsInPool] at hp ⊢
  rw [hpa]
  rw [← hsame]
  exact hp

theorem edge_chained_revalidated {cellPool parent child} :
    (revalidated env pool cellPool t existing).chainedTransactions.Edge parent child ↔
    (pool.chainedTransactions.Edge parent child ∧ child ≠ t.id env) ∨
    (child = t.id env ∧ parent ∈ pool.allTransactions ∧ existing.mtx.tx.spendsFrom parent ∧
      parent ≠ t.id env) := by
  have hpr : parent ∈ (pool.parentTransactions.targets (t.id env)).toList ↔
      pool.chainedTransactions.Edge parent (t.id env) := by
    rw [ExtTreeSet.mem_toList]
    exact h.inverse
  rw [revalidated, withRelations, edge_foldl_addEdge, edge_foldl_dropEdge, hpr,
    ExtTreeSet.mem_toList, h.mem_effectiveParents_revalidated htx hsame]
  constructor
  · rintro (⟨he, hnot⟩ | ⟨hp, hc⟩)
    · exact .inl ⟨he, fun hc => hnot ⟨hc ▸ he, hc⟩⟩
    · exact .inr ⟨hc, hp⟩
  · rintro (⟨he, hne⟩ | ⟨hc, hp⟩)
    · exact .inl ⟨he, fun hnot => hne hnot.2⟩
    · exact .inr ⟨hp, hc⟩

theorem edge_parents_revalidated {cellPool parent child} :
    (revalidated env pool cellPool t existing).parentTransactions.Edge child parent ↔
    (pool.parentTransactions.Edge child parent ∧ child ≠ t.id env) ∨
    (child = t.id env ∧ parent ∈ pool.allTransactions ∧ existing.mtx.tx.spendsFrom parent ∧
      parent ≠ t.id env) := by
  rw [revalidated, withRelations, edge_insert, h.mem_effectiveParents_revalidated htx hsame]
  split_ifs with heq
  · simp [heq.symm]
  · simp [Ne.symm heq]

section Mirror

variable {en : PoolEntry} (hentry : pool.cellPool.txs[env.wtxid existing.mtx.tx]? = some en)
  {rem : CellPool}
  (hremains : Remains env (pool.cellPool.withoutEntry (env.wtxid existing.mtx.tx) en) rem)

include hentry hremains

omit hsame in
theorem exists_mirror_of_ne {wtxid : Hash} {other : PoolEntry}
    (hother : rem.txs[wtxid]? = some other) :
    env.hasher.txid other.tx ≠ t.id env ∧
    ∃ tx : MempoolTransaction, pool.allTransactions[env.hasher.txid other.tx]? = some tx ∧
    tx.mtx.tx = other.tx := by
  have hw := h.withCellPool (h.linked.withoutEntry hentry) (h.linked.below_withoutEntry hentry)
  obtain ⟨before, hb, hbe, -⟩ := hremains.2.entries hother
  obtain ⟨hne, -⟩ := (h.linked.getElem?_withoutEntry_eq_some hentry).mp hb
  rw [← hbe]
  exact ⟨hw.txid_ne_of_getElem? htx hb hne, hw.mirrored hb⟩

variable (hfresh : env.wtxid t.mtx.tx ∉ rem.txs)

include hfresh

theorem registered_revalidated {fee cycles} {parent child : Hash} {pe ce}
    (hparent : (rem.withEntry env t.mtx.tx fee cycles).txs[parent]? = some pe)
    (hchild : (rem.withEntry env t.mtx.tx fee cycles).txs[child]? = some ce)
    (hmem : parent ∈ ce.dependencies) :
    (revalidated env pool (rem.withEntry env t.mtx.tx fee cycles) t
      existing).chainedTransactions.Edge
    (env.hasher.txid pe.tx) (env.hasher.txid ce.tx) := by
  have hw := h.withCellPool (h.linked.withoutEntry hentry) (h.linked.below_withoutEntry hentry)
  rw [h.edge_chained_revalidated htx hsame]
  rcases hw.registered_entered hremains hfresh hparent hchild hmem with he | ⟨hc, hin, hs⟩
  · by_cases heq : env.hasher.txid ce.tx = t.id env
    · obtain ⟨hin, hd, tx, htx', hs⟩ := h.chained he
      rw [heq, htx, Option.some.injEq] at htx'
      exact .inr ⟨heq, hin, htx' ▸ hs, heq ▸ hd⟩
    · exact .inl ⟨he, heq⟩
  · obtain ⟨before, hbe, -⟩ := hremains.1.spends_withEntry hchild hmem
    obtain ⟨before', hb', hb, -⟩ :=
      getElem?_withEntry_of_ne (wtxid_ne_of_getElem? hfresh hbe) hparent
    have hne := (h.exists_mirror_of_ne htx hentry hremains hb').1
    exact .inr ⟨hc, hin, hsame ▸ hs, hb ▸ hne⟩

theorem revalidated_coherent {key : FeerateTransactionKey}
    (hkey : ofMutableTransaction t.mtx = some key) (fee cycles : Nat) :
    (revalidated env pool (rem.withEntry env t.mtx.tx fee cycles) t existing).Coherent env where
  keyed {other tx} hother := by
    rw [getElem?_revalidated] at hother
    split_ifs at hother with heq
    · rw [Option.some.injEq] at hother
      subst hother
      exact ⟨heq, ⟨key, hkey⟩, rfl⟩
    · exact h.keyed hother
  inverse := by
    intro parent child
    rw [h.edge_parents_revalidated htx hsame, h.edge_chained_revalidated htx hsame, h.inverse]
  chained {parent child} he := by
    rcases (h.edge_chained_revalidated htx hsame).mp he with ⟨he, hne⟩ | ⟨rfl, hp, hs, hne⟩
    · obtain ⟨hp, hd, tx, htx', hs⟩ := h.chained he
      refine ⟨(mem_revalidated htx).mpr hp, hd, tx, ?_, hs⟩
      rw [getElem?_revalidated, if_neg (Ne.symm hne)]
      exact htx'
    · refine ⟨(mem_revalidated htx).mpr hp, hne, mirrorOf env (recomputed t existing), ?_, ?_⟩
      · rw [getElem?_revalidated, if_pos rfl]
      · exact hsame.symm ▸ hs
  cellTransactionIds := by
    intro cellId other
    rw [mem_revalidated htx]
    exact h.cellTransactionIds
  cellWtxids := by
    simp only [getElem?_revalidated]
    refine h.cellWtxids.trans ?_
    split_ifs with heq
    · simp [← heq, htx, mirrorOf, recomputed, hsame]
    · rfl
  created := by
    simp only [getElem?_revalidated]
    refine h.created.trans ?_
    split_ifs with heq
    · simp [← heq, htx, mirrorOf, recomputed, hsame]
    · rfl
  estimatedSize := by
    have hby := h.bytes_le htx
    have ht := total_replace (f := fun tx : MempoolTransaction => env.mempoolEstimatedBytes tx.mtx)
      (w := mirrorOf env (recomputed t existing)) htx
    have hnew : env.mempoolEstimatedBytes (mirrorOf env (recomputed t existing)).mtx =
      env.mempoolEstimatedBytes t.mtx := rfl
    change pool.estimatedSize - env.mempoolEstimatedBytes existing.mtx +
      env.mempoolEstimatedBytes t.mtx = total _ (pool.allTransactions.insert _ _)
    rw [h.estimatedSize] at hby ⊢
    omega
  linked := hremains.1.withEntry hfresh
  mirrored {wtxid other} hother := by
    by_cases heq : env.wtxid t.mtx.tx = wtxid
    · subst heq
      have hse := getElem?_withEntry_self.symm.trans hother
      rw [Option.some.injEq] at hse
      subst hse
      exact ⟨mirrorOf env (recomputed t existing), by rw [getElem?_revalidated]; exact if_pos rfl,
        rfl⟩
    · obtain ⟨before, hbe, hb, -⟩ := getElem?_withEntry_of_ne heq hother
      obtain ⟨hne, tx, htx', heq'⟩ := h.exists_mirror_of_ne htx hentry hremains hbe
      rw [hb] at hne htx' heq'
      refine ⟨tx, ?_, heq'⟩
      rw [getElem?_revalidated, if_neg (Ne.symm hne)]
      exact htx'
  registered hp hc hmem := h.registered_revalidated htx hsame hentry hremains hfresh hp hc hmem
  distinct := h.distinct

end Mirror

end Same

def updated (env : MempoolServices) (pool : TransactionsPool) (cellPool : CellPool)
    (transaction existing : MempoolTransaction) : TransactionsPool :=
  let revalidated := revalidated env pool cellPool transaction existing
  { revalidated with
    readyTransactions := revalidated.readyAfter env pool.readyTransactions (transaction.id env) }

theorem exec_updateRevalidatedTransaction (h : pool.Coherent env) {after}
    (hsame : ∀ existing, pool.allTransactions[t.id env]? = some existing →
      t.mtx.tx = existing.mtx.tx)
    (hexec : (updateRevalidatedTransaction env t).exec pool = (.ok true, after)) :
    ∃ (existing : MempoolTransaction) (cellPool : CellPool) (key : FeerateTransactionKey),
    pool.allTransactions[t.id env]? = some existing ∧ ofMutableTransaction t.mtx = some key ∧
    (revalidated env pool cellPool t existing).Coherent env ∧
    after = updated env pool cellPool t existing := by
  obtain ⟨existing, entry, fee, cycles, htx, hentry, hr⟩ := h.exists_unmirrored hexec
  have hsp : Triple
      (Remains env (pool.cellPool.withoutEntry (env.wtxid existing.mtx.tx) entry))
      (add env t.mtx.tx fee cycles)
      (Entered env (pool.cellPool.withoutEntry (env.wtxid existing.mtx.tx) entry) t.mtx.tx
        fee cycles)
      (Remains env (pool.cellPool.withoutEntry (env.wtxid existing.mtx.tx) entry)) :=
    add_spec
  have hadd := hsp.apply ⟨h.linked.withoutEntry hentry, .refl _⟩
  unfold restoreMirror at hr
  rw [exec_bind, exec_attempt, onCellPool, exec_zoom] at hr
  rcases hre : (add env (recomputed t existing).mtx.tx fee cycles).exec
    (unmirrored env pool entry t existing).cellPool with ⟨error | wtxid, cellPool⟩
  · simp [hre, Except.mapError] at hr
  · obtain ⟨remaining, hremains, hfresh, rfl, rfl⟩ : Entered env
      (pool.cellPool.withoutEntry (env.wtxid existing.mtx.tx) entry) t.mtx.tx fee cycles wtxid
          cellPool := by
      change (add env t.mtx.tx fee cycles).exec _ = _ at hre
      rw [show (unmirrored env pool entry t existing).cellPool =
        pool.cellPool.withoutEntry (env.wtxid existing.mtx.tx) entry from rfl] at hre
      rw [hre] at hadd
      exact hadd
    have hs := h.withRelations_unmirrored htx (hsame existing htx) entry
    simp only [hre, Except.mapError] at hr
    rw [exec_bind, exec_modify] at hr
    rw [hs] at hr
    change exec (refreshReadyStatus env (t.id env) >>= _) _ = _ at hr
    cases hkey : ofMutableTransaction t.mtx with
    | none =>
      rw [exec_bind_of_error (exec_refreshReadyStatus_of_no_key hkey)] at hr
      simp at hr
    | some key =>
      have hc :=
        h.revalidated_coherent htx (hsame existing htx) hentry hremains hfresh hkey fee cycles
      have hrefresh : (refreshReadyStatus env (t.id env)).exec
          (revalidated env pool (remaining.withEntry env t.mtx.tx fee cycles) t existing) =
            (.ok (), updated env pool (remaining.withEntry env t.mtx.tx fee cycles) t existing) :=
        exec_refreshReadyStatus (fun ho => (hc.keyed ho).2.1) _ _
      rw [exec_bind_of_ok hrefresh, Prod.mk.injEq] at hr
      exact ⟨existing, _, key, htx, rfl, hc, hr.2.symm⟩

theorem updated_coherent (h : pool.Coherent env) {after}
    (hsame : ∀ existing, pool.allTransactions[t.id env]? = some existing →
      t.mtx.tx = existing.mtx.tx)
    (hexec : (updateRevalidatedTransaction env t).exec pool = (.ok true, after)) :
    after.Coherent env := by
  obtain ⟨existing, cellPool, key, -, -, hc, rfl⟩ := h.exec_updateRevalidatedTransaction hsame hexec
  exact hc.withReadyTransactions (distinct_readyAfter h.distinct _)

end Coherent

end Revalidation

theorem stable_coherent : Stable env (Coherent env) where
  removeTransaction := Coherent.removeTransaction_keeps
  scanned _ _ h := ⟨h.keyed, h.inverse, h.chained, h.cellTransactionIds, h.cellWtxids, h.created,
    h.estimatedSize, h.linked, h.mirrored, h.registered, h.distinct⟩

section Iteration

variable {iteration : List Hash → List Hash} {iteration_perm : ∀ ids, (iteration ids).Perm ids}

theorem Coherent.withIteration (h : pool.Coherent env) :
    pool.Coherent { env with iteration, iteration_perm } :=
  ⟨h.keyed, h.inverse, h.chained, h.cellTransactionIds, h.cellWtxids, h.created, h.estimatedSize,
    ⟨h.linked.keyed, h.linked.inverse, h.linked.spends, h.linked.spent⟩, h.mirrored, h.registered,
      h.distinct⟩

theorem Coherent.ofIteration (h : pool.Coherent { env with iteration, iteration_perm }) :
    pool.Coherent env :=
  @withIteration { env with iteration, iteration_perm } pool env.iteration env.iteration_perm h

theorem restoreMirror_iteration (t) (fee cycles : Nat) (prev) :
    restoreMirror { env with iteration, iteration_perm } t fee cycles prev =
      restoreMirror env t fee cycles prev := by
  unfold restoreMirror
  simp only [add_iteration]
  rfl

theorem updateRevalidatedTransaction_iteration (t) :
    updateRevalidatedTransaction { env with iteration, iteration_perm } t =
      updateRevalidatedTransaction env t := by
  unfold updateRevalidatedTransaction
  simp only [restoreMirror_iteration]
  rfl

end Iteration

end TransactionsPool

-- A revalidation is of a transaction that is in the pool, and succeeds.
def Operation.Revalidates (env : MempoolServices) (s : Mempool) : Operation → Prop
  | .updateRevalidatedTransaction transaction =>
    ((TransactionsPool.updateRevalidatedTransaction env transaction).exec s.transactionPool).1 =
      .ok true ∧ ∀ existing, s.transactionPool.allTransactions[transaction.id env]? =
        some existing → transaction.mtx.tx = existing.mtx.tx
  | _ => True

instance (env : MempoolServices) (s : Mempool) :
    ∀ operation : Operation, Decidable (operation.Revalidates env s)
  | .updateRevalidatedTransaction transaction => inferInstanceAs (Decidable (
    ((TransactionsPool.updateRevalidatedTransaction env transaction).exec s.transactionPool).1 =
      .ok true ∧ ∀ existing ∈ s.transactionPool.allTransactions[transaction.id env]?,
        transaction.mtx.tx = existing.mtx.tx))
  | .postValidateAndInsertTransaction .. => .isTrue trivial
  | .getUnorphanedTransactionsAfterAcceptedCellTransaction .. => .isTrue trivial
  | .removeTransaction .. => .isTrue trivial
  | .handleNewBlockTransactions .. => .isTrue trivial
  | .expireOrphanLowPriorityTransactions .. => .isTrue trivial
  | .expireAcceptedTransactions .. => .isTrue trivial
  | .collectExpiredLowPriorityTransactions .. => .isTrue trivial

variable {env : MempoolServices} {s : Mempool}

theorem coherent_after_run (h : s.transactionPool.Coherent env) {op : Operation}
    (hop : op.Revalidates env s) : ((op.run env).after s).transactionPool.Coherent env := by
  have hs : Stable env (TransactionsPool.Coherent env) fun _ => True :=
    ⟨TransactionsPool.stable_coherent,
      ⟨fun _ _ _ => trivial, fun _ _ _ => trivial, fun _ _ => trivial⟩⟩
  have hk : op.Respects env (TransactionsPool.Coherent env) (fun _ => True) →
      ((op.run env).after s).transactionPool.Coherent env := fun hr =>
    ((hs.run hr).after ⟨h, trivial⟩).transactionPool
  cases op with
  | postValidateAndInsertTransaction res t priority orphan rbfPolicy daa =>
    cases res with
    | ok _ => exact hk (TransactionsPool.Coherent.addMempoolTransaction_keeps _)
    | error _ => exact hk fun _ _ => trivial
  | updateRevalidatedTransaction t =>
    rcases he : (TransactionsPool.updateRevalidatedTransaction env t).exec s.transactionPool with
      ⟨result, after⟩
    have ha : ((Operation.updateRevalidatedTransaction t).run env).after s =
        { s with transactionPool := after } := by
      rw [Operation.run, after_discard, Stateful.after, updateRevalidatedTransaction,
        onTransactionPool, exec_zoom, he]
    rw [ha]
    have hre : result = .ok true := by
      have hok := hop.1
      rwa [he] at hok
    exact h.updated_coherent hop.2 (hre ▸ he)
  | _ => exact hk trivial

theorem reachable_coherent (hs : Reachable env (Operation.Revalidates env) s) :
    s.transactionPool.Coherent env := by
  induction hs with
  | new now => exact TransactionsPool.coherent_new now
  | step op iteration iteration_perm _ hop ih =>
    refine (coherent_after_run ih.withIteration ?_).ofIteration
    cases op with
    | updateRevalidatedTransaction t =>
      refine ⟨?_, hop.2⟩
      rw [TransactionsPool.updateRevalidatedTransaction_iteration]
      exact hop.1
    | _ => trivial

end Mempool

end Spora
