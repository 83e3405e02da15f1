import Spora.Mining.Pool.Removal

namespace Spora

open Std Stateful Relation List

namespace Mempool

variable {env : MempoolServices} {s t : Mempool} {transaction : MutableTransaction}

-- A transaction of the pool is recorded as the spender of an outpoint that another spends.
def Conflicts (env : MempoolServices) (pool : TransactionsPool) (tx : CellTx) (id : Hash) : Prop :=
  id ≠ env.hasher.txid tx ∧ ∃ outpoint ∈ tx.spends,
    pool.cellSet.spentOutpointOwnerId[outpoint]? = some id

section DoubleSpends

variable {pool : TransactionsPool} {tx : CellTx}

theorem mem_doubleSpends {ds} : ds ∈ pool.cellSet.doubleSpends env tx ↔
    ds.outpoint ∈ tx.spends ∧ pool.cellSet.spentOutpointOwnerId[ds.outpoint]? = some ds.ownerId ∧
    ds.ownerId ≠ env.hasher.txid tx := by
  simp only [MempoolCellSet.doubleSpends, mem_filterMap, Option.bind_eq_some_iff]
  constructor
  · rintro ⟨o, hmem, owner, ho, hs⟩
    split_ifs at hs with heq
    rw [Option.some.injEq] at hs
    subst hs
    exact ⟨hmem, ho, heq⟩
  · rintro ⟨hmem, ho, hne⟩
    exact ⟨_, hmem, _, ho, by rw [if_neg hne]⟩

theorem exists_ownerId_foldl (dss found : List DoubleSpend) (id : Hash) :
    (∃ ds ∈ dss.foldl (fun found ds =>
      if found.any (fun other => other.ownerId == ds.ownerId) then found else found ++ [ds]) found,
      ds.ownerId = id) ↔
      (∃ ds ∈ found, ds.ownerId = id) ∨ ∃ ds ∈ dss, ds.ownerId = id := by
  induction dss generalizing found with
  | nil => simp
  | cons first rest ih =>
    rw [foldl_cons, ih]
    split_ifs with hany
    · obtain ⟨other, ho, heq⟩ := any_eq_true.mp hany
      rw [beq_iff_eq] at heq
      simp only [mem_cons, exists_eq_or_imp]
      constructor
      · rintro (hf | hr)
        · exact .inl hf
        · exact .inr (.inr hr)
      · rintro (hf | hfi | hr)
        · exact .inl hf
        · exact .inl ⟨other, ho, heq.trans hfi⟩
        · exact .inr hr
    · simp [or_assoc]

theorem exists_ownerId_iff {id} : (∃ ds ∈ pool.cellSet.getDoubleSpendTransactionIds env tx,
    ds.ownerId = id) ↔ Conflicts env pool tx id := by
  rw [MempoolCellSet.getDoubleSpendTransactionIds, exists_ownerId_foldl]
  simp only [not_mem_nil, false_and, exists_false, false_or, mem_doubleSpends]
  constructor
  · rintro ⟨ds, ⟨hmem, ho, hne⟩, rfl⟩
    exact ⟨hne, _, hmem, ho⟩
  · rintro ⟨hne, o, hmem, ho⟩
    exact ⟨⟨o, id⟩, ⟨hmem, ho, hne⟩, rfl⟩

theorem not_conflicts_of_checkDoubleSpends (h : pool.checkDoubleSpends env tx = .ok ())
    (id : Hash) :
    ¬ Conflicts env pool tx id := by
  unfold TransactionsPool.checkDoubleSpends MempoolCellSet.getFirstDoubleSpend at h
  split at h
  · contradiction
  · rename_i hn
    rw [head?_eq_none_iff] at hn
    rintro ⟨hne, o, hmem, ho⟩
    have hd : ⟨o, id⟩ ∈ pool.cellSet.doubleSpends env tx := mem_doubleSpends.mpr ⟨hmem, ho, hne⟩
    rw [hn] at hd
    contradiction

end DoubleSpends

section Phases

theorem mem_of_validateDoubleSpendingTransaction {ds owner}
    (h : s.validateDoubleSpendingTransaction env transaction ds = .ok owner) :
    ds.ownerId ∈ s.transactionPool.allTransactions := by
  unfold validateDoubleSpendingTransaction TransactionsPool.getDoubleSpendOwner at h
  cases hf : s.transactionPool.allTransactions[ds.ownerId]? with
  | none =>
    rw [hf] at h
    contradiction
  | some tx => exact TransactionsPool.mem_iff.mpr ⟨tx, hf⟩

theorem mem_of_forM_validate {dss : List DoubleSpend}
    (h : (dss.forM fun ds => discard (s.validateDoubleSpendingTransaction env transaction ds)) =
      .ok ()) : ∀ ds ∈ dss, ds.ownerId ∈ s.transactionPool.allTransactions := by
  induction dss with
  | nil => simp
  | cons first rest ih =>
    cases hf : s.validateDoubleSpendingTransaction env transaction first with
    | error fault =>
      change (discard (s.validateDoubleSpendingTransaction env transaction first) >>= fun _ => _) =
        _ at h
      rw [hf] at h
      contradiction
    | ok owner =>
      change (discard (s.validateDoubleSpendingTransaction env transaction first) >>= fun _ => _) =
        _ at h
      rw [hf] at h
      exact forall_mem_cons.mpr ⟨mem_of_validateDoubleSpendingTransaction hf, ih h⟩

theorem exec_replaceDoubleSpends_ok {dss removed}
    (hexec : (replaceDoubleSpends env transaction dss).exec s = (.ok removed, t)) :
    (∀ ds ∈ dss, ds.ownerId ∈ s.transactionPool.allTransactions) ∧
    (dss.forM fun ds => removeTransaction env ds.ownerId true).exec s = (.ok (), t) := by
  cases dss with
  | nil =>
    rw [replaceDoubleSpends, exec_pure, Prod.mk.injEq] at hexec
    exact ⟨by simp, by rw [exec_forM_nil, hexec.2]⟩
  | cons first rest =>
    rw [replaceDoubleSpends, exec_get_bind] at hexec
    obtain ⟨owner, _, hl, hexec⟩ := exec_bind_eq_ok.mp hexec
    obtain ⟨hf, rfl⟩ := exec_lift_eq_ok.mp hl
    obtain ⟨_, _, hl', hexec⟩ := exec_bind_eq_ok.mp hexec
    obtain ⟨hre, rfl⟩ := exec_lift_eq_ok.mp hl'
    obtain ⟨_, _, hr, hexec⟩ := exec_bind_eq_ok.mp hexec
    rw [Prod.mk.injEq] at hexec
    exact ⟨forall_mem_cons.mpr ⟨mem_of_validateDoubleSpendingTransaction hf,
      mem_of_forM_validate hre⟩, hexec.2 ▸ hr⟩

variable {rbf : RbfPolicy}

theorem exec_executeReplaceByFee_ok {removed}
    (hexec : (executeReplaceByFee env transaction rbf).exec s = (.ok removed, t)) :
    ∃ owners : List Hash, (∀ id, id ∈ owners ↔ Conflicts env s.transactionPool transaction.tx id) ∧
    (∀ id ∈ owners, id ∈ s.transactionPool.allTransactions) ∧
    (owners.forM fun id => removeTransaction env id true).exec s = (.ok (), t) := by
  have ho : ∀ {doubleSpends},
      doubleSpends = s.transactionPool.cellSet.getDoubleSpendTransactionIds env
      transaction.tx → (replaceDoubleSpends env transaction doubleSpends).exec s =
        (.ok removed, t) → ∃ owners : List Hash, (∀ id, id ∈ owners ↔
          Conflicts env s.transactionPool transaction.tx id) ∧
        (∀ id ∈ owners, id ∈ s.transactionPool.allTransactions) ∧
        (owners.forM fun id => removeTransaction env id true).exec s = (.ok (), t) := by
    rintro _ rfl hr
    obtain ⟨hin, hre⟩ := exec_replaceDoubleSpends_ok hr
    refine ⟨(s.transactionPool.cellSet.getDoubleSpendTransactionIds env transaction.tx).map
      DoubleSpend.ownerId, fun id => ?_, ?_, ?_⟩
    · rw [mem_map, exists_ownerId_iff]
    · simpa using hin
    · exact (congrArg (fun remove => exec remove s) forM_map).trans hre
  rw [executeReplaceByFee, exec_get_bind] at hexec
  cases rbf with
  | forbidden =>
    obtain ⟨_, _, hl, hexec⟩ := exec_bind_eq_ok.mp hexec
    obtain ⟨hc, rfl⟩ := exec_lift_eq_ok.mp hl
    rw [exec_pure, Prod.mk.injEq] at hexec
    refine ⟨[], fun id => ?_, by simp, by rw [exec_forM_nil, hexec.2]⟩
    simp [not_conflicts_of_checkDoubleSpends hc]
  | allowed => exact ho rfl hexec
  | mandatory =>
    dsimp only at hexec
    split at hexec
    · simp at hexec
    · rename_i doubleSpend heq
      exact ho heq.symm hexec
    · simp at hexec

theorem exec_insertValidated_ok {prio : Priority} {daa : Nat} {r : TransactionPostValidation}
    (hexec : (insertValidated env transaction prio rbf daa).exec s = (.ok r, t)) :
    ∃ removed middle txsToRemove roomy acc pool,
      (executeReplaceByFee env transaction rbf).exec s = (.ok removed, middle) ∧
      middle.transactionPool.limitTransactionCount env transaction
      (env.mempoolEstimatedBytes transaction) = .ok txsToRemove ∧
      (makeRoom env (env.mempoolEstimatedBytes transaction) txsToRemove).exec middle =
      (.ok (), roomy) ∧
      roomy.transactionPool.hasRoom env (env.mempoolEstimatedBytes transaction) = true ∧
      (TransactionsPool.addMempoolTransaction env (.new transaction prio daa)
        (env.mempoolEstimatedBytes transaction)).exec roomy.transactionPool = (.ok acc, pool) ∧
      t = { roomy with transactionPool := pool } := by
  obtain ⟨_, _, hv, hexec⟩ := exec_bind_eq_ok.mp hexec
  obtain ⟨-, rfl⟩ := exec_lift_eq_ok.mp hv
  obtain ⟨removed, middle, hre, hexec⟩ := exec_bind_eq_ok.mp hexec
  rw [exec_get_bind] at hexec
  obtain ⟨txsToRemove, _, hli, hexec⟩ := exec_bind_eq_ok.mp hexec
  obtain ⟨hl, rfl⟩ := exec_lift_eq_ok.mp hli
  obtain ⟨_, roomy, hro, hexec⟩ := exec_bind_eq_ok.mp hexec
  rw [exec_get_bind] at hexec
  obtain ⟨_, _, hr, hexec⟩ := exec_bind_eq_ok.mp hexec
  obtain ⟨hholds, rfl⟩ := exec_require_eq_ok.mp hr
  obtain ⟨acc, _, hz, hexec⟩ := exec_bind_eq_ok.mp hexec
  rw [Prod.mk.injEq] at hexec
  obtain ⟨pool, hadd, rfl⟩ := exec_zoom_eq_ok.mp hz
  exact ⟨removed, middle, txsToRemove, roomy, acc, pool, hre, hl, hro, hholds, hadd, hexec.2.symm⟩

theorem exec_postValidateAndInsertTransaction_ok {prio orph daa r}
    (hexec : (postValidateAndInsertTransaction env (.ok ()) transaction prio orph rbf
      daa).exec s = (.ok r, t)) :
    env.hasher.txid transaction.tx ∉ s.transactionPool.allTransactions ∧
    (insertValidated env transaction prio rbf daa).exec s = (.ok r, t) := by
  rw [postValidateAndInsertTransaction, exec_get_bind] at hexec
  obtain ⟨_, _, hr, hexec⟩ := exec_bind_eq_ok.mp hexec
  obtain ⟨hholds, rfl⟩ := exec_require_eq_ok.mp hr
  obtain ⟨_, _, ha, hexec⟩ := exec_bind_eq_ok.mp hexec
  obtain ⟨-, rfl⟩ := exec_lift_eq_ok.mp ha
  exact ⟨by simpa [TransactionsPool.has] using hholds, hexec⟩

end Phases

section Eviction

variable {pool : TransactionsPool} {transactionSize : Nat} {keys : List FeerateTransactionKey}

namespace TransactionsPool

def bytesOf (env : MempoolServices) (pool : TransactionsPool) (id : Hash) : Nat :=
  pool.allTransactions[id]?.elim 0 fun tx => env.mempoolEstimatedBytes tx.mtx

-- The key of a transaction of low priority that the new one does not descend from.
def evictable (env : MempoolServices) (pool : TransactionsPool) (transaction : MutableTransaction)
    (key : FeerateTransactionKey) : Bool :=
  let id := env.hasher.txid key.tx
  pool.allTransactions[id]?.any fun tx =>
    tx.priority = .low && !transaction.hasParentInSet (pool.getRedeemerIds env id ++ [id])

-- There is room for another transaction without the given ones, each counted as often as it is
-- listed.
def Frees (env : MempoolServices) (pool : TransactionsPool) (transactionSize : Nat)
    (ids : List Hash) : Prop :=
  pool.len + 1 ≤ env.config.maximumTransactionCount + ids.length ∧
    pool.estimatedSize + transactionSize ≤ env.config.mempoolSizeLimit +
      (ids.map (pool.bytesOf env)).sum

-- The evictable keys of the frontier, the lowest fee rates first, up to the first one with which
-- they free enough.
structure Evicts (env : MempoolServices) (pool : TransactionsPool)
    (transaction : MutableTransaction) (transactionSize : Nat) (keys : List FeerateTransactionKey) :
    Prop where
  front : keys <+: pool.readyTransactions.searchTree.filter (pool.evictable env transaction)
  frees : pool.Frees env transactionSize (env.txids keys)
  least : ∀ shorter, shorter <+: keys → shorter ≠ keys →
    ¬ pool.Frees env transactionSize (env.txids shorter)

theorem frees_nil :
    pool.Frees env transactionSize [] ↔ pool.hasRoom env transactionSize = true := by
  grind [Frees, hasRoom]

theorem Evicts.evictable_of_mem (h : pool.Evicts env transaction transactionSize keys) {key}
    (hkey : key ∈ keys) :
    key ∈ pool.readyTransactions.searchTree ∧ pool.evictable env transaction key = true :=
  mem_filter.mp (h.front.subset hkey)

theorem Evicts.unrelated (h : pool.Evicts env transaction transactionSize keys) {key}
    (hkey : key ∈ keys) :
    env.hasher.txid key.tx ∈ pool.allTransactions ∧ transaction.hasParentInSet
    (pool.getRedeemerIds env (env.hasher.txid key.tx) ++ [env.hasher.txid key.tx]) = false := by
  have he := (h.evictable_of_mem hkey).2
  rw [evictable, Option.any_eq_true] at he
  obtain ⟨tx, htx, hp⟩ := he
  simp only [Bool.and_eq_true, Bool.not_eq_true'] at hp
  exact ⟨mem_iff.mpr ⟨tx, htx⟩, hp.2⟩

theorem Evicts.unique {keys'} (h : pool.Evicts env transaction transactionSize keys)
    (h' : pool.Evicts env transaction transactionSize keys') : keys = keys' := by
  rcases prefix_or_prefix_of_prefix h.front h'.front with hp | hp
  · by_contra hne
    exact h'.least keys hp hne h.frees
  · by_contra hne
    exact h.least keys' hp (Ne.symm hne) h'.frees

-- What the loop selects from the keys that are left when it has taken others.
def Selects (env : MempoolServices) (pool : TransactionsPool) (transaction : MutableTransaction)
    (transactionSize : Nat) (taken keys : List FeerateTransactionKey) (ids : List Hash) : Prop :=
  ∃ picked, ids = env.txids (taken ++ picked) ∧
    picked <+: keys.filter (pool.evictable env transaction) ∧
    pool.Frees env transactionSize (env.txids (taken ++ picked)) ∧
    ∀ shorter, shorter <+: taken ++ picked → shorter ≠ taken ++ picked →
      ¬ pool.Frees env transactionSize (env.txids shorter)

variable {taken : List FeerateTransactionKey} {ids : List Hash} {key : FeerateTransactionKey}

theorem Selects.skip (h : pool.Selects env transaction transactionSize taken keys ids)
    (hkey : pool.evictable env transaction key = false) :
    pool.Selects env transaction transactionSize taken (key :: keys) ids := by
  unfold Selects
  rwa [filter_cons_of_neg (by simp [hkey])]

variable (hkey : pool.evictable env transaction key = true)
include hkey

theorem Selects.take (h : pool.Selects env transaction transactionSize (taken ++ [key]) keys ids) :
    pool.Selects env transaction transactionSize taken (key :: keys) ids := by
  obtain ⟨picked, hids, hfront, hfrees, hleast⟩ := h
  rw [append_assoc, singleton_append] at hids hfrees hleast
  refine ⟨key :: picked, hids, ?_, hfrees, hleast⟩
  rw [filter_cons_of_pos hkey]
  exact (prefix_cons_inj key).mpr hfront

theorem selects_of_frees (htaken : ∀ shorter, shorter <+: taken →
      ¬ pool.Frees env transactionSize (env.txids shorter)) (hfrees : pool.Frees env transactionSize
      (env.txids (taken ++ [key]))) :
    pool.Selects env transaction transactionSize taken (key :: keys)
    (env.txids (taken ++ [key])) := by
  refine ⟨[key], rfl, ?_, hfrees, fun shorter hp hne => htaken shorter ?_⟩
  · rw [filter_cons_of_pos hkey]
    exact ⟨_, rfl⟩
  · exact (prefix_concat_iff.mp hp).resolve_left hne

omit hkey

variable (hkeyed : ∀ {id} {tx : MempoolTransaction}, pool.allTransactions[id]? = some tx →
  tx.id env = id)
include hkeyed

-- Induction on the keys that are left; no front of those taken frees enough.
theorem selectForEviction_ok {thr taken ids} (htaken : ∀ shorter, shorter <+: taken →
      ¬ pool.Frees env transactionSize (env.txids shorter))
    (h : pool.selectForEviction env transaction transactionSize thr keys (env.txids taken)
      ((env.txids taken).map (pool.bytesOf env)).sum = .ok ids) :
    pool.Selects env transaction transactionSize taken keys ids := by
  induction keys generalizing taken with
  | nil => simp [selectForEviction] at h
  | cons key keys ih =>
    unfold selectForEviction at h
    cases htx : pool.allTransactions[env.hasher.txid key.tx]? with
    | none => simp [htx] at h
    | some tx =>
      have hkey : pool.evictable env transaction key = (tx.priority = .low &&
          !transaction.hasParentInSet (pool.getRedeemerIds env (env.hasher.txid key.tx) ++
              [env.hasher.txid key.tx])) := by
        simp [evictable, htx]
      have hids : (env.txids taken) ++ [env.hasher.txid key.tx] =
          env.txids (taken ++ [key]) := by simp
      have hsum : ((env.txids taken).map (pool.bytesOf env)).sum +
          env.mempoolEstimatedBytes tx.mtx =
            ((env.txids (taken ++ [key])).map
                (pool.bytesOf env)).sum := by
        simp [bytesOf, htx]
      simp only [htx, hkeyed htx, hsum, hids] at h
      by_cases hlow : tx.priority ≠ .low
      · rw [if_pos hlow] at h
        exact (ih htaken h).skip (by simp [hkey, hlow])
      by_cases hparent : transaction.hasParentInSet
        (pool.getRedeemerIds env (env.hasher.txid key.tx) ++ [env.hasher.txid key.tx]) = true
      · rw [if_neg hlow, if_pos hparent] at h
        exact (ih htaken h).skip (by simp [hkey, hparent])
      rw [if_neg hlow, if_neg hparent] at h
      have hkey : pool.evictable env transaction key = true := by
        rw [not_ne_iff] at hlow
        simp [hkey, hlow, hparent]
      -- with this key more fronts are to be excluded, unless it is the last one
      have htaken' : ¬ pool.Frees env transactionSize (env.txids (taken ++ [key])) →
          ∀ shorter, shorter <+: taken ++ [key] →
            ¬ pool.Frees env transactionSize (env.txids shorter) := by
        intro hnot shorter hp
        rcases prefix_concat_iff.mp hp with rfl | hp
        · exact hnot
        · exact htaken shorter hp
      cases hfeerate : tx.mtx.calculatedFeerate with
      | none => simp [hfeerate] at h
      | some feerate =>
        simp only [hfeerate] at h
        split_ifs at h with hgt hlength hcount hsize hlimit
        · rw [Except.ok.injEq] at h
          subst h
          exact selects_of_frees hkey htaken ⟨by omega, by omega⟩
        · exact (ih (htaken' fun hfrees => by have := hfrees.2; omega) h).take hkey
        · exact (ih (htaken' fun hfrees => by have := hfrees.1; omega) h).take hkey

theorem limitTransactionCount_ok {ids}
    (h : pool.limitTransactionCount env transaction transactionSize = .ok ids) :
    ∃ keys, pool.Evicts env transaction transactionSize keys ∧ ids = env.txids keys := by
  unfold limitTransactionCount at h
  split_ifs at h with hr
  · rw [Except.ok.injEq] at h
    refine ⟨[], ⟨?_, frees_nil.mpr hr, ?_⟩, h.symm⟩
    · exact nil_prefix
    · exact fun shorter hp hne => absurd (prefix_nil.mp hp) hne
  · split at h
    · contradiction
    · have hnil : ∀ shorter, shorter <+: ([] : List FeerateTransactionKey) →
          ¬ pool.Frees env transactionSize (env.txids shorter) := by
        intro shorter hp
        rw [prefix_nil.mp hp]
        exact mt frees_nil.mp hr
      obtain ⟨picked, hids, hfront, hfrees, hleast⟩ := selectForEviction_ok hkeyed hnil h
      exact ⟨picked, ⟨hfront, hfrees, hleast⟩, hids⟩

end TransactionsPool

end Eviction

end Mempool

end Spora
