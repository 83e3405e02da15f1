import Spora.Mining.Pool.Coherence
import Spora.Mining.Pool.Uniqueness

namespace Spora

open Std Stateful Relation List TransGen ExtTreeMap Hasher Worklist

namespace Mempool

open FeerateTransactionKey (ofMutableTransaction)

variable {env : MempoolServices}

theorem mem_getRedeemerIdsInPool {all chained id other} :
    other ∈ getRedeemerIdsInPool env all chained id ↔
    id ∈ all ∧ TransGen (fun parent child => chained.Edge parent child ∧ child ∈ all) id other := by
  have hn : ∀ {parent child},
      child ∈ (env.iteration (chained.targets parent).toList).filter (· ∈ all) ↔
          chained.Edge parent child ∧ child ∈ all := by
    intro parent child
    rw [mem_filter, env.mem_iteration, ExtTreeSet.mem_toList, decide_eq_true_eq]
    rfl
  have hre : (fun parent child => child ∈ (env.iteration (chained.targets parent).toList).filter
      (· ∈ all)) = fun parent child => chained.Edge parent child ∧ child ∈ all := by
    funext parent child
    exact propext hn
  have hr : ∀ {other}, Reached
      (fun id => (env.iteration (chained.targets id).toList).filter (· ∈ all))
      ((env.iteration (chained.targets id).toList).filter (· ∈ all)) other ↔
        TransGen (fun parent child => chained.Edge parent child ∧ child ∈ all) id other := by
    intro other
    rw [Reached, hre, head'_iff]
    exact exists_congr fun seed => and_congr_left fun _ => hn
  have hin : ∀ {other}, TransGen (fun parent child => chained.Edge parent child ∧
      child ∈ all) id other → other ∈ all := by
    intro other hp
    obtain ⟨_, -, hl⟩ := tail'_iff.mp hp
    exact hl.2
  unfold getRedeemerIdsInPool
  split_ifs with hid
  · have hno : ∀ other,
        Reached (fun id => (env.iteration (chained.targets id).toList).filter (· ∈ all))
        ((env.iteration (chained.targets id).toList).filter (· ∈ all)) other → other ∈ all.keys :=
      fun other ho => mem_keys.mpr (hin (hr.mp ho))
    rw [mem_closure_iff hno length_keys.le, hr, and_iff_right hid]
  · simp [hid]

namespace TransactionsPool

variable {pool : TransactionsPool} {id : Hash}

section

variable (h : pool.Coherent env)
include h

theorem Coherent.getElem?_cellWtxids {wtxid : Hash} {entry}
    (hentry : pool.cellPool.txs[wtxid]? = some entry) :
    pool.cellWtxids[wtxid]? = some (env.hasher.txid entry.tx) := by
  obtain ⟨tx, htx, heq⟩ := h.mirrored hentry
  exact h.cellWtxids.mpr ⟨tx, htx, heq ▸ h.linked.keyed hentry⟩

theorem Coherent.edge_of_mem_dependents {parent child pid childId : Hash}
    (hchild : child ∈ pool.cellPool.txs[parent]?.elim [] PoolEntry.dependents)
    (hparentId : pool.cellWtxids[parent]? = some pid)
    (hchildId : pool.cellWtxids[child]? = some childId) :
    pool.chainedTransactions.Edge pid childId := by
  cases hp : pool.cellPool.txs[parent]? with
  | none =>
    rw [hp] at hchild
    contradiction
  | some pe =>
    rw [hp] at hchild
    obtain ⟨ce, hc, hmem⟩ := (h.linked.inverse hp).mp hchild
    rw [h.getElem?_cellWtxids hp, Option.some.injEq] at hparentId
    rw [h.getElem?_cellWtxids hc, Option.some.injEq] at hchildId
    rw [← hparentId, ← hchildId]
    exact h.registered hp hc hmem

theorem Coherent.reflTransGen_of_dependents {root wtxid rootId other}
    (hrootId : pool.cellWtxids[root]? = some rootId)
    (hpath : ReflTransGen (fun parent child => child ∈
      (pool.cellPool.txs[parent]?.elim [] PoolEntry.dependents).filter (· ∈ pool.cellWtxids))
      root wtxid) (hother : pool.cellWtxids[wtxid]? = some other) :
    ReflTransGen pool.chainedTransactions.Edge rootId other := by
  induction hpath generalizing other with
  | refl =>
    rw [hrootId, Option.some.injEq] at hother
    rw [hother]
  | @tail parent child _ hl ih =>
    obtain ⟨hd, -⟩ := mem_filter.mp hl
    cases hpa : pool.cellPool.txs[parent]? with
    | none =>
      rw [hpa] at hd
      contradiction
    | some entry =>
      have hp := h.getElem?_cellWtxids hpa
      exact (ih hp).tail (h.edge_of_mem_dependents hd hp hother)

theorem Coherent.mem_getCellRedeemerIdsInPool {other}
    (hother : other ∈ pool.getCellRedeemerIdsInPool id) :
    TransGen pool.chainedTransactions.Edge id other := by
  unfold getCellRedeemerIdsInPool at hother
  split at hother
  · contradiction
  · rename_i root hroot
    obtain ⟨tx, htx, hw⟩ := Option.bind_eq_some_iff.mp hroot
    have hrootId : pool.cellWtxids[root]? = some id := by
      rw [(h.keyed htx).2.2, Option.some.injEq] at hw
      exact h.cellWtxids.mpr ⟨tx, htx, hw⟩
    obtain ⟨wtxid, hmem, hot⟩ := mem_filterMap.mp hother
    obtain ⟨hmem, hne⟩ := mem_tail_closure hmem
    have hn : ∀ wtxid, Reached (fun wtxid =>
        (pool.cellPool.txs[wtxid]?.elim [] PoolEntry.dependents).filter (· ∈ pool.cellWtxids))
          [root] wtxid → wtxid ∈ root :: pool.cellWtxids.keys := by
      rintro wtxid ⟨seed, hs, hp⟩
      rw [mem_singleton] at hs
      subst hs
      rcases hp.cases_tail with rfl | ⟨parent, -, hla⟩
      · exact mem_cons_self
      · exact mem_cons_of_mem _ (ExtTreeMap.mem_keys.mpr (by simpa using (mem_filter.mp hla).2))
    have hl : (root :: pool.cellWtxids.keys).length ≤ pool.cellWtxids.size + 1 :=
      Nat.succ_le_succ length_keys.le
    obtain ⟨seed, hs, hp⟩ := (mem_closure_iff hn hl).mp hmem
    rw [mem_singleton] at hs
    subst hs
    have hwa := h.reflTransGen_of_dependents hrootId hp hot
    refine (reflTransGen_iff_eq_or_transGen.mp hwa).resolve_left ?_
    rintro rfl
    obtain ⟨ot, hotherTx, ho⟩ := h.cellWtxids.mp hot
    obtain ⟨rootTx, hro, hr⟩ := h.cellWtxids.mp hrootId
    rw [hotherTx, Option.some.injEq] at hro
    exact hne (ho.symm.trans (hro ▸ hr))

theorem Coherent.mem_getRedeemerIds (hid : id ∈ pool.allTransactions) {other} :
    other ∈ pool.getRedeemerIds env id ↔ TransGen pool.chainedTransactions.Edge id other := by
  rw [getRedeemerIds, mem_eraseDups, mem_append, mem_getRedeemerIdsInPool]
  constructor
  · rintro (⟨-, hp⟩ | hc)
    · exact mono (fun _ _ => And.left) _ _ hp
    · exact h.mem_getCellRedeemerIdsInPool hc
  · intro hp
    refine .inl ⟨hid, mono (fun parent child he => ⟨he, ?_⟩) _ _ hp⟩
    obtain ⟨-, -, tx, htx, -⟩ := h.chained he
    exact mem_iff.mpr ⟨tx, htx⟩

end

structure Without (before : TransactionsPool) (S : Hash → Prop) (pool : TransactionsPool) :
    Prop where
  kept : ∀ {id : Hash}, ¬ S id → pool.allTransactions[id]? = before.allTransactions[id]?
  gone : ∀ {id : Hash}, S id → id ∉ pool.allTransactions
  edge : ∀ {parent child : Hash}, pool.chainedTransactions.Edge parent child ↔
    before.chainedTransactions.Edge parent child ∧ ¬ S parent ∧ ¬ S child

variable {bef middle : TransactionsPool} {S T : Hash → Prop}

theorem Without.mem_iff (h : bef.Without S pool) :
    id ∈ pool.allTransactions ↔ id ∈ bef.allTransactions ∧ ¬ S id := by
  by_cases hid : S id
  · simp [hid, h.gone hid]
  · rw [mem_iff_isSome_getElem?, h.kept hid]
    simp [hid]

theorem Without.getElem?_of_getElem? (h : bef.Without S pool) {tx}
    (htx : pool.allTransactions[id]? = some tx) : bef.allTransactions[id]? = some tx := by
  have hnot : ¬ S id := fun hid => h.gone hid (TransactionsPool.mem_iff.mpr ⟨tx, htx⟩)
  rw [← h.kept hnot, htx]

theorem Without.refl (pool : TransactionsPool) : pool.Without (fun _ => False) pool :=
  ⟨fun _ => rfl, fun h => h.elim, by simp⟩

theorem Without.trans (h : bef.Without S middle) (h' : middle.Without T pool) :
    bef.Without (fun id => S id ∨ T id) pool where
  kept hid := by
    rw [not_or] at hid
    rw [h'.kept hid.2, h.kept hid.1]
  gone {id} hid := by
    rw [h'.mem_iff, h.mem_iff]
    rintro ⟨⟨-, hS⟩, hT⟩
    exact hid.elim hS hT
  edge := by
    intro parent child
    rw [h'.edge, h.edge, not_or, not_or]
    constructor
    · rintro ⟨⟨he, hp, hc⟩, hp', hc'⟩
      exact ⟨he, ⟨hp, hp'⟩, hc, hc'⟩
    · rintro ⟨he, ⟨hp, hp'⟩, hc, hc'⟩
      exact ⟨⟨he, hp, hc⟩, hp', hc'⟩

theorem Without.congr (h : bef.Without S pool) (hST : ∀ id, S id ↔ T id) : bef.Without T pool := by
  have heq : S = T := funext fun id => propext (hST id)
  exact heq ▸ h

theorem Coherent.removed_without (h : pool.Coherent env) (id : Hash) (tx entry key) :
    pool.Without (· = id) (removed env pool id tx entry key) := by
  have hget : ∀ other, (removed env pool id tx entry key).allTransactions[other]? =
      if id = other then none else pool.allTransactions[other]? :=
        fun other => TreeMap.getElem?_erase_eq _ id other
  refine ⟨fun ho => ?_, fun ho hmem => ?_, h.edge_chained_withoutRelations⟩
  · rw [hget, if_neg (Ne.symm ho)]
  · rw [mem_iff_isSome_getElem?, hget, if_pos ho.symm] at hmem
    contradiction

section Frontier

variable {ry : ReadyTransactions} {key other : FeerateTransactionKey}

theorem mem_of_mem_insert (h : other ∈ (ry.insert env key).searchTree) :
    other ∈ ry.searchTree ∨ other = key := by
  by_cases hany : ry.searchTree.any (sameKey env key) = true
  · rw [ReadyTransactions.insert, if_pos hany] at h
    exact .inl h
  · rw [(ReadyTransactions.insert_perm hany).mem_iff, mem_cons] at h
    exact h.symm

theorem mem_of_mem_remove (h : other ∈ (ry.remove env key).searchTree) : other ∈ ry.searchTree := by
  unfold ReadyTransactions.remove at h
  split_ifs at h
  · exact mem_of_mem_eraseP h
  · exact h

theorem not_sameKey_of_mem_remove (hdistinct : ry.Distinct env)
    (h : other ∈ (ry.remove env key).searchTree) :
    ¬ sameKey env key other = true := by
  unfold ReadyTransactions.remove at h
  by_cases hany : ry.searchTree.any (sameKey env key) = true
  · rw [if_pos hany] at h
    obtain ⟨first, hfi, hsa⟩ := any_eq_true.mp hany
    obtain ⟨found, l₁, l₂, hb, hf, hs, he⟩ := exists_of_eraseP hfi hsa
    rw [he] at h
    rcases mem_append.mp h with hmem | hmem
    · exact hb other hmem
    · intro ho
      rw [ReadyTransactions.Distinct, hs, pairwise_append, pairwise_cons] at hdistinct
      exact hdistinct.2.1.1 other hmem (sameKey_of_sameKey hf ho)
  · rw [if_neg hany] at h
    exact fun ho => hany (any_eq_true.mpr ⟨other, h, ho⟩)

theorem mem_of_mem_readyAfter (h : key ∈ (pool.readyAfter env ry id).searchTree) :
    key ∈ ry.searchTree ∨
    ∃ tx, pool.allTransactions[id]? = some tx ∧ ofMutableTransaction tx.mtx = some key := by
  unfold readyAfter at h
  cases htx : pool.allTransactions[id]? with
  | none =>
    rw [htx] at h
    exact .inl h
  | some tx =>
    cases hkey : ofMutableTransaction tx.mtx with
    | none =>
      simp only [htx, hkey] at h
      exact .inl h
    | some current =>
      simp only [htx, hkey] at h
      split_ifs at h
      · rcases mem_of_mem_insert h with hmem | rfl
        · exact .inl hmem
        · exact .inr ⟨tx, rfl, hkey⟩
      · exact .inl (mem_of_mem_remove h)

theorem mem_of_mem_foldl_readyAfter {ids : List Hash}
    (h : key ∈ (ids.foldl (pool.readyAfter env) ry).searchTree) :
    key ∈ ry.searchTree ∨ ∃ id ∈ ids, ∃ tx, pool.allTransactions[id]? = some tx ∧
    ofMutableTransaction tx.mtx = some key := by
  induction ids generalizing ry with
  | nil => exact .inl h
  | cons id ids ih =>
    rcases ih h with hmem | ⟨other, ho, hkey⟩
    · exact (mem_of_mem_readyAfter hmem).imp_right fun hkey => ⟨id, mem_cons_self, hkey⟩
    · exact .inr ⟨other, mem_cons_of_mem id ho, hkey⟩

variable {tx : MempoolTransaction} {e : PoolEntry}

variable (h : pool.Coherent env) (htx : pool.allTransactions[id]? = some tx)
  (hentry : pool.cellPool.txs[env.wtxid tx.mtx.tx]? = some e)
include h htx hentry

theorem Coherent.edge_of_mem_maybeReady {child}
    (hchild : child ∈ (taken env pool id tx e key).maybeReady (pool.chainedTransactions.targets id)
      e.dependents) :
    pool.chainedTransactions.Edge id child := by
  rw [maybeReady, ExtTreeSet.mem_toList, mem_idSet, mem_append, ExtTreeSet.mem_toList,
    mem_filterMap] at hchild
  rcases hchild with he | ⟨wtxid, hd, hf⟩
  · exact he
  · have hget : (taken env pool id tx e key).cellWtxids[wtxid]? =
        if env.wtxid tx.mtx.tx = wtxid then none else pool.cellWtxids[wtxid]? := by
      simp only [taken, takenOut, withoutTransaction, (h.keyed htx).2.2]
      exact TreeMap.getElem?_erase_eq _ _ _
    rw [hget] at hf
    split_ifs at hf
    refine h.edge_of_mem_dependents ?_ (h.cellWtxids.mpr ⟨tx, htx, rfl⟩) hf
    rw [hentry]
    exact hd

theorem Coherent.mem_searchTree_removed
    (hmem : other ∈ (removed env pool id tx e key).readyTransactions.searchTree) :
    (other ∈ pool.readyTransactions.searchTree ∧ ¬ sameKey env key other = true) ∨
    ∃ (child : Hash) (ct : MempoolTransaction), pool.chainedTransactions.Edge id child ∧
    (removed env pool id tx e key).allTransactions[child]? = some ct ∧
    ofMutableTransaction ct.mtx = some other := by
  have hm' := hmem
  rcases mem_of_mem_foldl_readyAfter hm' with hmem | ⟨child, hch, ct, hc, hkey⟩
  · exact .inl ⟨mem_of_mem_remove hmem, not_sameKey_of_mem_remove h.distinct hmem⟩
  · exact .inr ⟨child, ct, h.edge_of_mem_maybeReady htx hentry ((env.mem_iteration).mp hch),
      hc, hkey⟩

end Frontier

end TransactionsPool

section Removal

variable {s t : Mempool}

section

variable (h : s.transactionPool.Coherent env)
include h

theorem exec_removeAndUpdateOrphans {id : Hash} (horphan : id ∉ s.orphanPool.allOrphans)
    (hexec : (removeAndUpdateOrphans env true id).exec s = (.ok (), t)) :
    ∃ tx entry key, s.transactionPool.allTransactions[id]? = some tx ∧
      s.transactionPool.cellPool.txs[env.wtxid tx.mtx.tx]? = some entry ∧
      ofMutableTransaction tx.mtx = some key ∧
      t = { s with
        transactionPool :=
          TransactionsPool.Coherent.removed env s.transactionPool id tx entry key } := by
  rw [removeAndUpdateOrphans, exec_bind, onTransactionPool, exec_zoom] at hexec
  obtain ⟨fault, after, hr, -⟩ | ⟨tx, entry, key, htx, hentry, hkey, hr⟩ :=
    h.exec_removeTransaction id
  · simp [hr, Except.mapError] at hexec
  · have hre : s.orphanPool.getRedeemerIds env (tx.id env) = [] := by
      rw [(h.keyed htx).1]
      exact if_neg horphan
    have hu : (OrphanPool.updateOrphansAfterTransactionRemoved env tx true).exec s.orphanPool =
        (.ok [], s.orphanPool) := by
      rw [OrphanPool.updateOrphansAfterTransactionRemoved, if_pos rfl, OrphanPool.removeRedeemersOf,
        exec_get_bind, hre]
      rfl
    simp only [hr, Except.mapError] at hexec
    rw [exec_discard, onOrphanPool, exec_zoom, hu, Prod.mk.injEq] at hexec
    exact ⟨tx, entry, key, htx, hentry, hkey, hexec.2.symm⟩

theorem exec_forM_removeAndUpdateOrphans {ids : List Hash}
    (horphan : ∀ id ∈ ids, id ∉ s.orphanPool.allOrphans)
    (hexec : (ids.forM (removeAndUpdateOrphans env true)).exec s = (.ok (), t)) :
    t.transactionPool.Coherent env ∧ s.transactionPool.Without (· ∈ ids) t.transactionPool ∧
    t.orphanPool = s.orphanPool := by
  induction ids generalizing s with
  | nil =>
    rw [Prod.mk.injEq] at hexec
    rw [← hexec.2]
    exact ⟨h, (TransactionsPool.Without.refl _).congr (by simp), rfl⟩
  | cons id ids ih =>
    rw [forall_mem_cons] at horphan
    rw [exec_forM_cons, exec_bind] at hexec
    rcases hf : (removeAndUpdateOrphans env true id).exec s with ⟨fault | _, middle⟩
    · simp [hf] at hexec
    · obtain ⟨tx, entry, key, htx, hentry, -, rfl⟩ := exec_removeAndUpdateOrphans h horphan.1 hf
      simp only [hf] at hexec
      obtain ⟨ht, hw, ho⟩ :=
        ih (s := { s with transactionPool := _ }) (h.removed_coherent htx hentry key)
          horphan.2 hexec
      refine ⟨ht, ((h.removed_without id tx entry key).trans hw).congr fun other => ?_, ho⟩
      rw [mem_cons]

theorem searchTree_subset_of_forM {ids : List Hash} {keys}
    (horphan : ∀ id ∈ ids, id ∉ s.orphanPool.allOrphans) (hclosed : ∀ id ∈ ids, ∀ child,
      s.transactionPool.chainedTransactions.Edge id child → child ∈ ids)
    (hkeys : ∀ key ∈ s.transactionPool.readyTransactions.searchTree, key ∈ keys ∨ ∃ id ∈ ids,
      ∃ (tx : MempoolTransaction) (cur : FeerateTransactionKey),
      s.transactionPool.allTransactions[id]? = some tx ∧
      ofMutableTransaction tx.mtx = some cur ∧ sameKey env cur key = true)
    (hexec : (ids.forM (removeAndUpdateOrphans env true)).exec s = (.ok (), t)) :
    t.transactionPool.readyTransactions.searchTree ⊆ keys := by
  induction ids generalizing s with
  | nil =>
    rw [Prod.mk.injEq] at hexec
    rw [← hexec.2]
    intro key hkey
    exact (hkeys key hkey).resolve_right (by simp)
  | cons id ids ih =>
    obtain ⟨_, middle, hf, hr⟩ := exec_bind_eq_ok.mp hexec
    obtain ⟨tx, entry, key, htx, hentry, hkey, rfl⟩ :=
      exec_removeAndUpdateOrphans h (horphan id mem_cons_self) hf
    have hw := h.removed_without id tx entry key
    refine ih (s := { s with transactionPool := _ }) (h.removed_coherent htx hentry key)
      (fun other hot => horphan other (mem_cons_of_mem id hot)) (fun other hot child he => ?_)
        (fun other hot => ?_) hr
    · obtain ⟨he, -, hne⟩ := hw.edge.mp he
      exact (mem_cons.mp (hclosed other (mem_cons_of_mem id hot) child he)).resolve_left hne
    · rcases h.mem_searchTree_removed htx hentry hot with ⟨hmem, hnot⟩ |
        ⟨child, childTx, he, hch, hc⟩
      · refine (hkeys other hmem).imp_right ?_
        rintro ⟨owner, how, ownerTx, cur, ho, hc, hs⟩
        have hne : owner ≠ id := by
          rintro rfl
          rw [htx] at ho
          cases ho
          rw [hkey, Option.some.injEq] at hc
          exact hnot (hc ▸ hs)
        exact ⟨owner, (mem_cons.mp how).resolve_left hne, ownerTx, cur, (hw.kept hne).trans ho, hc,
          hs⟩
      · have hne : child ≠ id := (h.chained he).2.1.symm
        have hmem := (mem_cons.mp (hclosed id mem_cons_self child he)).resolve_left hne
        exact .inr ⟨child, hmem, childTx, other, hch, hc, sameKey_self other⟩

end

def Taken (s : Mempool) (x id : Hash) : Prop :=
  id = x ∨ TransGen s.transactionPool.chainedTransactions.Edge x id

theorem Taken.tail {x id child} (h : s.Taken x id)
    (hedge : s.transactionPool.chainedTransactions.Edge id child) :
    s.Taken x child := by
  rcases h with rfl | hp
  · exact .inr (.single hedge)
  · exact .inr (hp.tail hedge)

theorem TransactionsPool.Coherent.mem_of_taken (h : s.transactionPool.Coherent env) {x id}
    (hx : x ∈ s.transactionPool.allTransactions) (hid : s.Taken x id) :
    id ∈ s.transactionPool.allTransactions := by
  rcases hid with rfl | hp
  · exact hx
  · obtain ⟨_, -, hl⟩ := tail'_iff.mp hp
    obtain ⟨-, -, tx, htx, -⟩ := h.chained hl
    exact TransactionsPool.mem_iff.mpr ⟨tx, htx⟩

theorem exec_removeTransaction (h : s.transactionPool.Coherent env) (hunique : s.Unique) {x}
    (hx : x ∈ s.transactionPool.allTransactions)
    (hexec : (removeTransaction env x true).exec s = (.ok (), t)) :
    t.transactionPool.Coherent env ∧ s.transactionPool.Without (s.Taken x) t.transactionPool ∧
    t.orphanPool = s.orphanPool ∧ t.transactionPool.readyTransactions.searchTree ⊆
    s.transactionPool.readyTransactions.searchTree := by
  have hmem : ∀ id, id ∈ x :: s.transactionPool.getRedeemerIds env x ↔ s.Taken x id := fun id => by
    rw [mem_cons, h.mem_getRedeemerIds hx, Taken]
  have hnot : ¬ s.orphanPool.has x = true := by
    simpa [OrphanPool.has] using fun ho => hunique x ⟨hx, ho⟩
  have hholds : s.transactionPool.has x = true := by simpa [TransactionsPool.has] using hx
  rw [removeTransaction, exec_get_bind, if_neg hnot, if_pos hholds] at hexec
  have ho : ∀ id ∈ x :: s.transactionPool.getRedeemerIds env x, id ∉ s.orphanPool.allOrphans :=
      fun id hid ho =>
    hunique id ⟨h.mem_of_taken hx ((hmem id).mp hid), ho⟩
  obtain ⟨ht, hw, hor⟩ := exec_forM_removeAndUpdateOrphans h ho hexec
  refine ⟨ht, hw.congr hmem, hor, ?_⟩
  refine searchTree_subset_of_forM h ho (fun id hid child he => ?_)
    (fun key hkey => .inl hkey) hexec
  rw [hmem] at hid ⊢
  exact hid.tail he

-- A transaction of either pool spends an output of another: it has an input that names its id.
def Spends (s : Mempool) (parent child : Hash) : Prop :=
  ∃ tx : MempoolTransaction, (s.transactionPool.allTransactions[child]? = some tx ∨
    s.orphanPool.allOrphans[child]? = some tx) ∧ tx.mtx.tx.spendsFrom parent

-- A transaction goes with all that spend its outputs, directly or not, and no orphan has one of
-- their outputs resolved any more.
structure RemovesDescendants (s : Mempool) (x : Hash) (t : Mempool) : Prop where
  gone : ∀ id, id = x ∨ TransGen s.Spends x id → id ∉ t.transactionPool.allTransactions ∧
    id ∉ t.orphanPool.allOrphans
  kept : ∀ id, ¬ (id = x ∨ TransGen s.Spends x id) →
    (id ∈ s.transactionPool.allTransactions → id ∈ t.transactionPool.allTransactions) ∧
      (id ∈ s.orphanPool.allOrphans → id ∈ t.orphanPool.allOrphans)
  unresolved : ∀ (id : Hash) (orphan : MempoolTransaction), t.orphanPool.allOrphans[id]? =
    some orphan → ∀ (index : Nat) (outpoint : OutPoint), orphan.mtx.tx.spends[index]? =
      some outpoint → (outpoint.txHash = x ∨ TransGen s.Spends x outpoint.txHash) →
        ∀ metadata : CellMetadata, orphan.mtx.resolvedCellMetadata[index]? ≠ some (some metadata)

-- No orphan descends from a transaction, and its descendants in the pool are chained to it.
structure DescendantsChained (s : Mempool) (x : Hash) : Prop where
  orphans : ∀ id ∈ s.orphanPool.allOrphans, ¬ TransGen s.Spends x id
  chained : ∀ id ∈ s.transactionPool.allTransactions, id ≠ x → TransGen s.Spends x id →
    TransGen s.transactionPool.chainedTransactions.Edge x id

theorem spends_of_edge (h : s.transactionPool.Coherent env) {parent child}
    (hedge : s.transactionPool.chainedTransactions.Edge parent child) : s.Spends parent child := by
  obtain ⟨-, -, tx, htx, hs⟩ := h.chained hedge
  exact ⟨tx, .inl htx, hs⟩

theorem removeTransaction_removes_descendants_iff (h : s.transactionPool.Coherent env)
    (hunique : s.Unique) {x : Hash} (hx : x ∈ s.transactionPool.allTransactions)
    (hexec : (removeTransaction env x true).exec s = (.ok (), t)) :
    s.RemovesDescendants x t ↔ s.DescendantsChained x := by
  obtain ⟨-, hw, ho, -⟩ := exec_removeTransaction h hunique hx hexec
  have ht : ∀ {id}, s.Taken x id → id = x ∨ TransGen s.Spends x id :=
    fun hid => hid.imp_right (mono (fun _ _ => spends_of_edge h) _ _)
  constructor
  · intro hr
    refine ⟨fun id hid hp => ?_, fun id hid hne hp => ?_⟩
    · exact (hr.gone id (.inr hp)).2 (ho ▸ hid)
    · have hg := (hr.gone id (.inr hp)).1
      rw [hw.mem_iff, not_and, not_not] at hg
      exact (hg hid).resolve_left hne
  · intro hc
    have hor : ∀ {id}, id = x ∨ TransGen s.Spends x id → id ∉ s.orphanPool.allOrphans := by
      rintro id (rfl | hp) hid
      · exact hunique _ ⟨hx, hid⟩
      · exact hc.orphans id hid hp
    refine ⟨fun id hid => ⟨fun hmem => ?_, ho ▸ hor hid⟩, fun id hid => ⟨fun hmem => ?_, ?_⟩, ?_⟩
    · obtain ⟨hmem, hnot⟩ := hw.mem_iff.mp hmem
      rw [Taken, not_or] at hnot
      exact hnot.2 (hc.chained id hmem hnot.1 (hid.resolve_left hnot.1))
    · exact hw.mem_iff.mpr ⟨hmem, fun ht' => hid (ht ht')⟩
    · exact fun hmem => ho ▸ hmem
    · -- such an orphan would be a descendant itself
      intro id orphan hf index outpoint hsp hre
      rw [ho] at hf
      have hs : s.Spends outpoint.txHash id := ⟨orphan, .inr hf, outpoint, mem_of_getElem? hsp, rfl⟩
      have hp : TransGen s.Spends x id := by
        rcases hre with heq | hp
        · exact .single (heq ▸ hs)
        · exact hp.tail hs
      exact absurd (TreeMap.mem_of_getElem? hf) (hor (.inr hp))

-- A pool transaction with a child in the pool, and an orphan that spends its output beside a
-- missing one.
def parentTx : MutableTransaction := sampleMutableTx [⟨1, 0⟩] [400, 500] 5000

def childTx : MutableTransaction := sampleMutableTx [⟨Hasher.sample.txid parentTx.tx, 0⟩] [300] 5000

def halfResolvedTx : MutableTransaction :=
  { sampleMutableTx [⟨Hasher.sample.txid parentTx.tx, 1⟩, ⟨2, 0⟩] [900] 5000 with
    resolvedCellMetadata := [some (sampleMetadata ⟨Hasher.sample.txid parentTx.tx, 1⟩), none] }

theorem halfResolved_outlives_parent :
    ∃ s t, Reachable (sampleServices 10 100000) (fun _ _ => True) s ∧
    s = afterAll (sampleServices 10 100000) [sampleInsertion (.ok ()) parentTx,
      sampleInsertion (.error .rejectMissingOutpoint) halfResolvedTx] ∧ s.Unique ∧
    Hasher.sample.txid parentTx.tx ∈ s.transactionPool.allTransactions ∧
    (removeTransaction (sampleServices 10 100000) (Hasher.sample.txid parentTx.tx) true).exec s =
    (.ok (), t) ∧ ¬ s.RemovesDescendants (Hasher.sample.txid parentTx.tx) t := by
  refine ⟨_, _, reachable_afterAll (by decide +kernel), rfl,
    Unique.of_reachable (reachable_afterAll (by decide +kernel)),
    by decide +kernel, Prod.ext (by decide +kernel) rfl, fun hr => ?_⟩
  have hf : (afterAll (sampleServices 10 100000) [sampleInsertion (.ok ()) parentTx,
      sampleInsertion (.error .rejectMissingOutpoint) halfResolvedTx]).orphanPool.allOrphans[
        sample.txid halfResolvedTx.tx]? = some (.new halfResolvedTx .low 100) := by
    decide +kernel
  have hg := hr.gone (sample.txid halfResolvedTx.tx)
    (.inr (.single ⟨_, .inr hf, by decide +kernel⟩))
  exact hg.2 (by decide +kernel)

def family : Mempool :=
  afterAll (sampleServices 10 100000) [sampleInsertion (.ok ()) parentTx,
    sampleInsertion (.ok ()) childTx]

theorem family_removed_with_parent : family.RemovesDescendants (Hasher.sample.txid parentTx.tx)
    ((removeTransaction (sampleServices 10 100000) (Hasher.sample.txid parentTx.tx) true).after
      family) ∧
    Hasher.sample.txid childTx.tx ∈ family.transactionPool.allTransactions := by
  have hc : family.transactionPool.Coherent (sampleServices 10 100000) :=
    reachable_coherent (reachable_afterAll (by decide +kernel))
  have hr : Reachable (sampleServices 10 100000)
      (Operation.InsertsNoOrphan (sampleServices 10 100000)) family :=
    reachable_afterAll (by decide +kernel)
  have he : ∀ id ∈ family.transactionPool.allTransactions.keys, id ≠ sample.txid parentTx.tx →
      family.transactionPool.chainedTransactions.Edge (sample.txid parentTx.tx) id := by
    decide +kernel
  refine ⟨(removeTransaction_removes_descendants_iff hc (Unique.of_reachable hr) (by decide +kernel)
    (Prod.ext (by decide +kernel) rfl)).mpr ⟨fun id hid => ?_, fun id hid hne _ => ?_⟩,
      by decide +kernel⟩
  · rw [← ExtTreeMap.mem_keys] at hid
    contradiction
  · exact .single (he id (ExtTreeMap.mem_keys.mpr hid) hne)

end Removal

end Mempool

end Spora
