import Spora.Mining.Limits
import Spora.Mining.Pool.Coherence
import Spora.Mining.Pool.Uniqueness

namespace Spora

open Std Stateful List FeerateTransactionKey

namespace Mempool

open FeerateTransactionKey (ofMutableTransaction)

variable {env : MempoolServices}

-- A frontier with exactly the keys of a set, one for each id, and with the sum of their masses.
structure ReadyTransactions.Exact (env : MempoolServices) (P : FeerateTransactionKey → Prop)
    (ready : ReadyTransactions) :
    Prop where
  mem : ∀ {key : FeerateTransactionKey}, key ∈ ready.searchTree ↔ P key
  nodup : (ready.searchTree.map fun key => env.hasher.txid key.tx).Nodup
  totalMass : ready.totalMass = (ready.searchTree.map mass).sum

theorem ReadyTransactions.mem_insert {ready : ReadyTransactions} {key other}
    (h : key ∈ ready.searchTree) : key ∈ (ready.insert env other).searchTree := by
  by_cases hany : ready.searchTree.any (sameKey env other) = true
  · rw [ReadyTransactions.insert, if_pos hany]
    exact h
  · exact (ReadyTransactions.insert_perm hany).mem_iff.mpr (mem_cons_of_mem other h)

namespace ReadyTransactions.Exact

variable {P Q : FeerateTransactionKey → Prop} {ready : ReadyTransactions}
  {key : FeerateTransactionKey}

theorem empty : Exact env (fun _ => False) .empty :=
  ⟨by simp [ReadyTransactions.empty], by simp [ReadyTransactions.empty], rfl⟩

theorem congr (h : Exact env P ready) (hPQ : ∀ key, P key ↔ Q key) : Exact env Q ready :=
  ⟨h.mem.trans (hPQ _), h.nodup, h.totalMass⟩

variable (h : Exact env P ready)
  (hunique : ∀ {other : FeerateTransactionKey}, P other →
    env.hasher.txid other.tx = env.hasher.txid key.tx → other = key)

include h hunique

theorem any_sameKey : ready.searchTree.any (sameKey env key) = true ↔ P key := by
  rw [any_eq_true]
  constructor
  · rintro ⟨other, hmem, hsame⟩
    exact hunique (h.mem.mp hmem) (txid_eq_of_sameKey hsame).symm ▸ h.mem.mp hmem
  · exact fun hkey => ⟨key, h.mem.mpr hkey, sameKey_self key⟩

theorem insert : Exact env (fun other => P other ∨ other = key) (ready.insert env key) := by
  by_cases hkey : P key
  · rw [ReadyTransactions.insert, if_pos ((h.any_sameKey hunique).mpr hkey)]
    refine h.congr fun other => ⟨.inl, ?_⟩
    rintro (ho | rfl)
    · exact ho
    · exact hkey
  · have hany : ¬ ready.searchTree.any (sameKey env key) = true :=
      fun hany => hkey ((h.any_sameKey hunique).mp hany)
    have hp := ReadyTransactions.insert_perm hany
    have hnew : env.hasher.txid key.tx ∉ ready.searchTree.map fun other =>
        env.hasher.txid other.tx := by
      intro hmem
      obtain ⟨other, ho, heq⟩ := mem_map.mp hmem
      exact hkey (hunique (h.mem.mp ho) heq ▸ h.mem.mp ho)
    have ht : (ready.insert env key).totalMass = ready.totalMass + key.mass := by
      rw [ReadyTransactions.insert, if_neg hany]
    refine ⟨?_, ?_, ?_⟩
    · intro other
      rw [hp.mem_iff, mem_cons, h.mem, or_comm]
    · rw [(hp.map _).nodup_iff, map_cons, nodup_cons]
      exact ⟨hnew, h.nodup⟩
    · rw [ht, (hp.map mass).sum_eq, map_cons, sum_cons, h.totalMass,
        Nat.add_comm]

theorem remove : Exact env (fun other => P other ∧ other ≠ key) (ready.remove env key) := by
  unfold ReadyTransactions.remove
  by_cases hkey : P key
  · rw [if_pos ((h.any_sameKey hunique).mpr hkey)]
    have hse : sameKey env key key = true := sameKey_self key
    obtain ⟨found, l₁, l₂, -, hsame, hs, he⟩ := exists_of_eraseP (h.mem.mpr hkey) hse
    have hf : found = key :=
      hunique (h.mem.mp (hs ▸ mem_append_right l₁ mem_cons_self)) (txid_eq_of_sameKey hsame).symm
    rw [hf] at hs
    have hp := hs ▸ perm_middle
    have hids : (env.hasher.txid key.tx :: (l₁ ++ l₂).map fun other =>
        env.hasher.txid other.tx).Nodup :=
      (hp.map _).nodup_iff.mp h.nodup
    rw [nodup_cons] at hids
    rw [he]
    refine ⟨?_, hids.2, ?_⟩
    · intro other
      rw [← h.mem, hp.mem_iff, mem_cons]
      refine ⟨fun ho => ⟨.inr ho, ?_⟩, fun ho => ho.1.resolve_left ho.2⟩
      rintro rfl
      exact hids.1 (mem_map_of_mem ho)
    · have hsum := (hp.map mass).sum_eq
      rw [h.totalMass, hsum]
      exact Nat.add_sub_cancel_left _ _
  · rw [if_neg fun hany => hkey ((h.any_sameKey hunique).mp hany)]
    refine h.congr fun other => ⟨fun ho => ⟨ho, ?_⟩, And.left⟩
    rintro rfl
    exact hkey ho

end ReadyTransactions.Exact

namespace TransactionsPool

variable {pool : TransactionsPool} {id : Hash} {tx : MempoolTransaction}
  {key : FeerateTransactionKey}

def IsParent (pool : TransactionsPool) (parent child : Hash) : Prop :=
  parent ∈ pool.allTransactions ∧ parent ≠ child ∧
    ∃ tx : MempoolTransaction, pool.allTransactions[child]? = some tx ∧ tx.mtx.tx.spendsFrom parent

def Current (env : MempoolServices) (pool : TransactionsPool) (key : FeerateTransactionKey) :
    Prop :=
  ∃ tx : MempoolTransaction, pool.allTransactions[env.hasher.txid key.tx]? = some tx ∧
    ofMutableTransaction tx.mtx = some key

def Ready (env : MempoolServices) (pool : TransactionsPool) (key : FeerateTransactionKey) : Prop :=
  Current env pool key ∧ ∀ parent, ¬ pool.IsParent parent (env.hasher.txid key.tx)

theorem tx_of_ofMutableTransaction {mtx} (h : ofMutableTransaction mtx = some key) :
    key.tx = mtx.tx := by
  simp only [ofMutableTransaction, Option.bind_eq_some_iff, Option.map_eq_some_iff] at h
  obtain ⟨mass, -, fee, -, rfl⟩ := h
  rfl

theorem Current.eq {other} (h : Current env pool key) (hother : Current env pool other)
    (hid : env.hasher.txid other.tx = env.hasher.txid key.tx) : other = key := by
  obtain ⟨tx, htx, hkey⟩ := h
  obtain ⟨tx', htx', hk'⟩ := hother
  rw [hid, htx, Option.some.injEq] at htx'
  rw [← htx', hkey, Option.some.injEq] at hk'
  exact hk'.symm

namespace Coherent

variable (h : pool.Coherent env)

include h

section

variable (htx : pool.allTransactions[id]? = some tx)
include htx

theorem txid_key (hkey : ofMutableTransaction tx.mtx = some key) : env.hasher.txid key.tx = id := by
  rw [tx_of_ofMutableTransaction hkey]
  exact (h.keyed htx).1

theorem current_of_getElem?
    (hkey : ofMutableTransaction tx.mtx = some key) : Current env pool key :=
  ⟨tx, (h.txid_key htx hkey).symm ▸ htx, hkey⟩

theorem isParent_of_mem_dependencies {entry}
    (hentry : pool.cellEntry tx = some entry) {wtxid} (hmem : wtxid ∈ entry.dependencies) :
    ∃ parent, pool.IsParent parent id := by
  rw [cellEntry, (h.keyed htx).2.2] at hentry
  obtain ⟨parentEntry, hp, -⟩ := h.linked.spends hentry hmem
  obtain ⟨hin, hne, child, hc, hs⟩ := h.chained (h.registered hp hentry hmem)
  have hid := (env.txid_eq_of_wtxid_eq (h.linked.keyed hentry)).trans (h.keyed htx).1
  exact ⟨_, hin, hid ▸ hne, child, hid ▸ hc, hs⟩

theorem isReady_iff : pool.isReady env tx = true ↔ ∀ parent, ¬ pool.IsParent parent id := by
  have hp : (pool.getEffectiveParentTransactionIdsInPool env tx.mtx.tx).isEmpty = true ↔
      ∀ parent, ¬ pool.IsParent parent id := by
    rw [ExtTreeSet.isEmpty_iff, ExtTreeSet.eq_empty_iff_forall_not_mem]
    refine forall_congr' fun parent => not_congr ?_
    rw [h.mem_effectiveParents]
    constructor
    · rintro ⟨hin, hs, hne⟩
      exact ⟨hin, (h.keyed htx).1 ▸ hne, tx, htx, hs⟩
    · rintro ⟨hin, hne, tx', htx', hs⟩
      rw [htx, Option.some.injEq] at htx'
      exact ⟨hin, htx' ▸ hs, fun heq => hne (heq.trans (h.keyed htx).1)⟩
  rw [isReady, Bool.and_eq_true, hp, and_iff_left_iff_imp]
  intro hn
  cases hentry : pool.cellEntry tx with
  | none => simp [hasRemainingCellDependencies, hentry]
  | some entry =>
    cases hd : entry.dependencies with
    | nil => simp [hasRemainingCellDependencies, hentry, hd]
    | cons wtxid rest =>
      obtain ⟨parent, hpa⟩ := h.isParent_of_mem_dependencies htx hentry (hd ▸ mem_cons_self)
      exact absurd hpa (hn parent)

end

section Refresh

open ReadyTransactions

variable {P : FeerateTransactionKey → Prop} {ready : ReadyTransactions}

variable (hexact : Exact env P ready) (hcurrent : ∀ key, P key → Current env pool key)
include hexact hcurrent

theorem readyAfter_exact (id : Hash) :
    Exact env (fun key => if env.hasher.txid key.tx = id then Ready env pool key else P key)
      (pool.readyAfter env ready id) := by
  unfold readyAfter
  cases htx : pool.allTransactions[id]? with
  | none =>
    refine hexact.congr fun key => ?_
    have hn : env.hasher.txid key.tx = id → ¬ Current env pool key := by
      rintro rfl ⟨tx, htx', -⟩
      rw [htx] at htx'
      contradiction
    split_ifs with hid
    · exact ⟨fun hkey => absurd (hcurrent key hkey) (hn hid), fun hr => absurd hr.1 (hn hid)⟩
    · rfl
  | some tx =>
    obtain ⟨key, hkey⟩ := (h.keyed htx).2.1
    have hid := h.txid_key htx hkey
    have hk := h.current_of_getElem? htx hkey
    have hunique : ∀ {other}, P other → env.hasher.txid other.tx = env.hasher.txid key.tx →
        other = key := fun hot => hk.eq (hcurrent _ hot)
    have hot : ∀ {other}, env.hasher.txid other.tx = id → (Ready env pool other ↔
        other = key ∧ ∀ parent, ¬ pool.IsParent parent id) := by
      intro other ho
      constructor
      · exact fun hr => ⟨hk.eq hr.1 (ho.trans hid.symm), ho ▸ hr.2⟩
      · rintro ⟨rfl, hn⟩
        exact ⟨hk, hid.symm ▸ hn⟩
    simp only [hkey]
    by_cases hn : ∀ parent, ¬ pool.IsParent parent id
    · rw [if_pos ((h.isReady_iff htx).mpr hn)]
      refine (hexact.insert hunique).congr fun other => ?_
      split_ifs with ho
      · rw [hot ho, and_iff_left hn]
        exact ⟨fun hor => hor.elim (fun hP => hunique hP (ho.trans hid.symm)) fun heq => heq, .inr⟩
      · have hne : other ≠ key := by
          rintro rfl
          exact ho hid
        rw [or_iff_left hne]
    · rw [if_neg fun hr => hn ((h.isReady_iff htx).mp hr)]
      refine (hexact.remove hunique).congr fun other => ?_
      split_ifs with ho
      · rw [hot ho]
        exact ⟨fun hP => absurd (hunique hP.1 (ho.trans hid.symm)) hP.2, fun hr => absurd hr.2 hn⟩
      · have hne : other ≠ key := by
          rintro rfl
          exact ho hid
        rw [and_iff_left hne]

theorem foldl_readyAfter_exact
    {ids : List Hash} (hrest : ∀ key, env.hasher.txid key.tx ∉ ids → (P key ↔ Ready env pool key)) :
    Exact env (Ready env pool) (ids.foldl (pool.readyAfter env) ready) := by
  induction ids generalizing P ready with
  | nil => exact hexact.congr fun key => hrest key not_mem_nil
  | cons id ids ih =>
    refine ih (h.readyAfter_exact hexact hcurrent id) (fun key hkey => ?_) fun key hkey => ?_
    · split_ifs at hkey
      · exact hkey.1
      · exact hcurrent key hkey
    · split_ifs with hid
      · rfl
      · exact hrest key (not_mem_cons_of_ne_of_not_mem hid hkey)

end Refresh

end Coherent

-- The relations are exactly the spends between transactions of the pool, and the frontier exactly
-- the keys of those without a parent in it.
structure Indexed (env : MempoolServices) (pool : TransactionsPool) : Prop where
  inverse : ∀ {parent child : Hash}, pool.parentTransactions.Edge child parent ↔
    pool.chainedTransactions.Edge parent child
  related : ∀ {parent child : Hash}, pool.chainedTransactions.Edge parent child ↔
    pool.IsParent parent child
  ready : pool.readyTransactions.Exact env (Ready env pool)
  estimatedSize : pool.estimatedSize = TreeMap.total (fun tx => env.mempoolEstimatedBytes tx.mtx)
    pool.allTransactions

theorem indexed_new (unixNow : Nat) : (new env unixNow).Indexed env where
  inverse := by simp [new]
  related := by simp [new, IsParent]
  ready := ReadyTransactions.Exact.empty.congr fun key => by simp [Ready, Current, new]
  estimatedSize := by simp [new]

-- The frontier as the selectors of block templates are given it.
def Indexed.frontier (h : pool.Indexed env) : Frontier :=
  ⟨pool.readyTransactions.searchTree, pool.readyTransactions.totalMass, h.ready.totalMass⟩

theorem Indexed.ready_of_selected (h : pool.Indexed env) (policy : Policy) (draws : TemplateDraws) :
    let selected :=
      (h.frontier.buildSelectorWithCells env.hasher policy draws).selectTransactions draws
    (∀ key ∈ selected, Ready env pool key) ∧ (env.txids selected).Nodup ∧
    (selected.map mass).sum ≤ policy.maxBlockMass := by
  obtain ⟨hsub, hmass⟩ := selectTransactions_fits h.frontier env.hasher policy draws
  refine ⟨fun key hkey => h.ready.mem.mp (hsub.subset hkey), ?_, hmass⟩
  obtain ⟨sorted, hperm, hsub⟩ := hsub
  exact (hperm.map _).nodup_iff.mp (h.ready.nodup.sublist (hsub.map _))

theorem isParent_congr {after : TransactionsPool}
    (hall : after.allTransactions = pool.allTransactions) {parent child} :
    after.IsParent parent child ↔ pool.IsParent parent child := by
  unfold IsParent
  rw [hall]

theorem ready_congr {after} (hall : after.allTransactions = pool.allTransactions) :
    Ready env after key ↔ Ready env pool key := by
  unfold Ready Current
  simp only [hall, isParent_congr hall]

section Addition

variable {t : MempoolTransaction} {size : Nat} {cellPool : CellPool}

variable (hnew : t.id env ∉ pool.allTransactions)
  (hunspent : ∀ (id : Hash) (tx : MempoolTransaction), pool.allTransactions[id]? = some tx →
    ¬ tx.mtx.tx.spendsFrom (t.id env))

include hnew hunspent

theorem isParent_entered {parent child} :
    (entered env pool cellPool t size).IsParent parent child ↔ pool.IsParent parent child ∨
    (child = t.id env ∧ parent ∈ pool.allTransactions ∧ t.mtx.tx.spendsFrom parent) := by
  unfold IsParent
  simp only [Coherent.mem_entered, Coherent.getElem?_entered]
  constructor
  · rintro ⟨hin, hne, tx, htx, hs⟩
    split_ifs at htx with heq
    · rw [Option.some.injEq] at htx
      subst htx
      exact .inr ⟨heq.symm, hin.resolve_left fun hp => hne (hp.trans heq), hs⟩
    · refine .inl ⟨hin.resolve_left ?_, hne, tx, htx, hs⟩
      rintro rfl
      exact hunspent child tx htx hs
  · rintro (⟨hin, hne, tx, htx, hs⟩ | ⟨rfl, hin, hs⟩)
    · refine ⟨.inr hin, hne, tx, ?_, hs⟩
      rw [if_neg (Coherent.id_ne_of_getElem? hnew htx)]
      exact htx
    · refine ⟨.inr hin, fun heq => hnew (heq ▸ hin), mirrorOf env t, if_pos rfl, hs⟩

theorem ready_entered (hid : env.hasher.txid key.tx ≠ t.id env) :
    Ready env pool key ↔ Ready env (entered env pool cellPool t size) key := by
  unfold Ready Current
  simp only [Coherent.getElem?_entered, if_neg (Ne.symm hid), isParent_entered hnew hunspent, hid,
    false_and, or_false]

theorem Indexed.added (hindexed : pool.Indexed env) (h : pool.Coherent env)
    (hentered : (entered env pool cellPool t size).Coherent env) :
    (TransactionsPool.added env pool cellPool t size).Indexed env where
  inverse := hentered.inverse
  related := by
    intro parent child
    have he : (entered env pool cellPool t size).chainedTransactions.Edge parent child ↔
        (entered env pool cellPool t size).IsParent parent child := by
      rw [h.edge_chained_entered hnew, isParent_entered hnew hunspent, hindexed.related]
    exact he
  ready := by
    have hcurrent : ∀ key, Ready env pool key →
        Current env (entered env pool cellPool t size) key := by
      intro key hkey
      refine ((ready_entered hnew hunspent ?_).mp hkey).1
      obtain ⟨tx, htx, -⟩ := hkey.1
      exact Ne.symm (Coherent.id_ne_of_getElem? hnew htx)
    have hr : ∀ key, env.hasher.txid key.tx ∉ [t.id env] →
        (Ready env pool key ↔ Ready env (entered env pool cellPool t size) key) :=
      fun key hkey => ready_entered hnew hunspent fun heq => hkey (mem_singleton.mpr heq)
    exact (hentered.foldl_readyAfter_exact hindexed.ready hcurrent hr).congr fun key =>
      (ready_congr rfl).symm
  estimatedSize := hentered.estimatedSize

end Addition

section Removal

variable {entry : PoolEntry}

open Coherent (taken removed)

theorem getElem?_taken_eq_some {other ot} :
    (taken env pool id tx entry key).allTransactions[other]? = some ot ↔
    id ≠ other ∧ pool.allTransactions[other]? = some ot := by
  exact Coherent.getElem?_takenOut_eq_some

theorem isParent_taken {parent child} : (taken env pool id tx entry key).IsParent parent child ↔
    pool.IsParent parent child ∧ id ≠ parent ∧ id ≠ child := by
  have hmem : parent ∈ (taken env pool id tx entry key).allTransactions ↔
      id ≠ parent ∧ parent ∈ pool.allTransactions := by
    rw [mem_iff, mem_iff]
    simp [getElem?_taken_eq_some]
  unfold IsParent
  simp only [hmem, getElem?_taken_eq_some]
  constructor
  · rintro ⟨⟨hp, hin⟩, hne, childTx, ⟨hc, htx⟩, hs⟩
    exact ⟨⟨hin, hne, childTx, htx, hs⟩, hp, hc⟩
  · rintro ⟨⟨hin, hne, childTx, htx, hs⟩, hp, hc⟩
    exact ⟨⟨hp, hin⟩, hne, childTx, ⟨hc, htx⟩, hs⟩

theorem current_taken (hid : env.hasher.txid key.tx = id) (hkey : Current env pool key) {other} :
    Current env (taken env pool id tx entry key) other ↔ Current env pool other ∧ other ≠ key := by
  unfold Current
  simp only [getElem?_taken_eq_some]
  constructor
  · rintro ⟨ot, ⟨hne, ho⟩, hot⟩
    refine ⟨⟨ot, ho, hot⟩, ?_⟩
    rintro rfl
    exact hne hid.symm
  · rintro ⟨⟨ot, ho, hot⟩, hne⟩
    exact ⟨ot, ⟨fun heq => hne (hkey.eq ⟨ot, ho, hot⟩ (heq.symm.trans hid.symm)), ho⟩, hot⟩

variable (h : pool.Coherent env) (htx : pool.allTransactions[id]? = some tx)
  (hentry : pool.cellPool.txs[env.wtxid tx.mtx.tx]? = some entry)
  (hkey : ofMutableTransaction tx.mtx = some key)

include h htx hentry hkey

theorem Indexed.removed (hindexed : pool.Indexed env) :
    (removed env pool id tx entry key).Indexed env where
  inverse := (h.removed_coherent htx hentry key).inverse
  related := by
    intro parent child
    have he : (taken env pool id tx entry key).chainedTransactions.Edge parent child ↔
        (taken env pool id tx entry key).IsParent parent child := by
      rw [isParent_taken, ← hindexed.related, ne_comm, @ne_comm _ id child]
      exact h.edge_chained_withoutRelations
    exact he
  ready := by
    have hid := h.txid_key htx hkey
    have hc := h.current_of_getElem? htx hkey
    have hunique : ∀ {other}, Ready env pool other →
        env.hasher.txid other.tx = env.hasher.txid key.tx → other = key := fun hot => hc.eq hot.1
    have ht := hindexed.ready.remove hunique
    have hcurrent : ∀ other, Ready env pool other ∧ other ≠ key →
        Current env (taken env pool id tx entry key) other :=
      fun other hot => (current_taken hid hc).mpr ⟨hot.1.1, hot.2⟩
    refine ((h.taken_coherent htx hentry key).foldl_readyAfter_exact ht hcurrent fun other hot =>
      ?_).congr fun other => (ready_congr rfl).symm
    -- the status of a transaction changes only with its parents
    rw [env.mem_iteration, maybeReady, ExtTreeSet.mem_toList, mem_idSet, mem_append, not_or,
      ExtTreeSet.mem_toList] at hot
    have hch : ¬ pool.IsParent id (env.hasher.txid other.tx) :=
      fun hp => hot.1 (hindexed.related.mpr hp)
    unfold Ready
    rw [current_taken hid hc]
    simp only [isParent_taken]
    constructor
    · rintro ⟨⟨ho, hn⟩, hne⟩
      exact ⟨⟨ho, hne⟩, fun parent hp => hn parent hp.1⟩
    · rintro ⟨⟨ho, hne⟩, hn⟩
      refine ⟨⟨ho, fun parent hp => hn parent ⟨hp, ?_, ?_⟩⟩, hne⟩
      · rintro rfl
        exact hch hp
      · exact fun heq => hne (hc.eq ho (heq.symm.trans hid.symm))
  estimatedSize := (h.removed_coherent htx hentry key).estimatedSize

end Removal

section Revalidation

open Coherent (updated)

variable {t existing : MempoolTransaction} {cellPool : CellPool}

theorem current_revalidated (hid : env.hasher.txid key.tx ≠ t.id env) :
    Current env (revalidated env pool cellPool t existing) key ↔ Current env pool key := by
  unfold Current
  simp only [Coherent.getElem?_revalidated, if_neg (Ne.symm hid)]

theorem current_revalidated_self (hid : env.hasher.txid key.tx = t.id env) :
    Current env (revalidated env pool cellPool t existing) key ↔
    ofMutableTransaction t.mtx = some key := by
  unfold Current
  simp only [Coherent.getElem?_revalidated, hid, if_true, Option.some.injEq, exists_eq_left',
    mirrorOf, recomputed]

variable (htx : pool.allTransactions[t.id env]? = some existing)
  (hsame : t.mtx.tx = existing.mtx.tx)

include htx hsame

theorem isParent_revalidated {parent child} :
    (revalidated env pool cellPool t existing).IsParent parent child ↔
    pool.IsParent parent child := by
  unfold IsParent
  rw [Coherent.mem_revalidated htx]
  simp only [Coherent.getElem?_revalidated]
  split_ifs with heq
  · simp [← heq, htx, mirrorOf, recomputed, hsame]
  · rfl

theorem Indexed.updated (hindexed : pool.Indexed env) (h : pool.Coherent env)
    (hrevalidated : (revalidated env pool cellPool t existing).Coherent env)
    (hkey : ofMutableTransaction t.mtx =
      ofMutableTransaction existing.mtx ∨ ∃ parent, pool.IsParent parent (t.id env)) :
    (updated env pool cellPool t existing).Indexed env where
  inverse := hrevalidated.inverse
  related := by
    intro parent child
    have he : (revalidated env pool cellPool t existing).chainedTransactions.Edge parent child ↔
        (revalidated env pool cellPool t existing).IsParent parent child := by
      rw [h.edge_chained_revalidated htx hsame, isParent_revalidated htx hsame, hindexed.related]
      constructor
      · rintro (⟨hp, -⟩ | ⟨rfl, hin, hs, hne⟩)
        · exact hp
        · exact ⟨hin, hne, existing, htx, hs⟩
      · rintro ⟨hin, hne, tx, htx', hs⟩
        by_cases heq : child = t.id env
        · subst heq
          rw [htx, Option.some.injEq] at htx'
          exact .inr ⟨rfl, hin, htx' ▸ hs, hne⟩
        · exact .inl ⟨⟨hin, hne, tx, htx', hs⟩, heq⟩
    exact he
  ready := by
    have hcurrent : ∀ key, Ready env pool key →
        Current env (revalidated env pool cellPool t existing) key := by
      intro key hr
      by_cases hid : env.hasher.txid key.tx = t.id env
      · rw [current_revalidated_self hid]
        obtain ⟨tx, htx', hk⟩ := hr.1
        rw [hid, htx, Option.some.injEq] at htx'
        rcases hkey with heq | ⟨parent, hp⟩
        · rw [heq, htx', hk]
        · exact absurd (hid ▸ hp) (hr.2 parent)
      · exact (current_revalidated hid).mpr hr.1
    have hre : ∀ key, env.hasher.txid key.tx ∉ [t.id env] →
        (Ready env pool key ↔ Ready env (revalidated env pool cellPool t existing) key) := by
      intro key hid
      unfold Ready
      simp only [current_revalidated fun heq => hid (mem_singleton.mpr heq),
        isParent_revalidated htx hsame]
    exact (hrevalidated.foldl_readyAfter_exact hindexed.ready hcurrent hre).congr fun key =>
      (ready_congr rfl).symm
  estimatedSize := hrevalidated.estimatedSize

theorem mem_updated (hrevalidated : (revalidated env pool cellPool t existing).Coherent env)
    (hnone : ∀ parent, ¬ pool.IsParent parent (t.id env))
    (hkey : key ∈ pool.readyTransactions.searchTree) :
    key ∈ (updated env pool cellPool t existing).readyTransactions.searchTree := by
  have hf : (revalidated env pool cellPool t existing).allTransactions[t.id env]? =
      some (mirrorOf env (recomputed t existing)) := by
    rw [Coherent.getElem?_revalidated, if_pos rfl]
  have hr : (revalidated env pool cellPool t existing).isReady env
      (mirrorOf env (recomputed t existing)) = true := by
    rw [hrevalidated.isReady_iff hf]
    exact fun parent hp => hnone parent ((isParent_revalidated htx hsame).mp hp)
  obtain ⟨newKey, hn⟩ := (hrevalidated.keyed hf).2.1
  have hin : (updated env pool cellPool t existing).readyTransactions =
      pool.readyTransactions.insert env newKey := by
    simp only [updated, readyAfter, hf, hn, hr, if_true]
  rw [hin]
  exact ReadyTransactions.mem_insert hkey

theorem key_eq_of_updated (hindexed : pool.Indexed env) (h : pool.Coherent env)
    (hrevalidated : (revalidated env pool cellPool t existing).Coherent env)
    (hafter : (updated env pool cellPool t existing).Indexed env) :
    ofMutableTransaction t.mtx = ofMutableTransaction existing.mtx ∨
    ∃ parent, pool.IsParent parent (t.id env) := by
  by_contra hb
  rw [not_or, not_exists] at hb
  obtain ⟨hne, hn⟩ := hb
  obtain ⟨key, hkey⟩ := (h.keyed htx).2.1
  have hid := h.txid_key htx hkey
  have hmem := mem_updated htx hsame hrevalidated hn
    (hindexed.ready.mem.mpr ⟨h.current_of_getElem? htx hkey, hid.symm ▸ hn⟩)
  have hcurrent : Current env (revalidated env pool cellPool t existing) key :=
    (hafter.ready.mem.mp hmem).1
  rw [current_revalidated_self hid] at hcurrent
  exact hne (hcurrent.trans hkey.symm)

end Revalidation

section Runs

inductive Operation
  | addMempoolTransaction (transaction : MempoolTransaction)
  | removeTransaction (id : Hash)
  | updateRevalidatedTransaction (transaction : MempoolTransaction)

def Operation.run (env : MempoolServices) : Operation → PoolRun TransactionsPool Unit
  | .addMempoolTransaction transaction =>
    discard (TransactionsPool.addMempoolTransaction env transaction
      (env.mempoolEstimatedBytes transaction.mtx))
  | .removeTransaction id => discard (TransactionsPool.removeTransaction env id)
  | .updateRevalidatedTransaction transaction =>
    discard (TransactionsPool.updateRevalidatedTransaction env transaction)

-- No output of an added transaction is spent in the pool, and a revalidation is of the same
-- transaction and succeeds.
def Operation.Legal (env : MempoolServices) (pool : TransactionsPool) : Operation → Prop
  | .addMempoolTransaction transaction =>
    ∀ (id : Hash) (tx : MempoolTransaction), pool.allTransactions[id]? = some tx →
      ¬ tx.mtx.tx.spendsFrom (transaction.id env)
  | .removeTransaction _ => True
  | .updateRevalidatedTransaction transaction =>
    ((TransactionsPool.updateRevalidatedTransaction env transaction).exec pool).1 = .ok true ∧
      ∀ existing, pool.allTransactions[transaction.id env]? = some existing →
        transaction.mtx.tx = existing.mtx.tx

-- A revalidated transaction that is ready keeps its fee and its mass.
def Operation.KeepsKey (env : MempoolServices) (pool : TransactionsPool) : Operation → Prop
  | .updateRevalidatedTransaction transaction =>
    ∀ existing, pool.allTransactions[transaction.id env]? = some existing →
      ofMutableTransaction transaction.mtx = ofMutableTransaction existing.mtx ∨
        ∃ parent, pool.IsParent parent (transaction.id env)
  | _ => True

inductive Reached (env : MempoolServices) (allowed : TransactionsPool → Operation → Prop) :
    TransactionsPool → Prop
  | new (unixNow : Nat) : Reached env allowed (.new env unixNow)
  | step {pool : TransactionsPool} (operation : Operation) (iteration : List Hash → List Hash)
      (iteration_perm : ∀ ids, (iteration ids).Perm ids) (reached : Reached env allowed pool)
      (ok : allowed pool operation) :
      Reached env allowed ((operation.run { env with iteration, iteration_perm }).after pool)

theorem Indexed.withCellPool (h : pool.Indexed env) (cellPool) :
    { pool with cellPool }.Indexed env :=
  ⟨h.inverse, h.related, h.ready, h.estimatedSize⟩

theorem Indexed.withoutRelations (h : pool.Indexed env) (hcoherent : pool.Coherent env)
    (hnone : id ∉ pool.allTransactions) : (pool.withoutRelations id).Indexed env where
  inverse := (hcoherent.withoutRelations_coherent (ExtTreeMap.getElem?_eq_none hnone)).inverse
  related := by
    intro parent child
    rw [hcoherent.edge_chained_withoutRelations, h.related]
    refine ⟨And.left, fun hp => ⟨hp, ?_, ?_⟩⟩
    · rintro rfl
      exact hnone hp.1
    · rintro rfl
      obtain ⟨-, -, tx, htx, -⟩ := hp
      exact hnone (mem_iff.mpr ⟨tx, htx⟩)
  ready := h.ready
  estimatedSize := h.estimatedSize

theorem Indexed.after_removeTransaction (hindexed : pool.Indexed env) (h : pool.Coherent env)
    (id : Hash) :
    ((removeTransaction env id).after pool).Indexed env := by
  unfold Stateful.after
  obtain ⟨fault, after, he, -, rfl | ⟨rfl, hn⟩⟩ | ⟨tx, entry, key, htx, hentry, hkey, he⟩ :=
    h.exec_removeTransaction id
  · rw [he]
    exact hindexed
  · rw [he]
    exact hindexed.withoutRelations h hn
  · rw [he]
    exact hindexed.removed h htx hentry hkey

variable {t : MempoolTransaction}

section

variable (hindexed : pool.Indexed env) (h : pool.Coherent env)
include hindexed h

theorem Indexed.after_addMempoolTransaction
    (hunspent : ∀ (id : Hash) tx, pool.allTransactions[id]? = some tx →
      ¬ tx.mtx.tx.spendsFrom (t.id env)) :
    ((addMempoolTransaction env t (env.mempoolEstimatedBytes t.mtx)).after pool).Indexed env := by
  unfold Stateful.after
  obtain ⟨fault, cellPool, he, -⟩ | ⟨remaining, fee, cycles, hnew, hp, hr, hf, he⟩ :=
    h.exec_addMempoolTransaction t (env.mempoolEstimatedBytes t.mtx)
  · rw [he]
    exact hindexed.withCellPool cellPool
  · rw [he]
    exact hindexed.added hnew hunspent h (h.entered_coherent hnew hr hf hp fee cycles)

theorem indexed_after_updateRevalidatedTransaction_iff
    (hlegal : (Operation.updateRevalidatedTransaction t).Legal env pool) :
    ((updateRevalidatedTransaction env t).after pool).Indexed env ↔
    (Operation.updateRevalidatedTransaction t).KeepsKey env pool := by
  rcases he : (updateRevalidatedTransaction env t).exec pool with ⟨r, after⟩
  have hre : r = .ok true := by
    have hok := hlegal.1
    rwa [he] at hok
  obtain ⟨existing, cellPool, key, htx, -, hr, rfl⟩ :=
    h.exec_updateRevalidatedTransaction hlegal.2 (hre ▸ he)
  have hsame := hlegal.2 existing htx
  rw [Stateful.after, he]
  constructor
  · intro ha existing' htx'
    rw [htx, Option.some.injEq] at htx'
    exact htx' ▸ key_eq_of_updated htx hsame hindexed h hr ha
  · exact fun hk => hindexed.updated htx hsame h hr (hk existing htx)

theorem indexed_after_run_iff {op : Operation} (hlegal : op.Legal env pool) :
    ((op.run env).after pool).Indexed env ↔ op.KeepsKey env pool := by
  cases op with
  | addMempoolTransaction t =>
    rw [Operation.run, after_discard]
    exact iff_of_true (hindexed.after_addMempoolTransaction h hlegal) trivial
  | removeTransaction id =>
    rw [Operation.run, after_discard]
    exact iff_of_true (hindexed.after_removeTransaction h id) trivial
  | updateRevalidatedTransaction t =>
    rw [Operation.run, after_discard]
    exact indexed_after_updateRevalidatedTransaction_iff hindexed h hlegal

end

theorem Coherent.after_run (h : pool.Coherent env) {op : Operation} (hlegal : op.Legal env pool) :
    ((op.run env).after pool).Coherent env := by
  cases op with
  | addMempoolTransaction t =>
    rw [Operation.run, after_discard]
    exact (Coherent.addMempoolTransaction_keeps t).after h
  | removeTransaction id =>
    rw [Operation.run, after_discard]
    exact (Coherent.removeTransaction_keeps id).after h
  | updateRevalidatedTransaction t =>
    rw [Operation.run, after_discard]
    rcases he : (TransactionsPool.updateRevalidatedTransaction env t).exec pool with ⟨r, after⟩
    have hr : r = .ok true := by
      have hok := hlegal.1
      rwa [he] at hok
    rw [Stateful.after, he]
    exact h.updated_coherent hlegal.2 (hr ▸ he)

section Iteration

variable {iteration : List Hash → List Hash} {iteration_perm : ∀ ids, (iteration ids).Perm ids}

theorem Indexed.withIteration (h : pool.Indexed env) :
    pool.Indexed { env with iteration, iteration_perm } :=
  ⟨h.inverse, h.related, ⟨h.ready.mem, h.ready.nodup, h.ready.totalMass⟩, h.estimatedSize⟩

theorem Indexed.ofIteration (h : pool.Indexed { env with iteration, iteration_perm }) :
    pool.Indexed env :=
  ⟨h.inverse, h.related, ⟨h.ready.mem, h.ready.nodup, h.ready.totalMass⟩, h.estimatedSize⟩

theorem Operation.Legal.withIteration {op : Operation} (h : op.Legal env pool) :
    op.Legal { env with iteration, iteration_perm } pool := by
  cases op with
  | addMempoolTransaction t => exact h
  | removeTransaction id => trivial
  | updateRevalidatedTransaction t =>
    refine ⟨?_, h.2⟩
    rw [updateRevalidatedTransaction_iteration]
    exact h.1

theorem Operation.KeepsKey.withIteration {op : Operation} (h : op.KeepsKey env pool) :
    op.KeepsKey { env with iteration, iteration_perm } pool := by
  cases op with
  | updateRevalidatedTransaction t => exact h
  | _ => trivial

end Iteration

-- Every run of legal operations that leave no stale key behind has exact indexes, and the next one
-- that leaves one has not.
theorem reached_indexed (hpool : Reached env (fun pool operation => operation.Legal env pool ∧
    operation.KeepsKey env pool) pool) :
    pool.Indexed env ∧ ∀ operation : Operation, operation.Legal env pool →
    (((operation.run env).after pool).Indexed env ↔ operation.KeepsKey env pool) := by
  have hb : pool.Indexed env ∧ pool.Coherent env := by
    induction hpool with
    | new unixNow => exact ⟨indexed_new unixNow, coherent_new unixNow⟩
    | step operation iteration iteration_perm _ hok ih =>
      have hl : operation.Legal { env with iteration, iteration_perm } _ := hok.1.withIteration
      refine ⟨?_, (ih.2.withIteration.after_run hl).ofIteration⟩
      exact ((indexed_after_run_iff ih.1.withIteration ih.2.withIteration hl).mpr
        hok.2.withIteration).ofIteration
  exact ⟨hb.1, fun operation hl => indexed_after_run_iff hb.1 hb.2 hl⟩

abbrev roomy : MempoolServices := sampleServices 10 100000

def pooled (pool : TransactionsPool) (mtx : MutableTransaction) : TransactionsPool :=
  ((Operation.addMempoolTransaction (.new mtx .low 100)).run roomy).after pool

def afterAddition : TransactionsPool := pooled (.new roomy 0) resubmittedTx

theorem reached_pooled {allowed} (mtx) (hpool : Reached roomy allowed pool) (hallowed : ∀ pool t,
      (Operation.addMempoolTransaction t).Legal roomy pool →
      allowed pool (.addMempoolTransaction t)) (hfree : ∀ p ∈ pool.allTransactions.toList,
      ¬ p.2.mtx.tx.spendsFrom (Hasher.sample.txid mtx.tx)) :
    Reached roomy allowed (pooled pool mtx) :=
  .step _ id List.Perm.refl hpool (hallowed _ _ fun id tx htx =>
    hfree (id, tx) (ExtTreeMap.mem_toList_iff_getElem?_eq_some.mpr htx))

def withFee (fee : Nat) : MempoolTransaction :=
  .new { resubmittedTx with calculatedFee := some fee } .low 100

theorem legal_of_found (hok : ((updateRevalidatedTransaction roomy t).exec pool).1 = .ok true)
    (hfound : (pool.allTransactions[t.id roomy]?).map (·.mtx.tx) = some t.mtx.tx) :
    (Operation.updateRevalidatedTransaction t).Legal roomy pool := by
  refine ⟨hok, fun existing he => ?_⟩
  rw [he, Option.map_some, Option.some.injEq] at hfound
  exact hfound.symm

theorem two_keys_after_revalidation :
    ∃ pool, Reached roomy (fun pool operation => operation.Legal roomy pool) pool ∧
    pool.allTransactions.size = 1 ∧ pool.readyTransactions.searchTree.length = 2 ∧
    ¬ pool.Indexed roomy := by
  refine ⟨_, .step (.updateRevalidatedTransaction (withFee 6000)) id List.Perm.refl
    (reached_pooled resubmittedTx (.new 0) (fun _ _ hl => hl) (by decide +kernel))
    (legal_of_found (by decide +kernel) (by decide +kernel)), by decide +kernel, by decide +kernel,
        fun hindexed =>
      absurd hindexed.ready.nodup (by decide +kernel)⟩

def withCycles (cycles : Nat) : MempoolTransaction :=
  .new { resubmittedTx with verifiedCycles := some cycles } .low 100

def childTx (fee : Nat) : MutableTransaction :=
  sampleMutableTx [⟨Hasher.sample.txid resubmittedTx.tx, 0⟩] [800] fee

def withChild : TransactionsPool := pooled afterAddition (childTx 4000)

-- The parent is revalidated with other cycles, the child with another fee.
theorem indexed_after_other_cycles :
    (((Operation.updateRevalidatedTransaction (withCycles 4000)).run roomy).after
      withChild).Indexed roomy ∧
    (((Operation.updateRevalidatedTransaction (.new (childTx 7000) .low 100)).run roomy).after
      withChild).Indexed roomy := by
  have hr : Reached roomy (fun pool operation => operation.Legal roomy pool ∧
      operation.KeepsKey roomy pool) withChild :=
    reached_pooled _ (reached_pooled _ (.new 0) (fun _ _ hl => ⟨hl, trivial⟩) (by decide +kernel))
      (fun _ _ hl => ⟨hl, trivial⟩) (by decide +kernel)
  have hsteps {t} hl := ((reached_indexed hr).2 (.updateRevalidatedTransaction t) hl).mpr
  constructor
  · refine hsteps (legal_of_found (by decide +kernel) (by decide +kernel)) fun existing he =>
      .inl ?_
    have hkey : (withChild.allTransactions[(withCycles 4000).id roomy]?).map
        (fun tx => ofMutableTransaction tx.mtx) = some (ofMutableTransaction resubmittedTx) := by
      decide +kernel
    rw [he, Option.map_some, Option.some.injEq] at hkey
    exact hkey.symm
  · refine hsteps (legal_of_found (by decide +kernel) (by decide +kernel)) fun existing he => .inr
      ⟨Hasher.sample.txid resubmittedTx.tx, by decide +kernel, by decide +kernel, existing, he, ?_⟩
    have htx : (withChild.allTransactions[MempoolTransaction.id roomy
        (.new (childTx 7000) .low 100)]?).map (·.mtx.tx) = some (childTx 4000).tx := by
      decide +kernel
    rw [he, Option.map_some, Option.some.injEq] at htx
    rw [htx]
    decide +kernel

end Runs

end TransactionsPool

end Mempool

end Spora
