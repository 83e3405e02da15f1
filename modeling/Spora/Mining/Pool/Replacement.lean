import Spora.Mining.Pool.Insertion

namespace Spora

open Std Stateful Relation List

namespace Mempool

variable {env : MempoolServices} {A : Hash → Prop}

-- A pool that has lost transactions of a set only, and whose relations are among those it had.
structure TransactionsPool.Shrunk (env : MempoolServices) (A : Hash → Prop)
    (before pool : TransactionsPool) : Prop where
  coherent : pool.Coherent env
  edge : ∀ {parent child : Hash}, pool.chainedTransactions.Edge parent child →
    before.chainedTransactions.Edge parent child
  mem : ∀ {id : Hash}, id ∈ pool.allTransactions → id ∈ before.allTransactions
  lost : ∀ {id : Hash}, id ∈ before.allTransactions → id ∈ pool.allTransactions ∨ A id

structure OrphanPool.Shrunk (A : Hash → Prop) (before pool : OrphanPool) : Prop where
  edge : ∀ {parent child : Hash}, pool.chainedOrphans.Edge parent child →
    before.chainedOrphans.Edge parent child
  mem : ∀ {id : Hash}, id ∈ pool.allOrphans → id ∈ before.allOrphans
  lost : ∀ {id : Hash}, id ∈ before.allOrphans → id ∈ pool.allOrphans ∨ A id

namespace OrphanPool

variable {bef : OrphanPool}

theorem edge_of_foldl_drop {ps : List Hash} {id parent child : Hash} {chained : EdgeMap Hash}
    (h : (ps.foldl (fun (chained : EdgeMap Hash) parent => let chained := chained.dropEdge parent id
      if (chained.targets parent).isEmpty then chained.erase parent else chained) chained).Edge
      parent child) :
    chained.Edge parent child := by
  induction ps generalizing chained with
  | nil => exact h
  | cons first rest ih =>
    have hs := ih h
    dsimp only at hs
    split_ifs at hs
    · exact (EdgeMap.edge_dropEdge.mp (EdgeMap.edge_erase.mp hs).1).1
    · exact (EdgeMap.edge_dropEdge.mp hs).1

theorem Shrunk.withoutOrphan {pool : OrphanPool} (h : Shrunk A bef pool) {id : Hash} (hid : A id)
    (transaction : MempoolTransaction) : Shrunk A bef (pool.withoutOrphan env id transaction) where
  edge hedge := h.edge (edge_of_foldl_drop (EdgeMap.edge_erase.mp hedge).1)
  mem hmem := h.mem (ExtTreeMap.mem_of_mem_erase hmem)
  lost {other} ho := by
    rcases h.lost ho with hmem | hA
    · by_cases heq : id = other
      · exact .inr (heq ▸ hid)
      · exact .inl (ExtTreeMap.mem_erase.mpr ⟨by rwa [ne_eq, LawfulEqCmp.compare_eq_iff_eq], hmem⟩)
    · exact .inr hA

theorem removeOrphans_shrunk {ids} (hids : ∀ id ∈ ids, A id) :
    Keeps (Shrunk A bef) (removeOrphans env ids) := by
  refine .mapM fun id hid => ?_
  refine .ofGet fun self hs => .bind .ofOkOr fun transaction =>
    .bind (.ofSet (hs.withoutOrphan (hids id hid) transaction)) fun _ => ?_
  split
  · exact .ofThrow
  · exact .ofPure

end OrphanPool

namespace TransactionsPool

variable {before : TransactionsPool}

theorem Shrunk.withoutRelations {pool} (h : Shrunk env A before pool) {id}
    (hcoherent : (pool.withoutRelations id).Coherent env) :
    Shrunk env A before (pool.withoutRelations id) :=
  ⟨hcoherent, fun he => h.edge (h.coherent.edge_chained_withoutRelations.mp he).1, h.mem, h.lost⟩

theorem Shrunk.without {pool after : TransactionsPool} (h : Shrunk env A before pool)
    {S : Hash → Prop} (hcoherent : after.Coherent env) (hwithout : pool.Without S after)
    (hS : ∀ id, S id → A id) :
    Shrunk env A before after where
  coherent := hcoherent
  edge he := h.edge (hwithout.edge.mp he).1
  mem hmem := h.mem (hwithout.mem_iff.mp hmem).1
  lost {id} hid := by
    rcases h.lost hid with hmem | hA
    · by_cases hg : S id
      · exact .inr (hS id hg)
      · exact .inl (hwithout.mem_iff.mpr ⟨hmem, hg⟩)
    · exact .inr hA

theorem removeTransaction_shrunk {id} (hid : A id) :
    Triple (Shrunk env A before) (removeTransaction env id)
    (fun tx pool => tx.id env = id ∧ Shrunk env A before pool) (Shrunk env A before) := by
  refine Triple.intro fun pool h => ?_
  obtain ⟨fault, after, he, ha, hc⟩ | ⟨tx, entry, key, htx, hen, -, he⟩ :=
    h.coherent.exec_removeTransaction id
  · rw [he]
    rcases hc with rfl | ⟨rfl, -⟩
    · exact h
    · exact h.withoutRelations ha
  · rw [he]
    exact ⟨(h.coherent.keyed htx).1, h.without (h.coherent.removed_coherent htx hen key)
      (h.coherent.removed_without id tx entry key) fun other ho => ho ▸ hid⟩

end TransactionsPool

def ChainedOrphan (s : Mempool) : Hash → Hash → Prop :=
  TransGen fun parent child => s.orphanPool.chainedOrphans.Edge parent child ∧
    child ∈ s.orphanPool.allOrphans

abbrev Shrunk (env : MempoolServices) (A : Hash → Prop) (s : Mempool) : Mempool → Prop :=
  Parts (TransactionsPool.Shrunk env A s.transactionPool) (OrphanPool.Shrunk A s.orphanPool)

variable {s t : Mempool}

theorem Shrunk.refl (h : s.transactionPool.Coherent env) : s.Shrunk env A s :=
  ⟨⟨h, id, id, .inl⟩, ⟨id, id, .inl⟩⟩

theorem OrphanPool.Shrunk.of_mem_getRedeemerIds {pool} (h : OrphanPool.Shrunk A s.orphanPool pool)
    {id other} (hother : other ∈ pool.getRedeemerIds env id) :
    id ∈ s.orphanPool.allOrphans ∧ s.ChainedOrphan id other := by
  obtain ⟨hid, hp⟩ := mem_getRedeemerIdsInPool.mp hother
  exact ⟨h.mem hid, TransGen.mono (fun _ _ he => ⟨h.edge he.1, h.mem he.2⟩) _ _ hp⟩

theorem removeAndUpdateOrphans_shrunk {id} (hid : A id)
    (hshared : id ∈ s.orphanPool.allOrphans → ∀ other, s.ChainedOrphan id other → A other) :
    Keeps (s.Shrunk env A) (removeAndUpdateOrphans env true id) := by
  refine Triple.bind (Q := fun tx u => tx.id env = id ∧
      s.Shrunk env A u) (Triple.ofZoom fun u hu => ?_) fun tx =>
    Triple.assume fun htx => Keeps.map (onOrphanPool_keeps ?_)
  · exact (TransactionsPool.removeTransaction_shrunk hid).weaken (fun _ hp => hp ▸
      hu.transactionPool) (fun _ _ hp => ⟨hp.1, hp.2, hu.orphanPool⟩) fun _ hp =>
        ⟨hp, hu.orphanPool⟩
  · refine Keeps.ite (fun _ => .ofGet fun pool hp => OrphanPool.removeOrphans_shrunk fun other ho =>
        ?_) fun hf =>
      absurd rfl hf
    rw [htx] at ho
    obtain ⟨hor, hc⟩ := hp.of_mem_getRedeemerIds ho
    exact hshared hor other hc

section Removal

variable (hshared : ∀ id ∈ s.transactionPool.allTransactions, id ∈ s.orphanPool.allOrphans →
  ∀ other, s.ChainedOrphan id other → A other)

include hshared

theorem removeTransaction_shrunk {owner} (howner : owner ∈ s.transactionPool.allTransactions)
    (htaken : ∀ id, s.Taken owner id → A id) :
    Keeps (s.Shrunk env A) (removeTransaction env owner true) := by
  refine .ofGet fun u hu =>
    .ite (fun _ => .map (onOrphanPool_keeps (.ofGet fun pool hpo => ?_))) fun _ => ?_
  · refine .ite (fun _ => .ofPure) fun _ =>
      OrphanPool.removeOrphans_shrunk (forall_mem_cons.mpr ⟨?_, ?_⟩)
    · exact htaken owner (.inl rfl)
    · intro other hot
      obtain ⟨ho, hc⟩ := hpo.of_mem_getRedeemerIds hot
      exact hshared owner howner ho other hc
  · refine .ite (fun hholds => .forM fun id hid => ?_) fun _ => .ofPure
    have hin : owner ∈ u.transactionPool.allTransactions := by
      simpa [TransactionsPool.has] using hholds
    have hp : u.Taken owner id := by
      rw [if_pos rfl, mem_cons, hu.transactionPool.coherent.mem_getRedeemerIds hin] at hid
      exact hid
    have hmem := hu.transactionPool.coherent.mem_of_taken hin hp
    refine removeAndUpdateOrphans_shrunk (htaken id ?_) (hshared id (hu.transactionPool.mem hmem))
    exact hp.imp_right (TransGen.mono (fun _ _ => hu.transactionPool.edge) _ _)

theorem forM_removeTransaction_shrunk {owners : List Hash}
    (howners : ∀ id ∈ owners, id ∈ s.transactionPool.allTransactions)
    (htaken : ∀ owner ∈ owners, ∀ id, s.Taken owner id → A id) :
    Keeps (s.Shrunk env A) (owners.forM fun id => removeTransaction env id true) :=
  .forM fun owner ho => removeTransaction_shrunk hshared (howners owner ho) (htaken owner ho)

theorem makeRoom_shrunk {ids} (hids : ∀ id ∈ ids, id ∈ s.transactionPool.allTransactions)
    (htaken : ∀ id ∈ ids, ∀ other, s.Taken id other → A other) (size : Nat) :
    Keeps (s.Shrunk env A) (makeRoom env size ids) := by
  induction ids with
  | nil => exact .ofPure
  | cons id ids ih =>
    rw [forall_mem_cons] at hids htaken
    refine .bind (removeTransaction_shrunk hshared hids.1 htaken.1) fun _ => .ofGet fun _ _ => ?_
    exact .ite (fun _ => .ofPure) fun _ => ih hids.2 htaken.2

end Removal

-- A pool whose lost transactions are closed under the relations it had, and whose frontier has no
-- new keys.
structure Emptied (env : MempoolServices) (s : Mempool) (S : Hash → Prop) (t : Mempool) : Prop where
  coherent : t.transactionPool.Coherent env
  without : s.transactionPool.Without S t.transactionPool
  closed : ∀ {parent child : Hash}, S parent →
    s.transactionPool.chainedTransactions.Edge parent child → S child
  orphanPool : t.orphanPool = s.orphanPool
  frontier : t.transactionPool.readyTransactions.searchTree ⊆
    s.transactionPool.readyTransactions.searchTree

namespace Emptied

variable {S : Hash → Prop} {u : Mempool}

theorem refl (h : s.transactionPool.Coherent env) : s.Emptied env (fun _ => False) s :=
  ⟨h, .refl _, fun hf _ => hf, rfl, List.Subset.refl _⟩

theorem of_taken (h : s.Emptied env S t) {owner id} (howner : S owner) (htaken : s.Taken owner id) :
    S id := by
  rcases htaken with rfl | hp
  · exact howner
  · induction hp with
    | single he => exact h.closed howner he
    | tail _ he ih => exact h.closed ih he

variable (hunique : s.Unique)

include hunique

variable (h : s.Emptied env S t)
include h

theorem unique : t.Unique :=
  fun id hid => hunique id ⟨(h.without.mem_iff.mp hid.1).1, h.orphanPool ▸ hid.2⟩

theorem removeTransaction {owner} (howner : owner ∈ s.transactionPool.allTransactions)
    (hexec : (Mempool.removeTransaction env owner true).exec t = (.ok (), u)) :
    ∃ S', s.Emptied env S' u ∧ S' owner ∧ (∀ id, S id → S' id) ∧ ∀ id, S' id → S id ∨
    s.Taken owner id := by
  have hu' := h.unique hunique
  by_cases hmem : owner ∈ t.transactionPool.allTransactions
  · obtain ⟨hco, hw, hor, hk⟩ := exec_removeTransaction h.coherent hu' hmem hexec
    refine ⟨_, ⟨hco, h.without.trans hw, ?_, hor.trans h.orphanPool,
      List.Subset.trans hk h.frontier⟩, .inr (.inl rfl), fun _ => .inl, fun id =>
        .imp_right fun ht => ?_⟩
    · intro parent child hp he
      by_cases hc : S child
      · exact .inl hc
      · -- a relation that was not lost yet is walked through
        have ht := hp.resolve_left fun hl => hc (h.closed hl he)
        have hke := (h.without.mem_iff.mp (h.coherent.mem_of_taken hmem ht)).2
        exact .inr (ht.tail (h.without.edge.mpr ⟨he, hke, hc⟩))
    · exact ht.imp_right (TransGen.mono (fun _ _ he => (h.without.edge.mp he).1) _ _)
  · have hg : S owner := by
      by_contra hnot
      exact hmem (h.without.mem_iff.mpr ⟨howner, hnot⟩)
    have hs : u = t := by
      have ho : ¬ t.orphanPool.has owner = true := by
        simpa [OrphanPool.has, h.orphanPool] using fun ho => hunique owner ⟨howner, ho⟩
      have hholds : ¬ t.transactionPool.has owner = true := by
        simpa [TransactionsPool.has] using hmem
      rw [Mempool.removeTransaction, exec_get_bind, if_neg ho, if_neg hholds,
        Prod.mk.injEq] at hexec
      exact hexec.2.symm
    exact ⟨S, hs ▸ h, hg, fun _ => id, fun _ => .inl⟩

theorem forM_removeTransaction {owners : List Hash}
    (howners : ∀ id ∈ owners, id ∈ s.transactionPool.allTransactions)
    (hexec : (owners.forM fun id => Mempool.removeTransaction env id true).exec t = (.ok (), u)) :
    ∃ S', s.Emptied env S' u ∧ (∀ owner ∈ owners, S' owner) ∧ ∀ id, S id → S' id := by
  induction owners generalizing t S with
  | nil =>
    rw [Prod.mk.injEq] at hexec
    exact ⟨S, hexec.2 ▸ h, by simp, fun _ => id⟩
  | cons owner owners ih =>
    rw [forall_mem_cons] at howners
    obtain ⟨_, middle, hf, hr⟩ := exec_bind_eq_ok.mp hexec
    obtain ⟨S₁, h₁, ho, hs₁, -⟩ := h.removeTransaction hunique howners.1 hf
    obtain ⟨S₂, h₂, hr, hs₂⟩ := ih h₁ howners.2 hr
    exact ⟨S₂, h₂, forall_mem_cons.mpr ⟨hs₂ owner ho, hr⟩, fun id hid => hs₂ id (hs₁ id hid)⟩

end Emptied

section Parents

variable {transaction : MutableTransaction}

theorem hasParentInSet_eq_false {ids} :
    transaction.hasParentInSet ids = false ↔ ∀ id ∈ ids, ¬ transaction.tx.spendsFrom id := by
  simp only [MutableTransaction.hasParentInSet, any_eq_false, contains_iff_mem, CellTx.spendsFrom,
    not_exists, not_and]
  constructor
  · rintro h id hid o hmem rfl
    exact h o hmem hid
  · exact fun h o hmem hid => h _ hid o hmem rfl

def KeepsParents (s : Mempool) (tx : CellTx) (t : Mempool) : Prop :=
  ∀ id, (id ∈ s.transactionPool.allTransactions ∧ id ∉ t.transactionPool.allTransactions) ∨
    (id ∈ s.orphanPool.allOrphans ∧ id ∉ t.orphanPool.allOrphans) → ¬ tx.spendsFrom id

-- A transaction spends no output of one that it conflicts with or that is chained to such a one,
-- nor of an orphan that is chained to one in both pools.
structure ReplacesNoParent (env : MempoolServices) (s : Mempool) (tx : CellTx) : Prop where
  replaced : ∀ owner, Conflicts env s.transactionPool tx owner → ∀ id, s.Taken owner id →
    ¬ tx.spendsFrom id
  shared : ∀ id ∈ s.transactionPool.allTransactions, id ∈ s.orphanPool.allOrphans →
    ∀ other, s.ChainedOrphan id other → ¬ tx.spendsFrom other

variable {priority : Priority} {orphan : Orphan} {rbfPolicy : RbfPolicy} {virtualDaaScore : Nat}
  {result : TransactionPostValidation}

theorem Shrunk.replacesNoParent {u} (h : s.Shrunk env A u)
    (hshared : ∀ id ∈ s.transactionPool.allTransactions, id ∈ s.orphanPool.allOrphans →
      ∀ other, s.ChainedOrphan id other → A other) :
    ∀ id ∈ u.transactionPool.allTransactions, id ∈ u.orphanPool.allOrphans →
    ∀ other, u.ChainedOrphan id other → A other := by
  intro id hid ho other hc
  refine hshared id (h.transactionPool.mem hid) (h.orphanPool.mem ho) other ?_
  exact TransGen.mono (fun _ _ he => ⟨h.orphanPool.edge he.1, h.orphanPool.mem he.2⟩) _ _ hc

section

variable (h : s.transactionPool.Coherent env)
include h

theorem evicted_unrelated {size ids}
    (hlimit : s.transactionPool.limitTransactionCount env transaction size = .ok ids) :
    ∀ id ∈ ids, id ∈ s.transactionPool.allTransactions ∧
    ∀ other, s.Taken id other → ¬ transaction.tx.spendsFrom other := by
  intro id hid
  obtain ⟨keys, he, rfl⟩ :=
    TransactionsPool.limitTransactionCount_ok (fun htx => (h.keyed htx).1) hlimit
  obtain ⟨key, hkey, rfl⟩ := mem_map.mp hid
  obtain ⟨hin, hp⟩ := he.unrelated hkey
  refine ⟨hin, fun other ht => hasParentInSet_eq_false.mp hp other ?_⟩
  rw [mem_append, mem_singleton, h.mem_getRedeemerIds hin]
  exact ht.symm

theorem keepsParents_of_replacesNoParent (hsafe : s.ReplacesNoParent env transaction.tx)
    (hexec : (insertValidated env transaction priority rbfPolicy virtualDaaScore).exec s =
      (.ok result, t)) :
    s.KeepsParents transaction.tx t := by
  obtain ⟨removed, middle, ids, roomy, accepted, pool, hre, hl, hro, -, hadd, rfl⟩ :=
    exec_insertValidated_ok hexec
  obtain ⟨owners, hc, ho, hremove⟩ := exec_executeReplaceByFee_ok hre
  have hremoves : Keeps (s.Shrunk env fun id => ¬ transaction.tx.spendsFrom id)
      (owners.forM fun id => removeTransaction env id true) :=
    forM_removeTransaction_shrunk hsafe.shared ho fun owner how =>
      hsafe.replaced owner ((hc owner).mp how)
  have hm := hremoves.of_exec (Shrunk.refl h) hremove
  have he := evicted_unrelated hm.transactionPool.coherent hl
  have hev : Keeps (middle.Shrunk env fun id => ¬ transaction.tx.spendsFrom id)
      (makeRoom env (env.mempoolEstimatedBytes transaction) ids) :=
    makeRoom_shrunk (hm.replacesNoParent hsafe.shared) (fun id hid => (he id hid).1)
      (fun id hid => (he id hid).2) _
  have hr := hev.of_exec (Shrunk.refl hm.transactionPool.coherent) hro
  rintro id (⟨hin, hout⟩ | ⟨hin, hout⟩)
  · rcases hm.transactionPool.lost hin with hmem | hf
    · rcases hr.transactionPool.lost hmem with hmem | hf
      · exact absurd (hr.transactionPool.coherent.mem_of_addMempoolTransaction hadd hmem) hout
      · exact hf
    · exact hf
  · rcases hm.orphanPool.lost hin with hmem | hf
    · exact (hr.orphanPool.lost hmem).resolve_left hout
    · exact hf

theorem replacesNoParent_of_keepsParents (hunique : s.Unique)
    (hnew : env.hasher.txid transaction.tx ∉ s.transactionPool.allTransactions)
    (hexec : (insertValidated env transaction priority rbfPolicy virtualDaaScore).exec s =
      (.ok result, t))
    (hkeeps : s.KeepsParents transaction.tx t) : s.ReplacesNoParent env transaction.tx := by
  refine ⟨fun owner how id ht => hkeeps id (.inl ?_),
    fun id hid hor => absurd ⟨hid, hor⟩ (hunique id)⟩
  obtain ⟨removed, middle, ids, roomy, accepted, pool, hr, -, hroom, -, hadd, rfl⟩ :=
    exec_insertValidated_ok hexec
  obtain ⟨owners, hc, ho, hre⟩ := exec_executeReplaceByFee_ok hr
  obtain ⟨S, he, hl, -⟩ := (Emptied.refl h).forM_removeTransaction hunique ho hre
  have hin := h.mem_of_taken (ho owner ((hc owner).mpr how)) ht
  have hg := he.without.gone (he.of_taken (hl owner ((hc owner).mpr how)) ht)
  -- neither the evictions nor the insertion bring it back
  have hro : roomy.Within (· ≠ id) fun _ => True := by
    have hs : Keeps (Within (· ≠ id) fun _ => True)
        (makeRoom env (env.mempoolEstimatedBytes transaction) ids) :=
      stable_within.makeRoom _ _
    exact hs.of_exec ⟨fun other hot heq => hg (heq ▸ hot), fun _ _ => trivial⟩ hroom
  have hne : (MempoolTransaction.new transaction priority virtualDaaScore).id env ≠ id := by
    rintro rfl
    exact hnew hin
  have hp : pool.Within (· ≠ id) := by
    have hs : Keeps (TransactionsPool.Within (· ≠ id)) (TransactionsPool.addMempoolTransaction env
        (.new transaction priority virtualDaaScore) (env.mempoolEstimatedBytes transaction)) :=
      TransactionsPool.addMempoolTransaction_keeps hne _
    exact hs.of_exec hro.transactionPool hadd
  exact ⟨hin, fun hmem => hp id hmem rfl⟩

end

theorem insertion_keeps_parents (h : s.transactionPool.Coherent env)
    (hexec : (postValidateAndInsertTransaction env (.ok ()) transaction priority orphan rbfPolicy
      virtualDaaScore).exec s = (.ok result, t)) :
    (s.ReplacesNoParent env transaction.tx → s.KeepsParents transaction.tx t) ∧
    (s.Unique → s.KeepsParents transaction.tx t → s.ReplacesNoParent env transaction.tx) := by
  obtain ⟨hnew, hexec⟩ := exec_postValidateAndInsertTransaction_ok hexec
  exact ⟨fun hs => keepsParents_of_replacesNoParent h hs hexec,
    fun hunique hk => replacesNoParent_of_keepsParents h hunique hnew hexec hk⟩

-- Conflicts with the parent of the family and spends an output of the child.
def grandchildTx : MutableTransaction :=
  sampleMutableTx [⟨1, 0⟩, ⟨Hasher.sample.txid childTx.tx, 0⟩] [500] 9000

theorem grandchild_replaces_its_parent :
    ∃ s t result, Reachable (sampleServices 10 100000) (fun _ _ => True) s ∧
    s = afterAll (sampleServices 10 100000) [sampleInsertion (.ok ()) parentTx,
      sampleInsertion (.ok ()) childTx] ∧
    (postValidateAndInsertTransaction (sampleServices 10 100000) (.ok ()) grandchildTx .low
      .allowed .allowed 100).exec s = (.ok result, t) ∧
    Hasher.sample.txid grandchildTx.tx ∈ t.transactionPool.allTransactions ∧
    ¬ s.KeepsParents grandchildTx.tx t := by
  refine ⟨family, _, ⟨some parentTx.tx, some grandchildTx.tx⟩,
    reachable_afterAll (by decide +kernel), rfl, Prod.ext (by decide +kernel) rfl, by
      decide +kernel, fun hk => ?_⟩
  exact hk (Hasher.sample.txid childTx.tx) (.inl (by decide +kernel)) (by decide +kernel)

-- Conflicts with the parent as well, but spends nothing of the family.
def rivalTx : MutableTransaction := sampleMutableTx [⟨1, 0⟩, ⟨9, 0⟩] [500] 9000

theorem rival_keeps_its_parents :
    ∃ t result, (postValidateAndInsertTransaction (sampleServices 10 100000) (.ok ()) rivalTx .low
      .allowed .allowed 100).exec family = (.ok result, t) ∧ family.KeepsParents rivalTx.tx t ∧
    Hasher.sample.txid parentTx.tx ∉ t.transactionPool.allTransactions := by
  have hc : family.transactionPool.Coherent (sampleServices 10 100000) :=
    reachable_coherent (reachable_afterAll (by decide +kernel))
  have he : (postValidateAndInsertTransaction (sampleServices 10 100000) (.ok ()) rivalTx .low
      .allowed .allowed 100).exec family = (.ok ⟨some parentTx.tx, some rivalTx.tx⟩, _) := Prod.ext
        (by decide +kernel) rfl
  have how : ∀ outpoint ∈ rivalTx.tx.spends,
      ∀ owner ∈ family.transactionPool.cellSet.spentOutpointOwnerId[outpoint]?,
      owner ∈ family.transactionPool.allTransactions := by decide +kernel
  have hf : ∀ id ∈ family.transactionPool.allTransactions.keys, ¬ rivalTx.tx.spendsFrom id := by
    decide +kernel
  refine ⟨_, _, he, (insertion_keeps_parents hc he).1 ⟨?_, fun id _ ho => ?_⟩, by decide +kernel⟩
  · rintro owner ⟨-, outpoint, hmem, howner⟩ id ht
    exact hf id (ExtTreeMap.mem_keys.mpr (hc.mem_of_taken (how outpoint hmem owner howner) ht))
  · rw [← ExtTreeMap.mem_keys] at ho
    exact absurd ho not_mem_nil

end Parents

end Mempool

end Spora
