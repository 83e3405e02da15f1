import Spora.Mining.Selectors
import Spora.Template.Acceptable
import Spora.Template.Modify

namespace Spora

open Std Outcome List FeerateTransactionKey Option RebalancingWeightedTransactionSelector

section Selection

variable {hasher : Hasher} {policy : Policy} {frontier : Frontier}

structure Frontier.SampleState.Sampled (hasher : Hasher) (frontier : Frontier) (st : SampleState) :
    Prop where
  subset : st.sequence ⊆ frontier.searchTree
  nodup : (st.sequence.map fun key => hasher.txid key.tx).Nodup
  cached : ∀ key ∈ st.sequence, hasher.txid key.tx ∈ st.cache

namespace Frontier

theorem sampled_push {st : SampleState} {rank item}
    (h : st.Sampled hasher frontier) (hitem : frontier.search rank = some item)
    (hnew : hasher.txid item.tx ∉ st.cache) :
    SampleState.Sampled hasher frontier ⟨hasher.txid item.tx :: st.cache, st.sequence ++ [item],
      st.totalSelectedMass + item.mass⟩ := by
  refine ⟨?_, ?_, ?_⟩
  · exact append_subset.mpr ⟨h.subset, by simpa using mem_of_getElem? hitem⟩
  · rw [map_append, map_singleton, ← concat_eq_append, nodup_concat]
    refine ⟨fun hmem => ?_, h.nodup⟩
    obtain ⟨key, hkey, heq⟩ := mem_map.mp hmem
    exact hnew (heq ▸ h.cached key hkey)
  · intro key hkey
    rcases mem_append.mp hkey with hkey | hkey
    · exact mem_cons_of_mem _ (h.cached key hkey)
    · rw [mem_singleton.mp hkey]
      exact mem_cons_self

theorem sampled_sampleInplaceFrom (policy draws) {st} (h : st.Sampled hasher frontier) :
    (frontier.sampleInplaceFrom hasher policy draws st).Sampled hasher frontier := by
  induction draws generalizing st with
  | nil => exact h
  | cons rank draws ih =>
    rw [sampleInplaceFrom]
    split_ifs
    · split
      · exact h
      · rename_i item hit
        split_ifs with hmem
        · exact ih h
        · exact ih (sampled_push h hit hmem)
    · exact h

theorem sampleInplaceWithCells_subperm (draws) :
    (frontier.sampleInplaceWithCells hasher policy draws).Subperm frontier.searchTree := by
  have hs := sampled_sampleInplaceFrom policy draws
    (⟨by simp, by simp, by simp⟩ : SampleState.Sampled hasher frontier ⟨[], [], 0⟩)
  exact subperm_of_subset (List.Nodup.of_map _ hs.nodup) hs.subset

end Frontier

theorem takeFitting_sublist (total : Nat) (keys) :
    (takeFitting policy total keys).Sublist keys := by
  induction keys generalizing total with
  | nil => exact nil_sublist []
  | cons key keys ih =>
    rw [takeFitting]
    split
    · exact nil_sublist _
    · split_ifs
      · exact nil_sublist _
      · exact (ih _).cons_cons key

theorem add_sum_takeFitting_le {total} (keys) (htotal : total ≤ policy.maxBlockMass) :
    total + ((takeFitting policy total keys).map mass).sum ≤ policy.maxBlockMass := by
  induction keys generalizing total with
  | nil => simpa [takeFitting] using htotal
  | cons key keys ih =>
    rw [takeFitting]
    split
    · simpa using htotal
    · rename_i next hn
      split_ifs with hf
      · simpa using htotal
      · have hsum : next = total + key.mass := by
          unfold checkedAdd at hn
          split_ifs at hn
          exact (Option.some.inj hn).symm
        have hr := ih (Nat.not_lt.mp hf)
        rw [map_cons, sum_cons]
        omega

theorem filterMap_getElem?_subperm {α : Type} {l : List α} {is : List Nat} (hnodup : is.Nodup)
    (hbound : ∀ i ∈ is, i < l.length) : (is.filterMap fun i => l[i]?).Subperm l := by
  obtain ⟨sorted, hp, hsub⟩ := subperm_of_subset hnodup
    (fun i hi => mem_range.mpr (hbound i hi) : is ⊆ List.range l.length)
  have hall : (List.range l.length).filterMap (fun i => l[i]?) = l := by
    have hget : (List.range l.length).filterMap (fun i => l[i]?) =
        (List.finRange l.length).map l.get := by
      rw [← map_coe_finRange_eq_range, filterMap_map]
      simp
    rw [hget, map_get_finRange]
  have hsub := hsub.filterMap fun i => l[i]?
  rw [hall] at hsub
  exact ⟨_, hp.filterMap _, hsub⟩

namespace RebalancingWeightedTransactionSelector

variable {s t : RebalancingWeightedTransactionSelector}

-- The mass of the selected transactions, none of which is still a candidate.
structure Balanced (keys : List FeerateTransactionKey) (policy : Policy)
    (s : RebalancingWeightedTransactionSelector) : Prop where
  transactions : s.transactions.Perm keys
  policy : s.policy = policy
  candidates : (s.candidateList.map Candidate.index).Nodup
  fresh : ∀ candidate ∈ s.candidateList, candidate.isMarkedForDeletion = false →
    candidate.index ∉ s.selectedTxs
  nodup : s.selectedTxs.Nodup
  bound : ∀ index ∈ s.selectedTxs, index < s.transactions.length
  total : s.totalMass = ((s.selectedTxs.filterMap fun index => s.transactions[index]?).map
    FeerateTransactionKey.mass).sum
  fits : s.totalMass ≤ s.policy.maxBlockMass

variable {keys : List FeerateTransactionKey}

theorem balanced_new (hasher : Hasher) (policy : Policy) (keys : List FeerateTransactionKey) :
    (new hasher policy keys).Balanced keys policy where
  transactions := mergeSort_perm keys _
  policy := rfl
  candidates := by simpa [new, Function.comp_def] using nodup_range
  fresh := by simp [new]
  nodup := by simp [new]
  bound := by simp [new]
  total := by simp [new]
  fits := Nat.zero_le _

section

variable (h : s.Balanced keys policy)
include h

theorem Balanced.rebalanced : s.rebalanced.Balanced keys policy :=
  { h with
    candidates := h.candidates.sublist (filter_sublist.map _)
    fresh := fun candidate hc => h.fresh candidate (mem_filter.mp hc).1 }

theorem Balanced.select {pos c key} (hposition : s.candidateList[pos]? = some c)
    (hunmarked : c.isMarkedForDeletion = false) (hkey : s.transactions[c.index]? = some key)
    (hfits : s.totalMass + key.mass ≤ s.policy.maxBlockMass) :
    (s.select pos c key.mass).Balanced keys policy := by
  have hnew := h.fresh c (mem_of_getElem? hposition) hunmarked
  obtain ⟨hlt, hget⟩ := List.getElem?_eq_some_iff.mp hposition
  have hindices : (s.candidateList.set pos ⟨c.index, true⟩).map Candidate.index =
      s.candidateList.map Candidate.index := by
    refine ext_getElem? fun i => ?_
    by_cases hi : pos = i
    · simp [← hi, hget, hlt]
    · simp [getElem?_set_ne hi]
  refine ⟨h.transactions, h.policy, ?_, ?_, ?_, ?_, ?_, hfits⟩
  · exact hindices ▸ h.candidates
  · intro other ho hop hs
    have ho : other ∈ s.candidateList.set pos ⟨c.index, true⟩ := ho
    obtain ⟨i, hi⟩ := mem_iff_getElem?.mp ho
    by_cases hsa : pos = i
    · rw [← hsa, getElem?_set_self hlt] at hi
      simp [← Option.some.inj hi] at hop
    · rw [getElem?_set_ne hsa] at hi
      rcases mem_append.mp hs with hs | hs
      · exact h.fresh other (mem_of_getElem? hi) hop hs
      · refine hsa ((getElem?_inj (by simpa using hlt) h.candidates).mp ?_)
        simp [hposition, hi, mem_singleton.mp hs]
  · rw [RebalancingWeightedTransactionSelector.select, ← concat_eq_append]
    exact (nodup_concat _ _).mpr ⟨hnew, h.nodup⟩
  · intro idx hin
    rcases mem_append.mp hin with hin | hin
    · exact h.bound idx hin
    · rw [mem_singleton.mp hin]
      exact (List.getElem?_eq_some_iff.mp hkey).1
  · simp [RebalancingWeightedTransactionSelector.select, h.total, hkey]

theorem Balanced.pick {pos c} (hposition : s.candidateList[pos]? = some c)
    (hunmarked : c.isMarkedForDeletion = false) (hpick : (s.transactions[c.index]?.bind fun sel =>
      (checkedAdd s.totalMass sel.mass).bind fun nextTotalMass =>
        if nextTotalMass > s.policy.maxBlockMass then none
        else some (s.select pos c sel.mass)) = some t) : t.Balanced keys policy := by
  obtain ⟨key, hkey, hpick⟩ := bind_eq_some_iff.mp hpick
  obtain ⟨next, hn, hpick⟩ := bind_eq_some_iff.mp hpick
  unfold checkedAdd at hn
  split_ifs at hn hpick with hw hf
  cases hn
  exact Option.some.inj hpick ▸ h.select hposition hunmarked hkey (Nat.not_lt.mp hf)

theorem Balanced.round {draw} (hround : s.round draw = some t) : t.Balanced keys policy := by
  unfold RebalancingWeightedTransactionSelector.round at hround
  split_ifs at hround with hl hr
  all_goals
    obtain ⟨candidate, hc, hround⟩ := bind_eq_some_iff.mp hround
    split_ifs at hround with hm
  · exact Option.some.inj hround ▸ h.rebalanced
  · exact h.rebalanced.pick hc (by simpa using hm) hround
  · exact Option.some.inj hround ▸ h
  · exact h.pick hc (by simpa using hm) hround

end

theorem Balanced.selectFrom (draws) (h : s.Balanced keys policy) :
    (s.selectFrom draws).Balanced keys policy := by
  induction draws generalizing s with
  | nil => exact h
  | cons draw draws ih =>
    rw [selectFrom]
    split
    · exact h
    · rename_i next hn
      exact ih (h.round hn)

theorem Balanced.getTransactions (h : s.Balanced keys policy) : s.getTransactions.Subperm keys ∧
    (s.getTransactions.map mass).sum ≤ policy.maxBlockMass := by
  have hs : (s.selectedTxs.mergeSort fun a b => decide (a ≤ b)).Perm s.selectedTxs :=
    mergeSort_perm s.selectedTxs _
  have hsub := filterMap_getElem?_subperm (hs.nodup_iff.mpr h.nodup) fun i hi =>
    h.bound i (hs.mem_iff.mp hi)
  have hsum := ((hs.filterMap fun idx => s.transactions[idx]?).map mass).sum_eq
  refine ⟨hsub.trans h.transactions.subperm, ?_⟩
  rw [RebalancingWeightedTransactionSelector.getTransactions, hsum, ← h.total, ← h.policy]
  exact h.fits

end RebalancingWeightedTransactionSelector

theorem selectTransactions_fits (frontier : Frontier) (hasher : Hasher) (policy : Policy)
    (draws : TemplateDraws) :
    let selected := (frontier.buildSelectorWithCells hasher policy draws).selectTransactions draws
    selected.Subperm frontier.searchTree ∧ (selected.map mass).sum ≤ policy.maxBlockMass := by
  unfold Frontier.buildSelectorWithCells
  split_ifs with hall hs
  · exact ⟨List.Subperm.refl _, frontier.totalMass_eq ▸ hall⟩
  · refine ⟨(takeFitting_sublist 0 _).subperm.trans
      (frontier.sampleInplaceWithCells_subperm draws.samples), ?_⟩
    simpa [TemplateTransactionSelector.selectTransactions] using
      add_sum_takeFitting_le _ (Nat.zero_le policy.maxBlockMass)
  · exact ((balanced_new hasher policy
      frontier.searchTree).selectFrom draws.rounds).getTransactions

end Selection

structure TxResources where
  cycles : Nat
  computeMass : Nat
  transientMass : Nat
  storageMass : Nat
deriving DecidableEq, Repr

def MutableTransaction.resources (mtx : MutableTransaction) : TxResources where
  cycles := mtx.verifiedCycles.getD 0
  computeMass := mtx.effectiveComputeMass.getD 0
  transientMass := (mtx.calculatedNonContextualMasses.map NonContextualMasses.transientMass).getD 0
  storageMass := mtx.contextualStorageMass.getD 0

theorem FeerateTransactionKey.resources_le {mtx key}
    (h : ofMutableTransaction mtx = some key) : mtx.resources.computeMass ≤ key.mass ∧
    mtx.resources.transientMass ≤ key.mass ∧ mtx.resources.storageMass ≤ key.mass := by
  obtain ⟨mass, hm, h⟩ := bind_eq_some_iff.mp h
  obtain ⟨fee, -, rfl⟩ := map_eq_some_iff.mp h
  obtain ⟨nonContextualMasses, hn, hm⟩ := bind_eq_some_iff.mp hm
  obtain ⟨storageMass, hs, rfl⟩ := map_eq_some_iff.mp hm
  simp only [MutableTransaction.resources, MutableTransaction.effectiveComputeMass, hn, hs,
    map_some, getD_some]
  omega

def MempoolProcessor.resources (processor : MempoolProcessor)
    (virtualState : VirtualState processor.storage.hasher) (tx : CellTx) : TxResources :=
  match processor.validateMempoolCellTransactionAgainstVirtualState virtualState (.new tx) with
  | .ok mtx => mtx.resources
  | .error _ => ⟨0, 0, 0, 0⟩

namespace MiningManager

variable (manager : MiningManager) (virtualState : VirtualState manager.processor.storage.hasher)

-- Every ready transaction was validated by itself, and is filed under its projected mass.
def Validated (pool : TransactionsPool) : Prop :=
  ∀ key ∈ pool.readyTransactions.searchTree, ∃ mtx,
    manager.processor.validateMempoolCellTransactionAgainstVirtualState virtualState (.new key.tx) =
      .ok mtx ∧ mtx.isFullyPopulated = true ∧ FeerateTransactionKey.ofMutableTransaction mtx =
        some key

def total (cost : TxResources → Nat) (txs : List CellTx) : Nat :=
  ((txs.filter fun tx => !tx.isCoinbase).map fun tx => cost
    (manager.processor.resources virtualState tx)).sum

@[mk_iff]
structure WithinLimits (txs : List CellTx) : Prop where
  cycles : manager.total virtualState TxResources.cycles txs ≤
    manager.processor.params.maxBlockCycles
  computeMass : manager.total virtualState TxResources.computeMass txs ≤ manager.maxBlockMass
  transientMass : manager.total virtualState TxResources.transientMass txs ≤ manager.maxBlockMass
  storageMass : manager.total virtualState TxResources.storageMass txs ≤ manager.maxBlockMass

-- A coinbase, and behind it transactions within the limits.
def Limited (template : BlockTemplate) : Prop :=
  ∃ coinbase txs, template.block.transactions = coinbase :: txs ∧ coinbase.isCoinbase = true ∧
    manager.WithinLimits virtualState txs

-- Ready transactions that fit into a block by their projected masses have cycles for one block.
def CyclesFit (pool : TransactionsPool) : Prop :=
  ∀ keys : List FeerateTransactionKey, keys.Sublist pool.readyTransactions.searchTree →
    (keys.map FeerateTransactionKey.mass).sum ≤ manager.maxBlockMass →
      manager.total virtualState TxResources.cycles (keys.map FeerateTransactionKey.tx) ≤
        manager.processor.params.maxBlockCycles

section Totals

variable {manager} {virtualState} {cost : TxResources → Nat} {pool : TransactionsPool}
  {keys : List FeerateTransactionKey}

theorem total_perm {txs txs'} (h : txs.Perm txs') :
    manager.total virtualState cost txs = manager.total virtualState cost txs' :=
  ((h.filter _).map _).sum_eq

theorem total_mono {txs txs'} (h : txs.Sublist txs') :
    manager.total virtualState cost txs ≤ manager.total virtualState cost txs' :=
  ((h.filter _).map _).sum_le_sum fun _ _ => Nat.zero_le _

theorem total_cons_coinbase {coinbase} (h : coinbase.isCoinbase = true) (txs) :
    manager.total virtualState cost (coinbase :: txs) = manager.total virtualState cost txs := by
  simp [total, h]

theorem total_le_sum_mass
    (hcost : ∀ key ∈ keys, cost (manager.processor.resources virtualState key.tx) ≤ key.mass) :
    manager.total virtualState cost (keys.map tx) ≤ (keys.map mass).sum := by
  unfold total
  rw [List.filter_map, List.map_map]
  calc
    _ ≤ ((keys.filter _).map mass).sum :=
      sum_le_sum fun key hkey => hcost key (mem_filter.mp hkey).1
    _ ≤ (keys.map mass).sum :=
      (filter_sublist.map _).sum_le_sum fun _ _ => Nat.zero_le _

theorem Validated.resources_le (h : manager.Validated virtualState pool) {key}
    (hkey : key ∈ pool.readyTransactions.searchTree) :
    (manager.processor.resources virtualState key.tx).computeMass ≤ key.mass ∧
    (manager.processor.resources virtualState key.tx).transientMass ≤ key.mass ∧
    (manager.processor.resources virtualState key.tx).storageMass ≤ key.mass := by
  obtain ⟨mtx, hmtx, -, hof⟩ := h key hkey
  simp only [MempoolProcessor.resources, hmtx]
  exact FeerateTransactionKey.resources_le hof

theorem withinLimits_of (h : manager.Validated virtualState pool)
    (hcycles : manager.CyclesFit virtualState pool)
    (hkeys : keys.Subperm pool.readyTransactions.searchTree)
    (hmass : (keys.map mass).sum ≤ manager.maxBlockMass) :
    manager.WithinLimits virtualState (keys.map tx) := by
  have hle : ∀ key ∈ keys, _ := fun key hkey => h.resources_le (hkeys.subset hkey)
  obtain ⟨sorted, hp, hsub⟩ := hkeys
  constructor
  · rw [← total_perm (hp.map tx)]
    exact hcycles sorted hsub ((hp.map mass).sum_eq ▸ hmass)
  · exact (total_le_sum_mass fun key hkey => (hle key hkey).1).trans hmass
  · exact (total_le_sum_mass fun key hkey => (hle key hkey).2.1).trans hmass
  · exact (total_le_sum_mass fun key hkey => (hle key hkey).2.2).trans hmass

theorem withinLimits_cons_coinbase {coinbase} (h : coinbase.isCoinbase = true) {txs} :
    manager.WithinLimits virtualState (coinbase :: txs) ↔
    manager.WithinLimits virtualState txs := by
  simp only [withinLimits_iff, total_cons_coinbase h]

end Totals

section Template

variable {manager} {virtualState} {minerData : MinerData} {now : Nat} {tpl : BlockTemplate}

theorem validTxs_sublist_selected {processor : TemplateProcessor}
    {selectedTxs trustedAccessSets mode state out}
    (h : processor.templateTransactions selectedTxs trustedAccessSets mode state = .ok out) :
    out.validTxs.Sublist selectedTxs := by
  obtain ⟨sel, hs, h⟩ := bind_ok h
  obtain ⟨-, -, h⟩ := bind_ok h
  cases h
  obtain ⟨filtered, hf, hs⟩ := bind_ok hs
  obtain ⟨st, hfo, hst⟩ := bind_ok hf
  cases hst
  cases hs
  exact (TemplateProcessor.validTxs_sublist hfo rfl).trans (keptTxs_prefilter_sublist _ _ _ _)

theorem transactions_of_buildBlockTemplate {pool draws mode}
    (h : manager.buildBlockTemplate virtualState minerData now pool draws mode = .ok tpl) :
    ∃ (coinbase : CellTx) (keys : List FeerateTransactionKey), coinbase.isCoinbase = true ∧
    keys.Sublist (manager.selectTransactions pool draws) ∧
    tpl.block.transactions = coinbase :: keys.map tx := by
  obtain ⟨out, ho, hbu⟩ := bind_ok h
  obtain ⟨keys, hk, hv⟩ := sublist_map_iff.mp (validTxs_sublist_selected ho)
  obtain ⟨outputs, red, hb⟩ := TemplateServices.builtFor_of_build hbu
  exact ⟨_, keys, rfl, hk, hv ▸ hb.transactions⟩

theorem limited_of_buildBlockTemplate {pool draws mode}
    (hvalidated : manager.Validated virtualState pool)
    (hcycles : manager.CyclesFit virtualState pool)
    (h : manager.buildBlockTemplate virtualState minerData now pool draws mode = .ok tpl) :
    manager.Limited virtualState tpl := by
  obtain ⟨coinbase, keys, hc, hk, htxs⟩ := transactions_of_buildBlockTemplate h
  obtain ⟨hse, hm⟩ := selectTransactions_fits pool.readyTransactions
    manager.processor.storage.hasher ⟨manager.maxBlockMass⟩ draws
  have hf := ((hk.map _).sum_le_sum fun _ _ => Nat.zero_le _).trans hm
  exact ⟨coinbase, _, htxs, hc, withinLimits_of hvalidated hcycles (hk.subperm.trans hse) hf⟩

theorem exists_attempt_of_getBlockTemplateFrom {pools draws attempts left}
    (h : manager.getBlockTemplateFrom virtualState minerData now pools draws attempts left =
      .ok tpl) :
    ∃ n mode, manager.buildBlockTemplate virtualState minerData now (pools n) (draws n) mode =
    .ok tpl := by
  induction left generalizing attempts with
  | zero => exact ⟨attempts, .infallible, h⟩
  | succ left ih =>
    rw [getBlockTemplateFrom] at h
    split at h
    · exact ih h
    · exact ⟨attempts, .standard, h⟩

end Template

-- A template respects the limits if the cycles of ready transactions fit whenever their projected
-- masses do. If all ready transactions fit into it and none is dropped, it does only then.
theorem getBlockTemplate_withinLimits (manager : MiningManager)
    (virtualState : VirtualState manager.processor.storage.hasher) (minerData : MinerData)
    (unixNow : Nat) (pools : Nat → TransactionsPool) (draws : Nat → TemplateDraws)
    (hvalidated : ∀ n, manager.Validated virtualState (pools n)) (template : BlockTemplate)
    (h : manager.getBlockTemplate virtualState minerData unixNow pools draws = .ok template) :
    ∃ n buildMode,
    manager.buildBlockTemplate virtualState minerData unixNow (pools n) (draws n) buildMode =
    .ok template ∧
    (manager.CyclesFit virtualState (pools n) →
      manager.WithinLimits virtualState template.block.transactions) ∧
    ((pools n).readyTransactions.totalMass ≤ manager.maxBlockMass →
      template.block.transactions.length = (pools n).readyTransactions.searchTree.length + 1 →
      (manager.WithinLimits virtualState template.block.transactions ↔
      manager.CyclesFit virtualState (pools n))) := by
  obtain ⟨n, buildMode, ha⟩ := exists_attempt_of_getBlockTemplateFrom h
  obtain ⟨coinbase, keys, hc, hk, htxs⟩ := transactions_of_buildBlockTemplate ha
  have hs : manager.CyclesFit virtualState (pools n) →
      manager.WithinLimits virtualState template.block.transactions := by
    intro hcy
    obtain ⟨coinbase, txs, htxs, hc, hl⟩ := limited_of_buildBlockTemplate (hvalidated n) hcy ha
    rwa [htxs, withinLimits_cons_coinbase hc]
  refine ⟨n, buildMode, ha, hs, fun hall hle => ⟨fun hl sub hsub _ => ?_, hs⟩⟩
  have ht : manager.selectTransactions (pools n) (draws n) =
      (pools n).readyTransactions.searchTree := by
    simp [selectTransactions, Frontier.buildSelectorWithCells, hall,
      TemplateTransactionSelector.selectTransactions]
  rw [ht] at hk
  have heq : keys = (pools n).readyTransactions.searchTree := by
    refine hk.eq_of_length ?_
    simpa [htxs] using hle
  rw [htxs, withinLimits_cons_coinbase hc, heq] at hl
  exact (total_mono (hsub.map _)).trans hl.cycles

end MiningManager

section Cycles

def miningManager (cycles : Nat) : MiningManager where
  processor :=
    { templateProcessor with
      engine :=
        { ScriptEngine.sample templateHasher with verifyScriptGroup := fun _ _ _ _ => .ok cycles }
      massCalculator := ⟨1, 10, 1000, 3000 * SAU_PER_SPORA⟩ }
  services := sampleTemplateServices
  maxBlockMass := 2000000
  maximumBuildBlockTemplateAttempts := 5

def miningOutpoints : List OutPoint := (List.range 8).map fun i => ⟨20 + i, 0⟩

def miningState : VirtualState templateHasher :=
  { templateState with
    cellStateTree := miningOutpoints.foldl (fun tree o => tree.insert o templateCell) LiveTree.empty
    mergesetRewards := (∅ : ExtTreeMap Hash BlockRewardData).insert 1 ⟨500, 0, ⟨3, 1, []⟩⟩ }

def readyKeys (cycles : Nat) : List FeerateTransactionKey :=
  (miningOutpoints.map fun o => CellDAG.chainTx [o]).filterMap fun tx =>
    ((miningManager cycles).processor.validateMempoolCellTransactionAgainstVirtualState miningState
      (.new tx)).toOption.bind FeerateTransactionKey.ofMutableTransaction

def readyPool (cycles : Nat) : TransactionsPool :=
  ⟨⟨readyKeys cycles, ((readyKeys cycles).map FeerateTransactionKey.mass).sum, rfl⟩, ∅⟩

def readyTemplate (cycles : Nat) : Except RuleError BlockTemplate :=
  (miningManager cycles).getBlockTemplate miningState (minerOf 11) 10 (fun _ => readyPool cycles)
    fun _ => ⟨[], []⟩

theorem validated_readyPool {cycles} (h : (readyKeys cycles).all (fun key =>
    ((miningManager cycles).processor.validateMempoolCellTransactionAgainstVirtualState miningState
      (.new key.tx)).toOption.any fun mtx => mtx.isFullyPopulated &&
      ofMutableTransaction mtx == some key) = true) :
    (miningManager cycles).Validated miningState (readyPool cycles) := by
  intro key hkey
  obtain ⟨mtx, hmtx, hc⟩ := any_toOption_iff.mp (all_eq_true.mp h key hkey)
  obtain ⟨hp, hof⟩ := Bool.and_eq_true_iff.mp hc
  exact ⟨mtx, hmtx, hp, beq_iff_eq.mp hof⟩

theorem withinLimits_readyTemplate : ∃ template, readyTemplate 1000 = .ok template ∧
    (miningManager 1000).WithinLimits miningState template.block.transactions := by
  have hrun : (readyTemplate 1000).toOption.isSome = true := by decide +kernel
  have hv : (miningManager 1000).Validated miningState (readyPool 1000) :=
    validated_readyPool (by decide +kernel)
  obtain ⟨template, ht⟩ := isSome_iff_exists.mp hrun
  have ht := mem_toOption_iff.mp ht
  obtain ⟨n, buildMode, -, hs, -⟩ := MiningManager.getBlockTemplate_withinLimits
    (miningManager 1000) miningState (minerOf 11) 10 (fun _ => readyPool 1000) (fun _ => ⟨[], []⟩)
      (fun _ => hv) template ht
  refine ⟨template, ht, hs fun keys hk _ => ?_⟩
  calc
    _ ≤ (miningManager 1000).total miningState TxResources.cycles
        ((readyKeys 1000).map tx) := MiningManager.total_mono (hk.map _)
    _ ≤ _ := by decide +kernel

-- Eight transactions of ten million cycles each fit by their masses.
theorem template_exceeds_cycles :
    ∃ template, (miningManager 10000000).Validated miningState (readyPool 10000000) ∧
    readyTemplate 10000000 = .ok template ∧
    (miningManager 10000000).processor.params.maxBlockCycles <
    (miningManager 10000000).total miningState TxResources.cycles template.block.transactions := by
  have hrun : (readyTemplate 10000000).toOption.any (fun template =>
      decide ((miningManager 10000000).processor.params.maxBlockCycles <
        (miningManager 10000000).total miningState TxResources.cycles template.block.transactions))
            = true := by
    decide +kernel
  obtain ⟨template, ht, hc⟩ := any_toOption_iff.mp hrun
  exact ⟨template, validated_readyPool (by decide +kernel), ht, of_decide_eq_true hc⟩

end Cycles

end Spora
