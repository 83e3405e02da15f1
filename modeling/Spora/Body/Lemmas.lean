import Spora.Body.Context

namespace Spora

open Std Outcome List OverlayCellProvider

namespace BlockBodyProcessor

variable {processor : BlockBodyProcessor} {block : Block}

theorem nodup_of_insertOnce {α} [Ord α] [TransOrd α] [LawfulEqOrd α] {dup} {l : List α} {old}
    (h : l.foldlM (insertOnce dup) ∅ = .ok old) : l.Nodup := by
  have hse : l.Nodup ∧ ∀ a, a ∈ old ↔ a ∈ l := by
    refine foldlM_inits (I := fun p seen => p.Nodup ∧ ∀ a, a ∈ seen ↔ a ∈ p)
      (fun p a q seen seen' _ hI hs => ?_) ⟨nodup_nil, by simp⟩ h
    obtain ⟨_, hnew, hs⟩ := bind_ok hs
    cases hs
    have hnot : a ∉ p := by
      rw [← hI.2 a, ← ExtTreeSet.contains_iff_mem, ensure_eq_ok_iff.mp hnew]
      simp
    refine ⟨nodup_append.mpr ⟨hI.1, by simp, fun b hb c hc hbc => ?_⟩, fun b => ?_⟩
    · obtain rfl := mem_singleton.mp hc
      exact hnot (hbc ▸ hb)
    · rw [ExtTreeSet.mem_insert, LawfulEqCmp.compare_eq_iff_eq, hI.2, mem_append, mem_singleton,
        or_comm, eq_comm]
  exact hse.1

theorem exists_foldlM_insertOnce {α} [Ord α] [TransOrd α] [LawfulEqOrd α] {dup} {l : List α}
    (h : l.Nodup) :
    ∃ old, l.foldlM (insertOnce dup) ∅ = .ok old := by
  have hstep : ∀ seen a rest, ((a :: rest).Nodup ∧ ∀ b ∈ a :: rest, b ∉ seen) →
        ∃ seen', insertOnce dup seen a = .ok seen' ∧ rest.Nodup ∧ ∀ b ∈ rest, b ∉ seen' := by
    rintro seen a rest ⟨hn, hs⟩
    rw [nodup_cons] at hn
    have hnew : seen.contains a = false := by
      rw [← Bool.not_eq_true]
      exact hs a mem_cons_self
    refine ⟨seen.insert a, by simp [insertOnce, hnew, ensure], hn.2, fun b hb hmem => ?_⟩
    rw [ExtTreeSet.mem_insert, LawfulEqCmp.compare_eq_iff_eq] at hmem
    rcases hmem with rfl | hmem
    · exact hn.1 hb
    · exact hs b (mem_cons_of_mem _ hb) hmem
  have hst : l.Nodup ∧ ∀ b ∈ l, b ∉ (∅ : ExtTreeSet α) := ⟨h, by simp⟩
  obtain ⟨old, hf, -⟩ := foldlM_total
    (P := fun rest seen => rest.Nodup ∧ ∀ b ∈ rest, b ∉ seen) hstep hst
  exact ⟨old, hf⟩

theorem checkDuplicateTransactions_eq_ok_iff : processor.checkDuplicateTransactions block = .ok () ↔
    (block.transactions.map processor.hasher.txid).Nodup := by
  unfold checkDuplicateTransactions
  simp only [bind_eq_ok_iff]
  constructor
  · rintro ⟨_, h, -⟩
    exact nodup_of_insertOnce h
  · intro h
    obtain ⟨old, hf⟩ := exists_foldlM_insertOnce h
    exact ⟨old, hf, rfl⟩

theorem checkBlockDoubleSpends_eq_ok_iff :
    checkBlockDoubleSpends block = .ok () ↔ (blockInputs block).Nodup := by
  unfold checkBlockDoubleSpends
  simp only [bind_eq_ok_iff]
  constructor
  · rintro ⟨_, h, -⟩
    exact nodup_of_insertOnce h
  · intro h
    obtain ⟨old, hf⟩ := exists_foldlM_insertOnce h
    exact ⟨old, hf, rfl⟩

theorem checkNoChainedTransactions_eq_ok_iff : processor.checkNoChainedTransactions block = .ok () ↔
    ∀ o ∈ blockInputs block, o ∉ block.transactions.flatMap (CellTx.creates processor.hasher) := by
  unfold checkNoChainedTransactions
  simp only [forM_eq_ok_iff, TreeMap.mem_foldl_insert]
  simp

structure Isolated (processor : BlockBodyProcessor) (block : Block) : Prop where
  onlyFirst : ∀ e ∈ block.transactions.zipIdx, e.1.isCoinbase = true ↔ e.2 = 0
  wellFormed : ∀ tx ∈ block.transactions, tx.isCoinbase = false →
    validateCellTxInIsolation tx processor.params.maxCellDataSize = .ok ()
  ids : (block.transactions.map processor.hasher.txid).Nodup
  spends : (blockInputs block).Nodup
  unchained : ∀ o ∈ blockInputs block,
    o ∉ block.transactions.flatMap (CellTx.creates processor.hasher)

theorem onlyFirst_of_checkOnlyOneCoinbase (h : checkOnlyOneCoinbase block = .ok ()) :
    ∀ e ∈ block.transactions.zipIdx, e.1.isCoinbase = true ↔ e.2 = 0 := by
  unfold checkOnlyOneCoinbase coinbase at h
  obtain ⟨first, hf, h⟩ := bind_ok h
  obtain ⟨_, hc, h⟩ := bind_ok h
  rw [ensure_eq_ok_iff] at hc
  have hr : block.transactions.tail.findIdx? CellTx.isCoinbase = none := by
    cases hfi : block.transactions.tail.findIdx? CellTx.isCoinbase with
    | none => rfl
    | some i => simp [hfi] at h
  rw [findIdx?_eq_none_iff] at hr
  obtain ⟨rest, htxs⟩ : ∃ rest, block.transactions = first :: rest := by
    cases htxs : block.transactions with
    | nil => simp [htxs] at hf
    | cons tx rest => exact ⟨rest, by simpa [htxs] using hf⟩
  rw [htxs] at hr
  rintro ⟨tx, i⟩ he
  rw [htxs, mem_zipIdx_iff_getElem?] at he
  cases i with
  | zero =>
    cases he
    simp [hc]
  | succ i => simp [hr tx (mem_of_getElem? he)]

theorem isolated_of_validateBodyInIsolation {mass}
    (h : processor.validateBodyInIsolation block = .ok mass) : Isolated processor block := by
  obtain ⟨_, -, h⟩ := bind_ok h
  obtain ⟨_, -, h⟩ := bind_ok h
  obtain ⟨_, ho, h⟩ := bind_ok h
  obtain ⟨_, his, h⟩ := bind_ok h
  obtain ⟨_, -, h⟩ := bind_ok h
  obtain ⟨_, -, h⟩ := bind_ok h
  obtain ⟨_, hids, h⟩ := bind_ok h
  obtain ⟨_, hs, h⟩ := bind_ok h
  obtain ⟨_, hc, -⟩ := bind_ok h
  refine ⟨onlyFirst_of_checkOnlyOneCoinbase ho, fun tx htx hcb => ?_,
    checkDuplicateTransactions_eq_ok_iff.mp hids, checkBlockDoubleSpends_eq_ok_iff.mp hs,
    checkNoChainedTransactions_eq_ok_iff.mp hc⟩
  have hone := forM_eq_ok_iff.mp his tx htx
  simp only [hcb] at hone
  exact mapError_eq_ok_iff.mp hone

theorem map_fst_filter_zipIdx {α} (l : List α) (p) :
    (l.zipIdx.filter fun e => p e.1).map Prod.fst = l.filter p := by
  conv_rhs => rw [← zipIdx_map_fst 0 l, filter_map]
  rfl

def bodyCycles (processor : BlockBodyProcessor) (block : Block) (provider : OverlayCellProvider)
    (tx : CellTx) : Nat :=
  (processor.validateInDagWithScripts block provider tx).toOption.getD 0

-- What the checks in context establish: every transaction is valid on the one overlay, and the
-- cycles of all of them are within the budget of the block.
structure ValidOn (processor : BlockBodyProcessor) (block : Block)
    (provider : OverlayCellProvider) : Prop where
  valid : ∀ tx ∈ block.transactions, tx.isCoinbase = false →
    ∃ n, processor.validateInDagWithScripts block provider tx = .ok n
  cycles : ((block.transactions.filter fun tx => !tx.isCoinbase).map
    (processor.bodyCycles block provider)).sum ≤ processor.params.maxBlockCycles

theorem accumulateBodyTx_eq_ok {provider e accum accum'}
    (h : processor.accumulateBodyTx block provider accum e = .ok accum') :
    ∃ n, processor.validateInDagWithScripts block provider e.1 = .ok n ∧
    accum'.blockCycles = saturatingAdd accum.blockCycles n ∧
    accum'.blockCycles ≤ processor.params.maxBlockCycles := by
  obtain ⟨⟨masses, storage, n⟩, hv, h⟩ := bind_ok h
  obtain ⟨_, hc, h⟩ := bind_ok h
  obtain ⟨_, -, h⟩ := bind_ok h
  obtain ⟨_, -, h⟩ := bind_ok h
  obtain ⟨_, -, h⟩ := bind_ok h
  cases h
  obtain ⟨n', hn, hv⟩ := bind_ok hv
  obtain ⟨_, -, hv⟩ := bind_ok hv
  obtain ⟨-, -, rfl⟩ : _ ∧ _ ∧ n' = n := by simpa using Except.ok.inj hv
  exact ⟨n', mapError_eq_ok_iff.mp hn, rfl, ensure_eq_ok_iff.mp hc⟩

theorem validOn_of_checkBlockTransactionsInContext {mass}
    (h : processor.checkBlockTransactionsInContext block = .ok mass) :
    block.transactions.all CellTx.isCoinbase = true ∨
    ∃ provider, processor.buildBodyValidationProvider block = .ok provider ∧
    ValidOn processor block provider := by
  unfold checkBlockTransactionsInContext at h
  split_ifs at h with hall
  · exact .inl hall
  obtain ⟨provider, hp, h⟩ := bind_ok h
  obtain ⟨accum, ha, -⟩ := bind_ok h
  refine .inr ⟨provider, hp, ?_⟩
  have hmax : processor.params.maxBlockCycles < U64_MAX := by simp [params, U64_MAX]
  obtain ⟨hv, hc, hle⟩ := foldlM_inits (I := fun p accum =>
      (∀ e ∈ p, ∃ n, processor.validateInDagWithScripts block provider e.1 = .ok n) ∧
      accum.blockCycles = (p.map fun e => processor.bodyCycles block provider e.1).sum ∧
      accum.blockCycles ≤ processor.params.maxBlockCycles)
    (fun p e q accum accum' _ hI hs => by
      obtain ⟨hv, hsum, -⟩ := hI
      obtain ⟨n, hn, hne, hle⟩ := accumulateBodyTx_eq_ok hs
      have hc : processor.bodyCycles block provider e.1 = n := by
        simp [bodyCycles, hn, Except.toOption]
      refine ⟨fun e' he' => ?_, ?_, hle⟩
      · rcases mem_append.mp he' with he' | he'
        · exact hv e' he'
        · obtain rfl := mem_singleton.mp he'
          exact ⟨n, hn⟩
      · rw [map_append, sum_append]
        simp only [map_cons, map_nil, sum_cons, sum_nil]
        rw [hne, saturatingAdd] at hle ⊢
        omega)
    ⟨by simp, rfl, Nat.zero_le _⟩ ha
  have hf := map_fst_filter_zipIdx block.transactions fun tx => !tx.isCoinbase
  refine ⟨fun tx htx hcb => ?_, ?_⟩
  · have hmem : tx ∈ block.transactions.filter fun tx => !tx.isCoinbase := by simp [htx, hcb]
    rw [← hf] at hmem
    obtain ⟨e, he, rfl⟩ := mem_map.mp hmem
    exact hv e he
  · rw [← hf, map_map]
    rw [hc] at hle
    exact hle

section Overlay

variable {provider provider' : OverlayCellProvider}

structure SameBase (provider provider' : OverlayCellProvider) : Prop where
  snapshotPov : provider'.snapshotPov = provider.snapshotPov
  basePov : provider'.basePov = provider.basePov
  base : provider'.base = provider.base
  baseOverrides : provider'.baseOverrides = provider.baseOverrides

theorem SameBase.refl (provider) : SameBase provider provider := ⟨rfl, rfl, rfl, rfl⟩

theorem SameBase.trans {provider''} (h : SameBase provider provider')
    (h' : SameBase provider' provider'') : SameBase provider provider'' :=
  ⟨h'.1.trans h.1, h'.2.trans h.2, h'.3.trans h.3, h'.4.trans h.4⟩

-- A property of overlays that is kept where cells of the given blocks are created and where cells
-- are spent.
structure KeptByMerging (blocks : Hash → Prop) (P : OverlayCellProvider → Prop) : Prop where
  add : ∀ {provider provider' : OverlayCellProvider} {o : OutPoint} {m : CellMetadata}, P provider →
    blocks m.blockHash → provider.addCell o m = .ok provider' → P provider'
  spend : ∀ {provider provider' : OverlayCellProvider} {o : OutPoint}, P provider →
    provider.spendCell o = .ok provider' → P provider'

section KeptByMerging

variable {bs : Hash → Prop} {P : OverlayCellProvider → Prop} (hkept : KeptByMerging bs P)
include hkept

theorem KeptByMerging.outputs {bh daa cb tx} {outs : List (CellOutput × Nat)} (h : P provider)
    (hblock : bs bh) (hrun : outs.foldlM (processor.addOverlayOutput bh daa cb tx) provider =
      .ok provider') : P provider' :=
  foldlM_invariant (P := P)
    (fun _ _ _ _ hs hst => hkept.add hs hblock (mapError_eq_ok_iff.mp hst)) h hrun

theorem KeptByMerging.mergeTx {blue daa st st' e} (h : P st.provider) (hblue : bs blue)
    (hstep : processor.mergeTx blue daa st e = .ok st') : P st'.provider := by
  unfold BlockBodyProcessor.mergeTx at hstep
  dsimp only at hstep
  split_ifs at hstep
  · cases hstep
    exact h
  · obtain ⟨_, -, hstep⟩ := bind_ok hstep
    obtain ⟨spent, hsp, hstep⟩ := bind_ok hstep
    obtain ⟨cr, hc, hstep⟩ := bind_ok hstep
    cases hstep
    have hsp : P spent := foldlM_invariant
      (fun _ _ _ _ hs hspend => hkept.spend hs (mapError_eq_ok_iff.mp hspend)) h hsp
    exact hkept.outputs hsp hblue hc

theorem KeptByMerging.mergeBlue {st st' blue} (h : P st.provider)
    (hblue : bs blue) (hstep : processor.mergeBlue st blue = .ok st') : P st'.provider := by
  obtain ⟨_, -, hstep⟩ := bind_ok hstep
  obtain ⟨_, -, hstep⟩ := bind_ok hstep
  exact foldlM_invariant (fun _ _ _ _ hs hm => hkept.mergeTx hs hblue hm) h hstep

theorem KeptByMerging.mergeSelectedParentCoinbase {sp st} (h : P provider) (hselected : bs sp)
    (hstep : processor.mergeSelectedParentCoinbase sp provider = .ok st) : P st.provider := by
  obtain ⟨txs, -, hstep⟩ := bind_ok hstep
  obtain ⟨_, -, hstep⟩ := bind_ok hstep
  cases txs with
  | nil =>
    cases hstep
    exact h
  | cons coinbase rest =>
    obtain ⟨cr, hc, hstep⟩ := bind_ok hstep
    cases hstep
    exact hkept.outputs h hselected hc

theorem KeptByMerging.built (hstart : P
      (.new processor.baseProvider block.hash (processor.blockGhostdagData block).selectedParent))
    (hselected : bs (processor.blockGhostdagData block).selectedParent)
    (hblues : ∀ blue ∈ (processor.blockGhostdagData block).mergesetBlues, bs blue)
    (h : processor.buildBodyValidationProvider block = .ok provider) : P provider := by
  obtain ⟨start, hc, h⟩ := bind_ok h
  obtain ⟨st, hst, h⟩ := bind_ok h
  cases h
  exact foldlM_invariant (fun _ blue hb _ hs hm => hkept.mergeBlue hs (hblues blue hb) hm)
    (hkept.mergeSelectedParentCoinbase hstart hselected hc) hst

end KeptByMerging

theorem keptByMerging_sameBase (start : OverlayCellProvider) :
    KeptByMerging (fun _ => True) (SameBase start) where
  add := by
    intro provider provider' o m hs _ h
    unfold addCell at h
    split_ifs at h
    cases h
    exact hs.trans ⟨rfl, rfl, rfl, rfl⟩
  spend := by
    intro provider provider' o hs h
    unfold spendCell at h
    split_ifs at h
    · cases h
      exact hs.trans ⟨rfl, rfl, rfl, rfl⟩
    · cases h
      exact hs.trans ⟨rfl, rfl, rfl, rfl⟩

theorem buildBodyValidationProvider_sameBase
    (h : processor.buildBodyValidationProvider block = .ok provider) :
    SameBase (.new processor.baseProvider block.hash
      (processor.blockGhostdagData block).selectedParent) provider :=
  (keptByMerging_sameBase _).built (.refl _) trivial (fun _ _ => trivial) h

end Overlay

end BlockBodyProcessor

end Spora
