import Spora.Cell.Diff.Lemmas
import Spora.Mpe.CellState

namespace Spora

open Std Outcome ReplayValidationContext ExtTreeMap CellDiff

variable {hasher : Hasher}

section Overlay

variable {c d : ReplayValidationContext} {b : BlockData} {effect : BlockExecutionEffect}

-- The overlay after an effect: what is neither removed nor added stays, and what is removed is
-- marked as spent unless it was an overlay cell.
structure OverlaidBy (c : ReplayValidationContext) (effect : BlockExecutionEffect)
    (d : ReplayValidationContext) : Prop where
  frame : SameFrame c d
  added : ∀ k : OutPoint, k ∉ effect.cellDiff.remove → k ∉ effect.cellDiff.add →
    d.provider.added[k]? = c.provider.added[k]?
  removed : ∀ k : OutPoint, k ∉ effect.cellDiff.remove →
    (k ∈ d.provider.removed ↔ k ∈ c.provider.removed)
  grows : ∀ k : OutPoint, k ∈ c.provider.removed → k ∈ d.provider.removed
  spent : ∀ k : OutPoint, k ∈ effect.cellDiff.remove → k ∉ c.provider.added → k ∈ d.provider.removed
  mem_added : ∀ k : OutPoint, k ∈ d.provider.added → k ∈ c.provider.added ∨ k ∈ effect.cellDiff.add

theorem foldlM_spendCell_eq_ok {keys : List OutPoint}
    (h : keys.foldlM (fun c o => c.spendCell o) c = .ok d) :
    SameFrame c d ∧ (∀ k, k ∉ keys → d.provider.added[k]? = c.provider.added[k]?) ∧
    (∀ k, k ∉ keys → (k ∈ d.provider.removed ↔ k ∈ c.provider.removed)) ∧
    (∀ k, k ∈ c.provider.removed → k ∈ d.provider.removed) ∧
    (∀ k, k ∈ keys → k ∉ c.provider.added → k ∈ d.provider.removed) ∧
    ∀ k, k ∈ d.provider.added → k ∈ c.provider.added := by
  induction keys generalizing c with
  | nil =>
    obtain rfl := Except.ok.inj h
    exact ⟨SameFrame.refl c, fun _ _ => rfl, fun _ _ => Iff.rfl, fun _ hk => hk, by simp,
      fun _ hk => hk⟩
  | cons o keys ih =>
    obtain ⟨mid, hmid, h⟩ := bind_ok h
    have hs := spendCell_eq_ok hmid
    obtain ⟨hf, ha, hr, hg, hall, hmem⟩ := ih h
    refine ⟨hs.frame.trans hf, fun k hk => ?_, fun k hk => ?_, fun k hk => ?_,
      fun k hk hadd => ?_, fun k hk => hs.mem_added (hmem k hk)⟩
    · rw [List.mem_cons, not_or] at hk
      rw [ha k hk.2, hs.added, if_neg (Ne.symm hk.1)]
    · rw [List.mem_cons, not_or] at hk
      rw [hr k hk.2, hs.removed]
      simp [hk.1]
    · exact hg k ((hs.removed k).mpr (.inl hk))
    · rcases List.mem_cons.mp hk with rfl | hk
      · exact hg k ((hs.removed k).mpr (.inr ⟨rfl, hadd⟩))
      · exact hall k hk fun hk' => hadd (hs.mem_added hk')

theorem addCreatedCell_eq_ok {cr} (h : addCreatedCell hasher b c cr = .ok d) :
    ∃ md, md.outPoint = cr.1 ∧ Added c md d := by
  obtain ⟨tx, -, h⟩ := bind_ok h
  obtain ⟨output, -, h⟩ := bind_ok h
  exact ⟨_, rfl, addCell_eq_ok h⟩

theorem foldlM_addCreatedCell_eq_ok {cr : List (OutPoint × CellMeta)}
    (h : cr.foldlM (addCreatedCell hasher b) c = .ok d) :
    SameFrame c d ∧ (∀ k, k ∉ cr.map Prod.fst → d.provider.added[k]? = c.provider.added[k]?) ∧
    d.provider.removed = c.provider.removed ∧
    ∀ k, k ∈ d.provider.added → k ∈ c.provider.added ∨ k ∈ cr.map Prod.fst := by
  refine foldlM_invariant (P := fun s => SameFrame c s ∧
    (∀ k, k ∉ cr.map Prod.fst → s.provider.added[k]? = c.provider.added[k]?) ∧
    s.provider.removed = c.provider.removed ∧
    ∀ k, k ∈ s.provider.added → k ∈ c.provider.added ∨ k ∈ cr.map Prod.fst)
    (fun s e he s' hs hst => ?_) ⟨SameFrame.refl c, fun _ _ => rfl, rfl, fun _ hk => .inl hk⟩ h
  obtain ⟨hf, ha, hr, hmem⟩ := hs
  obtain ⟨md, hkey, hadd⟩ := addCreatedCell_eq_ok hst
  have hin : md.outPoint ∈ cr.map Prod.fst := hkey ▸ List.mem_map_of_mem he
  refine ⟨hf.trans hadd.frame, fun k hk => ?_, hadd.removed.trans hr, fun k hk => ?_⟩
  · have hne : md.outPoint ≠ k := by
      rintro rfl
      exact hk hin
    rw [hadd.added, if_neg hne, ha k hk]
  · rw [mem_iff_isSome_getElem?, hadd.added] at hk
    split_ifs at hk with heq
    · exact .inr (heq ▸ hin)
    · exact hmem k (mem_iff_isSome_getElem?.mpr hk)

theorem applyEffectToOverlay_eq_ok (h : applyEffectToOverlay hasher c effect b = .ok d) :
    OverlaidBy c effect d := by
  obtain ⟨mid, hmid, h⟩ := bind_ok h
  obtain ⟨hf, had, hre, hg, hall, hmem⟩ := foldlM_spendCell_eq_ok hmid
  obtain ⟨hf', ha', hr', hm'⟩ := foldlM_addCreatedCell_eq_ok h
  simp only [mem_keys] at had hre hall
  simp only [map_fst_toList_eq_keys, mem_keys] at ha' hm'
  refine ⟨hf.trans hf', fun k hr ha => ?_, fun k hr => ?_, fun k hk => ?_, fun k hk ha => ?_,
    fun k hk => (hm' k hk).imp_left (hmem k)⟩
  · rw [ha' k ha, had k hr]
  · rw [hr', hre k hr]
  · exact hr' ▸ hg k hk
  · exact hr' ▸ hall k hk ha

structure Seeded (c d : ReplayValidationContext) : Prop where
  snapshotPov : d.snapshotPov = c.snapshotPov
  currentDaaScore : d.currentDaaScore = c.currentDaaScore
  currentTimestamp : d.currentTimestamp = c.currentTimestamp
  params : d.params = c.params
  overlayPov : d.provider.snapshotPov = c.provider.snapshotPov
  basePov : d.provider.basePov = c.provider.basePov
  base : d.provider.base = c.provider.base
  added : d.provider.added = c.provider.added
  removed : d.provider.removed = c.provider.removed

theorem seedBaseOverridesFromTree_eq_ok {tree : LiveTree hasher}
    (h : seedBaseOverridesFromTree c tree = .ok d) : Seeded c d := by
  refine foldlM_invariant (fun s e _ s' hs hst => ?_)
    ⟨rfl, rfl, rfl, rfl, rfl, rfl, rfl, rfl, rfl⟩ h
  unfold seedBaseOverride at hst
  dsimp only at hst
  split_ifs at hst
  · cases hst
    exact hs
  · obtain ⟨provider, hp, hst⟩ := bind_ok hst
    rw [mapError_eq_ok_iff, OverlayCellProvider.addBaseOverride] at hp
    cases hst
    split_ifs at hp
    cases hp
    exact ⟨hs.1, hs.2, hs.3, hs.4, hs.5, hs.6, hs.7, hs.8, hs.9⟩

end Overlay

@[simp] theorem applyCellDiffToTree_empty (tree : LiveTree hasher) :
    applyCellDiffToTree tree .empty = tree := by
  have hnil : (∅ : CellCollection).toList = [] := rfl
  have hk : (∅ : CellCollection).keys = [] := rfl
  simp only [applyCellDiffToTree, CellDiff.empty, hnil, hk, List.foldl_nil]

structure CommittedBy (ctx : CellProcessingContext hasher) (effect : BlockExecutionEffect)
    (ctx' : CellProcessingContext hasher) : Prop where
  ghostdagData : ctx'.ghostdagData = ctx.ghostdagData
  cellStateTree : ctx'.cellStateTree = applyCellDiffToTree ctx.cellStateTree effect.cellDiff
  diffs : ctx'.blockCellDiffs = if effect.cellDiff.isEmpty then ctx.blockCellDiffs
    else ctx.blockCellDiffs ++ [⟨effect.blockHash, effect.blockDaaScore, effect.cellDiff⟩]
  acceptance : ctx'.mergesetAcceptanceData = if effect.acceptedTransactions.isEmpty then
    ctx.mergesetAcceptanceData
    else ctx.mergesetAcceptanceData ++ [⟨effect.blockHash, effect.acceptedTransactions⟩]
  acceptedTxIds : ctx'.acceptedTxIds = ctx.acceptedTxIds ++ effect.acceptedTxIds
  rewards : ctx'.mergesetRewards = match effect.rewardData with
    | some rewardData => ctx.mergesetRewards.insertIfNew effect.blockHash rewardData
    | none => ctx.mergesetRewards
  verdict : ctx.mergesetCellDiff.withDiffInPlace effect.cellDiff = (.ok (), ctx'.mergesetCellDiff)

theorem commitExecutionEffect_eq_ok {ctx ctx' : CellProcessingContext hasher}
    {effect} (h : commitExecutionEffect ctx effect = .ok ctx') : CommittedBy ctx effect ctx' := by
  obtain ⟨_, hv, h⟩ := bind_ok h
  rw [mapError_eq_ok_iff] at hv
  cases h
  refine ⟨rfl, rfl, rfl, rfl, rfl, rfl, ?_⟩
  exact Prod.ext hv rfl

namespace VirtualStateProcessor

variable {self : VirtualStateProcessor} {stores : BlockStores}

variable {st st' : MergesetState self.hasher} {blk : BlockData}

theorem commitEffect_eq_ok
    {effect : BlockExecutionEffect} (h : self.commitEffect st blk effect = .ok st') :
    CommittedBy st.ctx effect st'.ctx ∧
      st'.processedTxs = insertAll st.processedTxs effect.newlyProcessedTxIds ∧
      ∃ replay, applyEffectToOverlay self.hasher st.replay effect blk = .ok replay ∧
        st'.replay = { replay with accumulatedCycles := effect.consumedCycles } := by
  obtain ⟨replay, hr, h⟩ := bind_ok h
  obtain ⟨ctx, hctx, h⟩ := bind_ok h
  cases h
  exact ⟨commitExecutionEffect_eq_ok hctx, rfl, replay, hr, rfl⟩

theorem loadBlock_eq_ok_iff {h} :
    stores.loadBlock h = .ok blk ↔ blk.hash = h ∧ stores.blockTransactions h = some blk.txs ∧
    stores.daaScores h = some blk.daaScore := by
  unfold BlockStores.loadBlock
  simp only [bind_eq_ok_iff, okOr_eq_ok_iff, pure_eq_ok, Except.ok.injEq]
  constructor
  · rintro ⟨txs, htxs, daa, hdaa, rfl⟩
    exact ⟨rfl, htxs, hdaa⟩
  · rintro ⟨rfl, htxs, hdaa⟩
    exact ⟨_, htxs, _, hdaa, rfl⟩

theorem loadBlue_eq_ok {blue pair} (h : self.loadBlue stores blue = .ok pair) :
    stores.loadBlock blue = .ok pair.1 ∧
    BlockAccessSummary.tryFromBlockTxsWithCellscriptScheduler self.hasher pair.1.txs =
    .ok pair.2 := by
  obtain ⟨blk, hb, h⟩ := bind_ok h
  obtain ⟨summary, hs, h⟩ := bind_ok h
  cases h
  exact ⟨hb, mapError_eq_ok_iff.mp hs⟩

theorem commitLayerEffect_cases {effect} (h : self.commitLayerEffect st (blk, effect) = .ok st') :
    self.commitEffect st blk (invalidateEffectPreservingReward effect blk.hash blk.daaScore) =
    .ok st' ∨ self.commitEffect st blk effect = .ok st' := by
  by_cases hc : executionEffectConflictsWithCurrentState st.ctx.cellStateTree effect = true
  · simp only [commitLayerEffect, if_pos hc] at h
    exact .inl h
  · simp only [commitLayerEffect, if_neg hc] at h
    exact .inr h

theorem executeLayer_eq_ok {layer} (h : self.executeLayer st layer = .ok st') :
    ∃ es, layer.mapM (self.analyzeBlueBlock st.snapshot) = .ok es ∧
    (layer.zip es).foldlM self.commitLayerEffect st = .ok st' := by
  unfold executeLayer at h
  split at h
  case h_2 => exact bind_ok h
  case h_1 blk =>
    obtain ⟨effect, he, h⟩ := bind_ok h
    obtain ⟨_, ha, h⟩ := bind_ok h
    have hf := ensure_eq_ok_iff.mp ha
    refine ⟨[effect], by simp [he], ?_⟩
    simp [commitLayerEffect, hf, h]

-- Invariant rule of step 2. `B` holds of the blocks, `E` is what analysis guarantees of an effect,
-- and `P` is kept by committing such an effect; then `P` is kept by the whole step.
section Invariant

variable {P : MergesetState self.hasher → Prop} {B : BlockData → Prop}
  {E : BlockData → BlockExecutionEffect → Prop}
  (hanalyze : ∀ st blk e, P st → B blk → self.analyzeBlueBlock st.snapshot blk = .ok e → E blk e)
  (hinvalid : ∀ blk e, E blk e → E blk (invalidateEffectPreservingReward e blk.hash blk.daaScore))
  (hcommit : ∀ st st' blk e, P st → E blk e → self.commitEffect st blk e = .ok st' → P st')
include hanalyze hinvalid hcommit

theorem executeLayer_invariant {st st' layer}
    (hlayer : ∀ blk ∈ layer, B blk) (h : self.executeLayer st layer = .ok st') (hP : P st) :
    P st' := by
  obtain ⟨es, he, h⟩ := executeLayer_eq_ok h
  have hall := forall₂_of_mapM_eq_ok he
  refine foldlM_invariant (fun s a ha s' hs hst => ?_) hP h
  obtain ⟨blk, e⟩ := a
  have hE := hanalyze st blk e hP (hlayer blk (List.of_mem_zip ha).1) (List.forall₂_zip hall ha)
  rcases commitLayerEffect_cases hst with hst | hst
  · exact hcommit s s' blk _ hs (hinvalid blk e hE) hst
  · exact hcommit s s' blk _ hs hE hst

theorem executeBlues_invariant {st st' blues}
    (hblues : ∀ blue ∈ blues, ∀ blk, stores.loadBlock blue = .ok blk → B blk)
    (h : self.executeBlues stores st blues = .ok st') (hP : P st) : P st' := by
  obtain ⟨loaded, hl, h⟩ := bind_ok h
  refine foldlM_invariant (fun s layer _ s' hs hst => ?_) hP h
  refine executeLayer_invariant hanalyze hinvalid hcommit ?_ hst hs
  intro blk hb
  obtain ⟨idx, -, hidx⟩ := List.mem_filterMap.mp hb
  obtain ⟨pair, hp, rfl⟩ := Option.map_eq_some_iff.mp hidx
  obtain ⟨blue, hbl, hlo⟩ := exists_mem_of_mapM_eq_ok hl (List.mem_of_getElem? hp)
  exact hblues blue hbl _ (loadBlue_eq_ok hlo).1

end Invariant

end VirtualStateProcessor

end Spora
