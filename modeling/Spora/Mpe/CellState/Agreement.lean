import Spora.Mpe.AccessSummary.Lemmas
import Spora.Mpe.Analysis.Agreement
import Spora.Mpe.CellState.Lemmas

namespace Spora

open Std Outcome ReplayValidationContext List BlockAccessSummary

variable {hasher : Hasher}

namespace VirtualStateProcessor

section Reference

variable (self : VirtualStateProcessor) (stores : BlockStores)

-- The serial reference: every blue is analysed on the state left by all earlier blues.
def executeBluesSerially (st : MergesetState self.hasher) (mergesetBlues : List Hash) :
    Except RuleError (MergesetState self.hasher) := do
  let blocks ← mergesetBlues.mapM stores.loadBlock
  blocks.foldlM self.executeBlock st

def calculateCellStateSerially (ctx : CellProcessingContext self.hasher) (povDaaScore : Nat)
    (snapshotPov : Hash) (currentTimestamp : Nat) :
    Except RuleError (CellProcessingContext self.hasher) := do
  let st ← self.startMergeset stores ctx povDaaScore snapshotPov currentTimestamp
  let st ← self.executeBluesSerially stores st ctx.ghostdagData.mergesetBlues
  ctx.ghostdagData.mergesetReds.foldlM (self.executeRed stores) st.ctx

def blueLayers (blues : List (BlockData × BlockAccessSummary)) : List (List BlockData) :=
  (Layers.layers (fun later earlier => later.2.hasDependencyOn earlier.2) blues).map
    (List.map Prod.fst)

-- Before a layer of several blocks: no block conflicts with the very state it was analysed on, and
-- what validation reads of it besides inputs and cell deps is not touched by a block in front.
def LayerMeets (st : MergesetState self.hasher) (layer : List BlockData) : Prop :=
  layer.length = 1 ∨
      (∀ block ∈ layer, ∀ effect ∈ (self.analyzeBlueBlock st.snapshot block).toOption,
      executionEffectConflictsWithCurrentState st.ctx.cellStateTree effect = false) ∧
    layer.Pairwise fun earlier later => ∀ o ∈ self.blockReads st.snapshot later,
      o ∉ earlier.spends ∧ o ∉ earlier.creates self.hasher

-- Every layer of a run meets the condition on the state in front of it.
def RunMeets : MergesetState self.hasher → List (List BlockData) → Prop
  | _, [] => True
  | st, layer :: rest => self.LayerMeets st layer ∧ ∀ st' ∈ (self.executeLayer st layer).toOption,
      RunMeets st' rest

instance (st : MergesetState self.hasher) (layer : List BlockData) :
    Decidable (self.LayerMeets st layer) :=
  inferInstanceAs (Decidable (_ ∨ _))

instance decidableRunMeets : (layers : List (List BlockData)) → (st : MergesetState self.hasher) →
    Decidable (self.RunMeets st layers)
  | [], _ => .isTrue trivial
  | _ :: rest, _ =>
    have := decidableRunMeets rest
    inferInstanceAs (Decidable (_ ∧ _))

end Reference

variable {self : VirtualStateProcessor} {stores : BlockStores}

theorem executeBlues_eq (st blues) : self.executeBlues stores st blues = (do
      let loaded ← blues.mapM (self.loadBlue stores)
      (blueLayers loaded).foldlM self.executeLayer st) := by
  unfold executeBlues
  congr 1
  funext loaded
  have hpos : ∀ i j a b, loaded[i]? = some a →
      loaded[j]? = some b → ExecutionDAG.dependsOn (loaded.map Prod.snd) i j =
        (fun later e => later.2.hasDependencyOn e.2) a b :=
    fun i j a b ha hb => by simp [ExecutionDAG.dependsOn, ha, hb]
  have hl := Layers.layers_getElem? loaded hpos
  rw [blueLayers, ← hl, foldlM_map, foldlM_map]
  simp only [ExecutionDAG.build, length_map, map_filterMap]

-- Cells of the overlay come from transactions that are marked as processed.
def AddedProcessed (st : MergesetState hasher) : Prop :=
  ∀ o : OutPoint, o ∈ st.replay.provider.added → o.txHash ∈ st.processedTxs

-- `s'` is reached from `s` by committing effects that touch the outpoints `T` and process the
-- transactions `ids`.
structure Advanced (T : OutPoint → Prop) (ids : Hash → Prop) (s s' : MergesetState hasher) :
    Prop where
  frame : SameFrame s.replay s'.replay
  added : ∀ o : OutPoint, ¬ T o → s.replay.provider.added[o]? = s'.replay.provider.added[o]?
  removed : ∀ o : OutPoint, ¬ T o → (o ∈ s.replay.provider.removed ↔ o ∈ s'.replay.provider.removed)
  tree : ∀ o, ¬ T o → s.ctx.cellStateTree.get o = s'.ctx.cellStateTree.get o
  processed : ∀ id : Hash, id ∈ s'.processedTxs ↔ id ∈ s.processedTxs ∨ ids id
  spent : ∀ o : OutPoint, T o → o.txHash ∉ s'.processedTxs →
    s.ctx.cellStateTree.get o ≠ none ∧ o ∈ s'.replay.provider.removed
  known : AddedProcessed s'

theorem Advanced.refl {s : MergesetState hasher} (h : AddedProcessed s) :
    Advanced (fun _ => False) (fun _ => False) s s where
  frame := SameFrame.refl _
  added _ _ := rfl
  removed _ _ := Iff.rfl
  tree _ _ := rfl
  processed _ := by simp
  spent _ h := h.elim
  known := h

variable {eff : BlockExecutionEffect}

variable {block : BlockData}

theorem AddedProcessed.commitEffect {s s'} (hs : AddedProcessed s)
    (hadds : ∀ o ∈ eff.cellDiff.add, o.txHash ∈ eff.newlyProcessedTxIds)
    (h : self.commitEffect s block eff = .ok s') : AddedProcessed s' := by
  obtain ⟨-, hp, replay, hr, heq⟩ := commitEffect_eq_ok h
  intro o ho
  rw [heq] at ho
  rw [hp, mem_insertAll]
  exact ((applyEffectToOverlay_eq_ok hr).mem_added o ho).imp (hs o) (hadds o)

theorem get_applyCellDiffToTree_of_not_mem {tree : LiveTree hasher} {diff o}
    (hrem : o ∉ diff.remove) (hadd : o ∉ diff.add) :
    (applyCellDiffToTree tree diff).get o = tree.get o := by
  rw [get_applyCellDiffToTree]
  simp [Patch.apply, Patch.map, CellDiff.toPatch, ExtTreeMap.getElem?_eq_none hrem,
    ExtTreeMap.getElem?_eq_none hadd]

theorem Advanced.commit {T ids s t u} (h : Advanced T ids s t)
    (heffect : self.analyzeBlueBlock s.snapshot block = .ok eff)
    (hcommit : self.commitEffect t block eff = .ok u) :
    Advanced (fun o => T o ∨ o ∈ eff.cellDiff.remove ∨ o ∈ eff.cellDiff.add)
    (fun id => ids id ∨ id ∈ eff.newlyProcessedTxIds) s u := by
  have hw := analyzeBlueBlock_within heffect
  have he := (analyzeBlueBlock_exact heffect).1
  obtain ⟨hctx, hpr, replay, hr, heq⟩ := commitEffect_eq_ok hcommit
  have hov := applyEffectToOverlay_eq_ok hr
  have hp : ∀ id, id ∈ u.processedTxs ↔
      id ∈ t.processedTxs ∨ id ∈ eff.newlyProcessedTxIds := fun id => by rw [hpr, mem_insertAll]
  refine ⟨?_, fun o ho => ?_, fun o ho => ?_, fun o ho => ?_, fun id => ?_, fun o ho hid => ?_, ?_⟩
  · have hf := h.frame.trans hov.frame
    rw [heq]
    exact ⟨hf.1, hf.2, hf.3, hf.4, hf.5, hf.6, hf.7, hf.8⟩
  · rw [not_or, not_or] at ho
    rw [heq, h.added o ho.1]
    exact (hov.added o ho.2.1 ho.2.2).symm
  · rw [not_or, not_or] at ho
    rw [heq, h.removed o ho.1]
    exact (hov.removed o ho.2.1).symm
  · rw [not_or, not_or] at ho
    rw [h.tree o ho.1, hctx.cellStateTree, get_applyCellDiffToTree_of_not_mem ho.2.1 ho.2.2]
  · rw [hp, h.processed, or_assoc]
  · rw [hp, not_or] at hid
    rw [heq]
    rcases ho with ho | ho | ho
    · obtain ⟨hl, hs⟩ := h.spent o ho hid.1
      exact ⟨hl, hov.grows o hs⟩
    · -- an overlay cell would come from a processed transaction
      refine ⟨?_, hov.spent o ho fun hadd => hid.1 (h.known o hadd)⟩
      obtain ⟨m, hm⟩ := TreeMap.exists_of_mem ho
      have hl := he.remove_eq o m hm
      rw [← Option.isSome_iff_ne_none, ← Option.isSome_map]
      exact Option.isSome_iff_exists.mpr ⟨m, hl⟩
    · exact absurd (hw.adds o ho).2 hid.2
  · exact h.known.commitEffect (fun o ho => (hw.adds o ho).2) hcommit

theorem conflicts_eq_of_within {tree tree' : LiveTree hasher}
    (hwithin : AnalysisState.Within hasher block eff) (hspends : ∀ o ∈ block.spends,
      tree.get o = tree'.get o) (hdeps : ∀ o ∈ block.deps, tree.get o = tree'.get o) :
    executionEffectConflictsWithCurrentState tree eff =
    executionEffectConflictsWithCurrentState tree' eff := by
  have hrem : ∀ o ∈ eff.cellDiff.remove.keys, outpointExistsInTree tree o =
      outpointExistsInTree tree' o := by
    intro o ho
    rw [outpointExistsInTree, hspends o (hwithin.removes o (ExtTreeMap.mem_keys.mp ho))]
    rfl
  have hr : ∀ o ∈ eff.readDeps.toList, outpointExistsInTree tree o =
      outpointExistsInTree tree' o := by
    intro o ho
    rw [outpointExistsInTree, hdeps o (hwithin.reads o (ExtTreeSet.mem_toList.mp ho))]
    rfl
  rw [Bool.eq_iff_iff]
  simp only [executionEffectConflictsWithCurrentState, Bool.or_eq_true, any_eq_true]
  refine or_congr (exists_congr fun o => and_congr_right fun ho => ?_)
    (exists_congr fun o => and_congr_right fun ho => ?_)
  · rw [hrem o ho]
  · rw [hr o ho]

def IndependentBlocks (hasher : Hasher) (layer : List BlockData) : Prop :=
  layer.Pairwise fun earlier later => later.IndependentOf hasher earlier

-- The blocks `pre` of the layer are committed; `T` and `ids` are what they touched and processed.
structure PartOfLayer (pre : List BlockData) (T : OutPoint → Prop) (ids : Hash → Prop)
    (hasher : Hasher) : Prop where
  touched : ∀ o, T o → ∃ b ∈ pre, o ∈ b.spends ∨ o ∈ b.creates hasher
  ids : ∀ id, ids id → ∃ b ∈ pre, id ∈ b.txIds hasher

theorem PartOfLayer.snoc {pre : List BlockData} {T : OutPoint → Prop} {ids : Hash → Prop}
    (h : PartOfLayer pre T ids hasher) (hwithin : AnalysisState.Within hasher block eff) :
    PartOfLayer (pre ++ [block])
    (fun o => T o ∨ o ∈ eff.cellDiff.remove ∨ o ∈ eff.cellDiff.add)
    (fun id => ids id ∨ id ∈ eff.newlyProcessedTxIds) hasher where
  touched o ho := by
    rcases ho with ho | ho | ho
    · obtain ⟨b, hb, hob⟩ := h.touched o ho
      exact ⟨b, mem_append_left _ hb, hob⟩
    · exact ⟨block, by simp, .inl (hwithin.removes o ho)⟩
    · exact ⟨block, by simp, .inr (hwithin.adds o ho).1⟩
  ids id hid := by
    rcases hid with hid | hid
    · obtain ⟨b, hb, hidb⟩ := h.ids id hid
      exact ⟨b, mem_append_left _ hb, hidb⟩
    · exact ⟨block, by simp, hwithin.ids id hid⟩

section OneBlock

variable {T : OutPoint → Prop} {ids : Hash → Prop} {s t : MergesetState self.hasher}
  {pre : List BlockData} {block : BlockData}

theorem PartOfLayer.not_touched (hpart : PartOfLayer pre T ids hasher)
    (hindependent : ∀ b ∈ pre, block.IndependentOf hasher b) :
    (∀ o ∈ block.spends, ¬ T o) ∧ (∀ o ∈ block.deps, ¬ T o) ∧ ∀ id ∈ block.txIds hasher,
    ¬ ids id := by
  refine ⟨fun o ho hT => ?_, fun o ho hT => ?_, fun id hid hids => ?_⟩
  · obtain ⟨b, hb, hob⟩ := hpart.touched o hT
    obtain ⟨hs, hc⟩ := (hindependent b hb).spends o ho
    exact hob.elim hs hc
  · obtain ⟨b, hb, hob⟩ := hpart.touched o hT
    obtain ⟨hs, hc⟩ := (hindependent b hb).deps o ho
    exact hob.elim hs hc
  · obtain ⟨b, hb, hidb⟩ := hpart.ids id hids
    exact (hindependent b hb).ids id hid hidb

theorem Advanced.analyzeBlueBlock_sim (h : Advanced T ids s t)
    (hpart : PartOfLayer pre T ids self.hasher)
    (hindependent : ∀ b ∈ pre, block.IndependentOf self.hasher b)
    (hreads : ∀ b ∈ pre, ∀ o ∈ self.blockReads s.snapshot block,
      o ∉ b.spends ∧ o ∉ b.creates self.hasher) :
    Sim Eq (self.analyzeBlueBlock s.snapshot block) (self.analyzeBlueBlock t.snapshot block) := by
  obtain ⟨hsp, hd, hids⟩ := hpart.not_touched hindependent
  have hp : ∀ tx ∈ block.txs, self.hasher.txid tx ∈ s.processedTxs ↔
      self.hasher.txid tx ∈ t.processedTxs := by
    intro tx htx
    rw [h.processed]
    simp [hids _ (mem_map_of_mem htx)]
  have ha : SnapshotsAgree T (fun id => id ∉ t.processedTxs) s.snapshot t.snapshot :=
    ⟨⟨⟨h.frame.1, h.frame.2, h.frame.3, h.frame.4, h.frame.5, h.frame.6, h.frame.7, h.frame.8⟩,
      rfl, h.added, h.removed⟩, h.tree, h.spent⟩
  refine VirtualStateProcessor.analyzeBlueBlock_sim ha (fun tx htx => ?_) fun o ho hT => ?_
  · refine ⟨hp tx htx, mt (hp tx htx).mpr, fun o ho => ?_, fun o ho => ?_⟩
    · exact hsp o (mem_flatMap.mpr ⟨tx, htx, ho⟩)
    · exact hd o (mem_flatMap.mpr ⟨tx, htx, ho⟩)
  · obtain ⟨b, hb, hob⟩ := hpart.touched o hT
    obtain ⟨hs, hc⟩ := hreads b hb o ho
    exact hob.elim hs hc

end OneBlock

def Committing (s : MergesetState self.hasher) (layer rest : List BlockData)
    (t : MergesetState self.hasher) : Prop :=
  ∃ pre T ids, layer = pre ++ rest ∧ PartOfLayer pre T ids self.hasher ∧ Advanced T ids s t

section Committing

variable {s t u : MergesetState self.hasher} {layer rest : List BlockData} {block : BlockData}
  {eff : BlockExecutionEffect}

variable (h : Committing s layer (block :: rest) t)
include h

theorem Committing.commit (heffect : self.analyzeBlueBlock s.snapshot block = .ok eff)
    (hcommit : self.commitEffect t block eff = .ok u) : Committing s layer rest u := by
  obtain ⟨pre, T, ids, rfl, hp, hadvanced⟩ := h
  exact ⟨pre ++ [block], _, _, by simp, hp.snoc (analyzeBlueBlock_within heffect),
    hadvanced.commit heffect hcommit⟩

theorem Committing.analyze (hindependent : IndependentBlocks self.hasher layer)
    (hreads : layer.Pairwise fun e later => ∀ o ∈ self.blockReads s.snapshot later,
      o ∉ e.spends ∧ o ∉ e.creates self.hasher) :
    Sim Eq (self.analyzeBlueBlock s.snapshot block) (self.analyzeBlueBlock t.snapshot block) ∧
    ∀ eff, self.analyzeBlueBlock s.snapshot block = .ok eff →
    executionEffectConflictsWithCurrentState s.ctx.cellStateTree eff =
    executionEffectConflictsWithCurrentState t.ctx.cellStateTree eff := by
  obtain ⟨pre, T, ids, rfl, hpa, hadvanced⟩ := h
  have hpre : ∀ b ∈ pre, block.IndependentOf self.hasher b := fun b hb =>
    (pairwise_append.mp hindependent).2.2 b hb block (by simp)
  have hp := fun b hb => (pairwise_append.mp hreads).2.2 b hb block (by simp)
  obtain ⟨hs, hd, -⟩ := hpa.not_touched hpre
  refine ⟨hadvanced.analyzeBlueBlock_sim hpa hpre hp, fun eff he => ?_⟩
  exact conflicts_eq_of_within (analyzeBlueBlock_within he)
    (fun o ho => hadvanced.tree o (hs o ho)) fun o ho => hadvanced.tree o (hd o ho)

end Committing

theorem executeLayer_sim {s layer}
    (hknown : AddedProcessed s) (hindependent : IndependentBlocks self.hasher layer)
    (hmeets : self.LayerMeets s layer) :
    Sim Eq (self.executeLayer s layer) (layer.foldlM self.executeBlock s) := by
  by_cases hl : layer.length = 1
  · obtain ⟨block, rfl⟩ := length_eq_one_iff.mp hl
    simp only [foldlM_cons, foldlM_nil, bind_pure]
    exact Sim.refl
  obtain ⟨hco, hr⟩ := hmeets.resolve_left hl
  have hb : self.executeLayer s layer = (layer.mapM (self.analyzeBlueBlock s.snapshot) >>=
      fun es => (layer.zip es).foldlM self.commitLayerEffect s) := by
    unfold executeLayer
    split
    · simp at hl
    · rfl
  rw [hb]
  -- an effect that does not conflict with the snapshot does not conflict later on
  have hf : ∀ block rest t eff, Committing s layer (block :: rest) t →
      self.analyzeBlueBlock s.snapshot block = .ok eff →
      executionEffectConflictsWithCurrentState t.ctx.cellStateTree eff = false := by
    intro block rest t eff ht he
    have hmem : block ∈ layer := by
      obtain ⟨pre, _, _, rfl, -⟩ := ht
      simp
    rw [← (ht.analyze hindependent hr).2 eff he]
    exact hco block hmem eff (mem_toOption_iff.mpr he)
  refine Sim.batched (P := Committing s layer) (fun block rest t ht => ?_)
    (fun block rest t u eff ht he hc => ?_)
    ⟨[], fun _ => False, fun _ => False, rfl, ⟨by simp, by simp⟩, Advanced.refl hknown⟩
  · unfold executeBlock
    refine Sim.bind_of_eq (ht.analyze hindependent hr).1 fun eff effect' he _ heq => ?_
    subst heq
    have hno := hf block rest t eff ht he
    simp only [commitLayerEffect, ensureExecutionEffectAvailableForCommit, hno]
    exact Sim.refl
  · have hno := hf block rest t eff ht he
    simp only [commitLayerEffect, hno] at hc
    exact ht.commit he hc

theorem foldlM_executeLayer_sim {s layers} (hknown : AddedProcessed s)
    (hindependent : ∀ layer ∈ layers, IndependentBlocks self.hasher layer)
    (hmeets : self.RunMeets s layers) :
    Sim Eq (layers.foldlM self.executeLayer s) (layers.flatten.foldlM self.executeBlock s) := by
  induction layers generalizing s with
  | nil => exact .ok rfl
  | cons layer layers ih =>
    rw [flatten_cons, foldlM_append]
    refine Sim.bind_of_eq (executeLayer_sim hknown (hindependent layer (by simp)) hmeets.1)
      fun t t' ht _ heq => ?_
    subst heq
    have hk' := executeLayer_invariant
        (fun _ _ _ _ _ he o ho => ((analyzeBlueBlock_within he).adds o ho).2)
        (fun block eff _ o ho => by
          simp [invalidateEffectPreservingReward, BlockExecutionEffect.empty, CellDiff.empty] at ho)
        (fun _ _ _ _ hs hE hst => hs.commitEffect hE hst) (fun _ _ => trivial) ht hknown
    exact ih hk' (fun l hl => hindependent l (mem_cons_of_mem layer hl))
      (hmeets.2 t (mem_toOption_iff.mpr ht))

theorem flatten_blueLayers (loaded) : (blueLayers loaded).flatten = loaded.map Prod.fst := by
  rw [blueLayers, ← map_flatten, Layers.flatten_layers]

theorem independentBlocks_of_mem_blueLayers {loaded}
    (hsummary : ∀ pair ∈ loaded, tryFromBlockTxsWithCellscriptScheduler hasher
      pair.1.txs = .ok pair.2) : ∀ layer ∈ blueLayers loaded, IndependentBlocks hasher layer := by
  intro layer hl
  obtain ⟨pairs, hp, rfl⟩ := mem_map.mp hl
  have hmem : ∀ pair ∈ pairs, pair ∈ loaded := by
    intro pair hpa
    rw [← Layers.flatten_layers (fun later e => later.2.hasDependencyOn e.2) loaded]
    exact mem_flatten.mpr ⟨pairs, hp, hpa⟩
  refine pairwise_map.mpr ((Layers.independent_of_mem_layers pairs hp).imp_of_mem ?_)
  intro e later he hla hdep
  exact BlockData.independentOf_of_hasDependencyOn (hsummary later (hmem later hla))
    (hsummary e (hmem e he)) hdep

theorem startMergeset_addedProcessed {ctx daa ts pov st}
    (h : self.startMergeset stores ctx daa pov ts = .ok st) : AddedProcessed st := by
  obtain ⟨replay, hr, h⟩ := bind_ok h
  obtain ⟨block, -, h⟩ := bind_ok h
  obtain ⟨eff, he, h⟩ := bind_ok h
  have ha := (seedBaseOverridesFromTree_eq_ok hr).added
  refine AddedProcessed.commitEffect (fun o ho => ?_) (analyzeSelectedParentCoinbase_exact he).2.2 h
  simp [ha, buildReplayValidationContext, OverlayCellProvider.new] at ho

def SameRecords (c d : CellProcessingContext hasher) : Prop :=
  c.cellStateTree = d.cellStateTree ∧ c.acceptedTxIds = d.acceptedTxIds ∧
    c.mergesetAcceptanceData = d.mergesetAcceptanceData ∧ c.mergesetRewards = d.mergesetRewards

def MergesetMeets (self : VirtualStateProcessor) (stores : BlockStores)
    (ctx : CellProcessingContext self.hasher) (daa : Nat) (pov : Hash) (ts : Nat) : Prop :=
  ∀ st ∈ (self.startMergeset stores ctx daa pov ts).toOption,
    ∀ loaded ∈ (ctx.ghostdagData.mergesetBlues.mapM (self.loadBlue stores)).toOption,
      self.RunMeets st (blueLayers loaded)

def WitnessesDecode (self : VirtualStateProcessor) (stores : BlockStores) (blue : Hash) : Prop :=
  ∀ block ∈ (stores.loadBlock blue).toOption,
    (BlockAccessSummary.tryFromBlockTxsWithCellscriptScheduler self.hasher block.txs).isOk

instance (self : VirtualStateProcessor) (stores : BlockStores)
    (ctx : CellProcessingContext self.hasher) (daa : Nat) (pov : Hash) (ts : Nat) :
    Decidable (self.MergesetMeets stores ctx daa pov ts) :=
  inferInstanceAs (Decidable (∀ st ∈ (self.startMergeset stores ctx daa pov ts).toOption, _))

instance (self : VirtualStateProcessor) (stores : BlockStores) (blue : Hash) :
    Decidable (self.WitnessesDecode stores blue) :=
  inferInstanceAs (Decidable (∀ block ∈ (stores.loadBlock blue).toOption, _))

theorem loadBlue_sim {blue} (hwitness : self.WitnessesDecode stores blue) :
    Sim (fun pair block => pair.1 = block) (self.loadBlue stores blue) (stores.loadBlock blue) := by
  unfold loadBlue
  cases hb : stores.loadBlock blue with
  | error e => exact .error _ _
  | ok block =>
    have hok := hwitness block (mem_toOption_iff.mpr hb)
    cases hs : tryFromBlockTxsWithCellscriptScheduler self.hasher
        block.txs with
    | error e => simp [hs, Except.toBool] at hok
    | ok summary =>
      simp only [ok_bind, hs]
      exact .ok rfl

-- Layered and serial execution of a mergeset agree when every layer meets its condition.
theorem calculateCellState_sim_serial (self : VirtualStateProcessor) (stores : BlockStores)
    (ctx : CellProcessingContext self.hasher) (daa : Nat) (pov : Hash) (ts : Nat)
    (hwitness : ∀ blue ∈ ctx.ghostdagData.mergesetBlues, self.WitnessesDecode stores blue)
    (hmeets : self.MergesetMeets stores ctx daa pov ts) :
    Sim SameRecords (self.calculateCellState stores ctx daa pov ts)
    (self.calculateCellStateSerially stores ctx daa pov ts) := by
  have hbl : ∀ st, self.startMergeset stores ctx daa pov ts = .ok st →
      Sim Eq (self.executeBlues stores st ctx.ghostdagData.mergesetBlues)
        (self.executeBluesSerially stores st ctx.ghostdagData.mergesetBlues) := by
    intro st hst
    rw [executeBlues_eq]
    refine Sim.bind_of_eq (Sim.mapM fun blue hb => loadBlue_sim (hwitness blue hb))
      fun loaded blocks hl _ hall => ?_
    have hfst := forall₂_eq_eq_eq ▸ forall₂_map_left_iff.mpr hall
    have hs : ∀ pair ∈ loaded, tryFromBlockTxsWithCellscriptScheduler
        self.hasher pair.1.txs = .ok pair.2 := by
      intro pair hp
      obtain ⟨blue, -, hb⟩ := exists_mem_of_mapM_eq_ok hl hp
      exact (loadBlue_eq_ok hb).2
    rw [← hfst, ← flatten_blueLayers]
    exact foldlM_executeLayer_sim (startMergeset_addedProcessed hst)
      (independentBlocks_of_mem_blueLayers hs)
      (hmeets st (mem_toOption_iff.mpr hst) loaded (mem_toOption_iff.mpr hl))
  unfold calculateCellState executeBlueMergeset calculateCellStateSerially
  rw [bind_assoc]
  refine Sim.bind_of_eq Sim.refl fun st st' hst _ heq => ?_
  subst heq
  refine Sim.bind (hbl st hst) fun t t' ht => ?_
  subst ht
  exact Sim.refl.mono fun c d hcd => by subst hcd; exact ⟨rfl, rfl, rfl, rfl⟩

section SharedGroup

-- Block 2 spends cell 101; block 3 spends cell 102 and refers to the group cell 103.
def groupStores : BlockStores where
  blockTransactions block :=
    if block = 1 then some [sampleCoinbase 500]
    else if block = 2 then some [sampleCoinbase 501, samplePayment ⟨101, 0⟩ []]
    else if block = 3 then
      some [sampleCoinbase 502, samplePayment ⟨102, 0⟩ [⟨⟨103, 0⟩, .depGroup⟩]]
    else none
  daaScores _ := some 20

def groupData (members : List OutPoint) : Bytes :=
  leBytes 4 members.length ++ members.flatMap fun o => leBytes 32 o.txHash ++ leBytes 4 o.index

def groupContext (member : OutPoint) : CellProcessingContext sample.hasher :=
  .new ⟨5, 1, [1, 2, 3], []⟩ <| ([(⟨101, 0⟩, []), (⟨102, 0⟩, []), (⟨103, 0⟩, groupData [member]),
    (⟨104, 0⟩, [])] : List (OutPoint × Bytes)).foldl
      (fun tree cell => tree.insert cell.1 (sampleCell cell.2)) LiveTree.empty

theorem calculateCellState_sim_serial_unspent_member :
    (sample.calculateCellState groupStores (groupContext ⟨104, 0⟩) 30 9 0).isOk = true ∧
    Sim SameRecords (sample.calculateCellState groupStores (groupContext ⟨104, 0⟩) 30 9 0)
    (sample.calculateCellStateSerially groupStores (groupContext ⟨104, 0⟩) 30 9 0) :=
  ⟨by decide, calculateCellState_sim_serial sample groupStores (groupContext ⟨104, 0⟩) 30 9 0
    (by decide) (by decide)⟩

-- The group lists the cell that block 2 spends: the layers accept what the reference rejects.
theorem spent_member_not_sim :
    ¬ Sim SameRecords (sample.calculateCellState groupStores (groupContext ⟨101, 0⟩) 30 9 0)
    (sample.calculateCellStateSerially groupStores (groupContext ⟨101, 0⟩) 30 9 0) := by
  have hl : (sample.calculateCellState groupStores (groupContext ⟨101, 0⟩) 30 9 0).isOk = true := by
    decide
  intro h
  rw [h.isOk_eq] at hl
  exact absurd hl (by decide)

end SharedGroup

end VirtualStateProcessor

end Spora
