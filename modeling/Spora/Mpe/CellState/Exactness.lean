import Spora.Mpe.Analysis.Accepted
import Spora.Mpe.CellState.Agreement

namespace Spora

open Std Outcome CellProcessingContext Patch CellDiff ExtTreeMap List

variable {hasher : Hasher}

-- One change of the context while a mergeset with the blocks `B` is processed: a block's effect is
-- committed as it was executed on the current tree, a block is rejected, or a block is only listed.
inductive MergesetStep (B : BlockData → Prop) (ctx : CellProcessingContext hasher) :
    CellProcessingContext hasher → Prop
  | executed {ctx' block effect accepted} (hB : B block)
    (hexact : effect.cellDiff.toPatch.Exact ctx.cellStateTree.metaAt)
      (hkeyed : effect.cellDiff.AddsKeyed)
      (hexec : Executes ctx.cellStateTree block effect accepted)
      (hcommit : CommittedBy ctx effect ctx') : MergesetStep B ctx ctx'
  | rejected {ctx' effect} (hempty : effect.cellDiff = .empty) (hids : effect.acceptedTxIds = [])
      (hcommit : CommittedBy ctx effect ctx') : MergesetStep B ctx ctx'
  | listed (mergesetAcceptanceData : List MergesetBlockAcceptanceData) : MergesetStep B ctx { ctx
      with mergesetAcceptanceData }

abbrev MergesetRun (B : BlockData → Prop) :
    CellProcessingContext hasher → CellProcessingContext hasher → Prop :=
  Relation.ReflTransGen (MergesetStep B)

-- The diffs of the blocks that changed the state, as patches of the live cells.
def CellProcessingContext.blockPatches (ctx : CellProcessingContext hasher) :
    List (Patch OutPoint CellMeta) :=
  ctx.blockCellDiffs.map fun block => block.cellDiff.toPatch

-- A context on the way from the state `base`: the recorded block diffs are exact one after the
-- other, they lead to the current tree, and the mergeset diff is their composition.
structure Accumulates (base : LiveTree hasher) (ctx : CellProcessingContext hasher) : Prop where
  chain : Patch.ExactChain ctx.blockPatches base.metaAt
  tree : ctx.cellStateTree.metaAt = Patch.applyAll ctx.blockPatches base.metaAt
  diff : ctx.mergesetCellDiff.toPatch = Patch.compAll ctx.blockPatches

theorem accumulates_new (gd) (base : LiveTree hasher) : Accumulates base (new gd base) :=
  ⟨trivial, rfl, toPatch_empty⟩

theorem CellDiff.eq_empty_of_isEmpty {diff : CellDiff} (h : diff.isEmpty = true) :
    diff = .empty := by
  simp only [isEmpty, Bool.and_eq_true, ExtTreeMap.isEmpty_iff] at h
  exact CellDiff.ext h.1 h.2

variable {base : LiveTree hasher} {ctx ctx' : CellProcessingContext hasher}
  {eff : BlockExecutionEffect}

theorem Accumulates.commit (h : Accumulates base ctx)
    (hexact : eff.cellDiff.toPatch.Exact ctx.cellStateTree.metaAt)
    (hkeyed : eff.cellDiff.AddsKeyed) (hcommit : CommittedBy ctx eff ctx') :
    Accumulates base ctx' := by
  by_cases he : eff.cellDiff.isEmpty = true
  · have hd := eq_empty_of_isEmpty he
    have hsa : ctx'.blockPatches = ctx.blockPatches := by
      rw [blockPatches, hcommit.diffs, if_pos he]
      rfl
    have hv := hcommit.verdict
    rw [hd, Prod.mk.injEq] at hv
    refine ⟨?_, ?_, ?_⟩
    · rw [hsa]
      exact h.chain
    · rw [hsa, hcommit.cellStateTree, hd]
      exact h.tree
    · rw [hsa, ← hv.2]
      exact h.diff
  · have hs : ctx'.blockPatches = ctx.blockPatches ++ [eff.cellDiff.toPatch] := by
      rw [blockPatches, hcommit.diffs, if_neg he, map_append]
      rfl
    have hc := toPatch_withDiffInPlace ctx.mergesetCellDiff eff.cellDiff
      (by rw [hcommit.verdict]; rfl)
    rw [hcommit.verdict] at hc
    rw [h.tree] at hexact
    refine ⟨?_, ?_, ?_⟩
    · rw [hs, exactChain_snoc]
      exact ⟨h.chain, hexact⟩
    · rw [hs, applyAll_snoc, hcommit.cellStateTree, metaAt_applyCellDiffToTree _ hkeyed, h.tree]
    · rw [hs, compAll_snoc, ← h.diff]
      exact hc

theorem Accumulates.step {B} (h : Accumulates base ctx) (hstep : MergesetStep B ctx ctx') :
    Accumulates base ctx' := by
  cases hstep with
  | executed _ hex hk _ hc => exact h.commit hex hk hc
  | rejected he _ hc =>
    refine h.commit ?_ ?_ hc
    · rw [he]
      exact empty_exact _
    · intro o m hm
      simp [he, CellDiff.empty] at hm
  | listed => exact ⟨h.chain, h.tree, h.diff⟩

-- Inside a layer: the tree differs from the one in front of the layer only where a block that is
-- already done adds or removes a cell.
def InLayer (s : MergesetState hasher) (done : List (BlockData × BlockExecutionEffect))
    (t : MergesetState hasher) : Prop :=
  ∀ o, (∀ e ∈ done, o ∉ e.2.cellDiff.remove ∧ o ∉ e.2.cellDiff.add) →
    t.ctx.cellStateTree.metaAt o = s.ctx.cellStateTree.metaAt o

theorem Executes.mem_block {block acc} (h : Executes base block eff acc)
    {a} (ha : a ∈ acc) : a.id ∈ block.txIds hasher ∧
    (∀ o ∈ a.tx.spends, o ∈ block.spends) ∧ ∀ cell ∈ a.tx.creates, cell.1.txHash = a.id := by
  rcases h.source a ha with ⟨e, he, rfl⟩ | ⟨coinbase, hh, rfl⟩
  · have htx := fst_mem_of_mem_zipIdx he
    exact ⟨mem_map_of_mem htx, fun o ho => mem_flatMap.mpr ⟨e.1, htx, ho⟩,
      fun _ => txHash_of_mem_outputCells⟩
  · exact ⟨mem_map_of_mem (mem_of_head? hh), by simp [acceptedCoinbase],
      fun _ => txHash_of_mem_outputCells⟩

namespace VirtualStateProcessor

variable {self : VirtualStateProcessor} {stores : BlockStores}

section Layer

variable {s t u : MergesetState self.hasher} {done : List (BlockData × BlockExecutionEffect)}
  {b : BlockData} {eff : BlockExecutionEffect} (h : InLayer s done t)
  (hdone : ∀ e ∈ done, self.analyzeBlueBlock s.snapshot e.1 = .ok e.2)
  (hind : ∀ e ∈ done, b.IndependentOf self.hasher e.1)

include h hdone hind

theorem inLayer_exact (heffect : self.analyzeBlueBlock s.snapshot b = .ok eff) :
    eff.cellDiff.toPatch.Exact t.ctx.cellStateTree.metaAt := by
  have hex := (analyzeBlueBlock_exact heffect).1
  have hw := analyzeBlueBlock_within heffect
  have hre : ∀ o, (eff.cellDiff.toPatch.remove o).isSome →
      t.ctx.cellStateTree.metaAt o = s.ctx.cellStateTree.metaAt o := by
    intro o ho
    refine h o fun e he => ?_
    have hs := (hind e he).spends o (hw.removes o (mem_iff_isSome_getElem?.mpr ho))
    have hb := analyzeBlueBlock_within (hdone e he)
    exact ⟨fun hr => hs.1 (hb.removes o hr), fun ha => hs.2 (hb.adds o ha).1⟩
  refine ⟨fun o m hm => ?_, fun o ho => ?_⟩
  · rw [hre o (by simp [hm])]
    exact hex.remove_eq o m hm
  · rcases hex.add_absent o ho with hn | hrem
    · left
      rw [h o fun e he => ⟨fun hr => ?_, fun ha => ?_⟩]
      · exact hn
      · -- a cell that an earlier block of the layer spends was live in front of the layer
        obtain ⟨m, hm⟩ := TreeMap.exists_of_mem hr
        have hl := (analyzeBlueBlock_exact (hdone e he)).1.remove_eq o m hm
        exact absurd (hn.symm.trans hl) (by simp)
      · have hid := hw.ids _ (hw.adds o (mem_iff_isSome_getElem?.mpr ho)).2
        have hb := analyzeBlueBlock_within (hdone e he)
        exact (hind e he).ids _ hid (hb.ids _ (hb.adds o ha).2)
    · exact .inr hrem

theorem executes_inLayer {acc} (hexec : Executes s.ctx.cellStateTree b eff acc) :
    Executes t.ctx.cellStateTree b eff acc := by
  have hag : ∀ a ∈ acc, ∀ o, a.tx.Touches o →
      s.ctx.cellStateTree.metaAt o = t.ctx.cellStateTree.metaAt o := by
    intro a ha o ho
    obtain ⟨hid, hs, hcr⟩ := hexec.mem_block ha
    refine (h o fun d hd => ?_).symm
    have hb := analyzeBlueBlock_within (hdone d hd)
    rcases ho with hsp | hcreate
    · have hoff := (hind d hd).spends o (hs o hsp)
      exact ⟨fun hr => hoff.1 (hb.removes o hr), fun hadd => hoff.2 (hb.adds o hadd).1⟩
    · obtain ⟨cell, hc, rfl⟩ := mem_map.mp hcreate
      refine ⟨fun hr => ?_, fun hadd => ?_⟩
      · -- what an earlier block of the layer spends was live in front of it, a created cell was not
        obtain ⟨m, hm⟩ := TreeMap.exists_of_mem hr
        have hl := (analyzeBlueBlock_exact (hdone d hd)).1.remove_eq _ m hm
        exact absurd ((hexec.fresh _ ha cell hc).symm.trans hl) (by simp)
      · have hbe := hb.ids _ (hb.adds _ hadd).2
        rw [hcr cell hc] at hbe
        exact (hind d hd).ids _ hid hbe
  refine ⟨hexec.blockHash, hexec.blockDaaScore, hexec.ids, funext fun o => ?_, ?_,
    fun a ha cell hc => ?_, hexec.touched, hexec.source⟩
  · by_cases ho : ∃ a ∈ acc, a.tx.Touches o
    · obtain ⟨a, ha, hto⟩ := ho
      have hsa : eff.cellDiff.toPatch.apply t.ctx.cellStateTree.metaAt o =
          eff.cellDiff.toPatch.apply s.ctx.cellStateTree.metaAt o := by
        rw [apply, apply, hag a ha o hto]
      rw [hsa, hexec.run]
      exact Ledger.run_congr ⟨a.tx, mem_map_of_mem ha, hto⟩
    · have hoff : o ∉ eff.cellDiff.remove ∧ o ∉ eff.cellDiff.add :=
        ⟨fun hr => ho (hexec.touched o (.inl hr)), fun hadd => ho (hexec.touched o (.inr hadd))⟩
      rw [Ledger.run_of_untouched fun tx htx hto => ?_]
      · simp [apply, toPatch, getElem?_eq_none hoff.1, getElem?_eq_none hoff.2]
      · obtain ⟨a, ha, rfl⟩ := mem_map.mp htx
        exact ho ⟨a, ha, hto⟩
  · refine hexec.fit.congr fun tx htx o ho => ?_
    obtain ⟨a, ha, rfl⟩ := mem_map.mp htx
    exact hag a ha o ho
  · rw [← hag a ha cell.1 (.inr (mem_map_of_mem hc))]
    exact hexec.fresh a ha cell hc

omit hdone hind in
theorem inLayer_commit (hstep : self.commitLayerEffect t (b, eff) = .ok u) :
    InLayer s (done ++ [(b, eff)]) u := by
  intro o ho
  have hoff := ho (b, eff) (by simp)
  rw [← h o fun e he => ho e (List.mem_append_left _ he)]
  rcases commitLayerEffect_cases hstep with hstep | hstep
  · rw [(commitEffect_eq_ok hstep).1.cellStateTree]
    exact congrArg (LiveTree.metaAt · o) (applyCellDiffToTree_empty _)
  · rw [(commitEffect_eq_ok hstep).1.cellStateTree, LiveTree.metaAt,
      get_applyCellDiffToTree_of_not_mem hoff.1 hoff.2]
    rfl

variable {B : BlockData → Prop}

theorem commitLayerEffect_step (hB : B b) (heffect : self.analyzeBlueBlock s.snapshot b = .ok eff)
    (hstep : self.commitLayerEffect t (b, eff) = .ok u) : MergesetStep B t.ctx u.ctx := by
  rcases commitLayerEffect_cases hstep with hstep | hstep
  · exact .rejected rfl rfl (commitEffect_eq_ok hstep).1
  · obtain ⟨accepted, he⟩ := analyzeBlueBlock_executes heffect
    exact .executed hB (inLayer_exact h hdone hind heffect) (analyzeBlueBlock_exact heffect).2
      (executes_inLayer h hdone hind he) (commitEffect_eq_ok hstep).1

end Layer

theorem layer_analyzed {s : MergesetState self.hasher} {layer es}
    (hind : IndependentBlocks self.hasher layer)
    (h : layer.mapM (self.analyzeBlueBlock s.snapshot) = .ok es) :
    (∀ e ∈ layer.zip es, self.analyzeBlueBlock s.snapshot e.1 = .ok e.2) ∧
    (layer.zip es).Pairwise fun earlier later => later.1.IndependentOf self.hasher earlier.1 := by
  have hall := forall₂_of_mapM_eq_ok h
  have hfst := map_fst_zip hall.length_eq.le
  have hi' := hfst.symm ▸ hind
  exact ⟨fun e he => List.forall₂_zip hall he, pairwise_map.mp hi'⟩

variable {B : BlockData → Prop}

theorem executeLayer_run {s t layer} (hind : IndependentBlocks self.hasher layer)
    (hB : ∀ block ∈ layer, B block) (h : self.executeLayer s layer = .ok t) :
    MergesetRun B s.ctx t.ctx := by
  obtain ⟨es, hef, h⟩ := executeLayer_eq_ok h
  obtain ⟨ha, hp⟩ := layer_analyzed hind hef
  refine (foldlM_inits (I := fun done u => InLayer s done u ∧ MergesetRun B s.ctx u.ctx) ?_
    ⟨fun _ _ => rfl, .refl⟩ h).2
  rintro done ⟨block, eff⟩ rest u u' hs ⟨hin, hrun⟩ hst
  have hdone : ∀ d ∈ done, self.analyzeBlueBlock s.snapshot d.1 = .ok d.2 :=
    fun d hd => ha d (by simp [hs, hd])
  have he : (block, eff) ∈ layer.zip es := by simp [hs]
  have hpre : ∀ d ∈ done, block.IndependentOf self.hasher d.1 := fun d hd =>
    (pairwise_append.mp (hs ▸ hp)).2.2 d hd (block, eff) (by simp)
  exact ⟨inLayer_commit hin hst,
    hrun.tail (commitLayerEffect_step hin hdone hpre (hB block (of_mem_zip he).1) (ha _ he) hst)⟩

variable {ctx : CellProcessingContext self.hasher} {daa ts : Nat} {pov : Hash}

theorem startMergeset_step
    {st} (hB : ∀ block, stores.loadBlock ctx.ghostdagData.selectedParent = .ok block → B block)
    (h : self.startMergeset stores ctx daa pov ts = .ok st) : MergesetStep B ctx st.ctx := by
  obtain ⟨replay, -, h⟩ := bind_ok h
  obtain ⟨block, hb, h⟩ := bind_ok h
  obtain ⟨eff, he, h⟩ := bind_ok h
  obtain ⟨hex, hk, -⟩ := analyzeSelectedParentCoinbase_exact he
  obtain ⟨accepted, hexec⟩ := analyzeSelectedParentCoinbase_executes he
  exact .executed (hB block hb) hex hk hexec (commitEffect_eq_ok h).1

theorem executeBlues_run {st st' blues}
    (hB : ∀ blue ∈ blues, ∀ block, stores.loadBlock blue = .ok block → B block)
    (h : self.executeBlues stores st blues = .ok st') : MergesetRun B st.ctx st'.ctx := by
  rw [executeBlues_eq] at h
  obtain ⟨loaded, hloaded, h⟩ := bind_ok h
  have hlo : ∀ pair ∈ loaded, B pair.1 ∧
      BlockAccessSummary.tryFromBlockTxsWithCellscriptScheduler self.hasher pair.1.txs =
          .ok pair.2 := by
    intro pair hp
    obtain ⟨blue, hblue, hlo⟩ := exists_mem_of_mapM_eq_ok hloaded hp
    exact ⟨hB blue hblue _ (loadBlue_eq_ok hlo).1, (loadBlue_eq_ok hlo).2⟩
  have hind := independentBlocks_of_mem_blueLayers fun pair hp => (hlo pair hp).2
  have hb : ∀ layer ∈ blueLayers loaded, ∀ block ∈ layer, B block := by
    intro layer hl block hbl
    have hmem : block ∈ loaded.map Prod.fst := by
      rw [← flatten_blueLayers]
      exact mem_flatten.mpr ⟨layer, hl, hbl⟩
    obtain ⟨pair, hp, rfl⟩ := mem_map.mp hmem
    exact (hlo pair hp).1
  exact foldlM_invariant (P := fun s : MergesetState self.hasher => MergesetRun B st.ctx s.ctx)
    (fun s layer hl s' hs hst => hs.trans (executeLayer_run (hind layer hl) (hb layer hl) hst))
      .refl h

theorem executeRed_run {ctx ctx' red} (h : self.executeRed stores ctx red = .ok ctx') :
    MergesetRun B ctx ctx' := by
  obtain ⟨block, -, h⟩ := bind_ok h
  obtain ⟨_, -, h⟩ := bind_ok h
  exact .tail (.single (.listed _)) (.rejected rfl rfl (commitExecutionEffect_eq_ok h))

def OfMergeset (stores : BlockStores) (gd : GhostdagData) (block : BlockData) : Prop :=
  (block.hash = gd.selectedParent ∨ block.hash ∈ gd.mergesetBlues) ∧
    stores.loadBlock block.hash = .ok block

theorem calculateCellState_run {gd tree}
    (h : self.calculateCellState stores (.new gd tree) daa pov ts = .ok ctx) :
    MergesetRun (OfMergeset stores gd) (.new gd tree) ctx := by
  obtain ⟨st, hst, h⟩ := bind_ok h
  obtain ⟨start, hs, hst⟩ := bind_ok hst
  have hl : ∀ hash block, stores.loadBlock hash = .ok block → block.hash = hash ∧
      stores.loadBlock block.hash = .ok block := fun hash block hb => by
    have hh := (loadBlock_eq_ok_iff.mp hb).1
    exact ⟨hh, hh ▸ hb⟩
  have hbl : MergesetRun (OfMergeset stores gd) start.ctx st.ctx :=
      executeBlues_run (fun blue hblue block hb =>
    ⟨.inr ((hl _ _ hb).1.symm ▸ hblue), (hl _ _ hb).2⟩) hst
  have hrun := hbl.head (startMergeset_step (fun block hb =>
    ⟨.inl (hl _ _ hb).1, (hl _ _ hb).2⟩) hs)
  exact foldlM_invariant (fun _ _ _ _ hc hstep => hc.trans (executeRed_run hstep)) hrun h

theorem calculateCellState_accumulates {gd tree}
    (h : self.calculateCellState stores (.new gd tree) daa pov ts = .ok ctx) :
    Accumulates tree ctx := by
  have hrun := calculateCellState_run h
  clear h
  induction hrun with
  | refl => exact accumulates_new gd tree
  | tail _ hs ih => exact ih.step hs

-- The diff of a mergeset, which is what is stored of it, makes just the cells of the executed state
-- live.
theorem mergesetCellDiff_live (self : VirtualStateProcessor) (stores : BlockStores)
    (gd : GhostdagData) (tree : LiveTree self.hasher) (daa ts : Nat) (pov : Hash) :
    match self.calculateCellState stores (.new gd tree) daa pov ts with
    | .ok ctx => ∀ o, ((applyCellDiffToTree tree ctx.mergesetCellDiff).get o).isSome =
      (ctx.cellStateTree.get o).isSome
    | .error _ => True := by
  split
  · rename_i ctx h
    intro o
    have hacc := calculateCellState_accumulates h
    have hnet := hacc.diff.trans hacc.chain.compAll_eq
    have hl := hacc.chain.lastRemoved_isSome (k := o)
    rw [get_applyCellDiffToTree, hnet, ← LiveTree.map_metaAt, hacc.tree]
    simp only [Patch.apply, Patch.map, net, ← LiveTree.map_metaAt tree]
    cases hf : tree.metaAt o <;> cases hg : applyAll ctx.blockPatches tree.metaAt o <;>
      cases hv : lastRemoved ctx.blockPatches o <;> simp_all
  · trivial

end VirtualStateProcessor

end Spora
