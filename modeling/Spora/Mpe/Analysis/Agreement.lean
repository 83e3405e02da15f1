import Spora.Mpe.Analysis.Lemmas

namespace Spora

open Std Outcome ReplayValidationContext Sim

-- Two runs of the analysis of one block, on two snapshots that differ only at outpoints that the
-- block does not mention. `T` stands for these outpoints.
variable {hasher : Hasher} {T : OutPoint → Prop}

structure SameOff (T : OutPoint → Prop) (c c' : ReplayValidationContext) : Prop where
  frame : SameFrame c c'
  cycles : c.accumulatedCycles = c'.accumulatedCycles
  added : ∀ o : OutPoint, ¬ T o → c.provider.added[o]? = c'.provider.added[o]?
  removed : ∀ o : OutPoint, ¬ T o → (o ∈ c.provider.removed ↔ o ∈ c'.provider.removed)

section Overlay

variable {c c' : ReplayValidationContext} {o : OutPoint}

theorem SameOff.mem_added (h : SameOff T c c') (ho : ¬ T o) :
    o ∈ c.provider.added ↔ o ∈ c'.provider.added := by
  rw [ExtTreeMap.mem_iff_isSome_getElem?, ExtTreeMap.mem_iff_isSome_getElem?, h.added o ho]

theorem SameOff.getCellMetadata_eq (h : SameOff T c c') (ho : ¬ T o) :
    c.provider.getCellMetadata o = c'.provider.getCellMetadata o := by
  simp only [OverlayCellProvider.getCellMetadata, h.removed o ho, h.added o ho, h.frame.base,
    h.frame.basePov, h.frame.baseOverrides]

def SpentSince (c d : ReplayValidationContext) : Prop :=
  ∀ o : OutPoint, o ∈ c.provider.removed → o ∈ d.provider.removed

variable (h : SameOff T c c')
include h

theorem SameOff.withProviders {added added' : ExtTreeMap OutPoint CellMetadata}
    {removed removed' : ExtTreeSet OutPoint} (hadd : ∀ k, ¬ T k → added[k]? = added'[k]?)
    (hrem : ∀ k, ¬ T k → (k ∈ removed ↔ k ∈ removed')) :
    SameOff T { c with provider := { c.provider with added := added, removed := removed } }
      { c' with provider := { c'.provider with added := added', removed := removed' } } where
  frame := ⟨h.frame.1, h.frame.2, h.frame.3, h.frame.4, h.frame.5, h.frame.6, h.frame.7, h.frame.8⟩
  cycles := h.cycles
  added := hadd
  removed := hrem

theorem SameOff.spendCell_sim (ho : ¬ T o) :
    Sim (fun d d' => SameOff T d d' ∧ SpentSince c' d') (c.spendCell o) (c'.spendCell o) := by
  have hr' := h.removed o ho
  have ha' := h.mem_added ho
  by_cases hrem : o ∈ c.provider.removed
  · obtain ⟨e, he⟩ := spendCell_of_mem_removed hrem
    obtain ⟨e', he'⟩ := spendCell_of_mem_removed (hr'.mp hrem)
    rw [he, he']
    exact .error _ _
  by_cases hadd : o ∈ c.provider.added
  · rw [spendCell_of_mem_added hrem hadd, spendCell_of_mem_added (mt hr'.mpr hrem) (ha'.mp hadd)]
    refine .ok ⟨h.withProviders (fun k hk => ?_) h.removed, fun k hk => hk⟩
    simp only [TreeMap.getElem?_erase_eq, h.added k hk]
  · rw [spendCell_of_not_mem hrem hadd, spendCell_of_not_mem (mt hr'.mpr hrem) (mt ha'.mpr hadd)]
    refine .ok ⟨h.withProviders h.added fun k hk => ?_, fun k hk => ?_⟩
    · simp [h.removed k hk]
    · exact ExtTreeSet.mem_insert.mpr (.inr hk)

theorem SameOff.addCell_sim {md} (ho : ¬ T md.outPoint) :
    Sim (fun d d' => SameOff T d d' ∧ SpentSince c' d') (c.addCell md) (c'.addCell md) := by
  have hdup : md.outPoint ∈ c.provider.removed ∨ md.outPoint ∈ c.provider.added ↔
      md.outPoint ∈ c'.provider.removed ∨ md.outPoint ∈ c'.provider.added := by
    rw [h.removed _ ho, h.mem_added ho]
  by_cases hmem : md.outPoint ∈ c.provider.removed ∨ md.outPoint ∈ c.provider.added
  · obtain ⟨e, he⟩ := addCell_of_mem hmem
    obtain ⟨e', he'⟩ := addCell_of_mem (hdup.mp hmem)
    rw [he, he']
    exact .error _ _
  · have hm' := mt hdup.mpr hmem
    rw [not_or] at hmem hm'
    rw [addCell_of_not_mem hmem.1 hmem.2, addCell_of_not_mem hm'.1 hm'.2]
    refine .ok ⟨h.withProviders (fun k hk => ?_) h.removed, fun k hk => hk⟩
    simp only [TreeMap.getElem?_insert_eq, h.added k hk]

end Overlay

-- The two local states of the analysis. An outpoint of `T` that the block would create is live on
-- the one side and spent on the other, so that creating it fails on both.
structure Apart (T : OutPoint → Prop) (ids : Hash → Prop) (a b : AnalysisState hasher) : Prop where
  effect : a.effect = b.effect
  replay : SameOff T a.localReplay b.localReplay
  tree : ∀ o, ¬ T o → a.localTree.get o = b.localTree.get o
  blocked : ∀ o : OutPoint, T o → ids o.txHash → a.localTree.get o ≠ none ∧
    o ∈ b.localReplay.provider.removed

namespace AnalysisState

variable {ids : Hash → Prop} {a b : AnalysisState hasher} {blk : BlockData} {tx : CellTx}

def ApartWith (T : OutPoint → Prop) (ids : Hash → Prop) (x y : AnalysisState hasher × Nat) : Prop :=
  Apart T ids x.1 y.1 ∧ x.2 = y.2

variable (h : Apart T ids a b)
include h

theorem consumeInput_sim {txId n input} (ho : ¬ T input.previousOutput) :
    Sim (ApartWith T ids) (consumeInput txId (a, n) input) (consumeInput txId (b, n) input) := by
  unfold consumeInput
  simp only [← h.effect, ← h.tree _ ho]
  refine bind refl fun _ _ _ => bind refl fun entry entry' he => ?_
  subst he
  refine bind refl fun cap cap' hcap => ?_
  subst hcap
  refine bind refl fun _ _ _ => ?_
  refine bind (h.replay.spendCell_sim ho) fun d d' hd => ?_
  refine .ok ⟨⟨rfl, hd.1, fun k hk => ?_, fun k hk hid => ?_⟩, rfl⟩
  · simp only [LiveTree.get_remove, h.tree k hk]
  · obtain ⟨hl, hs⟩ := h.blocked k hk hid
    have hne : input.previousOutput ≠ k := fun heq => ho (heq ▸ hk)
    exact ⟨by rwa [LiveTree.get_remove, if_neg hne], hd.2 k hs⟩

theorem createOutput_sim {cb n e} (hid : ids (hasher.txid tx)) :
    Sim (ApartWith T ids) (createOutput blk cb tx (a, n) e) (createOutput blk cb tx (b, n) e) := by
  refine bind refl fun cap cap' hcap => ?_
  subst hcap
  refine bind refl fun _ _ _ => ?_
  by_cases hT : T ⟨hasher.txid tx, e.2⟩
  · obtain ⟨hl, hs⟩ := h.blocked _ hT hid
    obtain ⟨err, herr⟩ : ∃ err, b.localReplay.addCell (cellMetadataFromOutput hasher blk.hash
        blk.daaScore cb (hasher.txid tx) e.2 e.1 (tx.outputData e.2)) = .error err :=
      addCell_of_mem (.inl hs)
    simp only [hl, herr, false_and, ensure, if_false]
    split_ifs
    · exact .error _ _
    · exact .error _ _
  · simp only [← h.effect, ← h.tree _ hT]
    refine bind refl fun _ _ _ => ?_
    refine bind (h.replay.addCell_sim hT) fun d d' hd => ?_
    refine .ok ⟨⟨rfl, hd.1, fun k hk => ?_, fun k hk hidk => ?_⟩, rfl⟩
    · simp only [LiveTree.get_insert, h.tree k hk]
    · obtain ⟨hl, hs⟩ := h.blocked k hk hidk
      have hne : (⟨hasher.txid tx, e.2⟩ : OutPoint) ≠ k := fun heq => hT (heq ▸ hk)
      exact ⟨by rwa [LiveTree.get_insert, if_neg hne], hd.2 k hs⟩

theorem applyTx_sim {ti} (hin : ∀ o ∈ tx.spends, ¬ T o) (hid : ids (hasher.txid tx)) :
    Sim (Apart T ids) (applyTx blk a tx ti) (applyTx blk b tx ti) := by
  have ha : Apart T ids (a.accept tx ti) (b.accept tx ti) :=
    ⟨by simp only [accept, h.effect], h.replay, h.tree, h.blocked⟩
  have hins : Sim (ApartWith T ids)
      (tx.inputs.foldlM (consumeInput (hasher.txid tx)) (a.accept tx ti, 0))
      (tx.inputs.foldlM (consumeInput (hasher.txid tx)) (b.accept tx ti, 0)) := by
    refine foldlM ?_ ⟨ha, rfl⟩
    rintro input hinput ⟨s, n⟩ ⟨s', n'⟩ ⟨hs, rfl⟩
    exact consumeInput_sim hs (hin _ (List.mem_map_of_mem hinput))
  refine bind hins fun mid mid' hmid => ?_
  refine bind (R := ApartWith T ids) (foldlM ?_ ⟨hmid.1, rfl⟩) fun x y hxy => .ok hxy.1
  rintro e - ⟨s, n⟩ ⟨s', n'⟩ ⟨hs, rfl⟩
  exact createOutput_sim hs hid

end AnalysisState

namespace VirtualStateProcessor

variable (self : VirtualStateProcessor)

-- The outpoints that validation reads besides the inputs and the cell deps of the transaction.
def hiddenReads (c : ReplayValidationContext) (tx : CellTx) : List OutPoint :=
  (self.validator.reads c tx).filter fun o => o ∉ tx.spends ∧ o ∉ tx.deps

-- All such reads during the analysis of a block; the recursion is the one of the analysis.
def analysisReads (processedTxs : ExtTreeSet Hash) (block : BlockData) :
    AnalysisState self.hasher → List (CellTx × Nat) → List OutPoint
  | _, [] => []
  | st, (tx, txIndex) :: rest =>
    if self.hasher.txid tx ∈ processedTxs then analysisReads processedTxs block st rest
    else (if txIndex = 0 ∧ tx.isCoinbase then [] else self.hiddenReads st.localReplay tx) ++
      match self.chargeTx st.localReplay tx txIndex with
      | .error _ => []
      | .ok replay =>
        if ¬ (txIndex = 0 ∧ tx.isCoinbase) ∧
          replay.accumulatedCycles > replay.params.maxBlockCycles then []
        else
          match AnalysisState.applyTx block { st with localReplay := replay } tx txIndex with
          | .error _ => []
          | .ok st => analysisReads processedTxs block st rest

def blockReads (snapshot : ExecutionSnapshot self.hasher) (block : BlockData) : List OutPoint :=
  self.analysisReads snapshot.processedTxs block (self.startAnalysis snapshot block)
    block.txs.zipIdx

variable {self} {ids : Hash → Prop} {block : BlockData}

theorem chargeTx_sim {c c' tx ti} (h : SameOff T c c') (hin : ∀ o ∈ tx.spends, ¬ T o)
    (hdeps : ∀ o ∈ tx.deps, ¬ T o)
    (hhidden : ¬ (ti = 0 ∧ tx.isCoinbase) → ∀ o ∈ self.hiddenReads c tx, ¬ T o) :
    Sim (fun d d' => SameOff T d d' ∧ SpentSince c' d') (self.chargeTx c tx ti)
    (self.chargeTx c' tx ti) := by
  refine ite (fun _ => .ok ⟨h, fun _ ho => ho⟩) fun hcb => ?_
  have hr : ∀ o ∈ self.validator.reads c tx, ¬ T o := by
    intro o ho
    by_cases hs : o ∈ tx.spends
    · exact hin o hs
    by_cases hdep : o ∈ tx.deps
    · exact hdeps o hdep
    exact hhidden hcb o (List.mem_filter.mpr ⟨ho, by simp [hs, hdep]⟩)
  refine bind (self.validator.local_reads c c' tx h.frame fun o ho =>
    h.getCellMetadata_eq (hr o ho)) fun n n' hn => ?_
  subst hn
  refine .ok ⟨⟨?_, by simp only [h.cycles], h.added, h.removed⟩, fun _ ho => ho⟩
  exact ⟨h.frame.1, h.frame.2, h.frame.3, h.frame.4, h.frame.5, h.frame.6, h.frame.7, h.frame.8⟩

structure Avoids (T : OutPoint → Prop) (done done' : ExtTreeSet Hash) (ids : Hash → Prop)
    (hasher : Hasher) (tx : CellTx) : Prop where
  processed : hasher.txid tx ∈ done ↔ hasher.txid tx ∈ done'
  fresh : hasher.txid tx ∉ done → ids (hasher.txid tx)
  spends : ∀ o ∈ tx.spends, ¬ T o
  deps : ∀ o ∈ tx.deps, ¬ T o

theorem analyzeTxs_sim {done processed' txs a b} (h : Apart T ids a b)
    (havoid : ∀ e ∈ txs, Avoids T done processed' ids self.hasher e.1)
    (hreads : ∀ o ∈ self.analysisReads done block a txs, ¬ T o) :
    Sim (Apart T ids) (self.analyzeTxs done block a txs)
    (self.analyzeTxs processed' block b txs) := by
  induction txs generalizing a b with
  | nil => exact .ok h
  | cons e rest ih =>
    obtain ⟨tx, i⟩ := e
    have htx := havoid (tx, i) (by simp)
    have hr := fun e he => havoid e (List.mem_cons_of_mem (tx, i) he)
    unfold analyzeTxs
    by_cases hp : self.hasher.txid tx ∈ done
    · rw [if_pos hp, if_pos (htx.processed.mp hp)]
      refine ih h hr fun o ho => hreads o ?_
      rwa [analysisReads, if_pos hp]
    rw [if_neg hp, if_neg (mt htx.processed.mpr hp)]
    rw [analysisReads, if_neg hp] at hreads
    have hh : ¬ (i = 0 ∧ tx.isCoinbase) → ∀ o ∈ self.hiddenReads a.localReplay tx, ¬ T o :=
      fun hcb o ho => hreads o (List.mem_append_left _ (by rwa [if_neg hcb]))
    have hc := chargeTx_sim h.replay htx.spends htx.deps hh
    refine bind_of_eq hc fun d d' hd _ hdd => ?_
    obtain ⟨hoff, hsp⟩ := hdd
    have ha : Apart T ids { a with localReplay := d } { b with localReplay := d' } :=
      ⟨h.effect, hoff, h.tree, fun o ho hid =>
        ⟨(h.blocked o ho hid).1, hsp o (h.blocked o ho hid).2⟩⟩
    rw [← hoff.cycles, ← hoff.frame.params]
    refine ite (fun _ => .ok ha) fun hov => ?_
    refine bind_of_eq (AnalysisState.applyTx_sim ha htx.spends (htx.fresh hp))
      fun s s' hs _ hss => ?_
    refine ih hss hr fun o ho => hreads o (List.mem_append_right _ ?_)
    rw [hd]
    simp only [if_neg hov, hs]
    exact ho

structure SnapshotsAgree (T : OutPoint → Prop) (ids : Hash → Prop)
    (s s' : ExecutionSnapshot hasher) : Prop where
  replay : SameOff T { s.replay with accumulatedCycles := 0 } { s'.replay
    with accumulatedCycles := 0 }
  tree : ∀ o, ¬ T o → s.cellStateTree.get o = s'.cellStateTree.get o
  blocked : ∀ o : OutPoint, T o → ids o.txHash → s.cellStateTree.get o ≠ none ∧
    o ∈ s'.replay.provider.removed

theorem analyzeBlueBlock_sim {s s'} (h : SnapshotsAgree T ids s s')
    (havoid : ∀ tx ∈ block.txs, Avoids T s.processedTxs s'.processedTxs ids self.hasher tx)
    (hreads : ∀ o ∈ self.blockReads s block, ¬ T o) :
    Sim Eq (self.analyzeBlueBlock s block) (self.analyzeBlueBlock s' block) := by
  have hs : Apart T ids (self.startAnalysis s block) (self.startAnalysis s' block) :=
    ⟨rfl, h.replay, h.tree, h.blocked⟩
  refine bind (analyzeTxs_sim hs
    (fun e he => havoid e.1 (List.fst_mem_of_mem_zipIdx he)) hreads) fun x y hxy => .ok ?_
  rw [hxy.effect, hxy.replay.cycles]

end VirtualStateProcessor

end Spora
