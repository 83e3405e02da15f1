import Spora.Body.Lemmas
import Spora.Exec.CellDag.Theorems
import Spora.Template.Filter

namespace Spora

open Std Outcome List OverlayCellProvider BlockBodyProcessor TemplateProcessor

section Prefilter

variable (H : Hasher) (trustedAccessSets : Option TrustedCellScriptSchedulerAccessSets)

theorem keptTxs_foldl_admitByPolicy (txs : List CellTx) (out) :
    ∃ admitted, (txs.foldl (admitByPolicy H trustedAccessSets) out).keptTxs =
    out.keptTxs ++ admitted ∧ admitted.Sublist txs := by
  induction txs generalizing out with
  | nil => exact ⟨[], by simp⟩
  | cons tx txs ih =>
    obtain ⟨admitted, heq, hsub⟩ := ih (admitByPolicy H trustedAccessSets out tx)
    rw [foldl_cons, heq]
    unfold admitByPolicy
    split
    · exact ⟨tx :: admitted, by simp, hsub.cons_cons tx⟩
    · exact ⟨admitted, by simp, hsub.cons tx⟩

theorem keptTxs_rejectNodes_sublist (rejected rej txs) :
    (rejectNodes H rejected rej txs).keptTxs.Sublist txs := by
  have hk := (filter_sublist (p := fun entry => entry.2 ∉ rejected) (l := txs.zipIdx)).map Prod.fst
  rw [zipIdx_map_fst] at hk
  exact hk

theorem keptTxs_prefilter_sublist (blake3 txs) :
    (prefilterConflictingTemplateTransactions blake3 H txs trustedAccessSets).keptTxs.Sublist
    txs := by
  obtain ⟨admitted, heq, hsub⟩ := keptTxs_foldl_admitByPolicy H trustedAccessSets txs ⟨[], ∅⟩
  unfold prefilterConflictingTemplateTransactions
  dsimp only
  split_ifs
  · rwa [heq]
  · split
    · rwa [heq]
    · split_ifs
      · rwa [heq]
      · rw [heq]
        exact (keptTxs_rejectNodes_sublist H _ _ admitted).trans hsub

end Prefilter

section Overlay

variable {p q : OverlayCellProvider} {f : String → RuleError}

theorem spent_of_foldlM_spendCell {l : List OutPoint} (hadded : ∀ o ∈ l, o ∉ p.added)
    (h : l.foldlM (fun p o => (p.spendCell o).mapError f) p = .ok q) :
    l.Nodup ∧ (∀ o ∈ l, o ∉ p.removed) ∧ (∀ o, o ∈ q.removed ↔ o ∈ p.removed ∨ o ∈ l) ∧
    q.added = p.added := by
  refine foldlM_inits (I := fun spent s => spent.Nodup ∧ (∀ o ∈ spent, o ∉ p.removed) ∧
    (∀ o, o ∈ s.removed ↔ o ∈ p.removed ∨ o ∈ spent) ∧ s.added = p.added)
    (fun spent o rest s s' hsp hI hst => ?_) ⟨by simp, by simp, by simp, rfl⟩ h
  obtain ⟨hn, hold, hr, heq⟩ := hI
  have hs := mapError_eq_ok_iff.mp hst
  unfold spendCell at hs
  split_ifs at hs with hmem hc
  · exact absurd (heq ▸ hc) (hadded o (by simp [hsp]))
  · cases hs
    rw [hr, not_or] at hmem
    refine ⟨?_, ?_, fun k => ?_, heq⟩
    · exact nodup_append.mpr ⟨hn, by simp, fun a ha b hb hab => by
        rw [mem_singleton] at hb
        exact hmem.2 (hb ▸ hab ▸ ha)⟩
    · intro k hk
      rcases mem_append.mp hk with hk | hk
      · exact hold k hk
      · exact mem_singleton.mp hk ▸ hmem.1
    · simp only [ExtTreeSet.mem_insert, LawfulEqCmp.compare_eq_iff_eq, hr, mem_append,
        mem_singleton]
      tauto

theorem added_of_foldlM_addCell {ι : Type} {l : List ι} {key} {md : ι → CellMetadata}
    (h : l.foldlM (fun p i => (p.addCell (key i) (md i)).mapError f) p = .ok q) :
    (∀ i ∈ l, key i ∉ p.added) ∧ (∀ o, o ∈ q.added ↔ o ∈ p.added ∨ o ∈ l.map key) ∧
    q.removed = p.removed := by
  refine foldlM_inits (I := fun cr s => (∀ i ∈ cr, key i ∉ p.added) ∧
    (∀ o, o ∈ s.added ↔ o ∈ p.added ∨ o ∈ cr.map key) ∧ s.removed = p.removed)
    (fun cr i rest s s' _ hI hs => ?_) ⟨by simp, by simp, rfl⟩ h
  obtain ⟨hold, ha, heq⟩ := hI
  have hadd := mapError_eq_ok_iff.mp hs
  unfold addCell at hadd
  split_ifs at hadd with hmem
  cases hadd
  rw [not_or] at hmem
  refine ⟨fun j hj => ?_, fun k => ?_, heq⟩
  · rcases mem_append.mp hj with hj | hj
    · exact hold j hj
    · exact mem_singleton.mp hj ▸ fun hi => hmem.2 ((ha _).mpr (.inl hi))
  · simp only [TreeMap.mem_insert, ha, map_append, map_cons, map_nil, mem_append, mem_singleton]
    tauto

end Overlay

namespace TemplateProcessor

variable {self : TemplateProcessor} {pov : Hash} {daa ts : Nat} {st st' : FilterState} {tx : CellTx}

theorem creates_eq (hasher : Hasher) (tx : CellTx) :
    tx.outputs.zipIdx.map (fun entry => (⟨hasher.txid tx, entry.2⟩ : OutPoint)) =
    tx.creates hasher := by
  unfold CellTx.creates
  rw [range_eq_range', ← zipIdx_map_snd 0 tx.outputs, map_map]
  rfl

-- The checks a transaction of a template has to pass over the transactions kept in front of it.
def Passes (self : TemplateProcessor) (pov : Hash) (daaScore timestamp : Nat)
    (overlay : OverlayCellProvider) (tx : CellTx) : Prop :=
  (∃ cycles, self.validateFullWithScriptsAndCycles overlay.toProvider pov daaScore timestamp tx =
    .ok cycles) ∧ ∃ fee, calculateCellTxFeeFromProvider overlay.toProvider pov tx = .ok fee

theorem Passes.isolated {overlay} (h : self.Passes pov daa ts overlay tx) :
    validateCellTxInIsolation tx self.params.maxCellDataSize = .ok () := by
  obtain ⟨⟨cycles, hfull⟩, -⟩ := h
  obtain ⟨_, hisolated, -⟩ := bind_ok hfull
  obtain ⟨_, hisolated, -⟩ := bind_ok hisolated
  exact hisolated

theorem Passes.inDag {overlay} (h : self.Passes pov daa ts overlay tx) :
    validateInDag overlay.toProvider pov self.params tx daa ts = .ok () := by
  obtain ⟨⟨cycles, hfull⟩, -⟩ := h
  obtain ⟨_, -, hfull⟩ := bind_ok hfull
  obtain ⟨_, hdag, -⟩ := bind_ok hfull
  exact hdag

theorem filterTemplateTransaction_cases
    (h : self.filterTemplateTransaction pov daa ts st tx = .ok st') :
    (¬ self.Passes pov daa ts st.overlay tx ∧ st'.overlay = st.overlay ∧
      st'.outcome.validTxs = st.outcome.validTxs) ∨ (self.Passes pov daa ts st.overlay tx ∧
      self.applyTemplateTransactionToOverlay daa tx st.overlay = .ok st'.overlay ∧
      st'.outcome.validTxs = st.outcome.validTxs ++ [tx]) := by
  unfold filterTemplateTransaction at h
  dsimp only at h
  split at h
  · next error hchecked =>
      obtain ⟨txRuleError, -, h⟩ := bind_ok h
      cases h
      refine .inl ⟨fun hpasses => ?_, rfl, rfl⟩
      obtain ⟨⟨cycles, hfull⟩, -⟩ := hpasses
      obtain ⟨_, hisolated, -⟩ := bind_ok hfull
      rw [hisolated, ok_bind, hfull] at hchecked
      contradiction
  · next hchecked =>
      obtain ⟨_, -, hchecked⟩ := bind_ok hchecked
      obtain ⟨cycles, hfull, -⟩ := bind_ok hchecked
      split at h
      · next txRuleError hfee =>
          cases h
          refine .inl ⟨fun hpasses => ?_, rfl, rfl⟩
          obtain ⟨-, fee, hpaid⟩ := hpasses
          rw [hpaid] at hfee
          contradiction
      · next fee hfee =>
          obtain ⟨overlay, happlied, h⟩ := bind_ok h
          cases h
          exact .inr ⟨⟨⟨cycles, hfull⟩, fee, hfee⟩, happlied, rfl⟩

theorem not_mem_removed_of_validateInDag {overlay : OverlayCellProvider}
    (h : validateInDag overlay.toProvider pov self.params tx daa ts = .ok ()) :
    ∀ o ∈ tx.spends, o ∉ overlay.removed := by
  intro o ho hr
  obtain ⟨_, he, -⟩ := bind_ok h
  have hre : o ∈ overlay.toProvider.reads pov tx := by
    obtain ⟨input, hin, rfl⟩ := mem_map.mp ho
    exact mem_reads_of_input hin
  obtain ⟨m, hm⟩ := available_of_validateCellExistence he o hre
  obtain ⟨_, -, hm⟩ := bind_ok hm
  simp [getCellMetadata, hr] at hm

-- What an overlay knows about the transactions kept so far, if none of them spends an output of
-- another.
structure Tracks (hasher : Hasher) (kept : List CellTx) (overlay : OverlayCellProvider) : Prop where
  ids : (kept.map hasher.txid).Nodup
  spends : (kept.flatMap CellTx.spends).Nodup
  outputs : ∀ tx ∈ kept, tx.outputs ≠ []
  removed : ∀ tx ∈ kept, ∀ o ∈ tx.spends, o ∈ overlay.removed
  added : ∀ o, o ∈ overlay.added ↔ o ∈ kept.flatMap (CellTx.creates hasher)

theorem Tracks.step (h : Tracks self.storage.hasher st.outcome.validTxs st.overlay)
    (hunchained : ∀ o ∈ tx.spends,
      o ∉ st.outcome.validTxs.flatMap (CellTx.creates self.storage.hasher))
    (hpasses : self.Passes pov daa ts st.overlay tx)
    (hap : self.applyTemplateTransactionToOverlay daa tx st.overlay = .ok st'.overlay)
    (hv : st'.outcome.validTxs = st.outcome.validTxs ++ [tx]) :
    Tracks self.storage.hasher st'.outcome.validTxs st'.overlay := by
  obtain ⟨overlay, hspent, hadd⟩ := bind_ok hap
  have hfr : ∀ o ∈ tx.spends, o ∉ st.overlay.added := fun o ho hmem =>
    hunchained o ho ((h.added o).mp hmem)
  obtain ⟨hn, hnew, hr, hs⟩ := spent_of_foldlM_spendCell hfr hspent
  obtain ⟨hc, ha, hk⟩ := added_of_foldlM_addCell hadd
  have hou : tx.outputs ≠ [] := by
    obtain ⟨_, -, hw⟩ := bind_ok hpasses.isolated
    obtain ⟨_, -, hw⟩ := bind_ok hw
    obtain ⟨_, hou, -⟩ := bind_ok hw
    exact ensure_eq_ok_iff.mp hou
  have hu := not_mem_removed_of_validateInDag hpasses.inDag
  rw [hs, creates_eq] at ha
  rw [hv]
  constructor
  · -- a second transaction with the id of a kept one would create its first output again
    rw [map_append, map_singleton, nodup_append]
    refine ⟨h.ids, by simp, fun id hid id' hid' heq => ?_⟩
    rw [mem_singleton] at hid'
    obtain ⟨other, hot, rfl⟩ := mem_map.mp hid
    obtain ⟨output, rest, hsp⟩ := exists_cons_of_ne_nil hou
    have hf := hc (output, 0) (by simp [hsp])
    rw [hs, h.added, ← hid', ← heq] at hf
    refine hf (mem_flatMap.mpr ⟨other, hot, mem_map.mpr ⟨0, ?_, rfl⟩⟩)
    exact mem_range.mpr (length_pos_of_ne_nil (h.outputs other hot))
  · rw [flatMap_append, flatMap_singleton, nodup_append]
    refine ⟨h.spends, hn, fun o ho o' ho' heq => ?_⟩
    obtain ⟨other, hot, ho⟩ := mem_flatMap.mp ho
    exact hu o' ho' (heq ▸ h.removed other hot o ho)
  · intro other hot
    rcases mem_append.mp hot with hot | hot
    · exact h.outputs other hot
    · exact mem_singleton.mp hot ▸ hou
  · intro other hot o ho
    rw [hk, hr]
    rcases mem_append.mp hot with hot | hot
    · exact .inl (h.removed other hot o ho)
    · exact .inr (mem_singleton.mp hot ▸ ho)
  · intro o
    rw [ha, h.added, flatMap_append, flatMap_singleton, mem_append]

theorem validTxs_sublist {txs}
    (h : txs.foldlM (self.filterTemplateTransaction pov daa ts) st = .ok st')
    (hst : st.outcome.validTxs = []) : st'.outcome.validTxs.Sublist txs := by
  refine foldlM_inits (I := fun done s => s.outcome.validTxs.Sublist done)
    (fun done tx rest s s' _ hI hs => ?_) (by simp [hst]) h
  rcases filterTemplateTransaction_cases hs with ⟨-, -, hv⟩ | ⟨-, -, hv⟩
  · rw [hv]
    exact hI.trans (sublist_append_left _ _)
  · rw [hv]
    exact hI.append_right [tx]

theorem validTxs_subset {txs : List CellTx}
    (h : txs.foldlM (self.filterTemplateTransaction pov daa ts) st = .ok st') :
    st.outcome.validTxs ⊆ st'.outcome.validTxs := by
  refine foldlM_invariant (P := fun s => st.outcome.validTxs ⊆ s.outcome.validTxs)
    (fun s tx _ s' hsubset hstep => ?_) (Subset.refl _) h
  rcases filterTemplateTransaction_cases hstep with ⟨-, -, hvalid⟩ | ⟨-, -, hvalid⟩
  · rwa [hvalid]
  · rw [hvalid]
    exact subset_append_of_subset_left _ hsubset

-- No transaction spends an output of one of them.
def Unchained (hasher : Hasher) (txs : List CellTx) : Prop :=
  ∀ o ∈ txs.flatMap CellTx.spends, o ∉ txs.flatMap (CellTx.creates hasher)

theorem Unchained.of_subset {hasher txs txs'} (h : Unchained hasher txs') (hsub : txs ⊆ txs') :
    Unchained hasher txs := by
  intro o hspent hcreated
  obtain ⟨tx, htx, hspent⟩ := mem_flatMap.mp hspent
  obtain ⟨tx', htx', hcreated⟩ := mem_flatMap.mp hcreated
  exact h o (mem_flatMap.mpr ⟨tx, hsub htx, hspent⟩) (mem_flatMap.mpr ⟨tx', hsub htx', hcreated⟩)

-- Whatever would be chained to the transactions kept in front of it fails one of the checks.
def RefusesChained (self : TemplateProcessor) (pov : Hash) (daaScore timestamp : Nat)
    (start : FilterState) (txs : List CellTx) : Prop :=
  ∀ done tx rest st, txs = done ++ tx :: rest →
    done.foldlM (self.filterTemplateTransaction pov daaScore timestamp) start = .ok st →
    ¬ Unchained self.storage.hasher (st.outcome.validTxs ++ [tx]) →
      ¬ self.Passes pov daaScore timestamp st.overlay tx

section Filtering

variable {txs : List CellTx} {overlay : OverlayCellProvider}
  (hrun : txs.foldlM (self.filterTemplateTransaction pov daa ts) ⟨overlay, ⟨[], [], ∅⟩⟩ = .ok st')
include hrun

theorem tracks_of_refusesChained (hempty : ∀ o, o ∉ overlay.added)
    (hrefuses : self.RefusesChained pov daa ts ⟨overlay, ⟨[], [], ∅⟩⟩ txs) :
    Tracks self.storage.hasher st'.outcome.validTxs st'.overlay ∧
    Unchained self.storage.hasher st'.outcome.validTxs := by
  have hstart : Tracks self.storage.hasher [] overlay :=
    ⟨by simp, by simp, by simp, by simp, fun o => by simpa using hempty o⟩
  refine (foldlM_inits (I := fun done s =>
      done.foldlM (self.filterTemplateTransaction pov daa ts) ⟨overlay, ⟨[], [], ∅⟩⟩ = .ok s ∧
      Tracks self.storage.hasher s.outcome.validTxs s.overlay ∧
      Unchained self.storage.hasher s.outcome.validTxs)
    (fun done tx rest s s' hsplit hI hstep => ?_) ⟨rfl, hstart, by simp [Unchained]⟩ hrun).2
  obtain ⟨hdone, htracks, hunchained⟩ := hI
  refine ⟨by simp [foldlM_append, hdone, hstep], ?_⟩
  rcases filterTemplateTransaction_cases hstep with ⟨-, hoverlay, hvalid⟩ |
    ⟨hpasses, happlied, hvalid⟩
  · rw [hoverlay, hvalid]
    exact ⟨htracks, hunchained⟩
  · have hnew : Unchained self.storage.hasher (s.outcome.validTxs ++ [tx]) := by
      by_contra hchained
      exact hrefuses done tx rest s hsplit hdone hchained hpasses
    refine ⟨htracks.step (fun o hspent hcreated => ?_) hpasses happlied hvalid, hvalid ▸ hnew⟩
    rw [Unchained, flatMap_append, flatMap_append] at hnew
    exact hnew o (mem_append_right _ (by simpa using hspent)) (mem_append_left _ hcreated)

theorem refusesChained_of_unchained (h : Unchained self.storage.hasher st'.outcome.validTxs) :
    self.RefusesChained pov daa ts ⟨overlay, ⟨[], [], ∅⟩⟩ txs := by
  intro done tx rest st hsplit hdone hchained hpasses
  rw [hsplit, foldlM_append, hdone, ok_bind] at hrun
  obtain ⟨next, hstep, hrest⟩ := bind_ok hrun
  rcases filterTemplateTransaction_cases hstep with ⟨hfails, -⟩ | ⟨-, -, hvalid⟩
  · exact hfails hpasses
  · exact hchained (h.of_subset (hvalid ▸ validTxs_subset hrest))

end Filtering

def RefusesChainedTemplate (self : TemplateProcessor) (selectedTxs : List CellTx)
    (trustedAccessSets : Option TrustedCellScriptSchedulerAccessSets)
    (virtualState : VirtualState self.storage.hasher) : Prop :=
  let pov := virtualState.ghostdagData.selectedParent
  let timestamp := virtualState.pastMedianTime + 1
  self.RefusesChained pov virtualState.daaScore timestamp
    ⟨.new (self.buildVirtualSnapshotProvider virtualState ∅ timestamp).toProvider pov pov,
      ⟨[], [], ∅⟩⟩
    (prefilterConflictingTemplateTransactions self.blake3 self.storage.hasher selectedTxs
      trustedAccessSets).keptTxs

end TemplateProcessor

-- The rules of body isolation that concern several transactions of a block.
def BlockBodyProcessor.Compatible (processor : BlockBodyProcessor) (block : Block) : Prop :=
  processor.checkDuplicateTransactions block = .ok () ∧ checkBlockDoubleSpends block = .ok () ∧
    processor.checkNoChainedTransactions block = .ok ()

-- Filtering the selected transactions gives an acceptable body exactly if whatever would be chained
-- to the transactions kept in front of it fails a check. So it does if no selected transaction
-- spends an output of one.
theorem TemplateProcessor.compatible_iff (self : TemplateProcessor) (selectedTxs : List CellTx)
    (trustedAccessSets : Option TrustedCellScriptSchedulerAccessSets)
    (virtualState : VirtualState self.storage.hasher) (outcome : TemplateValidationOutcome)
    (h : self.selectTemplateTransactions selectedTxs trustedAccessSets virtualState = .ok outcome)
    (processor : BlockBodyProcessor) (hhasher : processor.hasher = self.storage.hasher)
    (header : Header) :
    (processor.Compatible ⟨header, outcome.validTxs⟩ ↔
      self.RefusesChainedTemplate selectedTxs trustedAccessSets virtualState) ∧
    (processor.checkNoChainedTransactions ⟨header, selectedTxs⟩ = .ok () →
      processor.Compatible ⟨header, outcome.validTxs⟩) := by
  obtain ⟨filtered, hf, h⟩ := bind_ok h
  obtain ⟨st, hrun, hst⟩ := bind_ok hf
  cases hst
  cases h
  have hchain : ∀ txs, processor.checkNoChainedTransactions ⟨header, txs⟩ = .ok () ↔
      Unchained self.storage.hasher txs := fun txs => by
    rw [checkNoChainedTransactions_eq_ok_iff, hhasher]
    rfl
  have hiff : processor.Compatible ⟨header, st.outcome.validTxs⟩ ↔
      self.RefusesChainedTemplate selectedTxs trustedAccessSets virtualState := by
    constructor
    · rintro ⟨-, -, hunchained⟩
      exact refusesChained_of_unchained hrun ((hchain _).mp hunchained)
    · intro hrefuses
      obtain ⟨htracks, hunchained⟩ :=
        tracks_of_refusesChained hrun (by simp [new]) hrefuses
      refine ⟨checkDuplicateTransactions_eq_ok_iff.mpr ?_,
        checkBlockDoubleSpends_eq_ok_iff.mpr htracks.spends, (hchain _).mpr hunchained⟩
      rw [hhasher]
      exact htracks.ids
  refine ⟨hiff, fun hselected => hiff.mpr ?_⟩
  have hkept := (validTxs_sublist hrun rfl).trans
    (keptTxs_prefilter_sublist self.storage.hasher trustedAccessSets self.blake3 selectedTxs)
  exact refusesChained_of_unchained hrun
    (((hchain _).mp hselected).of_subset hkept.subset)

section Chained

open CellDAG

def templateHasher : Hasher := { Hasher.sample with txid := CellTx.computeTxid sampleBlake3 }

def templateProcessor : TemplateProcessor where
  blake3 := sampleBlake3
  engine := ScriptEngine.sample templateHasher
  storage := ⟨templateHasher, ⟨fun _ => some [], fun _ => none⟩,
    fun hash => some ⟨hash, [], 0, 0, 0, 0, 0, 0, 0, 0⟩, fun _ => [], fun _ => none, fun _ =>
      .error "no segment"⟩
  coinbaseMaturity := 1

def templateCell : CellEntry where
  capacity := 2000
  dataBytes := 0
  lockHash := templateHasher.scriptHash ⟨0, 0, []⟩
  typeHash := none
  dataHash := 0
  blockDaaScore := 1
  isCellbase := false
  lockScript := some ⟨0, 0, []⟩
  typeScript := none
  data := some []

def templateState : VirtualState templateHasher where
  parents := [1]
  ghostdagData := ⟨1, 1, [1], []⟩
  daaScore := 5
  bits := 0
  pastMedianTime := 0
  cellStateTree := LiveTree.empty.insert ⟨7, 0⟩ templateCell
  cellDiff := .empty
  blockCellDiffs := []
  acceptedTxIds := []
  mergesetRewards := ∅
  mergesetNonDaa := ∅

def templateHeader : Header := ⟨9, [1], 0, 0, 0, 0, 0, 1, 5, 2⟩

def templateBody : BlockBodyProcessor := { BlockBodyProcessor.sample with hasher := templateHasher }

-- The child is selected in front of its parent, and dropped before the output is there.
theorem compatible_childFirst : ∃ outcome,
    templateProcessor.selectTemplateTransactions chainTxs.reverse none templateState = .ok outcome ∧
    outcome.validTxs.length = 1 ∧ templateBody.Compatible ⟨templateHeader, outcome.validTxs⟩ ∧
    templateProcessor.RefusesChainedTemplate chainTxs.reverse none templateState := by
  have hrun : (templateProcessor.selectTemplateTransactions chainTxs.reverse none
      templateState).toOption.any (fun outcome => outcome.validTxs == chainTxs.take 1) =
        true := by decide +kernel
  obtain ⟨outcome, hselected, hvalid⟩ := any_toOption_iff.mp hrun
  rw [beq_iff_eq] at hvalid
  have hcompatible : templateBody.Compatible ⟨templateHeader, outcome.validTxs⟩ := by
    rw [hvalid]
    exact ⟨mem_toOption_iff.mp (by decide +kernel), mem_toOption_iff.mp (by decide +kernel),
      mem_toOption_iff.mp (by decide +kernel)⟩
  refine ⟨outcome, hselected, by rw [hvalid]; rfl, hcompatible, ?_⟩
  exact (templateProcessor.compatible_iff _ none templateState outcome hselected templateBody rfl
    templateHeader).1.mp hcompatible

-- A transaction and one that spends its output are both kept, and the block is rejected.
theorem template_keeps_chained : ∃ outcome,
    templateProcessor.templateTransactions chainTxs none .standard templateState = .ok outcome ∧
    outcome.validTxs = chainTxs ∧
    (templateBody.checkNoChainedTransactions ⟨templateHeader, outcome.validTxs⟩).toOption =
    none := by
  have hrun :
      (templateProcessor.templateTransactions chainTxs none .standard templateState).toOption.any
      (fun outcome => outcome.validTxs == chainTxs) = true := by decide +kernel
  obtain ⟨outcome, ho, hv⟩ := any_toOption_iff.mp hrun
  have hall : outcome.validTxs = chainTxs := by simpa using hv
  refine ⟨outcome, ho, hall, ?_⟩
  rw [hall]
  decide +kernel

end Chained

end Spora
