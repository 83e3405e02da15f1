import Spora.Virtual.Bookkeeping

namespace Spora

open Std Outcome Patch

namespace VirtualStateProcessor

variable {self : VirtualStateProcessor} {services : ResolveServices} {χ : OutPoint → CellMeta}
  {stores : ChainStores} {prevState : VirtualState self.hasher} {sink : Hash}

-- The second attempt: the sink as the only parent, over the reversed diff of the previous virtual
-- state.
def retryVirtualState (self : VirtualStateProcessor) (services : ResolveServices)
    (stores : ChainStores) (prevState : VirtualState self.hasher) (sink sinkCellRoot : Hash) :
    Except RuleError (VirtualState self.hasher × CellDiff) :=
  self.calculateVirtualState services stores prevState [sink] (services.ghostdag [sink])
    sinkCellRoot prevState.cellDiff.asReversed

theorem settleVirtualState_of_error {ps gd diff root e} (hroot : stores.cellRoots sink = some root)
    (hfirst : self.calculateVirtualState services stores prevState ps gd root diff = .error e)
    (he : ∀ msg, e ≠ .panicked msg) :
    self.settleVirtualState services stores prevState sink ps gd diff =
    (self.retryVirtualState services stores prevState sink root).map Prod.fst := by
  unfold settleVirtualState
  rw [hroot, okOr_some, ok_bind, hfirst]
  cases e with
  | panicked msg => exact absurd rfl (he msg)
  | _ =>
    simp only [retryVirtualState]
    cases self.calculateVirtualState services stores prevState [sink]
      (services.ghostdag [sink]) root prevState.cellDiff.asReversed with
    | error e => rfl
    | ok r => rfl

-- The retry is built on the committed state of the sink, and its root check passes.
structure RetriesFromSink (processor : VirtualStateProcessor) (services : ResolveServices)
    (stores : ChainStores) (prevState : VirtualState processor.hasher) (sink : Hash) : Prop where
  leads : LeadsTo services prevState.cellStateTree ⟨stores, prevState.cellDiff.asReversed⟩ sink
  root : stores.cellRoots sink = some (services.digests.root
    (processor.reconstructTreeFromVirtualDiff prevState prevState.cellDiff.asReversed))

theorem retryVirtualState_badCellRoot (stores) (sink : Hash) {root} (h : services.digests.root
      (self.reconstructTreeFromVirtualDiff prevState prevState.cellDiff.asReversed) ≠ root) :
    ∃ msg, self.retryVirtualState services stores prevState sink root =
    .error (.badCellRoot msg) := by
  unfold retryVirtualState calculateVirtualState
  simp only [ensure, if_neg h]
  exact ⟨_, rfl⟩

-- The reversed diff leads back to the previous sink, wherever the search went.
theorem retry_leadsTo_sink_iff {dag : ResolveServices} {node : Node self.hasher} {rounds : Nat}
    {tips parents : List Hash} {pruningPoint : Hash} {gd : GhostdagData} {p : Progress}
    (hroots : dag.digests.Separates χ self.hasher)
    (hnode : Reached self (·.Charted χ self.hasher) dag (StartNode χ dag) node)
    (hshares : Shares dag services) (hblocks : services.blocks.Charted χ self.hasher)
    (hsearch : self.searchVirtualParents services rounds node.stores node.virtualState tips
      pruningPoint = .ok (sink, parents, gd, p)) :
    (RetriesFromSink self services p.stores node.virtualState sink ↔
      p.stores.cellRoots node.virtualState.ghostdagData.selectedParent = p.stores.cellRoots sink) ∧
    ∀ root e, p.stores.cellRoots sink = some root →
    self.calculateVirtualState services p.stores node.virtualState parents gd root p.diff =
    .error e → (∀ message, e ≠ .panicked message) →
    p.stores.cellRoots node.virtualState.ghostdagData.selectedParent ≠ p.stores.cellRoots sink →
    ∃ message, self.settleVirtualState services p.stores node.virtualState sink parents gd p.diff =
    .error (.badCellRoot message) := by
  obtain ⟨state, hs⟩ := hnode.settled hroots (fun _ h => h) fun _ h => h
  rw [← hshares.chain, ← hshares.digests] at hs
  rw [← hshares.digests] at hroots
  obtain ⟨state', ht, hw, hk⟩ := searchVirtualParents_tracks hblocks hs hsearch
  -- the reversed diff leads to the state of the previous sink
  have hp : self.reconstructTreeFromVirtualDiff node.virtualState
      node.virtualState.cellDiff.asReversed =
          state' node.virtualState.ghostdagData.selectedParent := by
    rw [hk _ hs.stored]
    exact hs.tracks.applyCellDiffToTree_eq
  have hst : p.stores.cellRoots node.virtualState.ghostdagData.selectedParent = some
      (services.digests.root (state' node.virtualState.ghostdagData.selectedParent)) := by
    have hso := hw.isSome_cellDiffs hs.stored
    rw [ht.settled.together] at hso
    obtain ⟨root, hr⟩ := Option.isSome_iff_exists.mp hso
    rw [hr, ht.settled.root _ _ hr]
  constructor
  · constructor
    · intro h
      rw [hst, h.root, hp]
    · intro hsa
      rw [hst] at hsa
      have hstate := hroots _ _ (ht.settled.charted _) (ht.settled.charted _)
          (ht.settled.root _ _ hsa.symm).symm
      exact ⟨⟨state', ht.settled.committedStates, hp.trans hstate⟩, by rw [hp, hsa]⟩
  · intro root e hr hf he hd
    have hm : services.digests.root (self.reconstructTreeFromVirtualDiff node.virtualState
        node.virtualState.cellDiff.asReversed) ≠ root := by
      rw [hp]
      intro heq
      exact hd (by rw [hst, hr, heq])
    obtain ⟨message, hre⟩ := retryVirtualState_badCellRoot p.stores sink hm
    exact ⟨message, by rw [settleVirtualState_of_error hr hf he, hre]; rfl⟩

section MergedBlock

def mergingNetwork : ResolveServices :=
  { branchNetwork with pickVirtualParents := fun sink _ => ([sink, 8],
    ⟨sink, sink, [sink, 8], []⟩) }

def mergingSearch : Except RuleError (Hash × List Hash × GhostdagData × Progress) :=
  sample.searchVirtualParents mergingNetwork 9 branchStep.2.stores branchStep.2.virtualState [3] 1

-- The sink stays, the first attempt fails on block 8 and the second one succeeds.
theorem retry_leadsTo_sink : ∃ parents gd p, mergingSearch = .ok (3, parents, gd, p) ∧
    (p.stores.cellRoots 3).all (fun root => (sample.calculateVirtualState mergingNetwork p.stores
      branchStep.2.virtualState parents gd root p.diff).isOk) = false ∧
    (sample.settleVirtualState mergingNetwork p.stores branchStep.2.virtualState 3 parents gd
      p.diff).isOk = true ∧
    RetriesFromSink sample mergingNetwork p.stores branchStep.2.virtualState 3 := by
  have hrun : mergingSearch.toOption.any (fun (sink, parents, gd, p) => decide (sink = 3) &&
      !(p.stores.cellRoots 3).all (fun root => (sample.calculateVirtualState mergingNetwork p.stores
        branchStep.2.virtualState parents gd root p.diff).isOk) &&
      (sample.settleVirtualState mergingNetwork p.stores branchStep.2.virtualState 3 parents gd
        p.diff).isOk &&
      decide (p.stores.cellRoots branchStep.2.virtualState.ghostdagData.selectedParent =
        p.stores.cellRoots 3)) = true := by decide +kernel
  obtain ⟨⟨sink, parents, gd, p⟩, hf, hc⟩ := any_toOption_iff.mp hrun
  simp only [Bool.and_eq_true, decide_eq_true_eq, Bool.not_eq_true'] at hc
  obtain ⟨⟨⟨rfl, hfirst⟩, hsettled⟩, hroots⟩ := hc
  have hr := @retry_leadsTo_sink_iff sample mergingNetwork branchChart 3 branchNetwork branchStep.2
    9 [3] parents 1 gd p (keyDigests_separates _ _) branchStep_reached ⟨rfl, rfl,
      rfl⟩ branchNetwork_charted hf
  exact ⟨parents, gd, p, hf, hfirst, hsettled, hr.1.mpr hroots⟩

-- Blocks 2 and 3 above genesis, and beside them block 4, which pays from a cell that does not
-- exist. Virtual merges it with the new sink 3.
def mergedNetwork : ResolveServices :=
  { sampleNetwork [lineBlock 1, lineBlock 2, lineBlock 3,
      ⟨4, 1, [1], [sampleCoinbase 4, samplePayment ⟨55, 0⟩ []], 2, [], .empty⟩] with
    pickVirtualParents := fun sink _ => ([sink, 4], ⟨sink, sink, [sink, 4], []⟩) }

def mergedNode : Node Hasher.sample :=
  processGenesis Hasher.sample mergedNetwork ⟨1, 0, 0,
    1⟩ (.fresh fun _ => some .statusCellPendingVerification)

def mergedSearch : Except RuleError (Hash × List Hash × GhostdagData × Progress) :=
  sample.searchVirtualParents mergedNetwork 9 mergedNode.stores mergedNode.virtualState [3] 1

def badCellRoot? {α : Type} : Except RuleError α → Bool
  | .error (.badCellRoot _) => true
  | _ => false

theorem exists_of_badCellRoot? {α} {r : Except RuleError α} (h : badCellRoot? r = true) :
    ∃ msg, r = .error (.badCellRoot msg) := by
  unfold badCellRoot? at h
  split at h
  case h_1 msg => exact ⟨msg, rfl⟩
  case h_2 => cases h

-- The sink is found and valid, and with the diff to it the retry would work; over the old diff it
-- fails.
theorem retry_fails_after_sink_change :
    ∃ parents gd p root, mergedSearch = .ok (3, parents, gd, p) ∧
    p.stores.statuses 3 = some .statusCellValid ∧ p.stores.cellRoots 3 = some root ∧
    (sample.calculateVirtualState mergedNetwork p.stores mergedNode.virtualState [3]
      (mergedNetwork.ghostdag [3]) root p.diff).isOk = true ∧ (∃ message,
      sample.settleVirtualState mergedNetwork p.stores mergedNode.virtualState 3 parents gd
      p.diff = .error (.badCellRoot message)) ∧
    ¬RetriesFromSink sample mergedNetwork p.stores mergedNode.virtualState 3 := by
  have hrun : mergedSearch.toOption.any (fun (sink, parents, gd, p) => decide (sink = 3) &&
      decide (p.stores.statuses 3 = some .statusCellValid) &&
      (p.stores.cellRoots 3).any (fun root =>
        (sample.calculateVirtualState mergedNetwork p.stores mergedNode.virtualState [3]
          (mergedNetwork.ghostdag [3]) root p.diff).isOk &&
        decide (root ≠ mergedNetwork.digests.root (sample.reconstructTreeFromVirtualDiff
          mergedNode.virtualState mergedNode.virtualState.cellDiff.asReversed))) &&
      badCellRoot? (sample.settleVirtualState mergedNetwork p.stores mergedNode.virtualState 3
        parents gd p.diff)) = true := by decide +kernel
  obtain ⟨⟨sink, parents, gd, p⟩, hf, hc⟩ := any_toOption_iff.mp hrun
  simp only [Bool.and_eq_true, decide_eq_true_eq, Option.any_eq_true_iff_get] at hc
  obtain ⟨⟨⟨rfl, hv⟩, hs, hok, hr⟩, hbad⟩ := hc
  have hget := (Option.some_get hs).symm
  refine ⟨parents, gd, p, _, hf, hv, hget, hok, exists_of_badCellRoot? hbad, fun h => hr ?_⟩
  exact Option.some.inj (hget.symm.trans h.root)

end MergedBlock

end VirtualStateProcessor

end Spora
