import Spora.Virtual.Initial
import Spora.Virtual.Notification
import Spora.Virtual.Reorg

namespace Spora

open Std Outcome Patch Function

-- A node whose virtual state lies on top of the settled state of its sink.
structure NodeSettled {hasher : Hasher} (χ : OutPoint → CellMeta) (chain : Forest Hash)
    (digests : StateDigests) (state : Hash → LiveTree hasher) (node : Node hasher) : Prop where
  settled : Settled χ chain digests node.stores state
  stored : (node.stores.cellDiffs node.virtualState.ghostdagData.selectedParent).isSome
  charted : Charted χ node.virtualState.cellStateTree.metaAt
  diff : node.virtualState.cellDiff.toPatch =
      difference (state node.virtualState.ghostdagData.selectedParent).metaAt
      node.virtualState.cellStateTree.metaAt

def StateDigests.Separates (χ : OutPoint → CellMeta) (hasher : Hasher) (digests : StateDigests) :
    Prop :=
  ∀ t u : LiveTree hasher, Charted χ t.metaAt → Charted χ u.metaAt →
    digests.root t = digests.root u → t = u

section Start

variable {H : Hasher} {χ : OutPoint → CellMeta} {sv : ResolveServices}

theorem difference_none {g : OutPoint → Option CellMeta} :
    difference (fun _ => none) g = ⟨g, fun _ => none⟩ := rfl

theorem metaAt_empty : (.empty : LiveTree H).metaAt = fun _ => none := by
  funext o
  simp [LiveTree.metaAt]

theorem settled_single {stores block root diff} {tree : LiveTree H} {chain digests}
    (hdiffs : stores.cellDiffs = Function.update (fun _ => none) block (some diff))
    (hroots : stores.cellRoots = Function.update (fun _ => none) block (some root))
    (htree : Charted χ tree.metaAt) (hdiff : diff.toPatch = ⟨tree.metaAt, fun _ => none⟩)
    (hroot : digests.root tree = root) :
    Settled χ chain digests stores (Function.update (fun _ => .empty) block tree) := by
  have hs : ∀ b, (stores.cellDiffs b).isSome ↔ b = block := fun b => by
    by_cases hb : b = block <;> simp [hdiffs, hb]
  refine ⟨fun b => ?_, fun b r hr => ?_, fun b d hd => ?_, fun b => ?_,
    fun a b c ha hab hbc hc => ?_⟩
  · by_cases hb : b = block
    · simpa [hb] using htree
    · simpa [hb] using charted_empty
  · by_cases hb : b = block
    · subst hb
      simp only [hroots, update_self, Option.some.injEq] at hr
      rw [update_self, hroot, hr]
    · simp [hroots, hb] at hr
  · obtain rfl := (hs b).mp (by rw [hd]; rfl)
    simp only [hdiffs, update_self, Option.some.injEq] at hd
    have hbe : (chain.parent b).elim .empty (Function.update (fun _ => .empty) b tree) =
        (.empty : LiveTree H) := by
      cases hp : chain.parent b with
      | none => rfl
      | some q =>
        have hne : q ≠ b := fun heq =>
          chain.not_mem_path_of_parent hp (heq ▸ chain.mem_path_self)
        rw [Option.elim_some, update_of_ne hne]
    rw [← hd, hdiff, hbe, metaAt_empty, update_self, difference_none]
  · by_cases hb : b = block <;> simp [hdiffs, hroots, hb]
  · rw [hs] at ha hc ⊢
    subst ha hc
    exact chain.path_antisymm hab hbc

theorem processGenesis_settled (genesis sts) : ∃ state, NodeSettled χ sv.chain sv.digests state
    (processGenesis H sv genesis (.fresh sts)) := by
  have hs : (sv.ghostdag [genesis.hash]).selectedParent = genesis.hash := sv.ghostdag_singleton _
  refine ⟨Function.update (fun _ => .empty) genesis.hash .empty,
    settled_single rfl rfl charted_empty ?_ rfl, ?_, charted_empty, ?_⟩
  · rw [metaAt_empty]
    rfl
  · simp [processGenesis, VirtualState.fromGenesis, hs, ChainStores.commitCellState]
  · simp only [processGenesis, VirtualState.fromGenesis, hs, update_self, CellDiff.toPatch_empty,
      difference_self]

theorem importPruningPointCellSet_settled {bits newPruningPoint tree sts} {node : Node H}
    (htree : Charted χ tree.metaAt)
    (h : importPruningPointCellSet sv bits newPruningPoint tree (.fresh sts) =
      .ok node) : ∃ state, NodeSettled χ sv.chain sv.digests state node := by
  obtain ⟨header, -, h⟩ := bind_ok h
  obtain ⟨_, -, h⟩ := bind_ok h
  obtain ⟨_, -, h⟩ := bind_ok h
  obtain ⟨transactions, -, h⟩ := bind_ok h
  cases h
  have hs : (sv.ghostdag [newPruningPoint]).selectedParent = newPruningPoint :=
    sv.ghostdag_singleton _
  refine ⟨Function.update (fun _ => .empty) newPruningPoint tree,
    settled_single rfl rfl htree (toPatch_importedCellDiff _) rfl, ?_, htree, ?_⟩
  · simp [hs]
  · simp only [hs, update_self, CellDiff.toPatch_empty, difference_self]

end Start

theorem NodeSettled.tracks {hasher χ chain digests state} {node : Node hasher}
    (h : NodeSettled χ chain digests state node) :
    Tracks χ chain digests node.virtualState.cellStateTree state
    ⟨node.stores, node.virtualState.cellDiff.asReversed⟩
    node.virtualState.ghostdagData.selectedParent :=
  ⟨h.settled, h.charted, by rw [CellDiff.toPatch_asReversed, h.diff, reverse_difference]⟩

namespace VirtualStateProcessor

variable {self : VirtualStateProcessor} {services : ResolveServices} {χ : OutPoint → CellMeta}
  {s : Hash → LiveTree self.hasher} {prev newState : VirtualState self.hasher}
  {node node' : Node self.hasher}

variable {stores stores' : ChainStores}

section

variable (hblocks : services.blocks.Charted χ self.hasher)
include hblocks

theorem filterVirtualParentCandidates_tracks {sink diffToSink cs filtered}
    (h : TracksIn χ services prev.cellStateTree s ⟨stores, diffToSink⟩ sink)
    (hrun : self.filterVirtualParentCandidates services prev diffToSink sink cs stores =
      .ok (filtered, stores')) :
    ∃ state', TracksIn χ services prev.cellStateTree state'
    ⟨stores', diffToSink⟩ sink ∧ Writes services stores stores' ∧ Keeps stores s state' := by
  induction cs generalizing stores filtered s with
  | nil =>
    obtain ⟨-, rfl⟩ := Prod.mk.inj (Except.ok.inj hrun)
    exact ⟨s, h, .refl _, fun _ _ => rfl⟩
  | cons candidate rest ih =>
    unfold filterVirtualParentCandidates at hrun
    split at hrun
    · simp at hrun
    · exact ih h hrun
    · cases hrel : self.calculateCellStateRelatively services prev ⟨stores, diffToSink⟩ sink
        candidate with
      | mk verdict p =>
        rw [hrel] at hrun
        rcases calculateCellStateRelatively_tracks hblocks h hrel with
          ⟨message, rfl⟩ | ⟨point, mid, rfl, ht, hw, hk, hs⟩
        · simp at hrun
        · obtain ⟨⟨filtered', stores''⟩, hr, hrun⟩ := bind_ok hrun
          obtain ⟨-, rfl⟩ := Prod.mk.inj (Except.ok.inj hrun)
          have hba : TracksIn χ services prev.cellStateTree mid
              ⟨p.stores, diffToSink⟩ sink := ⟨ht.settled, h.charted, hs ▸ h.diff⟩
          obtain ⟨state', ht', hw', hk'⟩ := ih hba hr
          refine ⟨state', ht', hw.trans hw', fun b hb => ?_⟩
          rw [hk' b (hw.isSome_cellDiffs hb), hk b hb]

theorem searchVirtualParents_tracks {rounds tips ps pp sink gd p}
    (h : NodeSettled χ services.chain services.digests s node)
    (hrun : self.searchVirtualParents services rounds node.stores node.virtualState tips pp =
      .ok (sink, ps, gd, p)) :
    ∃ state', TracksIn χ services node.virtualState.cellStateTree state' p sink
    ∧ Writes services node.stores p.stores ∧ Keeps node.stores s state' := by
  obtain ⟨⟨newSink, cs, q⟩, hs, hrun⟩ := bind_ok hrun
  obtain ⟨⟨filtered, stores'⟩, hf, hrun⟩ := bind_ok hrun
  obtain ⟨_, -, hrun⟩ := bind_ok hrun
  obtain ⟨rfl, -, -, rfl⟩ := hrun
  obtain ⟨blocks, -, hs⟩ := bind_ok hs
  obtain ⟨last, hl, hfo⟩ := sinkSearch_eq_ok hs
  obtain ⟨mid, ht, hw, hk⟩ := hl.tracks hblocks h.tracks
  obtain ⟨found, ht, hw', hk'⟩ := sinkSearchRound_tracks hblocks ht hfo
  obtain ⟨state', ht, hw'', hk''⟩ := filterVirtualParentCandidates_tracks hblocks ht hf
  have hto := hw.trans hw'
  refine ⟨state', ht, hto.trans hw'', fun b hb => ?_⟩
  rw [hk'' b (hto.isSome_cellDiffs hb), hk' b (hw.isSome_cellDiffs hb), hk b hb]

end

-- A virtual state that was read off the execution of its mergeset on the state `base`.
def ExecutedOn (self : VirtualStateProcessor) (services : ResolveServices)
    (base : LiveTree self.hasher) (newState : VirtualState self.hasher) : Prop :=
  ∃ stores ctx daa ts, (self.reading services stores).calculateCellState services.blocks
      (.new newState.ghostdagData base) daa newState.ghostdagData.selectedParent ts = .ok ctx ∧
    newState.cellStateTree = ctx.cellStateTree ∧ newState.cellDiff = ctx.mergesetCellDiff ∧
      newState.acceptedTxIds = ctx.acceptedTxIds

-- The second half: the virtual state lies on the state of the sink. Where the reversed virtual diff
-- is used instead, the roots tell that it leads to the same state.
theorem settleVirtualState_executedOn (hroots : services.digests.Separates χ self.hasher)
    {p sink ps gd state'} (h : NodeSettled χ services.chain services.digests s node)
    (htracks : TracksIn χ services node.virtualState.cellStateTree
      state' p sink) (hgd : gd.selectedParent = sink)
    (hsettle : self.settleVirtualState services p.stores node.virtualState sink ps gd p.diff =
      .ok newState) :
    (p.stores.cellRoots sink).isSome ∧ newState.ghostdagData.selectedParent = sink ∧
    ExecutedOn self services (state' sink) newState := by
  obtain ⟨root, hr, ⟨diff', hc⟩ | ⟨diff', hc⟩⟩ := settleVirtualState_cases hsettle
  · obtain ⟨-, hd, ctx, daa, ts, hctx, ht, hdi, -, hids⟩ := calculateVirtualState_runs hc
    have hb : self.reconstructTreeFromVirtualDiff node.virtualState p.diff = state' sink :=
      htracks.applyCellDiffToTree_eq
    rw [hb, ← hd] at hctx
    exact ⟨by rw [hr]; rfl, hd ▸ hgd, p.stores, ctx, daa, ts, hctx, ht, hdi, hids⟩
  · obtain ⟨hs, hd, ctx, daa, ts, hctx, ht, hdi, -, hids⟩ := calculateVirtualState_runs hc
    have hp : self.reconstructTreeFromVirtualDiff node.virtualState
        node.virtualState.cellDiff.asReversed =
          s node.virtualState.ghostdagData.selectedParent := h.tracks.applyCellDiffToTree_eq
    have hb : s node.virtualState.ghostdagData.selectedParent = state' sink := by
      refine hroots _ _ (h.settled.charted _) (htracks.settled.charted _) ?_
      rw [← hp, hs, htracks.settled.root sink root hr]
    rw [hp, hb, ← hd] at hctx
    exact ⟨by rw [hr]; rfl, hd ▸ services.ghostdag_singleton sink, p.stores, ctx, daa, ts, hctx, ht,
      hdi, hids⟩

theorem resolveVirtual_settled (hblocks : services.blocks.Charted χ self.hasher)
    (hroots : services.digests.Separates χ self.hasher) {rounds tips pp v}
    (h : NodeSettled χ services.chain services.digests s node)
    (hresolve : self.resolveVirtual services rounds tips pp node = (v, node')) :
    ∃ state', NodeSettled χ services.chain services.digests state' node' ∧
    Writes services node.stores node'.stores ∧
    (node'.virtualState = node.virtualState ∨ ExecutedOn self services
      (state' node'.virtualState.ghostdagData.selectedParent) node'.virtualState) := by
  unfold resolveVirtual at hresolve
  split at hresolve
  · obtain ⟨-, rfl⟩ := Prod.mk.inj hresolve
    exact ⟨s, h, .refl _, .inl rfl⟩
  · next sink parents gd p hs =>
      obtain ⟨state', ht, hw, hk⟩ := searchVirtualParents_tracks hblocks h hs
      split at hresolve
      · obtain ⟨-, rfl⟩ := Prod.mk.inj hresolve
        refine ⟨state', ⟨ht.settled, hw.isSome_cellDiffs h.stored, h.charted, ?_⟩, hw, .inl rfl⟩
        rw [hk _ h.stored]
        exact h.diff
      · next newState hse =>
          obtain ⟨-, rfl⟩ := Prod.mk.inj hresolve
          obtain ⟨hst, hsi, he⟩ := settleVirtualState_executedOn hroots h ht
            (searchVirtualParents_selectedParent hs) hse
          have he' := he
          obtain ⟨stores, ctx, daa, ts, hctx, htr, hdi, -⟩ := he'
          obtain ⟨hd, hc⟩ := calculateCellState_difference
            (self.reading services stores) hblocks (ht.settled.charted sink) hctx
          refine ⟨state', ⟨ht.settled, ?_, ?_, ?_⟩, hw, .inr ?_⟩
          · rw [hsi, ht.settled.together]
            exact hst
          · rw [htr]
            exact hc
          · rw [hsi, htr, hdi]
            exact hd
          · rw [hsi]
            exact he

-- Services over the same chains, headers and digests. Blocks may arrive, bodies may go, and virtual
-- parents are picked anew each time.
structure Shares (dag services : ResolveServices) : Prop where
  chain : services.chain = dag.chain
  headers : services.headers = dag.headers
  digests : services.digests = dag.digests

-- What is deleted is deleted as a whole, and nothing above a block that stays.
structure Prunes (chain : Forest Hash) (stores stores' : ChainStores) : Prop where
  kept : ∀ b, (stores'.cellDiffs b).isSome →
    stores'.cellDiffs b = stores.cellDiffs b ∧ stores'.cellRoots b = stores.cellRoots b
  deleted : ∀ b, stores'.cellDiffs b = none → stores'.cellRoots b = none
  upward : ∀ a b, b ∈ chain.path a → (stores'.cellDiffs b).isSome → (stores.cellDiffs a).isSome →
    (stores'.cellDiffs a).isSome

-- The nodes that are reached from the nodes of `Start`: statuses change as blocks arrive, old
-- blocks are pruned, and virtual is resolved over and over, with block stores that meet `Allowed`.
inductive Reached (self : VirtualStateProcessor) (Allowed : BlockStores → Prop)
    (dag : ResolveServices) (Start : Node self.hasher → Prop) : Node self.hasher → Prop
  | start {node : Node self.hasher} (h : Start node) : Reached self Allowed dag Start node
  | arrive {node : Node self.hasher} (h : Reached self Allowed dag Start node)
      (statuses : Hash → Option BlockStatus) :
      Reached self Allowed dag Start { node
        with stores := { node.stores with statuses := statuses } }
  | prune {node : Node self.hasher} {stores' : ChainStores}
      (h : Reached self Allowed dag Start node) (hprunes : Prunes dag.chain node.stores stores')
      (hsink : (stores'.cellDiffs node.virtualState.ghostdagData.selectedParent).isSome) :
      Reached self Allowed dag Start { node with stores := stores' }
  | resolve {node node' : Node self.hasher} {services : ResolveServices} {rounds : Nat}
      {tips : List Hash} {pruningPoint : Hash} {verdict : Except RuleError CellsChangedNotification}
      (h : Reached self Allowed dag Start node) (hshares : Shares dag services)
      (hblocks : Allowed services.blocks)
      (hresolve : self.resolveVirtual services rounds tips pruningPoint node = (verdict, node')) :
      Reached self Allowed dag Start node'

inductive StartNode (χ : OutPoint → CellMeta) (dag : ResolveServices) {hasher : Hasher} :
    Node hasher → Prop
  | genesis (genesis : GenesisBlock) (statuses : Hash → Option BlockStatus) :
      StartNode χ dag (processGenesis hasher dag genesis (.fresh statuses))
  | imported {bits : Nat} {newPruningPoint : Hash} {importedCellTree : LiveTree hasher}
      {statuses : Hash → Option BlockStatus} {node : Node hasher}
      (htree : Charted χ importedCellTree.metaAt)
      (h : importPruningPointCellSet dag bits newPruningPoint importedCellTree (.fresh statuses) =
        .ok node) : StartNode χ dag node

theorem StartNode.settled {hasher dag} {node : Node hasher}
    (h : StartNode χ dag node) : ∃ s, NodeSettled χ dag.chain dag.digests s node := by
  cases h with
  | genesis genesis sts => exact processGenesis_settled genesis sts
  | imported ht him => exact importPruningPointCellSet_settled ht him

theorem Prunes.cellRoots_eq {chain} (h : Prunes chain stores stores') {b r}
    (hr : stores'.cellRoots b = some r) :
    stores.cellRoots b = some r := by
  cases hd : stores'.cellDiffs b with
  | none => simp [h.deleted b hd] at hr
  | some d => rw [← (h.kept b (by rw [hd]; rfl)).2, hr]

theorem Prunes.settled {chain digests} (hprunes : Prunes chain stores stores')
    (h : Settled χ chain digests stores s) :
    Settled χ chain digests stores' s := by
  refine ⟨h.charted, fun b r hr => h.root b r (hprunes.cellRoots_eq hr), fun b d hd => ?_,
    fun b => ?_, fun a b c ha hab hbc hc => ?_⟩
  · have hk := hprunes.kept b (by rw [hd]; rfl)
    exact h.diff b d (hk.1 ▸ hd)
  · cases hd : stores'.cellDiffs b with
    | none => simp [hprunes.deleted b hd]
    | some d =>
      have hk := hprunes.kept b (by rw [hd]; rfl)
      rw [hk.2, ← h.together b, ← hk.1, hd]
  · have hold : ∀ x, (stores'.cellDiffs x).isSome → (stores.cellDiffs x).isSome := fun x hx =>
      (hprunes.kept x hx).1 ▸ hx
    exact hprunes.upward b c hbc hc (h.convex a b c (hold a ha) hab hbc (hold c hc))

theorem Reached.settled {Allowed dag Start} (hroots : dag.digests.Separates χ self.hasher)
    (hallowed : ∀ blocks, Allowed blocks → blocks.Charted χ self.hasher)
    (hstart : ∀ node, Start node → StartNode χ dag node) (h : Reached self Allowed dag Start node) :
    ∃ s, NodeSettled χ dag.chain dag.digests s node := by
  induction h with
  | start h => exact (hstart _ h).settled
  | arrive _ sts ih =>
    obtain ⟨s, ih⟩ := ih
    exact ⟨s, ⟨ih.settled.charted, ih.settled.root, ih.settled.diff, ih.settled.together,
      ih.settled.convex⟩, ih.stored, ih.charted, ih.diff⟩
  | prune _ hp hsi ih =>
    obtain ⟨s, ih⟩ := ih
    exact ⟨s, hp.settled ih.settled, hsi, ih.charted, ih.diff⟩
  | resolve _ hs hblocks hr ih =>
    obtain ⟨s, ih⟩ := ih
    rw [← hs.chain, ← hs.digests] at ih ⊢
    obtain ⟨state', hse, -⟩ := resolveVirtual_settled (hallowed _ hblocks)
      (hs.digests ▸ hroots) ih hr
    exact ⟨state', hse⟩

end VirtualStateProcessor

end Spora
