import Spora.Mpe.CellState.Accepted
import Spora.Virtual.Resolve

namespace Spora

open Std Outcome LiveTree

variable {hasher : Hasher}

-- A virtual state that was calculated on top of the state `sinkTree`: its block diffs lead from
-- there to its cell tree, one after the other, and its cell diff is their composition.
structure VirtualState.BuiltOn (sinkTree : LiveTree hasher) (state : VirtualState hasher) :
    Prop where
  chain : Patch.ExactChain (state.blockCellDiffs.map fun block => block.cellDiff.toPatch)
    sinkTree.metaAt
  tree : state.cellStateTree.metaAt =
    Patch.applyAll (state.blockCellDiffs.map fun block => block.cellDiff.toPatch) sinkTree.metaAt
  diff : state.cellDiff.toPatch =
    Patch.compAll (state.blockCellDiffs.map fun block => block.cellDiff.toPatch)
  scores : ∀ block ∈ state.blockCellDiffs, ∀ (o : OutPoint) m, block.cellDiff.add[o]? = some m →
    m.blockDaaScore = block.blockDaaScore

def Touched (diffs : List BlockCellDiff) (o : OutPoint) : Prop :=
  ∃ block ∈ diffs, o ∈ block.cellDiff.add ∨ o ∈ block.cellDiff.remove

instance (diffs : List BlockCellDiff) (o : OutPoint) : Decidable (Touched diffs o) :=
  inferInstanceAs (Decidable (∃ block ∈ diffs, _))

theorem VirtualState.BuiltOn.get_of_not_touched {sinkTree}
    {state : VirtualState hasher} (h : state.BuiltOn sinkTree) {o}
    (ho : ¬ Touched state.blockCellDiffs o) : state.cellStateTree.get o = sinkTree.get o := by
  have hm : state.cellStateTree.metaAt o = sinkTree.metaAt o := by
    rw [h.tree]
    refine Patch.applyAll_of_untouched fun q hq => ?_
    obtain ⟨block, hb, rfl⟩ := List.mem_map.mp hq
    constructor
    · exact ExtTreeMap.getElem?_eq_none fun hadd => ho ⟨block, hb, .inl hadd⟩
    · exact ExtTreeMap.getElem?_eq_none fun hrem => ho ⟨block, hb, .inr hrem⟩
  rw [← map_metaAt, hm, map_metaAt]

theorem VirtualState.BuiltOn.addsKeyed {sinkTree} {state : VirtualState hasher}
    (h : state.BuiltOn sinkTree) : state.cellDiff.AddsKeyed := by
  intro o m hm
  have hnet := congrArg (fun p => p.add o) (h.diff.trans h.chain.compAll_eq)
  have hadd : state.cellDiff.toPatch.add o = some m := hm
  rw [hadd, ← h.tree] at hnet
  cases hb : sinkTree.metaAt o with
  | some v => simp [Patch.net, hb] at hnet
  | none =>
    have hl : state.cellStateTree.metaAt o = some m := by simpa [Patch.net, hb] using hnet.symm
    obtain ⟨entry, -, rfl⟩ := Option.map_eq_some_iff.mp hl
    rfl

namespace VirtualStateProcessor

variable {self : VirtualStateProcessor} {services : ResolveServices} {st : ChainStores}
  {prev newState : VirtualState self.hasher}

variable {ps : List Hash} {gd : GhostdagData}

theorem calculateVirtualState_runs {root diff diff'}
    (h : self.calculateVirtualState services st prev ps gd root diff = .ok (newState, diff')) :
    services.digests.root (self.reconstructTreeFromVirtualDiff prev diff) = root ∧
    newState.ghostdagData = gd ∧
    ∃ ctx daa ts, (self.reading services st).calculateCellState services.blocks
    (.new gd (self.reconstructTreeFromVirtualDiff prev diff)) daa gd.selectedParent ts = .ok ctx ∧
    newState.cellStateTree = ctx.cellStateTree ∧ newState.cellDiff = ctx.mergesetCellDiff ∧
    newState.blockCellDiffs = ctx.blockCellDiffs ∧ newState.acceptedTxIds = ctx.acceptedTxIds := by
  obtain ⟨_, hr, h⟩ := bind_ok h
  obtain ⟨window, -, h⟩ := bind_ok h
  obtain ⟨time, -, h⟩ := bind_ok h
  obtain ⟨ctx, hctx, h⟩ := bind_ok h
  obtain ⟨_, -, h⟩ := bind_ok h
  obtain ⟨rfl, -⟩ := Prod.mk.inj (Except.ok.inj h)
  exact ⟨ensure_eq_ok_iff.mp hr, rfl, ctx, _, _, hctx, rfl, rfl, rfl, rfl⟩

-- A virtual state whose accepted transactions, all of its mergeset, lead from the state `sinkTree`
-- to its cell tree.
structure AcceptedOn (services : ResolveServices) (sinkTree : LiveTree hasher)
    (state : VirtualState hasher) (accepted : List AcceptedTx) : Prop where
  ids : state.acceptedTxIds = accepted.map AcceptedTx.id
  source : ∀ a ∈ accepted, ∃ block, OfMergeset services.blocks state.ghostdagData block ∧
    ((∃ e ∈ block.txs.zipIdx, a = acceptedTx hasher block e) ∨
      ∃ coinbase, block.txs.head? = some coinbase ∧ a = acceptedCoinbase hasher block coinbase)
  tree : state.cellStateTree.metaAt = Ledger.run (accepted.map AcceptedTx.tx) sinkTree.metaAt

theorem calculateVirtualState_eq_ok {root diff diff'}
    (h : self.calculateVirtualState services st prev ps gd root diff = .ok (newState, diff')) :
    services.digests.root (self.reconstructTreeFromVirtualDiff prev diff) = root ∧
    newState.BuiltOn (self.reconstructTreeFromVirtualDiff prev diff) ∧ newState.ghostdagData = gd ∧
    ∃ accepted,
    AcceptedOn services (self.reconstructTreeFromVirtualDiff prev diff) newState accepted := by
  obtain ⟨hr, hgd, ctx, daa, ts, hctx, ht, hd, hb, hids⟩ := calculateVirtualState_runs h
  have hacc := calculateCellState_accumulates hctx
  obtain ⟨accepted, ha⟩ := calculateCellState_accepts hctx
  refine ⟨hr, ⟨?_, ?_, ?_, fun block hbl o m hm => ?_⟩, hgd, accepted, hids.trans ha.ids,
    hgd ▸ ha.source, ht ▸ ha.tree⟩
  · rw [hb]
    exact hacc.chain
  · rw [ht, hb]
    exact hacc.tree
  · rw [hd, hb]
    exact hacc.diff
  · obtain ⟨-, -, -, -, had⟩ := ha.diffs block (hb ▸ hbl)
    exact (had o m hm).1

theorem settleVirtualState_cases {sink diff}
    (h : self.settleVirtualState services st prev sink ps gd diff = .ok newState) :
    ∃ root, st.cellRoots sink = some root ∧
    ((∃ diff', self.calculateVirtualState services st prev ps gd root diff =
      .ok (newState, diff')) ∨ ∃ diff', self.calculateVirtualState services st prev [sink]
      (services.ghostdag [sink]) root prev.cellDiff.asReversed = .ok (newState, diff')) := by
  obtain ⟨root, hr, h⟩ := bind_ok h
  rw [okOr_eq_ok_iff] at hr
  refine ⟨root, hr, ?_⟩
  split at h
  case h_1 state diff' hc =>
    cases h
    exact .inl ⟨diff', hc⟩
  case h_2 => simp at h
  case h_3 =>
    obtain ⟨⟨state, diff'⟩, hc, h⟩ := bind_ok h
    cases h
    exact .inr ⟨diff', hc⟩

theorem settleVirtualState_eq_ok {sink diff} (hgd : gd.selectedParent = sink)
    (h : self.settleVirtualState services st prev sink ps gd diff = .ok newState) :
    ∃ tree, newState.ghostdagData.selectedParent = sink ∧
    st.cellRoots sink = some (services.digests.root tree) ∧ newState.BuiltOn tree ∧
    ∃ accepted, AcceptedOn services tree newState accepted := by
  obtain ⟨root, hr, ⟨diff', hc⟩ | ⟨diff', hc⟩⟩ := settleVirtualState_cases h
  · obtain ⟨ht, hb, hd, ha⟩ := calculateVirtualState_eq_ok hc
    exact ⟨_, hd ▸ hgd, by rw [hr, ht], hb, ha⟩
  · obtain ⟨ht, hb, hd, ha⟩ := calculateVirtualState_eq_ok hc
    exact ⟨_, hd ▸ services.ghostdag_singleton sink, by rw [hr, ht], hb, ha⟩

theorem searchVirtualParents_selectedParent {rounds tips ps pp sink p}
    (h : self.searchVirtualParents services rounds st prev tips pp =
      .ok (sink, ps, gd, p)) : gd.selectedParent = sink := by
  obtain ⟨⟨newSink, cs, p'⟩, -, h⟩ := bind_ok h
  obtain ⟨⟨filtered, stores'⟩, -, h⟩ := bind_ok h
  obtain ⟨_, ha, h⟩ := bind_ok h
  obtain ⟨rfl, -, rfl, -⟩ := h
  exact ensure_eq_ok_iff.mp ha

structure Resolved (services : ResolveServices) (note : CellsChangedNotification)
    (node' : Node hasher) (sinkTree : LiveTree hasher) : Prop where
  accumulatedCellDiff : note.accumulatedCellDiff = node'.virtualState.cellDiff
  blockCellDiffs : note.blockCellDiffs = node'.virtualState.blockCellDiffs
  sinkRoot : node'.stores.cellRoots node'.virtualState.ghostdagData.selectedParent =
    some (services.digests.root sinkTree)
  builtOn : node'.virtualState.BuiltOn sinkTree

theorem resolveVirtual_eq_ok {rounds tips pp node node' note}
    (h : self.resolveVirtual services rounds tips pp node = (.ok note, node')) :
    ∃ tree, Resolved services note node' tree ∧
    ∃ accepted, AcceptedOn services tree node'.virtualState accepted := by
  unfold resolveVirtual at h
  split at h
  case h_1 => simp at h
  case h_2 sink ps gd p hse =>
    split at h
    case h_1 => simp at h
    case h_2 state hs =>
      obtain ⟨rfl, rfl⟩ := h
      obtain ⟨tree, hsi, hr, hb, ha⟩ :=
        settleVirtualState_eq_ok (searchVirtualParents_selectedParent hse) hs
      exact ⟨tree, ⟨rfl, rfl, by rw [hsi]; exact hr, hb⟩, ha⟩

theorem BuiltOn.applyCellDiffToTree_iff {sinkTree} {state : VirtualState hasher}
    (h : state.BuiltOn sinkTree) (tree) :
    applyCellDiffToTree tree state.cellDiff = state.cellStateTree ↔
    ∀ o, (sinkTree.metaAt o).isSome = (state.cellStateTree.metaAt o).isSome →
    tree.metaAt o = state.cellStateTree.metaAt o := by
  have ha : applyCellDiffToTree tree state.cellDiff = state.cellStateTree ↔
      state.cellDiff.toPatch.apply tree.metaAt = state.cellStateTree.metaAt := by
    rw [← metaAt_applyCellDiffToTree tree h.addsKeyed]
    exact ⟨fun heq => by rw [heq], ext_metaAt⟩
  rw [ha, h.diff, h.tree, h.chain.compAll_apply_eq_iff]

-- What the previous virtual state has to be around the transactions of the new mergeset: it has the
-- cells of the sink's state where they touch nothing, lacks what they create and spend, and has
-- what they spend and create again.
structure Anticipates (previous sinkTree : LiveTree hasher)
    (txs : List (Ledger.Tx OutPoint CellMeta)) : Prop where
  untouched : ∀ o, (∀ tx ∈ txs, ¬ tx.Touches o) → previous.get o = sinkTree.get o
  transient : ∀ o tx, Ledger.LastTouch txs tx o → tx.creates.lookup o = none →
    sinkTree.get o = none → previous.get o = none
  recreated : ∀ o tx cell, Ledger.LastTouch txs tx o → tx.creates.lookup o = some cell →
    sinkTree.get o ≠ none → previous.metaAt o = some cell

theorem anticipates_iff {previous sinkTree : LiveTree hasher} {txs} :
    Anticipates previous sinkTree txs ↔
    ∀ o, (sinkTree.metaAt o).isSome = (Ledger.run txs sinkTree.metaAt o).isSome →
    previous.metaAt o = Ledger.run txs sinkTree.metaAt o := by
  have hnone : ∀ (t : LiveTree hasher) o, t.get o = none ↔ t.metaAt o = none := fun t o => by
    simp [metaAt]
  constructor
  · intro h o hsame
    by_cases ho : ∃ tx ∈ txs, tx.Touches o
    · obtain ⟨tx, htx⟩ := Ledger.exists_lastTouch ho
      rw [htx.run_eq] at hsame ⊢
      cases hcell : tx.creates.lookup o with
      | none =>
        refine (hnone _ o).mp (h.transient o tx htx hcell ?_)
        exact (hnone _ o).mpr (by simpa [hcell] using hsame)
      | some cell =>
        refine h.recreated o tx cell htx hcell fun hsink => ?_
        simp [(hnone _ o).mp hsink, hcell] at hsame
    · have hun : ∀ tx ∈ txs, ¬ tx.Touches o := fun tx htx hk => ho ⟨tx, htx, hk⟩
      rw [Ledger.run_of_untouched hun, metaAt, h.untouched o hun, metaAt]
  · intro h
    refine ⟨fun o ho => ?_, fun o tx htx hcell hsink => ?_, fun o tx cell htx hcell hsink => ?_⟩
    · have heq := h o (by rw [Ledger.run_of_untouched ho])
      rw [Ledger.run_of_untouched ho] at heq
      rw [← map_metaAt, heq, map_metaAt]
    · have heq := h o (by simp [htx.run_eq, hcell, (hnone _ o).mp hsink])
      rw [htx.run_eq, hcell] at heq
      exact (hnone _ o).mpr heq
    · have hlive : (sinkTree.metaAt o).isSome = true := by
        rw [Option.isSome_iff_ne_none]
        exact mt (hnone _ o).mpr hsink
      have heq := h o (by rw [hlive, htx.run_eq, hcell]; rfl)
      rw [heq, htx.run_eq, hcell]

-- A notification describes the change of the virtual state exactly when the previous virtual state
-- is, around the transactions accepted from the new mergeset, what the state of the sink is.
theorem accumulatedCellDiff_describes_iff {rounds : Nat} {tips : List Hash} {pruningPoint : Hash}
    {node node' : Node self.hasher} {note : CellsChangedNotification}
    (h : self.resolveVirtual services rounds tips pruningPoint node = (.ok note, node')) :
    ∃ sinkTree accepted, Resolved services note node' sinkTree ∧
    AcceptedOn services sinkTree node'.virtualState accepted ∧
    (applyCellDiffToTree node.virtualState.cellStateTree note.accumulatedCellDiff =
      node'.virtualState.cellStateTree ↔
      Anticipates node.virtualState.cellStateTree sinkTree (accepted.map AcceptedTx.tx)) := by
  obtain ⟨sinkTree, hresolved, accepted, hacc⟩ := resolveVirtual_eq_ok h
  refine ⟨sinkTree, accepted, hresolved, hacc, ?_⟩
  rw [hresolved.accumulatedCellDiff, BuiltOn.applyCellDiffToTree_iff hresolved.builtOn,
    anticipates_iff, ← hacc.tree]

section Line

-- The node after the first block, after the next one, and after the next two have arrived together.
def firstStep : Except RuleError CellsChangedNotification × Node Hasher.sample :=
  sample.resolveVirtual lineNetwork 9 [2] 1 sampleNode

def nextStep : Except RuleError CellsChangedNotification × Node Hasher.sample :=
  sample.resolveVirtual lineNetwork 9 [3] 1 firstStep.2

def secondStep : Except RuleError CellsChangedNotification × Node Hasher.sample :=
  sample.resolveVirtual lineNetwork 9 [4] 1 firstStep.2

theorem accumulatedCellDiff_describes_next : firstStep.2.virtualState.cellStateTree ≠ .empty ∧
    ∃ note sinkTree accepted, nextStep = (.ok note, nextStep.2) ∧
    Resolved lineNetwork note nextStep.2 sinkTree ∧
    AcceptedOn lineNetwork sinkTree nextStep.2.virtualState accepted ∧
    Anticipates firstStep.2.virtualState.cellStateTree sinkTree (accepted.map AcceptedTx.tx) := by
  have hrun : nextStep.1.toOption.any (fun note => decide
      (applyCellDiffToTree firstStep.2.virtualState.cellStateTree note.accumulatedCellDiff =
        nextStep.2.virtualState.cellStateTree)) = true := by decide +kernel
  obtain ⟨note, hs, hd⟩ := exists_of_any_toOption_fst hrun
  obtain ⟨sinkTree, accepted, hresolved, hacc, hiff⟩ := accumulatedCellDiff_describes_iff hs
  exact ⟨by decide +kernel, note, sinkTree, accepted, hs, hresolved, hacc,
    hiff.mp (of_decide_eq_true hd)⟩

-- Two blocks at once: the diff of the mergeset of the new sink lacks the cell of the block between.
theorem accumulatedCellDiff_lacks_block : ∃ note note', firstStep = (.ok note, firstStep.2) ∧
    secondStep = (.ok note', secondStep.2) ∧
    applyCellDiffToTree firstStep.2.virtualState.cellStateTree note'.accumulatedCellDiff ≠
    secondStep.2.virtualState.cellStateTree := by
  have hf : firstStep.1.toOption.any (fun _ => true) = true := by decide +kernel
  have hs : secondStep.1.toOption.any (fun note => decide
      (applyCellDiffToTree firstStep.2.virtualState.cellStateTree note.accumulatedCellDiff ≠
        secondStep.2.virtualState.cellStateTree)) = true := by decide +kernel
  obtain ⟨note, hn, -⟩ := exists_of_any_toOption_fst hf
  obtain ⟨note', hn', hl⟩ := exists_of_any_toOption_fst hs
  exact ⟨note, note', hn, hn', of_decide_eq_true hl⟩

end Line

end VirtualStateProcessor

end Spora
