import Spora.Mpe.CellState.Acceptance
import Spora.Virtual.Bookkeeping

namespace Spora

open Std Outcome Patch ChainStores

-- A committed virtual state fits the rest of the node: on a state with the root of the selected
-- parent's header its diff gives its tree, and the diff is the composition of what the accepted
-- transactions spend and create, in their order.
structure VirtualState.Coherent {hasher : Hasher} (dag : ResolveServices)
    (state : VirtualState hasher) (base : LiveTree hasher) (accepted : List AcceptedTx) : Prop where
  header : ∃ header, dag.headers state.ghostdagData.selectedParent = some header ∧
    dag.digests.root base = header.cellRoot
  tree : applyCellDiffToTree base state.cellDiff = state.cellStateTree
  ids : state.acceptedTxIds = accepted.map AcceptedTx.id
  source : ∀ a ∈ accepted, ∃ block,
      VirtualStateProcessor.OfMergeset dag.blocks state.ghostdagData block ∧
      ((∃ e ∈ block.txs.zipIdx, a = acceptedTx hasher block e) ∨
        ∃ coinbase, block.txs.head? = some coinbase ∧ a = acceptedCoinbase hasher block coinbase)
  diff : state.cellDiff.toPatch = compAll (Ledger.patches (accepted.map AcceptedTx.tx) base.metaAt)

-- The accepted transactions begin with the coinbase of the selected parent.
def VirtualState.ListsCoinbase {hasher : Hasher} (dag : ResolveServices)
    (state : VirtualState hasher) : Prop :=
  ∃ block, dag.blocks.loadBlock state.ghostdagData.selectedParent = .ok block ∧
    VirtualStateProcessor.selectedParentIds hasher block.txs <+: state.acceptedTxIds

def RootsInHeaders (headers : Hash → Option Header) (stores : ChainStores) : Prop :=
  ∀ b r, stores.cellRoots b = some r → ∃ header, headers b = some header ∧ header.cellRoot = r

namespace VirtualStateProcessor

variable {self : VirtualStateProcessor} {χ : OutPoint → CellMeta} {dag sv : ResolveServices}

theorem Writes.rootsInHeaders {stores stores'} (h : Writes sv stores stores')
    (hroots : RootsInHeaders sv.headers stores) : RootsInHeaders sv.headers stores' := by
  induction h with
  | refl => exact hroots
  | setStatus _ _ _ ih => exact ih
  | @commitCellState _ block header _ _ _ hh ih =>
    intro b r hr
    by_cases hb : b = block
    · subst hb
      simp only [ChainStores.commitCellState, Function.update_self, Option.some.injEq] at hr
      exact ⟨header, hh, hr⟩
    · exact ih b r (by simpa [ChainStores.commitCellState, hb] using hr)

theorem ExecutedOn.coherent {base state} (h : ExecutedOn self sv base state)
    (hblocks : sv.blocks = dag.blocks) (hcharted : dag.blocks.Charted χ self.hasher)
    (hbase : Charted χ base.metaAt)
    (hheader : ∃ header, dag.headers state.ghostdagData.selectedParent = some header ∧
      dag.digests.root base = header.cellRoot) :
    (∃ accepted, state.Coherent dag base accepted) ∧ state.ListsCoinbase dag := by
  obtain ⟨stores, ctx, daa, ts, hca, ht, hdi, hids⟩ := h
  rw [hblocks] at hca
  obtain ⟨hd, hctx⟩ := calculateCellState_difference (self.reading sv stores) hcharted hbase hca
  obtain ⟨accepted, hac⟩ := calculateCellState_accepts hca
  obtain ⟨block, hl, hr⟩ := calculateCellState_recorded hca
  have had : ∀ q ∈ Ledger.patches (accepted.map AcceptedTx.tx) base.metaAt, Charted χ q.add := by
    intro q hq o m hm
    obtain ⟨tx, htx, hce⟩ := Ledger.mem_creates_of_mem_patches hq hm
    obtain ⟨a, ha, rfl⟩ := List.mem_map.mp htx
    obtain ⟨block, ⟨-, hl⟩, ⟨e, he, rfl⟩ | ⟨coinbase, hh, rfl⟩⟩ := hac.source a ha
    · exact hcharted.txs _ block hl e he _ hce
    · exact hcharted.coinbases _ block hl coinbase hh _ hce
  obtain ⟨hc, -⟩ := hac.fit.exactChain.compAll_eq_difference hbase had
  rw [Ledger.applyAll_patches, ← hac.tree] at hc
  refine ⟨⟨accepted, hheader, ?_, ?_, hac.source, ?_⟩, block, hl, ?_⟩
  · rw [hdi, ht]
    exact applyCellDiffToTree_of_difference hbase hctx hd
  · rw [hids]
    exact hac.ids
  · rw [hdi]
    exact hd.trans hc.symm
  · rw [hids, hr.ids]
    exact List.prefix_append _ _

-- Where a coherent history may start: a genesis whose header commits to the empty state, or an
-- import of a pruning point that has no transaction besides its coinbase.
inductive CoherentStart (χ : OutPoint → CellMeta) (dag : ResolveServices) {hasher : Hasher} :
    Node hasher → Prop
  | genesis (genesis : GenesisBlock) (statuses : Hash → Option BlockStatus)
      (hheader : ∃ header, dag.headers genesis.hash = some header ∧
        header.cellRoot = dag.digests.root (.empty : LiveTree hasher)) :
      CoherentStart χ dag (processGenesis hasher dag genesis (.fresh statuses))
  | imported {bits : Nat} {newPruningPoint : Hash} {importedCellTree : LiveTree hasher}
      {statuses : Hash → Option BlockStatus} {node : Node hasher}
      (htree : Charted χ importedCellTree.metaAt)
      (htxs : ∀ txs, dag.blocks.blockTransactions newPruningPoint = some txs →
        txs = [] ∨ ∃ coinbase : CellTx, coinbase.isCoinbase ∧ txs = [coinbase])
      (h : importPruningPointCellSet dag bits newPruningPoint importedCellTree (.fresh statuses) =
        .ok node) : CoherentStart χ dag node

variable {H : Hasher}

theorem CoherentStart.startNode {node : Node H} (h : CoherentStart χ dag node) :
    StartNode χ dag node := by
  cases h with
  | genesis genesis sts _ => exact .genesis genesis sts
  | imported ht _ h => exact .imported ht h

theorem coherent_of_nothing_accepted {state : VirtualState H}
    (hdiff : state.cellDiff = .empty) (hids : state.acceptedTxIds = [])
    (hheader : ∃ hd, dag.headers state.ghostdagData.selectedParent = some hd ∧
      dag.digests.root state.cellStateTree = hd.cellRoot) :
    state.Coherent dag state.cellStateTree [] := by
  refine ⟨hheader, ?_, hids, by simp, ?_⟩
  · rw [hdiff]
    rfl
  · rw [hdiff]
    rfl

theorem CoherentStart.coherent {node : Node H} (h : CoherentStart χ dag node) :
    RootsInHeaders dag.headers node.stores ∧ ∃ base, node.virtualState.Coherent dag base [] := by
  cases h with
  | genesis genesis sts hh =>
    obtain ⟨header, hh, hro⟩ := hh
    refine ⟨fun b r hr => ?_, _, coherent_of_nothing_accepted rfl rfl ⟨header, ?_, hro.symm⟩⟩
    · by_cases hb : b = genesis.hash
      · subst hb
        simp only [processGenesis, commitCellState, Function.update_self, Option.some.injEq] at hr
        exact ⟨header, hh, hro.trans hr⟩
      · simp [processGenesis, commitCellState, fresh, hb] at hr
    · simp only [processGenesis, VirtualState.fromGenesis, dag.ghostdag_singleton, hh]
  | @imported _ pp _ _ _ htr htxs h =>
    obtain ⟨header, hh, h⟩ := bind_ok h
    obtain ⟨_, hro, h⟩ := bind_ok h
    obtain ⟨_, -, h⟩ := bind_ok h
    obtain ⟨txs, ht, h⟩ := bind_ok h
    cases h
    rw [okOr_eq_ok_iff] at hh ht
    have hro := ensure_eq_ok_iff.mp hro
    refine ⟨fun b r hr => ?_, _, coherent_of_nothing_accepted rfl ?_ ⟨header, ?_, hro⟩⟩
    · by_cases hb : b = pp
      · subst hb
        simp only [Function.update_self, Option.some.injEq] at hr
        exact ⟨header, hh, hro.symm.trans hr⟩
      · simp [fresh, hb] at hr
    · rcases htxs txs ht with rfl | ⟨coinbase, hc, rfl⟩
      · rfl
      · simp [hc]
    · simp only [dag.ghostdag_singleton, hh]

-- The virtual state of a start is kept until the first resolution.
def AtStart (χ : OutPoint → CellMeta) (dag : ResolveServices) (state : VirtualState H) : Prop :=
  ∃ start : Node H, CoherentStart χ dag start ∧ state = start.virtualState

theorem Reached.coherent {node} (hroots : dag.digests.Separates χ self.hasher)
    (hblocks : dag.blocks.Charted χ self.hasher)
    (hnode : Reached self (· = dag.blocks) dag (CoherentStart χ dag) node) :
    RootsInHeaders dag.headers node.stores ∧ ∃ base accepted,
    node.virtualState.Coherent dag base accepted ∧
    (node.virtualState.ListsCoinbase dag ∨ accepted = [] ∧ AtStart χ dag node.virtualState) := by
  induction hnode with
  | start h =>
    obtain ⟨hr, base, hc⟩ := h.coherent
    exact ⟨hr, base, [], hc, .inr ⟨rfl, _, h, rfl⟩⟩
  | arrive _ sts ih => exact ih
  | prune _ hp _ ih =>
    exact ⟨fun b r hr => ih.1 b r (hp.cellRoots_eq hr), ih.2⟩
  | @resolve node node' sv _ _ _ _ hnode hs hsame hre ih =>
    have ha : ∀ bs, bs = dag.blocks → bs.Charted χ self.hasher := by
      rintro _ rfl
      exact hblocks
    obtain ⟨state, hse⟩ := hnode.settled hroots ha fun _ h => h.startNode
    rw [← hs.chain, ← hs.digests] at hse
    obtain ⟨state', hs', hw, hst⟩ := resolveVirtual_settled (hsame ▸ hblocks)
      (hs.digests ▸ hroots) hse hre
    have hh : RootsInHeaders dag.headers node'.stores := by
      rw [← hs.headers] at ih ⊢
      exact hw.rootsInHeaders ih.1
    refine ⟨hh, ?_⟩
    rcases hst with hsa | he
    · rw [hsa]
      exact ih.2
    · obtain ⟨root, hro⟩ := Option.isSome_iff_exists.mp (hs'.settled.together _ ▸ hs'.stored)
      obtain ⟨header, hhe, hc⟩ := hh _ _ hro
      have hb := hs'.settled.root _ _ hro
      rw [hs.digests] at hb
      obtain ⟨⟨accepted, hcoherent⟩, hcb⟩ := he.coherent hsame hblocks (hs'.settled.charted _)
        ⟨header, hhe, hb.trans hc.symm⟩
      exact ⟨_, accepted, hcoherent, .inl hcb⟩

-- Every virtual state that is committed along such a history is coherent, and lists the coinbase of
-- its selected parent from the first resolution on.
theorem virtualState_coherent {node : Node self.hasher}
    (hroots : dag.digests.Separates χ self.hasher) (hblocks : dag.blocks.Charted χ self.hasher)
    (hnode : Reached self (· = dag.blocks) dag (CoherentStart χ dag) node) :
    ∃ base accepted, node.virtualState.Coherent dag base accepted ∧
    (node.virtualState.ListsCoinbase dag ∨ accepted = [] ∧ AtStart χ dag node.virtualState) :=
  (hnode.coherent hroots hblocks).2

section Import

-- Virtual above block 3 accepts the coinbase of that block.
theorem virtualState_coherent_branch :
    branchStep.2.virtualState.acceptedTxIds = [Hasher.sample.txid (sampleCoinbase 3)] ∧
    ∃ base accepted, branchStep.2.virtualState.Coherent branchNetwork base accepted ∧
    branchStep.2.virtualState.ListsCoinbase branchNetwork := by
  have hids : branchStep.2.virtualState.acceptedTxIds =
    [Hasher.sample.txid (sampleCoinbase 3)] := by decide +kernel
  obtain ⟨base, accepted, hc, hl⟩ := @virtualState_coherent sample branchChart branchNetwork
    branchStep.2 (keyDigests_separates _ _) branchNetwork_charted
    (.resolve
      (.start (.genesis ⟨1, 0, 0, 1⟩ (fun _ => some .statusCellPendingVerification) ⟨_, rfl, rfl⟩))
      ⟨rfl, rfl, rfl⟩ rfl (rfl : branchStep = (branchStep.1, branchStep.2)))
  refine ⟨hids, base, accepted, hc, hl.resolve_right ?_⟩
  rintro ⟨rfl, -⟩
  cases hids.symm.trans hc.ids

-- A pruning point with a payment: the import lists it as accepted, with an empty diff.
def paidNetwork : ResolveServices := sampleNetwork
  [⟨1, 1, [1], [sampleCoinbase 1, forkPayment], 1, [], forkImport⟩]

theorem import_not_coherent : ∃ node, importPruningPointCellSet paidNetwork 0 1 forkImport
    (.fresh forkStatuses) = .ok node ∧ ¬ ∃ base accepted,
    node.virtualState.Coherent paidNetwork base accepted := by
  have him : (importPruningPointCellSet paidNetwork 0 1 forkImport
      (.fresh forkStatuses)).toOption.any (fun node =>
        decide (node.virtualState.acceptedTxIds = [Hasher.sample.txid forkPayment]) &&
        decide (node.virtualState.cellDiff = .empty) &&
        decide (node.virtualState.ghostdagData = ⟨1, 1, [1], []⟩)) = true := by decide +kernel
  obtain ⟨node, hn, hc⟩ := any_toOption_iff.mp him
  simp only [Bool.and_eq_true, decide_eq_true_eq] at hc
  obtain ⟨⟨hids, hd⟩, hgd⟩ := hc
  refine ⟨node, hn, ?_⟩
  rintro ⟨base, accepted, h⟩
  -- the one accepted transaction can only be the payment of block 1
  have hl := h.ids
  rw [hids] at hl
  obtain ⟨a, rfl, hid⟩ := List.map_eq_singleton_iff.mp hl.symm
  have htx : ∃ block, a = acceptedTx Hasher.sample block (forkPayment, 1) := by
    obtain ⟨block, ⟨hmem, hlo⟩, hs⟩ := h.source a List.mem_cons_self
    have hha : block.hash = 1 := by
      rw [hgd] at hmem
      simpa using hmem
    obtain ⟨-, htxs, -⟩ := loadBlock_eq_ok_iff.mp hlo
    rw [hha] at htxs
    have htxs := (Option.some.inj htxs).symm
    have hne : Hasher.sample.txid (sampleCoinbase 1) ≠ Hasher.sample.txid forkPayment := by
      decide +kernel
    rcases hs with ⟨e, he, rfl⟩ | ⟨coinbase, hh, rfl⟩
    · rw [htxs] at he
      rcases List.mem_cons.mp he with rfl | he
      · exact absurd hid hne
      · rw [List.mem_singleton.mp he]
        exact ⟨block, rfl⟩
    · rw [htxs] at hh
      cases hh
      exact absurd hid hne
  obtain ⟨block, rfl⟩ := htx
  -- its output is missing in the empty diff
  have hadd := congrArg (fun q => (q.add ⟨Hasher.sample.txid forkPayment, 0⟩).isSome) h.diff
  have hsp : (⟨Hasher.sample.txid forkPayment, 0⟩ : OutPoint) ∉ forkPayment.spends := by
    decide +kernel
  have ho : forkPayment.outputs = [⟨sampleLock, none, 900⟩] := rfl
  rw [hd] at hadd
  simp [Ledger.patches, compAll, comp, afterAdditions, afterRemovals, reverse, Patch.empty,
    Ledger.Tx.patch, acceptedTx, hsp, outputCells, ho] at hadd

end Import

end VirtualStateProcessor

end Spora
