import Spora.Virtual.Reached

namespace Spora

open Std Outcome Patch

-- The diff leads from the virtual state `tree` to the cell state that `point` is committed to.
def LeadsTo {hasher : Hasher} (services : ResolveServices) (tree : LiveTree hasher) (p : Progress)
    (point : Hash) : Prop :=
  ∃ state, CommittedStates services.chain services.digests p.stores state ∧
    applyCellDiffToTree tree p.diff = state point

theorem Tracks.leadsTo {H χ sv} {tree : LiveTree H} {state p point}
    (h : Tracks χ sv.chain sv.digests tree state p point) : LeadsTo sv tree p point :=
  ⟨state, h.settled.committedStates, h.applyCellDiffToTree_eq⟩

namespace VirtualStateProcessor

-- In every node that is reached, after every candidate that the search tries, the diff leads to the
-- diff point, and the diff of a sink that is found leads to the sink.
theorem sinkSearch_leadsTo {self : VirtualStateProcessor} {χ : OutPoint → CellMeta}
    {dag services : ResolveServices} {node : Node self.hasher} {finalityPoint : Hash} {rounds : Nat}
    {tips : List Hash} (hroots : dag.digests.Separates χ self.hasher)
    (hnode : Reached self (·.Charted χ self.hasher) dag (StartNode χ dag) node)
    (hshares : Shares dag services) (hblocks : services.blocks.Charted χ self.hasher) :
    (∀ heap st, SearchRun self services node.virtualState finalityPoint
      ⟨⟨node.stores, node.virtualState.cellDiff.asReversed⟩,
      node.virtualState.ghostdagData.selectedParent, heap⟩ st →
      LeadsTo services node.virtualState.cellStateTree st.progress st.diffPoint) ∧
    ∀ sink candidates p, self.sinkSearchAlgorithm services rounds node.virtualState
    ⟨node.stores, node.virtualState.cellDiff.asReversed⟩
    node.virtualState.ghostdagData.selectedParent tips finalityPoint = .ok (sink, candidates, p) →
    LeadsTo services node.virtualState.cellStateTree p sink := by
  obtain ⟨state, hs⟩ := hnode.settled hroots (fun _ h => h) fun _ h => h
  rw [← hshares.chain, ← hshares.digests] at hs
  constructor
  · intro heap st hrun
    obtain ⟨state', ht, -⟩ := hrun.tracks hblocks hs.tracks
    exact ht.leadsTo
  · intro sink candidates p hse
    obtain ⟨blocks, -, hse⟩ := bind_ok hse
    obtain ⟨last, hl, hf⟩ := sinkSearch_eq_ok hse
    obtain ⟨mid, hmid, -⟩ := hl.tracks hblocks hs.tracks
    obtain ⟨state', ht, -⟩ := sinkSearchRound_tracks hblocks hmid hf
    exact ht.leadsTo

section Branches

-- A root that lists the keys of the live cells tells charted states apart.
def keyRoot (keys : List Hash) : Hash := keys.foldr (fun key acc => Nat.pair key acc + 1) 0

theorem keyRoot_injective : Function.Injective keyRoot := by
  intro l
  induction l with
  | nil =>
    intro l' h
    cases l' with
    | nil => rfl
    | cons k l' => exact absurd h (Nat.succ_ne_zero _).symm
  | cons k l ih =>
    intro l' h
    cases l' with
    | nil => exact absurd h (Nat.succ_ne_zero _)
    | cons k' l' =>
      obtain ⟨rfl, hr⟩ := Nat.pair_eq_pair.mp (Nat.succ.inj h)
      rw [ih hr]

def keyDigests : StateDigests :=
  { StateDigests.sample with cellRoot := fun cells => keyRoot cells.keys }

theorem keyDigests_separates (χ) (H : Hasher) : keyDigests.Separates χ H := by
  intro t u ht hu hr
  have hk := keyRoot_injective hr
  apply LiveTree.ext_metaAt
  funext o
  refine ht.eq hu ?_
  have hmem : H.outpointHash o ∈ t.tree.cells ↔ H.outpointHash o ∈ u.tree.cells := by
    rw [← ExtTreeMap.mem_keys, ← ExtTreeMap.mem_keys, hk]
  rw [ExtTreeMap.mem_iff_isSome_getElem?, ExtTreeMap.mem_iff_isSome_getElem?] at hmem
  simp only [LiveTree.metaAt, Option.isSome_map]
  exact Bool.eq_iff_iff.mpr hmem

def keyedNetwork (blocks : List SampleBlock) : ResolveServices :=
  { sampleNetwork blocks with
    headers := fun hash => (blocks.find? fun block => block.hash = hash).map fun block =>
      { block.header with
        cellCommitment := keyDigests.cellCommitmentV0 (keyDigests.root block.cellState)
        cellRoot := keyDigests.root block.cellState }
    digests := keyDigests }

def cellChart (cells : List CellMeta) (o : OutPoint) : CellMeta :=
  (cells.find? fun cell => cell.outPoint = o).getD (coinbaseCell 0 0)

theorem charted_of_blocks {blocks χ}
    (h : ∀ block ∈ blocks, ChartedBody χ Hasher.sample block.daaScore block.txs) :
    (sampleNetwork blocks).blocks.Charted χ Hasher.sample := by
  refine BlockStores.charted_of_bodies fun hash txs daaScore htxs hscore => ?_
  obtain ⟨block, hfind, rfl⟩ := Option.map_eq_some_iff.mp htxs
  obtain ⟨block', hfind', rfl⟩ := Option.map_eq_some_iff.mp hscore
  cases hfind.symm.trans hfind'
  exact h block (List.mem_of_find?_eq_some hfind)

def cellsTree (cells : List CellMeta) : LiveTree Hasher.sample :=
  cells.foldl (fun tree cell => tree.insert cell.outPoint (cellMetaToEntry cell)) .empty

-- Two branches above genesis with a coinbase in every block; block 7, whose header does not commit
-- to its state, on top of the second; and block 8, which pays from a cell that does not exist.
def branchBlocks : List SampleBlock :=
  [⟨1, 1, [1], [], 1, [], .empty⟩, ⟨2, 1, [1], [sampleCoinbase 2], 2, [], .empty⟩,
   ⟨3, 2, [2], [sampleCoinbase 3], 3, [Hasher.sample.txid (sampleCoinbase 2)],
     cellsTree [coinbaseCell 2 2]⟩,
   ⟨4, 1, [1], [sampleCoinbase 4], 2, [], .empty⟩,
   ⟨5, 4, [4], [sampleCoinbase 5], 3, [Hasher.sample.txid (sampleCoinbase 4)],
     cellsTree [coinbaseCell 4 2]⟩,
   ⟨6, 5, [5], [sampleCoinbase 6], 4, [Hasher.sample.txid (sampleCoinbase 5)],
     cellsTree [coinbaseCell 4 2, coinbaseCell 5 3]⟩,
   ⟨7, 6, [6], [sampleCoinbase 7], 5, [Hasher.sample.txid (sampleCoinbase 6)], .empty⟩,
   ⟨8, 1, [1], [sampleCoinbase 8, samplePayment ⟨55, 0⟩ []], 2, [], .empty⟩]

def branchNetwork : ResolveServices := keyedNetwork branchBlocks

def branchChart : OutPoint → CellMeta :=
  cellChart [coinbaseCell 2 2, coinbaseCell 3 3, coinbaseCell 4 2, coinbaseCell 5 3,
    coinbaseCell 6 4, coinbaseCell 7 5, coinbaseCell 8 2,
      cellMetaFromOutput Hasher.sample 2 false (samplePayment ⟨55, 0⟩ []) 0 ⟨sampleLock, none, 900⟩]

theorem branchNetwork_charted : branchNetwork.blocks.Charted branchChart Hasher.sample :=
  @charted_of_blocks branchBlocks branchChart (by decide +kernel)

def branchStart : Node Hasher.sample :=
  processGenesis Hasher.sample branchNetwork ⟨1, 0, 0,
    1⟩ (.fresh fun _ => some .statusCellPendingVerification)

-- The node with block 3 as its sink, and the search that then leaves that branch.
def branchStep : Except RuleError CellsChangedNotification × Node Hasher.sample :=
  sample.resolveVirtual branchNetwork 9 [3] 1 branchStart

theorem branchStep_reached : Reached sample (·.Charted branchChart Hasher.sample) branchNetwork
    (StartNode branchChart branchNetwork) branchStep.2 :=
  .resolve (.start (.genesis ⟨1, 0, 0, 1⟩ fun _ => some .statusCellPendingVerification)) ⟨rfl,
    rfl, rfl⟩ branchNetwork_charted (rfl : branchStep = (branchStep.1, branchStep.2))

def branchSearch : Except RuleError (Hash × List Hash × Progress) :=
  sample.sinkSearchAlgorithm branchNetwork 9 branchStep.2.virtualState
    ⟨branchStep.2.stores, branchStep.2.virtualState.cellDiff.asReversed⟩
    branchStep.2.virtualState.ghostdagData.selectedParent [7] 1

-- Block 7 is tried and disqualified on the way, and block 6 is found.
theorem sinkSearch_leadsTo_branch : branchStep.1.isOk = true ∧
    branchStep.2.virtualState.ghostdagData.selectedParent = 3 ∧
    ∃ candidates p, branchSearch = .ok (6, candidates, p) ∧
    p.stores.statuses 7 = some .statusDisqualifiedFromChain ∧
    LeadsTo branchNetwork branchStep.2.virtualState.cellStateTree p 6 := by
  have hrun : branchSearch.toOption.any (fun found => decide (found.1 = 6) &&
      decide (found.2.2.stores.statuses 7 = some .statusDisqualifiedFromChain)) =
        true := by decide +kernel
  obtain ⟨⟨sink, candidates, p⟩, hf, hs⟩ := any_toOption_iff.mp hrun
  simp only [Bool.and_eq_true, decide_eq_true_eq] at hs
  obtain ⟨rfl, hbad⟩ := hs
  have hl :=
    (@sinkSearch_leadsTo sample branchChart branchNetwork branchNetwork branchStep.2 1 9 [7]
    (keyDigests_separates _ _) branchStep_reached ⟨rfl, rfl, rfl⟩ branchNetwork_charted).2
  exact ⟨by decide +kernel, by decide +kernel, candidates, p, hf, hbad, hl 6 candidates p hf⟩

end Branches

section Fork

-- A cell of the imported set of block 1, spent by the same payment on both sides of a fork: in
-- block 2 and, with another score, in block 5.
def forkInput : OutPoint := ⟨101, 0⟩

def forkPayment : CellTx := samplePayment forkInput []

def forkImport : LiveTree Hasher.sample := LiveTree.empty.insert forkInput (sampleCell [])

-- The state above a block that pays: the coinbase of the block and the output of the payment.
def forkPaid (capacity daaScore : Nat) : LiveTree Hasher.sample :=
  cellsTree [coinbaseCell capacity daaScore,
    cellMetaFromOutput Hasher.sample daaScore false forkPayment 0 ⟨sampleLock, none, 900⟩]

def forkPaidIds (capacity : Nat) : List Hash :=
  [sampleCoinbase capacity, forkPayment].map Hasher.sample.txid

def forkNetwork : ResolveServices := sampleNetwork
  [⟨1, 1, [1], [], 1, [], forkImport⟩, ⟨2, 1, [1], [sampleCoinbase 2, forkPayment], 2, [],
   forkImport⟩, ⟨3, 2, [2], [], 3, forkPaidIds 2, forkPaid 2 2⟩,
   ⟨4, 1, [1], [], 2, [], forkImport⟩,
   ⟨5, 4, [4], [sampleCoinbase 5, forkPayment], 3, [], forkImport⟩,
   ⟨6, 5, [5], [], 4, forkPaidIds 5, forkPaid 5 3⟩]

def forkStatuses (hash : Hash) : Option BlockStatus :=
  if hash ≤ 6 then some .statusCellPendingVerification else none

-- The node after the import of block 1, and with block 3 as its sink.
def forkImported : Except PruningImportError (Node Hasher.sample) :=
  importPruningPointCellSet forkNetwork 0 1 forkImport (.fresh forkStatuses)

def forkNode : Node Hasher.sample :=
  (sample.resolveVirtual forkNetwork 9 [3] 1 (forkImported.toOption.getD sampleNode)).2

def forkSearch : Except RuleError (Hash × List Hash × Progress) :=
  sample.sinkSearchAlgorithm forkNetwork 9 forkNode.virtualState
    ⟨forkNode.stores, forkNode.virtualState.cellDiff.asReversed⟩
    forkNode.virtualState.ghostdagData.selectedParent [6] 1

-- On the way to block 6 the payment is undone with one score and done again with another; the diff
-- cancels the two, and the virtual state keeps the old score.
theorem sinkSearch_keeps_old_score : ∃ start note candidates p, forkImported = .ok start ∧
    sample.resolveVirtual forkNetwork 9 [3] 1 start = (.ok note, forkNode) ∧
    forkSearch = .ok (6, candidates, p) ∧
    ¬ LeadsTo forkNetwork forkNode.virtualState.cellStateTree p 6 := by
  have hr : forkImported.toOption.any (fun start =>
      (sample.resolveVirtual forkNetwork 9 [3] 1 start).1.toOption.any fun _ => true) = true := by
    decide +kernel
  have hse : forkSearch.toOption.any (fun found => decide (found.1 = 6) &&
      (forkNetwork.chain.path 6).all (fun b => (found.2.2.stores.cellDiffs b).isSome) &&
      decide (applyCellDiffToTree forkNode.virtualState.cellStateTree found.2.2.diff ≠
        storedTree Hasher.sample forkNetwork.chain found.2.2.stores 6)) = true := by decide +kernel
  obtain ⟨start, hs, hr⟩ := any_toOption_iff.mp hr
  obtain ⟨note, hn, -⟩ := exists_of_any_toOption_fst hr
  obtain ⟨⟨sink, candidates, p⟩, hf, hch⟩ := any_toOption_iff.mp hse
  simp only [Bool.and_eq_true, decide_eq_true_eq, List.all_eq_true] at hch
  obtain ⟨⟨rfl, hst⟩, hd⟩ := hch
  have hno : forkNode = (sample.resolveVirtual forkNetwork 9 [3] 1 start).2 := by
    rw [forkNode, hs]
    rfl
  refine ⟨start, note, candidates, p, hs, hno ▸ hn, hf, ?_⟩
  rintro ⟨state, hc, hl⟩
  exact hd (hl.trans (hc.eq_storedTree hst))

end Fork

end VirtualStateProcessor

end Spora
