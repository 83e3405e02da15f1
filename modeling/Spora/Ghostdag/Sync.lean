import Mathlib.Data.Prod.Lex
import Spora.Ghostdag.Lemmas

namespace Spora

open Forest List BlockDag

def BlockStatus.isHeaderOnly (status : BlockStatus) : Bool := status == .statusHeaderOnly

def GhostdagEntry.mergesetSize (self : GhostdagEntry) : Nat :=
  self.mergesetBlues.length + self.mergesetReds.length

namespace BlockDag

variable (dag : BlockDag) (data : GhostdagEntry)

-- The selected parent is the first blue block. No block is both blue and red.
def ascendingMergesetWithoutSelectedParent : List Hash :=
  (data.mergesetBlues.drop 1).merge data.mergesetReds dag.sortableLe

def consensusOrderedMergeset : List Hash :=
  data.selectedParent :: dag.ascendingMergesetWithoutSelectedParent data

variable {dag}

variable {a b : Hash}

theorem sortableLe_iff :
    dag.sortableLe a b = true ↔
    toLex ((dag.store a).blueWork, a) ≤ toLex ((dag.store b).blueWork, b) := by
  simp [sortableLe, Prod.Lex.le_iff]

theorem mem_of_chain_parent (h : dag.chain.parent a = some b) : b ∈ dag.parents a := by
  simp only [chain] at h
  split_ifs at h with hmem
  exact Option.some.inj h ▸ hmem

theorem below_of_mem_path (h : a ∈ dag.chain.path b) : dag.Below a b := by
  induction b using dag.chain.induct with
  | root b hp =>
    rw [path_of_root hp, mem_singleton] at h
    exact h ▸ .refl
  | step b c hp ih =>
    rw [path_of_parent hp] at h
    rcases mem_cons.mp h with rfl | h
    · exact .refl
    · exact (ih h).trans (Dag.below_of_mem_parents (mem_of_chain_parent hp))

theorem mem_nodes_of_mem_path (hb : b ∈ dag.nodes) (h : a ∈ dag.chain.path b) : a ∈ dag.nodes := by
  by_cases hne : a = b
  · exact hne ▸ hb
  · exact (below_of_mem_path h).mem_nodes hne

theorem pairwise_merge_sortableLe {sink} {ps blues reds : List Hash}
    (hblues : blues.Sublist (dag.orderedMergesetWithoutSelectedParent sink ps))
    (hreds : reds.Sublist (dag.orderedMergesetWithoutSelectedParent sink ps)) :
    (blues.merge reds dag.sortableLe).Pairwise fun a b => dag.sortableLe a b := by
  have ht : ∀ a b c, dag.sortableLe a b → dag.sortableLe b c → dag.sortableLe a c := by
    simp only [sortableLe_iff]
    exact fun a b c => le_trans
  have hto : ∀ a b, dag.sortableLe a b ∨ dag.sortableLe b a := by
    simp only [sortableLe_iff]
    exact fun a b => le_total _ _
  have : Std.Total fun a b => dag.sortableLe a b = true := ⟨hto⟩
  have : IsTrans Hash fun a b => dag.sortableLe a b = true := ⟨ht⟩
  have hs := pairwise_insertionSort (fun a b => dag.sortableLe a b = true)
    (dag.unorderedMergesetWithoutSelectedParent sink ps)
  exact pairwise_merge ht (by simpa using hto) _ _ (hs.sublist hblues) (hs.sublist hreds)

end BlockDag

def USIZE_MAX : Nat := 2 ^ 64 - 1

-- A DAG as header validation leaves it: the parents of a block are an antichain, and its data are
-- what they give.
structure GhostdagManager.Validated (m : GhostdagManager) (mergesetSizeLimit : Nat) : Prop where
  origin : ORIGIN ∉ m.dag.nodes
  genesis : ∀ block ∈ m.dag.nodes, m.dag.parents block = [] → block = m.genesisHash
  antichain : ∀ block ∈ m.dag.nodes, (m.dag.parents block).Pairwise m.dag.Incomparable
  work : ∀ block ∈ m.dag.nodes, 0 < m.dag.calcWork block
  stored : ∀ block ∈ m.dag.nodes, m.dag.parents block ≠ [] →
    ∃ sizes, m.ghostdag (m.dag.parents block) =
      some { m.dag.store block with bluesAnticoneSizes := sizes }
  size : ∀ block ∈ m.dag.nodes, (m.dag.store block).mergesetSize ≤ mergesetSizeLimit
  count : m.dag.nodes.length ≤ USIZE_MAX

namespace GhostdagManager.Validated

variable {m : GhostdagManager} {limit : Nat} {a b blk parent : Hash} (h : m.Validated limit)

include h

section

variable (hblock : blk ∈ m.dag.nodes)
include hblock

theorem stored_cases (hne : m.dag.parents blk ≠ []) :
    ∃ parent, m.dag.chain.parent blk = some parent ∧
    (∀ other ∈ m.dag.parents blk, (m.dag.store other).blueWork < (m.dag.store blk).blueWork) ∧
    (m.dag.store parent).blueScore ≤ (m.dag.store blk).blueScore ∧
    ∃ blues, (m.dag.store blk).mergesetBlues = parent :: blues ∧
    blues.Sublist (m.dag.orderedMergesetWithoutSelectedParent parent (m.dag.parents blk)) ∧
    (m.dag.store blk).mergesetReds.Sublist
    (m.dag.orderedMergesetWithoutSelectedParent parent (m.dag.parents blk)) ∧
    (blues ++ (m.dag.store blk).mergesetReds).Perm
    (m.dag.orderedMergesetWithoutSelectedParent parent (m.dag.parents blk)) := by
  obtain ⟨sizes, hd⟩ := h.stored blk hblock hne
  obtain ⟨parent, hparent, hmem, hh⟩ := m.dag.findSelectedParent_spec hne
  rcases ghostdag_cases hparent hd with ⟨rfl, -⟩ | ⟨blues, hs, hb, hbl, hred, hp, hsc, hw⟩
  · exact absurd (m.dag.mem_nodes hmem) h.origin
  · dsimp only at hs hb hsc hw
    refine ⟨parent, ?_, fun other ho => ?_, hsc ▸ Nat.le_add_right _ _, blues, hb, hbl, hred, hp⟩
    · simp [chain, hs, hmem]
    · have hpos := h.work parent (m.dag.mem_nodes hmem)
      have hle := hh other ho
      rw [hw, hb, map_cons, sum_cons]
      omega

theorem exists_parent (hne : m.dag.parents blk ≠ []) :
    ∃ parent, m.dag.chain.parent blk = some parent :=
  (h.stored_cases hblock hne).imp fun _ => And.left

theorem genesis_mem_path : m.genesisHash ∈ m.dag.chain.path blk := by
  induction blk using m.dag.chain.induct with
  | root a hp =>
    have hr : m.dag.parents a = [] := by
      by_contra hne
      obtain ⟨parent, hparent⟩ := h.exists_parent hblock hne
      simp [hp] at hparent
    exact h.genesis a hblock hr ▸ mem_path_self
  | step a b hp ih =>
    exact path_subset_of_parent hp (ih (m.dag.mem_nodes (mem_of_chain_parent hp)))

end

theorem blueWork_lt_of_below (hbelow : m.dag.Below a b) (hne : a ≠ b) (hb : b ∈ m.dag.nodes) :
    (m.dag.store a).blueWork < (m.dag.store b).blueWork := by
  obtain ⟨parent, hparent, hr⟩ := hbelow.eq_or_below_parent.resolve_left hne
  obtain ⟨-, -, hw, -⟩ := h.stored_cases hb (ne_nil_of_mem hparent)
  exact (blueWork_le_of_below hr).trans_lt (hw parent hparent)

variable (hparent : m.dag.chain.parent blk = some parent) (hblock : blk ∈ m.dag.nodes)

include hparent hblock

theorem blueScore_le_of_parent : (m.dag.store parent).blueScore ≤ (m.dag.store blk).blueScore := by
  obtain ⟨_, hchain, -, hs, -⟩ :=
    h.stored_cases hblock (ne_nil_of_mem (mem_of_chain_parent hparent))
  cases (hparent.symm.trans hchain)
  exact hs

omit hparent in
theorem blueScore_le_of_mem_path (ha : a ∈ m.dag.chain.path blk) :
    (m.dag.store a).blueScore ≤ (m.dag.store blk).blueScore := by
  induction blk using m.dag.chain.induct with
  | root b hp =>
    rw [Forest.path_of_root hp, List.mem_singleton] at ha
    rw [ha]
  | step b c hp ih =>
    rw [Forest.path_of_parent hp] at ha
    rcases List.mem_cons.mp ha with rfl | ha
    · exact Nat.le_refl _
    · exact (ih (m.dag.mem_nodes (BlockDag.mem_of_chain_parent hp)) ha).trans
        (h.blueScore_le_of_parent hp hblock)

theorem mergeset : ∃ merged, m.dag.consensusOrderedMergeset (m.dag.store blk) = parent :: merged ∧
    (m.dag.store blk).mergesetSize = merged.length + 1 ∧ m.dag.Topological (parent :: merged) ∧
    ∀ a, a ∈ merged ↔ ¬ m.dag.Below a parent ∧ a ≠ blk ∧ m.dag.Below a blk := by
  have hmem := mem_of_chain_parent hparent
  obtain ⟨_, hchain, -, -, blues, hbl, hblue, hred, hp⟩ :=
    h.stored_cases hblock (ne_nil_of_mem hmem)
  cases (hparent.symm.trans hchain)
  have hm := (merge_perm_append m.dag.sortableLe).trans (hp.trans (perm_insertionSort _ _))
  have hnew : ∀ a, a ∈ blues.merge (m.dag.store blk).mergesetReds m.dag.sortableLe ↔
      ¬ m.dag.Below a parent ∧ a ≠ blk ∧ m.dag.Below a blk := by
    intro a
    rw [hm.mem_iff, mem_unorderedMergeset_iff]
    · refine and_congr_right fun _ =>
        ⟨?_, fun ⟨hne, hbe⟩ => hbe.eq_or_below_parent.resolve_left hne⟩
      rintro ⟨other, ho, hbe⟩
      refine ⟨?_, hbe.trans (Dag.below_of_mem_parents ho)⟩
      rintro rfl
      have hlt := m.dag.rank_lt ho
      rcases hbe.rank_lt_or_eq with hup | rfl
      · exact absurd hup (Nat.lt_asymm hlt)
      · exact absurd hlt (Nat.lt_irrefl _)
    · intro other ho hne
      exact ((h.antichain blk hblock).forall ho hmem hne).1
  refine ⟨blues.merge (m.dag.store blk).mergesetReds m.dag.sortableLe, ?_, ?_, ?_, hnew⟩
  · simp [consensusOrderedMergeset, ascendingMergesetWithoutSelectedParent, hbl,
      selectedParent_of_chain_parent hparent]
  · rw [GhostdagEntry.mergesetSize, hbl, (merge_perm_append _).length_eq]
    simp only [length_cons, length_append]
    omega
  · refine pairwise_cons.mpr ⟨fun a ha => ((hnew a).mp ha).1, ?_⟩
    have hs := pairwise_merge_sortableLe hblue hred
    have hn := hm.nodup_iff.mpr Dag.nodup_descendBefore
    refine (hs.and hn).imp_of_mem ?_
    rintro a b ha hb ⟨hle, hne⟩ hbe
    -- an ancestor has less blue work and comes first
    obtain ⟨-, hblock, hme⟩ := (hnew a).mp ha
    have hlt := h.blueWork_lt_of_below hbe (Ne.symm hne) (hme.mem_nodes hblock)
    simp only [sortableLe, decide_eq_true_eq] at hle
    omega

end GhostdagManager.Validated

inductive SyncManagerError
  | pruningPointNotInChain (pruningPoint high : Hash)
deriving DecidableEq, Repr

structure SyncManager extends GhostdagManager where
  mergesetSizeLimit : Nat
  limit_le : mergesetSizeLimit ≤ USIZE_MAX
  pruningPoint : Hash
  statuses : Hash → Option BlockStatus

namespace SyncManager

variable (s : SyncManager)

def findHighestCommonChainBlock (low high : Hash) : Option Hash :=
  (s.dag.chain.path low).find? fun candidate => s.dag.isChainAncestorOf candidate high

def extendBlocks (maxBlocks : Nat) (originalLow : Hash) :
    List Hash → List Hash → Hash → List Hash × Hash
  | [], blocks, highestReached => (blocks, highestReached)
  | current :: rest, blocks, highestReached =>
    let data := s.dag.store current
    if blocks.length + data.mergesetSize > maxBlocks then (blocks, highestReached)
    else
      extendBlocks maxBlocks originalLow rest
        (blocks ++ (s.dag.consensusOrderedMergeset data).filter
        fun hash => !s.dag.isDagAncestorOf hash originalLow) current

def antipastHashesBetween (low high : Hash) (maxBlocks : Option Nat) : Option (List Hash × Hash) :=
  do
  let maxBlocks := maxBlocks.getD USIZE_MAX
  guard (s.mergesetSizeLimit ≤ maxBlocks)
  let originalLow := low
  let low ← s.findHighestCommonChainBlock low high
  guard ((s.dag.store low).blueScore ≤ (s.dag.store high).blueScore)
  let (blocks, highestReached) :=
    s.extendBlocks maxBlocks originalLow (s.dag.forwardChain low high).tail [] low
  return (if low ≠ highestReached then blocks ++ [highestReached] else blocks, highestReached)

-- Goes up and down the chain at once. Upwards, the last block before a header-only one has a body.
def highestWithBody : List Hash → List Hash → Option (Option Hash)
  | parent :: current :: forward, backward => do
    if (← s.statuses current).isHeaderOnly then return some parent
    match backward with
    | [] => return none
    | backwardCurrent :: backward =>
      if (← s.statuses backwardCurrent).hasBlockBody then return some backwardCurrent
      highestWithBody (current :: forward) backward
  | _, _ => some none

def isHeaderOnly (block : Hash) : Bool := (s.statuses block).any BlockStatus.isHeaderOnly

def hasBlockBody (block : Hash) : Bool := (s.statuses block).any BlockStatus.hasBlockBody

def getMissingBlockBodyHashes (high : Hash) : Option (Except SyncManagerError (List Hash)) := do
  let pp := s.pruningPoint
  if !s.dag.isChainAncestorOf pp high then return .error (.pruningPointNotInChain pp high)
  let forward := s.dag.forwardChain pp high
  match ← s.highestWithBody forward forward.reverse with
  | none => return .ok []
  | some highest =>
    if highest = high then return .ok []
    let (hashesBetween, _) ← s.antipastHashesBetween highest high none
    guard (hashesBetween.all fun hash => (s.statuses hash).isSome)
    return .ok (hashesBetween.filter s.isHeaderOnly)

-- Outside the past of the pruning point, a block is header-only or has a body, and has one only if
-- all its ancestors do.
structure Bodies : Prop where
  known : ∀ block ∈ s.dag.nodes, (s.dag.Below block s.pruningPoint → block = s.pruningPoint) →
    s.isHeaderOnly block ∨ s.hasBlockBody block
  pruningPoint : s.hasBlockBody s.pruningPoint
  closed : ∀ a b, s.dag.Below a b → s.hasBlockBody b →
    (s.dag.Below a s.pruningPoint → a = s.pruningPoint) → s.hasBlockBody a

variable {s} {low high cur : Hash}

theorem extendBlocks_spec (h : s.Validated s.mergesetSizeLimit) {max}
    (hmax : s.mergesetSizeLimit ≤ max) {rest bs}
    (hchain : (cur :: rest).IsChain fun a b => s.dag.chain.parent b = some a)
    (hrest : ∀ block ∈ rest, block ∈ s.dag.nodes) (hblocks : s.dag.Lists low cur bs) :
    ∃ listed rea, s.extendBlocks max low rest bs cur = (listed, rea) ∧
    rea ∈ cur :: rest ∧ s.dag.Lists low rea listed ∧ ((cur :: rest).getLast? = some rea ∨
      listed ≠ [] ∧ max < s.dag.nodes.length) := by
  induction rest generalizing cur bs with
  | nil => exact ⟨bs, cur, rfl, by simp, hblocks, .inl rfl⟩
  | cons next rest ih =>
    obtain ⟨hn, hrest⟩ := forall_mem_cons.mp hrest
    obtain ⟨hparent, hchain⟩ := isChain_cons_cons.mp hchain
    obtain ⟨merged, ho, hs, htop, hnew⟩ := h.mergeset hparent hn
    have hmem := mem_of_chain_parent hparent
    rw [extendBlocks]
    split_ifs with hf
    · refine ⟨bs, cur, rfl, by simp, hblocks, .inr ⟨?_, ?_⟩⟩
      · rintro rfl
        have hli := h.size next hn
        simp only [length_nil, Nat.zero_add] at hf
        exact absurd (hli.trans hmax) hf.not_ge
      · have hc := hblocks.length_le hmem htop hnew
        rw [← hs] at hc
        exact hf.lt.trans_le hc
    · rw [ho]
      have hk : ∀ a, (!s.dag.isDagAncestorOf a low) = true ↔ ¬ s.dag.Below a low := by
        simp [isDagAncestorOf]
      obtain ⟨listed, rea, heq, hr, hl⟩ := ih hchain hrest (hblocks.extend hk hmem htop hnew)
      exact ⟨listed, rea, heq, mem_cons_of_mem _ hr, hl⟩

section Antipast

variable (h : s.Validated s.mergesetSizeLimit) (hlow : low ∈ s.dag.nodes)
  (hhigh : high ∈ s.dag.nodes)

include h hlow hhigh

theorem findHighestCommonChainBlock_spec :
    ∃ common, s.findHighestCommonChainBlock low high = some common ∧
    common ∈ s.dag.chain.path low ∧ common ∈ s.dag.chain.path high ∧
    (high = low → common = high) := by
  have hf : (s.findHighestCommonChainBlock low high).isSome := find?_isSome.mpr
    ⟨_, h.genesis_mem_path hlow, by simpa [isChainAncestorOf] using h.genesis_mem_path hhigh⟩
  obtain ⟨common, hc⟩ := Option.isSome_iff_exists.mp hf
  refine ⟨common, hc, mem_of_find?_eq_some hc, ?_, ?_⟩
  · simpa [isChainAncestorOf] using find?_some hc
  · rintro rfl
    rw [findHighestCommonChainBlock, path_eq_cons] at hc
    simpa [isChainAncestorOf, mem_path_self, eq_comm] using hc

theorem antipastHashesBetween_spec (hpast : s.dag.Below high low → high = low) (max)
    (hmax : ∀ n ∈ max, s.mergesetSizeLimit ≤ n) :
    ∃ list rea, s.antipastHashesBetween low high max = some (list, rea) ∧
    rea ∈ s.dag.chain.path high ∧ s.dag.Topological list ∧
    (∀ a, a ∈ list ↔ s.dag.Below a rea ∧ ¬ s.dag.Below a low) ∧ (max = none → rea = high) := by
  obtain ⟨common, hc, hcl, hch, hs⟩ := findHighestCommonChainBlock_spec h hlow hhigh
  have hmax : s.mergesetSizeLimit ≤ max.getD USIZE_MAX := by
    cases max with
    | none => exact s.limit_le
    | some n => exact hmax n rfl
  have hf : s.dag.forwardChain common high = common :: (s.dag.forwardChain common high).tail := by
    rw [forwardChain_eq]
    rfl
  have hb := below_of_mem_path hcl
  have hp : ∀ block ∈ s.dag.forwardChain common high, block ∈ s.dag.chain.path high :=
      fun block hblock =>
    mem_path_of_mem_forward hch (forwardChain_eq ▸ hblock)
  obtain ⟨listed, rea, heq, hr, hl, hla⟩ := extendBlocks_spec h hmax
    (hf ▸ forwardChain_eq ▸ isChain_forward hch)
    (fun block hblock => mem_nodes_of_mem_path hhigh (hp block (mem_of_mem_tail hblock)))
    (Dag.lists_nil hb)
  rw [← hf] at hla hr
  have hend := forwardChain_eq ▸ getLast?_forward hch
  have hrun : s.antipastHashesBetween low high max =
      some (if common ≠ rea then listed ++ [rea] else listed, rea) := by
    simp [antipastHashesBetween, hmax, hc, heq, h.blueScore_le_of_mem_path hhigh hch]
  have hn : max = none → rea = high := by
    rintro rfl
    rcases hla with hla | ⟨-, hm⟩
    · exact Option.some.inj (hla.symm.trans hend)
    · exact absurd h.count hm.not_ge
  by_cases hne : common = rea
  · subst hne
    refine ⟨_, _, hrun, hch, ?_⟩
    rw [if_neg (by simp)]
    refine ⟨hl.topological, fun a => ⟨fun ha => ((hl.mem_iff a).mp ha).2, fun ha => ?_⟩, hn⟩
    exact absurd (ha.1.trans hb) ha.2
  · have ho : ¬ s.dag.Below rea low := by
      intro hd
      rcases hla with hla | ⟨hl', -⟩
      · cases (hla.symm.trans hend)
        exact hne (hs (hpast hd))
      · obtain ⟨a, ha⟩ := exists_mem_of_ne_nil _ hl'
        obtain ⟨-, hup, hlow⟩ := (hl.mem_iff a).mp ha
        exact hlow (hup.trans hd)
    obtain ⟨htop, hmem⟩ := hl.close ho
    refine ⟨_, _, hrun, hp rea hr, ?_⟩
    rw [if_pos hne]
    exact ⟨htop, hmem, hn⟩

-- The list is what is below the block that is reached and not below `low`, ancestors first.
theorem antipastHashesBetween_exact (hpast : s.dag.Below high low → high = low)
    (maxBlocks : Option Nat) (hmax : ∀ n ∈ maxBlocks, s.mergesetSizeLimit ≤ n) :
    ∃ list reached, s.antipastHashesBetween low high maxBlocks = some (list, reached) ∧
    reached ∈ s.dag.chain.path high ∧ list.Nodup ∧ list.Pairwise (fun a b => ¬ s.dag.Below b a) ∧
    (∀ a, a ∈ list ↔ s.dag.Below a reached ∧ ¬ s.dag.Below a low) ∧
    (maxBlocks = none → reached = high) := by
  obtain ⟨list, reached, heq, hr, htop, hmem, hn⟩ := antipastHashesBetween_spec h hlow hhigh hpast
    maxBlocks hmax
  exact ⟨list, reached, heq, hr, htop.nodup, htop, hmem, hn⟩

end Antipast

section Bodies

variable {a : Hash}

theorem status_cases (h : s.isHeaderOnly a ∨ s.hasBlockBody a) :
    ∃ status, s.statuses a = some status ∧
    (s.isHeaderOnly a ∧ status.isHeaderOnly = true ∧ status.hasBlockBody = false ∨
      s.hasBlockBody a ∧ status.isHeaderOnly = false ∧ status.hasBlockBody = true) := by
  unfold isHeaderOnly hasBlockBody at h ⊢
  cases hs : s.statuses a with
  | none => simp [hs] at h
  | some status =>
    cases status <;> simp_all [BlockStatus.isHeaderOnly, BlockStatus.hasBlockBody]

theorem not_hasBlockBody (h : s.isHeaderOnly a) : ¬ s.hasBlockBody a := by
  obtain ⟨status, hs, -⟩ := status_cases (.inl h)
  cases status <;>
    simp_all [isHeaderOnly, hasBlockBody, BlockStatus.isHeaderOnly, BlockStatus.hasBlockBody]

-- The pruning point stops the way down, so the way up either ends or meets a header-only block.
theorem highestWithBody_spec {fwd bwd}
    (hforward : ∀ block ∈ fwd, s.isHeaderOnly block ∨ s.hasBlockBody block)
    (hbackward : ∀ block ∈ bwd, s.isHeaderOnly block ∨ s.hasBlockBody block)
    (hstart : ∀ block ∈ fwd.head?, s.hasBlockBody block)
    (hstop : ∃ block ∈ bwd, s.hasBlockBody block) :
    ∃ highest, s.highestWithBody fwd bwd = some highest ∧
    (∀ block ∈ highest, s.hasBlockBody block ∧ block ∈ fwd ++ bwd) ∧
    (highest = none → ∀ block ∈ fwd.getLast?, s.hasBlockBody block) := by
  induction fwd generalizing bwd with
  | nil => exact ⟨none, by simp [highestWithBody]⟩
  | cons parent fwd ih =>
    have hparent := hstart parent rfl
    cases fwd with
    | nil => exact ⟨none, by simp [highestWithBody, hparent]⟩
    | cons cur fwd =>
      obtain ⟨status, hs, ⟨-, ho, -⟩ | ⟨hc, ho, -⟩⟩ := status_cases (hforward cur (by simp))
      · exact ⟨some parent, by simp [highestWithBody, hs, ho, hparent]⟩
      · obtain ⟨stop, hstop, hb⟩ := hstop
        cases bwd with
        | nil => simp at hstop
        | cons down bwd =>
          obtain ⟨status', hs', ⟨hd, -, hno⟩ | ⟨hd, -, hyes⟩⟩ :=
            status_cases (hbackward down (by simp))
          · have hr : stop ∈ bwd := by
              refine (mem_cons.mp hstop).resolve_left ?_
              rintro rfl
              exact not_hasBlockBody hd hb
            obtain ⟨highest, heq, hf, hend⟩ :=
              ih (fun block hblock => hforward block (by simp [hblock]))
              (fun block hblock => hbackward block (by simp [hblock])) (by simpa using hc)
                ⟨stop, hr, hb⟩
            refine ⟨highest, by simpa [highestWithBody, hs, ho, hs', hno] using heq, ?_, ?_⟩
            · exact fun block hblock => (hf block hblock).imp_right (by simp +contextual [or_imp])
            · simpa using hend
          · exact ⟨some down, by simp [highestWithBody, hs, ho, hs', hyes, hd]⟩

variable (h : s.Validated s.mergesetSizeLimit) (hhigh : high ∈ s.dag.nodes)
  (hchain : s.pruningPoint ∈ s.dag.chain.path high) (hbodies : s.Bodies)

include h hhigh hchain hbodies

omit h in
theorem highestWithBody_chain : ∃ highest,
    s.highestWithBody (s.dag.forwardChain s.pruningPoint high)
    (s.dag.forwardChain s.pruningPoint high).reverse = some highest ∧
    (∀ block ∈ highest, s.hasBlockBody block ∧ block ∈ s.dag.forwardChain s.pruningPoint high) ∧
    (highest = none → s.hasBlockBody high) := by
  have hk : ∀ block ∈ s.dag.forwardChain s.pruningPoint high, s.isHeaderOnly block ∨
      s.hasBlockBody block := by
    rw [BlockDag.forwardChain_eq]
    intro block hblock
    refine hbodies.known block
      (BlockDag.mem_nodes_of_mem_path hhigh (Forest.mem_path_of_mem_forward hchain hblock)) ?_
    exact fun hb =>
      hb.antisymm (BlockDag.below_of_mem_path (Forest.mem_path_of_forward hchain hblock))
  have hh : s.pruningPoint ∈ s.dag.forwardChain s.pruningPoint high := by
    simp [BlockDag.forwardChain_eq, Forest.forward]
  have hr : ∀ block ∈ (s.dag.forwardChain s.pruningPoint high).reverse,
      s.isHeaderOnly block ∨ s.hasBlockBody block := by simpa using hk
  obtain ⟨highest, heq, hf, hno⟩ := highestWithBody_spec hk hr
    (by simpa [BlockDag.forwardChain_eq, Forest.forward] using hbodies.pruningPoint)
    ⟨_, by simpa using hh, hbodies.pruningPoint⟩
  refine ⟨highest, heq, by simpa using hf, fun hn => hno hn high ?_⟩
  rw [BlockDag.forwardChain_eq]
  exact Forest.getLast?_forward hchain

-- Exactly the blocks without a body are listed, ancestors first.
theorem getMissingBlockBodyHashes_exact :
    ∃ hashes, s.getMissingBlockBodyHashes high = some (.ok hashes) ∧
    hashes.Nodup ∧ hashes.Pairwise (fun a b => ¬ s.dag.Below b a) ∧ ∀ a, a ∈ hashes ↔
    s.dag.Below a high ∧ s.isHeaderOnly a ∧
    (s.dag.Below a s.pruningPoint → a = s.pruningPoint) := by
  obtain ⟨highest, heq, hfo, hno⟩ := highestWithBody_chain hhigh hchain hbodies
  have hmem : s.dag.isChainAncestorOf s.pruningPoint high = true := by
    simpa [isChainAncestorOf] using hchain
  have hf : s.hasBlockBody high → ∀ a, a ∈ [] ↔ s.dag.Below a high ∧ s.isHeaderOnly a ∧
          (s.dag.Below a s.pruningPoint → a = s.pruningPoint) := by
    refine fun hbo a => iff_of_false not_mem_nil ?_
    rintro ⟨hb, ho, hp⟩
    exact not_hasBlockBody ho (hbodies.closed a high hb hbo hp)
  cases highest with
  | none => exact ⟨[], by simp [getMissingBlockBodyHashes, hmem, heq], .nil, .nil, hf (hno rfl)⟩
  | some highest =>
    obtain ⟨hbo, hpa⟩ := hfo highest rfl
    rw [forwardChain_eq] at hpa
    by_cases hne : highest = high
    · subst hne
      exact ⟨[], by simp [getMissingBlockBodyHashes, hmem, heq], .nil, .nil, hf hbo⟩
    · have hup := below_of_mem_path (mem_path_of_mem_forward hchain hpa)
      have hd := below_of_mem_path (mem_path_of_forward hchain hpa)
      obtain ⟨list, reached, hl, -, htop, hiff, hr⟩ := antipastHashesBetween_spec h
        (hup.mem_nodes hne) hhigh (fun hba => hba.antisymm hup) none (by simp)
      rw [hr rfl] at hl hiff
      have hnew : ∀ a ∈ list, s.dag.Below a s.pruningPoint → a = s.pruningPoint := fun a ha hp =>
        absurd (hp.trans hd) ((hiff a).mp ha).2
      have hso : ∀ a ∈ list, (s.statuses a).isSome = true := by
        intro a ha
        have hn : a ∈ s.dag.nodes := by
          by_cases heq : a = high
          · exact heq ▸ hhigh
          · exact ((hiff a).mp ha).1.mem_nodes heq
        obtain ⟨status, hs, -⟩ := status_cases (hbodies.known a hn (hnew a ha))
        simp [hs]
      have hrun : s.getMissingBlockBodyHashes high = some (.ok (list.filter s.isHeaderOnly)) := by
        simp [getMissingBlockBodyHashes, hmem, heq, hne, hl, guard, if_pos hso]
      refine ⟨_, hrun, htop.nodup.filter _, htop.filter _, fun a => ?_⟩
      rw [mem_filter, hiff]
      constructor
      · rintro ⟨⟨hb, hop⟩, ho⟩
        exact ⟨hb, ho, hnew a ((hiff a).mpr ⟨hb, hop⟩)⟩
      · rintro ⟨hb, ho, hp⟩
        exact ⟨⟨hb, fun hlow => not_hasBlockBody ho (hbodies.closed a highest hlow hbo hp)⟩, ho⟩

end Bodies

end SyncManager

section Examples

structure PlacedBlock where
  hash : Hash
  parents : List Hash
  work : Nat
  blueScore : Nat
  blueWork : Nat
  mergesetReds : List Hash

-- A block whose first parent is its selected parent, and its only blue one.
def PlacedBlock.entry (block : PlacedBlock) : GhostdagEntry where
  blueScore := block.blueScore
  selectedParent := block.parents.headD ORIGIN
  mergesetBlues := block.parents.take 1
  mergesetReds := block.mergesetReds
  blueWork := block.blueWork
  bluesAnticoneSizes := Std.ExtTreeMap.ofList ((block.parents.take 1).map (·, 0))

-- A chain from 1 to 8 and blocks beside it. The red block 11 is merged by 13 and by 14, the red
-- block 12 by 16.
def forkBlocks : List PlacedBlock :=
  [⟨1, [], 3, 0, 0, []⟩, ⟨2, [1], 3, 1, 3, []⟩, ⟨3, [2], 3, 2, 6, []⟩, ⟨4, [3], 3, 3, 9, []⟩,
    ⟨5, [4], 3, 4, 12, []⟩, ⟨6, [5], 3, 5, 15, []⟩, ⟨7, [6], 3, 6, 18, []⟩, ⟨8, [7], 3, 7, 21, []⟩,
      ⟨11, [2], 3, 2, 6, []⟩, ⟨12, [3], 3, 3, 9, []⟩,
    ⟨13, [5, 11], 3, 5, 15, [11]⟩, ⟨14, [6, 11], 1, 6, 18, [11]⟩, ⟨15, [14], 1, 7, 19, []⟩,
      ⟨16, [15, 12], 3, 8, 20, [12]⟩]

def forkBlock (hash : Hash) : Option PlacedBlock := forkBlocks.find? (·.hash == hash)

theorem exists_block_of_mem_parents {a b} (h : b ∈ (forkBlock a).elim [] PlacedBlock.parents) :
    ∃ block ∈ forkBlocks, block.hash = a ∧ b ∈ block.parents := by
  cases hb : forkBlock a with
  | none => simp [hb] at h
  | some block =>
    rw [hb] at h
    exact ⟨block, mem_of_find?_eq_some hb, by simpa using find?_some hb, h⟩

def forkDag : BlockDag where
  nodes := forkBlocks.map PlacedBlock.hash
  parents hash := (forkBlock hash).elim [] PlacedBlock.parents
  rank hash := hash
  store hash := (forkBlock hash).elim (.newWithSelectedParent ORIGIN) PlacedBlock.entry
  calcWork hash := (forkBlock hash).elim 0 PlacedBlock.work
  mem_nodes h := by
    obtain ⟨block, hblock, -, hparent⟩ := exists_block_of_mem_parents h
    exact (by decide : ∀ block ∈ forkBlocks, ∀ parent ∈ block.parents,
      parent ∈ forkBlocks.map PlacedBlock.hash) block hblock _ hparent
  rank_lt h := by
    obtain ⟨block, hblock, rfl, hparent⟩ := exists_block_of_mem_parents h
    exact (by decide : ∀ block ∈ forkBlocks, ∀ parent ∈ block.parents,
      parent < block.hash) block hblock _ hparent
  blueWork_le h := by
    obtain ⟨block, hblock, rfl, hparent⟩ := exists_block_of_mem_parents h
    exact (by decide +kernel : ∀ block ∈ forkBlocks, ∀ parent ∈ block.parents,
      ((forkBlock parent).elim (.newWithSelectedParent ORIGIN) PlacedBlock.entry).blueWork ≤
        ((forkBlock block.hash).elim (.newWithSelectedParent ORIGIN) PlacedBlock.entry).blueWork)
          block hblock _ hparent

def forkSync : SyncManager where
  toGhostdagManager := ⟨forkDag, 1, 2⟩
  mergesetSizeLimit := 2
  limit_le := by decide
  pruningPoint := 1
  statuses hash := some (if hash = 1 ∨ hash = 2 then .statusCellValid else .statusHeaderOnly)

theorem forkSync_validated : forkSync.Validated forkSync.mergesetSizeLimit where
  origin := by decide
  genesis := by decide
  antichain := by decide +kernel
  work := by decide
  stored := by
    have hs : ∀ block ∈ forkDag.nodes, forkDag.parents block ≠ [] →
        (forkSync.ghostdag (forkDag.parents block)).any (fun data =>
          decide (data.toGhostdagData = (forkDag.store block).toGhostdagData ∧
            data.blueWork = (forkDag.store block).blueWork)) = true := by decide +kernel
    intro block hblock hne
    obtain ⟨⟨data, work, sizes⟩, hd, heq⟩ := (Option.any_eq_true _ _).mp (hs block hblock hne)
    obtain ⟨rfl, rfl⟩ := of_decide_eq_true heq
    exact ⟨sizes, hd⟩
  size := by decide +kernel
  count := by decide

theorem antipast_of_thirteen :
    ∃ list reached, forkSync.antipastHashesBetween 13 16 (some 2) = some (list, reached) ∧
    list.Nodup ∧ ∀ a, a ∈ list ↔ forkDag.Below a reached ∧ ¬ forkDag.Below a 13 := by
  obtain ⟨list, reached, heq, -, hn, -, hmem, -⟩ := SyncManager.antipastHashesBetween_exact
    forkSync_validated (by decide +kernel : 13 ∈ forkDag.nodes)
      (by decide +kernel : 16 ∈ forkDag.nodes) (by decide +kernel) (some 2)
    (by simp [forkSync])
  exact ⟨list, reached, heq, hn, hmem⟩

theorem bodies_of_sixteen :
    ∃ hashes, forkSync.getMissingBlockBodyHashes 16 = some (.ok hashes) ∧ hashes.Nodup ∧
    ∀ a, a ∈ hashes ↔ forkDag.Below a 16 ∧ forkSync.isHeaderOnly a ∧
    (forkDag.Below a 1 → a = 1) := by
  have hbodies : forkSync.Bodies := by
    refine ⟨by decide +kernel, by decide, fun a b hb hbo _ => ?_⟩
    have hold : b = 1 ∨ b = 2 := by
      by_contra hnew
      simp [forkSync, SyncManager.hasBlockBody, if_neg hnew, BlockStatus.hasBlockBody] at hbo
    have hp : ∀ b ∈ [1, 2], ∀ a ∈ forkDag.past b, forkSync.hasBlockBody a := by decide +kernel
    exact hp b (by simpa using hold) a (Dag.mem_past_iff.mpr hb)
  obtain ⟨hashes, heq, hn, -, hmem⟩ := SyncManager.getMissingBlockBodyHashes_exact
    forkSync_validated (by decide : 16 ∈ forkDag.nodes) (by decide +kernel) hbodies
  exact ⟨hashes, heq, hn, hmem⟩

end Examples

end Spora
