import Spora.Lib.Chart
import Spora.Mpe.CellState.Accepted
import Spora.Virtual.Resolve

namespace Spora

open Std Outcome Patch

variable {hasher : Hasher}

-- Every cell that a block of the store can create is the one which `χ` has for its outpoint: a
-- transaction that occurs in several blocks creates the same cells in all of them.
structure BlockStores.Charted (χ : OutPoint → CellMeta) (hasher : Hasher) (stores : BlockStores) :
    Prop where
  txs : ∀ hash block, stores.loadBlock hash = .ok block → ∀ e ∈ block.txs.zipIdx,
    ∀ cell ∈ outputCells hasher block.daaScore (e.2 == 0 && e.1.isCoinbase) e.1, cell.2 = χ cell.1
  coinbases : ∀ hash block, stores.loadBlock hash = .ok block → ∀ coinbase ∈ block.txs.head?,
    ∀ cell ∈ outputCells hasher block.daaScore true coinbase, cell.2 = χ cell.1

-- The same of one body. The first transaction may also be merged as the coinbase of a sink.
def ChartedBody (χ : OutPoint → CellMeta) (hasher : Hasher) (daaScore : Nat) (txs : List CellTx) :
    Prop :=
  ∀ e ∈ txs.zipIdx,
    (e.2 = 0 → ∀ cell ∈ outputCells hasher daaScore true e.1, cell.2 = χ cell.1) ∧
    ∀ cell ∈ outputCells hasher daaScore (e.2 == 0 && e.1.isCoinbase) e.1, cell.2 = χ cell.1

instance (χ : OutPoint → CellMeta) (hasher : Hasher) (daaScore : Nat) (txs : List CellTx) :
    Decidable (ChartedBody χ hasher daaScore txs) :=
  inferInstanceAs (Decidable (∀ e ∈ txs.zipIdx, _ ∧ _))

theorem BlockStores.charted_of_bodies {χ} {stores : BlockStores}
    (h : ∀ hash txs daaScore, stores.blockTransactions hash = some txs →
      stores.daaScores hash = some daaScore → ChartedBody χ hasher daaScore txs) :
    stores.Charted χ hasher := by
  constructor
  · intro hash block hl e he
    obtain ⟨-, htxs, hscore⟩ := VirtualStateProcessor.loadBlock_eq_ok_iff.mp hl
    exact (h hash _ _ htxs hscore e he).2
  · intro hash block hl coinbase hhead
    obtain ⟨-, htxs, hscore⟩ := VirtualStateProcessor.loadBlock_eq_ok_iff.mp hl
    refine (h hash _ _ htxs hscore (coinbase, 0) ?_).1 rfl
    rw [List.mem_zipIdx_iff_getElem?, ← List.head?_eq_getElem?]
    exact hhead

theorem VirtualStateProcessor.calculateCellState_difference (self : VirtualStateProcessor)
    {stores χ gd tree daa ts pov ctx} (hblocks : stores.Charted χ self.hasher)
    (htree : Charted χ tree.metaAt)
    (h : self.calculateCellState stores (.new gd tree) daa pov ts = .ok ctx) :
    ctx.mergesetCellDiff.toPatch = difference tree.metaAt ctx.cellStateTree.metaAt ∧
    Charted χ ctx.cellStateTree.metaAt := by
  have hacc := calculateCellState_accumulates h
  obtain ⟨accepted, hac⟩ := calculateCellState_accepts h
  have had : ∀ q ∈ ctx.blockPatches, Charted χ q.add := by
    intro q hq o m hm
    obtain ⟨diff, hd, rfl⟩ := List.mem_map.mp hq
    obtain ⟨-, -, -, -, hcells⟩ := hac.diffs diff hd
    obtain ⟨-, a, ha, hce⟩ := hcells o m hm
    obtain ⟨block, ⟨-, hl⟩, ⟨e, he, rfl⟩ | ⟨coinbase, hh, rfl⟩⟩ := hac.source a ha
    · exact hblocks.txs _ block hl e he _ hce
    · exact hblocks.coinbases _ block hl coinbase hh _ hce
  obtain ⟨hco, hc⟩ := hacc.chain.compAll_eq_difference htree had
  rw [hacc.diff, hacc.tree]
  exact ⟨hco, hc⟩

-- The cell state that the blocks of a store are committed to: the stored diff of a block leads to
-- it from the state of its selected parent, and the stored root is its root.
structure CommittedStates (chain : Forest Hash) (digests : StateDigests) (stores : ChainStores)
    (state : Hash → LiveTree hasher) : Prop where
  root : ∀ b r, stores.cellRoots b = some r → digests.root (state b) = r
  diff : ∀ b d, stores.cellDiffs b = some d →
    state b = applyCellDiffToTree ((chain.parent b).elim .empty state) d

def storedTree (hasher : Hasher) (chain : Forest Hash) (stores : ChainStores) (b : Hash) :
    LiveTree hasher :=
  (chain.path b).reverse.foldl (fun tree block =>
    (stores.cellDiffs block).elim tree (applyCellDiffToTree tree)) .empty

theorem CommittedStates.eq_storedTree {chain digests stores state}
    (h : CommittedStates chain digests stores state) {a}
    (ha : ∀ b ∈ chain.path a, (stores.cellDiffs b).isSome) :
    state a = storedTree hasher chain stores a := by
  induction a using chain.induct with
  | root a hr =>
    obtain ⟨d, hd⟩ := Option.isSome_iff_exists.mp (ha a chain.mem_path_self)
    rw [h.diff a d hd, hr]
    simp [storedTree, chain.path_of_root hr, hd]
  | step a b hab ih =>
    obtain ⟨d, hd⟩ := Option.isSome_iff_exists.mp (ha a chain.mem_path_self)
    have hb := ih fun c hc => ha c (by
      rw [chain.path_of_parent hab]
      exact List.mem_cons_of_mem _ hc)
    rw [h.diff a d hd, hab, Option.elim_some, hb]
    simp [storedTree, chain.path_of_parent hab, hd]

-- A store as the virtual processor leaves it: diffs and roots are stored together, without gaps
-- along a chain, and every diff is exactly what changes between the two states.
structure Settled (χ : OutPoint → CellMeta) (chain : Forest Hash) (digests : StateDigests)
    (stores : ChainStores) (state : Hash → LiveTree hasher) : Prop where
  charted : ∀ b, Charted χ (state b).metaAt
  root : ∀ b r, stores.cellRoots b = some r → digests.root (state b) = r
  diff : ∀ b d, stores.cellDiffs b = some d →
    d.toPatch = difference ((chain.parent b).elim .empty state).metaAt (state b).metaAt
  together : ∀ b, (stores.cellDiffs b).isSome = (stores.cellRoots b).isSome
  convex : ∀ a b c, (stores.cellDiffs a).isSome → b ∈ chain.path a → c ∈ chain.path b →
    (stores.cellDiffs c).isSome → (stores.cellDiffs b).isSome

variable {χ : OutPoint → CellMeta} {chain : Forest Hash} {digests : StateDigests}
  {st : ChainStores} {state : Hash → LiveTree hasher} {d : CellDiff}

theorem charted_empty : Charted χ (.empty : LiveTree hasher).metaAt := by
  intro o m hm
  simp [LiveTree.metaAt] at hm

theorem Settled.charted_below (h : Settled χ chain digests st state) (b : Hash) :
    Charted χ ((chain.parent b).elim .empty state).metaAt := by
  cases hp : chain.parent b with
  | none => exact charted_empty
  | some q => exact h.charted q

theorem applyCellDiffToTree_of_difference {f g : LiveTree hasher} (hf : Charted χ f.metaAt)
    (hg : Charted χ g.metaAt) (hd : d.toPatch = difference f.metaAt g.metaAt) :
    applyCellDiffToTree f d = g := by
  have hk : d.AddsKeyed := by
    intro o m hm
    have hadd : d.toPatch.add o = some m := hm
    rw [hd] at hadd
    cases hfo : f.metaAt o with
    | some v => simp [difference, net, hfo] at hadd
    | none =>
      have hl : g.metaAt o = some m := by simpa [difference, net, hfo] using hadd
      obtain ⟨entry, -, rfl⟩ := Option.map_eq_some_iff.mp hl
      rfl
  apply LiveTree.ext_metaAt
  rw [metaAt_applyCellDiffToTree f hk, hd, difference_apply hf hg]

section

variable (h : Settled χ chain digests st state)
include h

theorem Settled.committedStates : CommittedStates chain digests st state where
  root := h.root
  diff b d hd := (applyCellDiffToTree_of_difference (h.charted_below b) (h.charted b)
    (h.diff b d hd)).symm

theorem Settled.setStatus (block : Hash) (status) :
    Settled χ chain digests (st.setStatus block status) state :=
  ⟨h.charted, h.root, h.diff, h.together, h.convex⟩

-- A block whose selected parent is stored, and which is not stored itself, has nothing stored above
-- it: it can be given the state it leads to.
theorem Settled.commitCellState {cur parent tree data}
    (hparent : chain.parent cur = some parent) (hstored : (st.cellDiffs parent).isSome)
    (hnew : st.cellDiffs cur = none) (htree : Charted χ tree.metaAt)
    (hd : d.toPatch = difference (state parent).metaAt tree.metaAt) :
    Settled χ chain digests (st.commitCellState cur d (digests.root tree) data)
    (Function.update state cur tree) := by
  have hmem : parent ∈ chain.path cur := by
    rw [chain.path_of_parent hparent]
    exact List.mem_cons_of_mem _ chain.mem_path_self
  have hne : parent ≠ cur := fun heq => chain.not_mem_path_of_parent hparent
    (heq ▸ chain.mem_path_self)
  -- what is stored has another selected parent
  have hbe : ∀ b, (st.cellDiffs b).isSome → chain.parent b ≠ some cur := by
    intro b hb hpb
    have hp : cur ∈ chain.path b := by
      rw [chain.path_of_parent hpb]
      exact List.mem_cons_of_mem _ chain.mem_path_self
    have hgap := h.convex b cur parent hb hp hmem hstored
    simp [hnew] at hgap
  have hk : ∀ b, b ≠ cur → Function.update state cur tree b = state b := fun b hb =>
    Function.update_of_ne hb _ _
  refine ⟨fun b => ?_, fun b r hr => ?_, fun b e he => ?_, fun b => ?_,
    fun a b c ha hab hbc hc => ?_⟩
  · by_cases hb : b = cur
    · rw [hb, Function.update_self]
      exact htree
    · rw [hk b hb]
      exact h.charted b
  · by_cases hb : b = cur
    · subst hb
      simpa [ChainStores.commitCellState] using hr
    · rw [hk b hb]
      exact h.root b r (by simpa [ChainStores.commitCellState, hb] using hr)
  · by_cases hb : b = cur
    · subst hb
      have he : d = e := by simpa [ChainStores.commitCellState] using he
      rw [← he, hd, hparent, Function.update_self, Option.elim_some, hk parent hne]
    · have he : st.cellDiffs b = some e := by simpa [ChainStores.commitCellState, hb] using he
      have ho := hbe b (by rw [he]; rfl)
      rw [hk b hb, h.diff b e he]
      cases hpb : chain.parent b with
      | none => rfl
      | some q => rw [Option.elim_some, Option.elim_some, hk q fun hq => ho (hq ▸ hpb)]
  · by_cases hb : b = cur
    · simp [ChainStores.commitCellState, hb]
    · simpa [ChainStores.commitCellState, hb] using h.together b
  · by_cases hb : b = cur
    · simp [ChainStores.commitCellState, hb]
    · -- a neighbour that is the new block is replaced by its selected parent
      have hs : ∀ x, x ≠ cur →
            (((st.commitCellState cur d (digests.root tree) data).cellDiffs x).isSome ↔
            (st.cellDiffs x).isSome) := fun x hx => by simp [ChainStores.commitCellState, hx]
      rw [hs b hb]
      have hu : ∃ x, (st.cellDiffs x).isSome ∧ b ∈ chain.path x := by
        by_cases hac : a = cur
        · rw [hac, chain.path_of_parent hparent, List.mem_cons] at hab
          exact ⟨parent, hstored, hab.resolve_left hb⟩
        · exact ⟨a, (hs a hac).mp ha, hab⟩
      have hl : ∃ x, (st.cellDiffs x).isSome ∧ x ∈ chain.path b := by
        by_cases hcc : c = cur
        · exact ⟨parent, hstored, chain.mem_path_trans hbc (hcc ▸ hmem)⟩
        · exact ⟨c, (hs c hcc).mp hc, hbc⟩
      obtain ⟨x, hx, hbx⟩ := hu
      obtain ⟨y, hy, hyb⟩ := hl
      exact h.convex x b y hx hbx hyb hy

end

-- The diff leads from the virtual state `tree` to the state of `point`.
structure Tracks (χ : OutPoint → CellMeta) (chain : Forest Hash) (digests : StateDigests)
    (tree : LiveTree hasher) (state : Hash → LiveTree hasher) (p : Progress) (point : Hash) :
    Prop where
  settled : Settled χ chain digests p.stores state
  charted : Charted χ tree.metaAt
  diff : p.diff.toPatch = difference tree.metaAt (state point).metaAt

variable {tree : LiveTree hasher} {p : Progress} {point : Hash}

variable (h : Tracks χ chain digests tree state p point)
include h

theorem Tracks.applyCellDiffToTree_eq : applyCellDiffToTree tree p.diff = state point :=
  applyCellDiffToTree_of_difference h.charted (h.settled.charted point) h.diff

theorem Tracks.withDiffInPlace {target : LiveTree hasher}
    (htarget : Charted χ target.metaAt)
    (hd : d.toPatch = difference (state point).metaAt target.metaAt) :
    ∃ diff, p.diff.withDiffInPlace d = (.ok (), diff) ∧
    diff.toPatch = difference tree.metaAt target.metaAt := by
  have he := hd ▸ difference_exact _ _
  obtain ⟨hc, hco⟩ := difference_comp h.charted (h.settled.charted point) he
  have hok := (CellDiff.withDiffInPlace_isOk_iff _ _).mpr (h.diff ▸ hc)
  have hp := CellDiff.toPatch_withDiffInPlace _ _ hok
  obtain ⟨u, hu⟩ := isOk_iff.mp hok
  refine ⟨(p.diff.withDiffInPlace d).2, by rw [← hu], ?_⟩
  rw [hp, h.diff, hco, hd, difference_apply (h.settled.charted point) htarget]

end Spora
