import Spora.Virtual.Committed

namespace Spora

open Std Outcome Patch

namespace VirtualStateProcessor

-- What resolving writes to the stores of chain blocks: statuses, and the state of a block that was
-- found to be the one its header commits to.
inductive Writes (services : ResolveServices) : ChainStores → ChainStores → Prop
  | refl (stores : ChainStores) : Writes services stores stores
  | setStatus {stores stores' : ChainStores} (block : Hash) (status : BlockStatus)
      (h : Writes services stores stores') : Writes services stores (stores'.setStatus block status)
  | commitCellState {stores stores' : ChainStores} {block : Hash} {header : Header}
      (diff : CellDiff) (acceptanceData : List MergesetBlockAcceptanceData)
        (h : Writes services stores stores')
      (hheader : services.headers block = some header) :
      Writes services stores (stores'.commitCellState block diff header.cellRoot acceptanceData)

theorem Writes.trans {services a b c} (hab : Writes services a b)
    (hbc : Writes services b c) : Writes services a c := by
  induction hbc with
  | refl => exact hab
  | setStatus block status _ ih => exact ih.setStatus block status
  | commitCellState diff data _ hh ih =>
    exact ih.commitCellState diff data hh

theorem Writes.isSome_cellDiffs {services stores stores'}
    (h : Writes services stores stores') {b} (hb : (stores.cellDiffs b).isSome) :
    (stores'.cellDiffs b).isSome := by
  induction h with
  | refl => exact hb
  | setStatus _ _ _ ih => exact ih
  | @commitCellState _ block _ _ _ _ _ ih =>
    by_cases hbl : b = block
    · simp [ChainStores.commitCellState, hbl]
    · simpa [ChainStores.commitCellState, hbl] using ih

-- Two assignments of states that agree on the blocks with a stored diff.
def Keeps {hasher : Hasher} (stores : ChainStores) (state state' : Hash → LiveTree hasher) : Prop :=
  ∀ b, (stores.cellDiffs b).isSome → state' b = state b

variable {self : VirtualStateProcessor} {services : ResolveServices} {χ : OutPoint → CellMeta}
  {state : Hash → LiveTree self.hasher} {prevState : VirtualState self.hasher}
  {tree : LiveTree self.hasher} {p p' : Progress}
    {source target point selectedParent current : Hash}
  {r : Except RuleError Hash}

abbrev TracksIn (χ : OutPoint → CellMeta) (services : ResolveServices) {hasher : Hasher} :=
  @Tracks hasher χ services.chain services.digests

theorem walkDown_cons {rest : List Hash}
    (h : TracksIn χ services tree state p current)
    (hwalk : walkDown services source target (current :: rest) p = (r, p')) :
    (current ∈ services.chain.path target ∧ r = .ok current ∧ p' = p) ∨
      (∃ msg, r = .error (.panicked msg)) ∨
        current ∉ services.chain.path target ∧ ∃ diff,
          walkDown services source target rest { p with diff := diff } = (r, p') ∧
            diff.toPatch = difference tree.metaAt
              ((services.chain.parent current).elim .empty state).metaAt := by
  unfold walkDown isChainAncestorOf at hwalk
  by_cases ha : current ∈ services.chain.path target
  · simp only [ha, decide_true, if_true, Prod.mk.injEq] at hwalk
    exact .inl ⟨ha, hwalk.1.symm, hwalk.2.symm⟩
  · simp only [ha, decide_false, Bool.false_eq_true, if_false] at hwalk
    cases hd : p.stores.cellDiffs current with
    | none =>
      simp only [hd, Prod.mk.injEq] at hwalk
      exact .inr (.inl ⟨_, hwalk.1.symm⟩)
    | some d =>
      have hr : d.asReversed.toPatch = difference (state current).metaAt
          ((services.chain.parent current).elim .empty state).metaAt := by
        rw [CellDiff.toPatch_asReversed, h.settled.diff current d hd, reverse_difference]
      obtain ⟨diff, hc, hdi⟩ := h.withDiffInPlace (h.settled.charted_below current) hr
      simp only [hd, hc] at hwalk
      exact .inr (.inr ⟨ha, diff, hwalk, hdi⟩)

theorem walkDown_tracks (h : TracksIn χ services tree state p point)
    (hwalk : walkDown services source target (services.chain.path point) p = (r, p')) :
    (∃ msg, r = .error (.panicked msg)) ∨
    ∃ split, r = .ok split ∧ TracksIn χ services tree state p' split ∧
    p'.stores = p.stores ∧ split ∈ services.chain.path target ∧
    ∀ b ∈ services.chain.path point, b ∈ services.chain.path target →
    b ∈ services.chain.path split := by
  induction point using services.chain.induct generalizing p with
  | root a hro =>
    rw [services.chain.path_of_root hro] at hwalk
    rcases walkDown_cons h hwalk with ⟨hmem, rfl, rfl⟩ | hp | ⟨-, diff, hre, -⟩
    · exact .inr ⟨a, rfl, h, rfl, hmem, fun b hb _ => hb⟩
    · exact .inl hp
    · simp only [walkDown, Prod.mk.injEq] at hre
      exact .inl ⟨_, hre.1.symm⟩
  | step a b hab ih =>
    rw [services.chain.path_of_parent hab] at hwalk
    rcases walkDown_cons h hwalk with ⟨hmem, rfl, rfl⟩ | hp | ⟨hnot, diff, hre, hd⟩
    · exact .inr ⟨a, rfl, h, rfl, hmem, fun b hb _ => hb⟩
    · exact .inl hp
    · have hbe : TracksIn χ services tree state { p with diff := diff } b :=
        ⟨h.settled, h.charted, by simpa [hab] using hd⟩
      rcases ih hbe hre with hp | ⟨split, hr, ht, hs, hmem, hf⟩
      · exact .inl hp
      · refine .inr ⟨split, hr, ht, hs, hmem, fun x hx hxt => ?_⟩
        rw [services.chain.path_of_parent hab, List.mem_cons] at hx
        rcases hx with rfl | hx
        · exact absurd hxt hnot
        · exact hf x hx hxt

theorem executeChainBlock_eq_ok {ctx}
    (h : self.executeChainBlock services prevState p selectedParent current = .ok ctx) :
    (p.stores.cellRoots selectedParent).isSome ∧ (∃ hd, services.headers current = some hd ∧
      services.digests.root ctx.cellStateTree = hd.cellRoot) ∧
    ∃ gd daa ts, (self.reading services p.stores).calculateCellState services.blocks
    (.new gd (self.reconstructTreeFromVirtualDiff prevState p.diff)) daa current ts = .ok ctx := by
  obtain ⟨hd, hh, h⟩ := bind_ok h
  obtain ⟨gd, -, h⟩ := bind_ok h
  obtain ⟨root, hr, h⟩ := bind_ok h
  obtain ⟨_, -, h⟩ := bind_ok h
  obtain ⟨ctx', hca, h⟩ := bind_ok h
  obtain ⟨_, hv, h⟩ := bind_ok h
  cases h
  rw [okOr_eq_ok_iff] at hh hr
  obtain ⟨_, -, hv⟩ := bind_ok hv
  obtain ⟨_, hc, -⟩ := bind_ok hv
  exact ⟨by rw [hr]; rfl, ⟨hd, hh, ensure_eq_ok_iff.mp hc⟩, gd, _, _, hca⟩

variable (hblocks : services.blocks.Charted χ self.hasher)
include hblocks

theorem advance_tracks (h : TracksIn χ services prevState.cellStateTree state p point)
    (hparent : services.chain.parent current = some selectedParent)
    (hadvance : self.advance services prevState source target point p selectedParent current =
      (r, p')) :
    (∃ msg, r = .error (.panicked msg)) ∨ ∃ point' state', r = .ok point' ∧
    TracksIn χ services prevState.cellStateTree state' p' point' ∧
    Writes services p.stores p'.stores ∧ Keeps p.stores state state' ∧
    ∀ b, b ≠ current → state' b = state b := by
  unfold advance at hadvance
  by_cases hsp : selectedParent ≠ point
  · simp only [hsp, if_true, ne_eq, not_false_eq_true] at hadvance
    split at hadvance
    · exact .inl ⟨_, (Prod.mk.inj hadvance).1.symm⟩
    · cases hadvance
      exact .inr ⟨point, state, rfl, ⟨h.settled.setStatus _ _, h.charted, h.diff⟩,
        (Writes.refl _).setStatus _ _, fun _ _ => rfl, fun _ _ => rfl⟩
  · rw [not_not] at hsp
    subst hsp
    simp only [ne_eq, not_true_eq_false, if_false] at hadvance
    cases hd : p.stores.cellDiffs current with
    | some d =>
      have hdi := h.settled.diff current d hd
      rw [hparent] at hdi
      obtain ⟨diff, hc, hdi⟩ := h.withDiffInPlace (h.settled.charted current) hdi
      simp only [hd, hc] at hadvance
      obtain ⟨rfl, rfl⟩ := hadvance
      exact .inr ⟨current, state, rfl, ⟨h.settled, h.charted, hdi⟩, .refl _, fun _ _ => rfl,
        fun _ _ => rfl⟩
    | none =>
      simp only [hd] at hadvance
      split at hadvance
      · exact .inl ⟨_, (Prod.mk.inj hadvance).1.symm⟩
      · cases hadvance
        exact .inr ⟨selectedParent, state, rfl, h, .refl _, fun _ _ => rfl, fun _ _ => rfl⟩
      · split at hadvance
        · exact .inl ⟨_, (Prod.mk.inj hadvance).1.symm⟩
        · cases hadvance
          exact .inr ⟨selectedParent, state, rfl, ⟨h.settled.setStatus _ _, h.charted, h.diff⟩,
            (Writes.refl _).setStatus _ _, fun _ _ => rfl, fun _ _ => rfl⟩
        · next ctx he =>
            obtain ⟨hr, ⟨header, hh, hce⟩, gd, daa, ts, hca⟩ := executeChainBlock_eq_ok he
            have hba : self.reconstructTreeFromVirtualDiff prevState p.diff =
                state selectedParent :=
              h.applyCellDiffToTree_eq
            rw [hba] at hca
            obtain ⟨hctx, hch⟩ := calculateCellState_difference
              (self.reading services p.stores) hblocks (h.settled.charted selectedParent) hca
            obtain ⟨diff, hc, hdi⟩ := h.withDiffInPlace hch hctx
            simp only [hc] at hadvance
            obtain ⟨rfl, rfl⟩ := hadvance
            have hs : (p.stores.cellDiffs selectedParent).isSome := by
              rw [h.settled.together]
              exact hr
            refine .inr ⟨current, Function.update state current ctx.cellStateTree, rfl,
              ⟨h.settled.commitCellState hparent hs hd hch hctx, h.charted, ?_⟩, ?_,
              fun b hb => ?_, fun b hb => Function.update_of_ne hb _ _⟩
            · rw [Function.update_self]
              exact hdi
            · rw [hce]
              exact (Writes.refl _).commitCellState _ _ hh
            · refine Function.update_of_ne (fun heq => ?_) _ _
              simp [heq, hd] at hb

theorem walkUp_tracks {way} (hway : ∀ step ∈ way, services.chain.parent step.2 = some step.1)
    (h : TracksIn χ services prevState.cellStateTree state p point)
    (hwalk : self.walkUp services prevState source target point way p = (r, p')) :
    (∃ msg, r = .error (.panicked msg)) ∨ ∃ point' state', r = .ok point' ∧
    TracksIn χ services prevState.cellStateTree state' p' point' ∧
    Writes services p.stores p'.stores ∧ Keeps p.stores state state' ∧
    ∀ b, b ∉ way.map Prod.snd → state' b = state b := by
  induction way generalizing point p state with
  | nil =>
    cases hwalk
    exact .inr ⟨point, state, rfl, h, .refl _, fun _ _ => rfl, fun _ _ => rfl⟩
  | cons step way ih =>
    obtain ⟨selectedParent, current⟩ := step
    simp only [walkUp] at hwalk
    cases ha : self.advance services prevState source target point p selectedParent current with
    | mk verdict mid =>
      rw [ha] at hwalk
      rcases advance_tracks hblocks h (hway _ List.mem_cons_self) ha with
        ⟨msg, rfl⟩ | ⟨point', state', rfl, ht, hw, hk, hsa⟩
      · exact .inl ⟨msg, (Prod.mk.inj hwalk).1.symm⟩
      · rcases ih (fun s hs => hway s (List.mem_cons_of_mem _ hs)) ht hwalk with
          hp | ⟨last, state'', hr, ht, hw', hk', hs'⟩
        · exact .inl hp
        · refine .inr ⟨last, state'', hr, ht, hw.trans hw', fun b hb => ?_, fun b hb => ?_⟩
          · rw [hk' b (hw.isSome_cellDiffs hb), hk b hb]
          · rw [List.map_cons, List.mem_cons, not_or] at hb
            rw [hs' b hb.2, hsa b hb.1]

theorem calculateCellStateRelatively_tracks
    (h : TracksIn χ services prevState.cellStateTree state p source)
    (hrun : self.calculateCellStateRelatively services prevState p source target = (r, p')) :
    (∃ msg, r = .error (.panicked msg)) ∨ ∃ point' state', r = .ok point' ∧
    TracksIn χ services prevState.cellStateTree state' p' point' ∧
    Writes services p.stores p'.stores ∧ Keeps p.stores state state' ∧
    state' source = state source := by
  unfold calculateCellStateRelatively at hrun
  split at hrun
  · exact .inl ⟨_, (Prod.mk.inj hrun).1.symm⟩
  · split_ifs at hrun
    · cases hrun
      exact .inr ⟨source, state, rfl, h, .refl _, fun _ _ => rfl, rfl⟩
    · cases hd : walkDown services source target (services.chain.path source) p with
      | mk verdict mid =>
        rw [hd] at hrun
        rcases walkDown_tracks h hd with
          ⟨msg, rfl⟩ | ⟨split, rfl, ht, hs, hmem, hf⟩
        · exact .inl ⟨msg, (Prod.mk.inj hrun).1.symm⟩
        · have hway := fun step (hst : step ∈ services.chain.climb split target) =>
            services.chain.parent_of_mem_climb hmem hst
          rcases walkUp_tracks hblocks hway ht hrun with
            hp | ⟨point', state', hr, ht', hw, hk, hsa⟩
          · exact .inl hp
          · refine .inr ⟨point', state', hr, ht', hs ▸ hw, hs ▸ hk, hsa source fun hso => ?_⟩
            -- a block of both chains lies below the split, the blocks of the way up above it
            obtain ⟨step, hst, rfl⟩ := List.mem_map.mp hso
            obtain ⟨hta, hsp⟩ := services.chain.between_of_mem_climb hmem hst
            have hlow := services.chain.rank_le_of_mem_path (hf _ services.chain.mem_path_self hta)
            have hh := services.chain.rank_le_of_mem_path hsp
            have hlt := services.chain.rank_lt (hway _ hst)
            omega

end VirtualStateProcessor

end Spora
