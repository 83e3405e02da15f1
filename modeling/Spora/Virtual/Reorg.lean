import Spora.Virtual.Walk

namespace Spora

open Std Outcome Patch

-- How a round leaves the bookkeeping: with the next pair, or with the sink and its diff.
def SearchRound.progress : SearchRound → Progress
  | .found _ _ progress => progress
  | .next st => st.progress

def SearchRound.point : SearchRound → Hash
  | .found sink _ _ => sink
  | .next st => st.diffPoint

namespace VirtualStateProcessor

variable {self : VirtualStateProcessor} {services : ResolveServices} {χ : OutPoint → CellMeta}
  {s : Hash → LiveTree self.hasher} {prevState : VirtualState self.hasher}
  {finalityPoint : Hash}

inductive SearchRun (self : VirtualStateProcessor) (services : ResolveServices)
    (prevState : VirtualState self.hasher) (finalityPoint : Hash) : SearchState → SearchState → Prop
  | refl (st : SearchState) : SearchRun self services prevState finalityPoint st st
  | round {st mid st' : SearchState} (hrun : SearchRun self services prevState finalityPoint st mid)
      (hround : self.sinkSearchRound services prevState finalityPoint mid = .ok (.next st')) :
      SearchRun self services prevState finalityPoint st st'

variable {st : SearchState}

theorem pushParents_eq_ok {c round} (h : pushParents services finalityPoint c st = .ok round) :
    round.progress = st.progress ∧ round.point = st.diffPoint := by
  obtain ⟨ps, -, h⟩ := bind_ok h
  obtain ⟨heap, -, h⟩ := bind_ok h
  cases h
  exact ⟨rfl, rfl⟩

section

variable (hblocks : services.blocks.Charted χ self.hasher)
include hblocks

theorem sinkSearchRound_tracks {round}
    (h : TracksIn χ services prevState.cellStateTree s st.progress st.diffPoint)
    (hround : self.sinkSearchRound services prevState finalityPoint st = .ok round) :
    ∃ state', TracksIn χ services prevState.cellStateTree state'
    round.progress round.point ∧ Writes services st.progress.stores round.progress.stores ∧
    Keeps st.progress.stores s state' := by
  unfold sinkSearchRound at hround
  split at hround
  · simp at hround
  · next candidate work heap hh =>
      split_ifs at hround
      · cases hrel : self.calculateCellStateRelatively services prevState st.progress st.diffPoint
          candidate with
        | mk verdict p =>
          rw [hrel] at hround
          rcases calculateCellStateRelatively_tracks hblocks h hrel with
            ⟨message, rfl⟩ | ⟨point, state', rfl, ht, hw, hk, -⟩
          · simp at hround
          · simp only at hround
            split_ifs at hround with hf
            · obtain ⟨rem, -, hround⟩ := bind_ok hround
              cases hround
              exact ⟨state', hf ▸ ht, hw, hk⟩
            · obtain ⟨hp, hpo⟩ := pushParents_eq_ok hround
              rw [hp, hpo]
              exact ⟨state', ht, hw, hk⟩
      · obtain ⟨hp, hpo⟩ := pushParents_eq_ok hround
        rw [hp, hpo]
        exact ⟨s, h, .refl _, fun _ _ => rfl⟩

theorem SearchRun.tracks {st st'} (h : TracksIn χ services prevState.cellStateTree s st.progress
      st.diffPoint) (hrun : SearchRun self services prevState finalityPoint st st') :
    ∃ state', TracksIn χ services prevState.cellStateTree state'
    st'.progress st'.diffPoint ∧ Writes services st.progress.stores st'.progress.stores ∧
    Keeps st.progress.stores s state' := by
  induction hrun with
  | refl => exact ⟨s, h, .refl _, fun _ _ => rfl⟩
  | round _ hr ih =>
    obtain ⟨mid, ht, hw, hk⟩ := ih
    obtain ⟨state', ht', hw', hk'⟩ := sinkSearchRound_tracks hblocks ht hr
    refine ⟨state', ht', hw.trans hw', fun b hb => ?_⟩
    rw [hk' b (hw.isSome_cellDiffs hb), hk b hb]

end

theorem sinkSearch_eq_ok {rounds sink cs p}
    (h : self.sinkSearch services prevState finalityPoint rounds st = .ok (sink, cs, p)) :
    ∃ last, SearchRun self services prevState finalityPoint st last ∧
    self.sinkSearchRound services prevState finalityPoint last = .ok (.found sink cs p) := by
  suffices hrun : ∀ start, SearchRun self services prevState finalityPoint start st →
      ∃ last, SearchRun self services prevState finalityPoint start last ∧
        self.sinkSearchRound services prevState finalityPoint last = .ok (.found sink cs p)
    from hrun st (.refl st)
  induction rounds generalizing st with
  | zero => simp [sinkSearch] at h
  | succ rounds ih =>
    intro start hs
    obtain ⟨round, hr, h⟩ := bind_ok h
    cases round with
    | found sink' candidates' p' =>
      obtain ⟨rfl, rfl, rfl⟩ := by simpa using h
      exact ⟨st, hs, hr⟩
    | next st' => exact ih h start (hs.round hr)

end VirtualStateProcessor

end Spora
