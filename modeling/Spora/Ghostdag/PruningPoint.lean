import Mathlib.Data.Nat.Find
import Spora.Cell.Types

namespace Spora

open Option

structure CompactGhostdagData where
  blueScore : Nat
  selectedParent : Hash
deriving DecidableEq, Repr

structure PruningPointReply where
  pruningSample : Hash
  pruningPoint : Hash
deriving DecidableEq, Repr

structure PruningHeader where
  blueScore : Nat
  pruningPoint : Hash

structure PruningPointManager where
  pruningDepth : Nat
  finalityDepth : Nat
  genesisHash : Hash
  headersStore : Hash → Option PruningHeader
  pruningSamplesStore : Hash → Option Hash

namespace PruningPointManager

variable (self : PruningPointManager)

def pruningSamplesSteps : Nat := (self.pruningDepth + self.finalityDepth - 1) / self.finalityDepth

def finalityScore (blueScore : Nat) : Nat := blueScore / self.finalityDepth

def isPruningSample (selfBlueScore epochChainAncestorBlueScore : Nat) : Bool :=
  self.finalityScore epochChainAncestorBlueScore < self.finalityScore selfBlueScore

def walkSamples (blueScore : Nat) (isSelfPruningSample : Bool) (selectedParentPruningPoint : Hash) :
    Nat → Nat → Hash → Option Hash
  | 0, _, _ => none
  | fuel + 1, steps, current =>
    if current = self.genesisHash then some current
    else do
      let header ← self.headersStore current
      if header.blueScore + self.pruningDepth ≤ blueScore then some current
      else if isSelfPruningSample ∧ steps = self.pruningSamplesSteps then some current
      else if current = selectedParentPruningPoint then some current
      else
        let next ← self.pruningSamplesStore current
        walkSamples blueScore isSelfPruningSample selectedParentPruningPoint fuel (steps + 1) next

-- The most recent sample from the view of a block with this selected parent.
def recentSample (selectedParent : Hash) (selectedParentBlueScore : Nat) : Option Hash :=
  if selectedParent = self.genesisHash then some self.genesisHash
  else do
    let sample ← self.pruningSamplesStore selectedParent
    let header ← self.headersStore sample
    return if self.isPruningSample selectedParentBlueScore header.blueScore then
      selectedParent else sample

def expectedHeaderPruningPointV2 (data : CompactGhostdagData) : Option PruningPointReply := do
  let parent ← self.headersStore data.selectedParent
  let pruningSample ← self.recentSample data.selectedParent parent.blueScore
  let pruningPoint ← self.walkSamples data.blueScore
    (self.isPruningSample data.blueScore parent.blueScore)
    parent.pruningPoint (data.blueScore + 1) 1 pruningSample
  return ⟨pruningSample, pruningPoint⟩

section Chain

-- The blocks of the selected chain by their height, and their blue scores.
variable (block : Nat → Hash) (score : Nat → Nat)

def IsSample (i : Nat) : Prop := self.finalityScore (score (i - 1)) < self.finalityScore (score i)

instance : DecidablePred (self.IsSample score) := fun _ => inferInstanceAs (Decidable (_ < _))

def sampleBefore (n : Nat) : Nat := Nat.findGreatest (self.IsSample score) (n - 1)

def pointOf (n : Nat) : Nat :=
  Nat.findGreatest (fun i => self.IsSample score i ∧ score i + self.pruningDepth ≤ score n) (n - 1)

def dataOf (i : Nat) : CompactGhostdagData := ⟨score i, block (i - 1)⟩

-- The first `n` blocks of the chain have headers and pruning samples as they were expected.
structure SelectedChain (m : PruningPointManager) (block : Nat → Hash) (score : Nat → Nat)
    (k n : Nat) : Prop where
  genesis : block 0 = m.genesisHash
  grows : ∀ i < n, score i < score (i + 1) ∧ score (i + 1) ≤ score i + (k + 1)
  header : ∀ i < n, ∃ header ∈ m.headersStore (block i), header.blueScore = score i
  stored : ∀ i < n, 0 < i → ∃ reply ∈ m.expectedHeaderPruningPointV2 (dataOf block score i),
    m.pruningSamplesStore (block i) = some reply.pruningSample ∧
      ∃ header ∈ m.headersStore (block i), header.pruningPoint = reply.pruningPoint

end Chain

namespace SelectedChain

variable {m : PruningPointManager} {b : Nat → Hash} {sc : Nat → Nat} {k n i j : Nat}

-- What the networks assert of their depths: the pruning depth is not close to a multiple of the
-- finality depth.
structure Depths (m : PruningPointManager) (k : Nat) : Prop where
  k_lt : k < m.finalityDepth
  lt_mod : k < m.pruningDepth % m.finalityDepth
  mod_lt : m.pruningDepth % m.finalityDepth < m.finalityDepth - k

theorem pointOf_spec (m : PruningPointManager) (sc) (n : Nat) : m.pointOf sc n = 0 ∨
    m.IsSample sc (m.pointOf sc n) ∧ sc (m.pointOf sc n) + m.pruningDepth ≤ sc n := by
  refine or_iff_not_imp_left.mpr fun hne => ?_
  exact Nat.findGreatest_of_ne_zero rfl hne

theorem pointOf_le (m : PruningPointManager) (sc) (n : Nat) : m.pointOf sc n ≤ n - 1 :=
  Nat.findGreatest_le _

theorem le_pointOf (hi : i < n) (hsample : m.IsSample sc i) (hdeep : sc i + m.pruningDepth ≤ sc n) :
    i ≤ m.pointOf sc n :=
  Nat.le_findGreatest (by omega) ⟨hsample, hdeep⟩

variable (h : m.SelectedChain b sc k n)

include h

theorem mono (hij : i ≤ j) (hj : j ≤ n) : sc i + (j - i) ≤ sc j := by
  induction j, hij using Nat.le_induction with
  | base => simp
  | succ j hij ih =>
    have := (h.grows j hj).1
    omega

theorem take (hj : j ≤ n) : m.SelectedChain b sc k j :=
  ⟨h.genesis, fun i hi => h.grows i (by omega), fun i hi => h.header i (by omega),
    fun i hi => h.stored i (by omega)⟩

theorem block_inj (hi : i < n) (hj : j < n) (heq : b i = b j) : i = j := by
  obtain ⟨header, hh, hs⟩ := h.header i hi
  obtain ⟨header', hh', hs'⟩ := h.header j hj
  cases (hh.symm.trans (heq ▸ hh'))
  rcases Nat.lt_trichotomy i j with hlt | rfl | hlt
  · have := h.mono hlt.le hj.le
    omega
  · rfl
  · have := h.mono hlt.le hi.le
    omega

theorem eq_genesis_iff (hi : i < n) : b i = m.genesisHash ↔ i = 0 := by
  rw [← h.genesis]
  exact ⟨h.block_inj hi (by omega), fun heq => heq ▸ rfl⟩

theorem epoch_mono (hij : i ≤ j) (hj : j ≤ n) : m.finalityScore (sc i) ≤ m.finalityScore (sc j) :=
  Nat.div_le_div_right ((Nat.le_add_right _ _).trans (h.mono hij hj))

theorem epoch_succ_le (hk : k < m.finalityDepth) (hi : i < n) :
    m.finalityScore (sc (i + 1)) ≤ m.finalityScore (sc i) + 1 := by
  have hg := (h.grows i hi).2
  rw [finalityScore, finalityScore, ← Nat.add_div_right _ (by omega)]
  exact Nat.div_le_div_right (by omega)

theorem epoch_findGreatest (hi : i ≤ n) :
    m.finalityScore (sc (Nat.findGreatest (m.IsSample sc) i)) = m.finalityScore (sc i) := by
  induction i with
  | zero => rfl
  | succ i ih =>
    rw [Nat.findGreatest_succ]
    split_ifs with hs
    · rfl
    · have hle := not_lt.mp hs
      exact (ih (by omega)).trans ((h.epoch_mono (by omega) hi).antisymm hle)

theorem epoch_of_isSample (hk : k < m.finalityDepth) (hi : 0 < i) (hn : i ≤ n)
    (hsample : m.IsSample sc i) :
    m.finalityScore (sc (m.sampleBefore sc i)) + 1 = m.finalityScore (sc i) := by
  rw [sampleBefore, h.epoch_findGreatest (by omega)]
  have hle := h.epoch_succ_le hk (i := i - 1) (by omega)
  rw [Nat.sub_add_cancel hi] at hle
  exact (Nat.succ_le_of_lt hsample).antisymm hle

theorem score_of_isSample (hi : 0 < i) (hn : i ≤ n) (hsample : m.IsSample sc i)
    (hF : 0 < m.finalityDepth) :
    sc i ≤ m.finalityScore (sc i) * m.finalityDepth + k := by
  have hg := (h.grows (i - 1) (by omega)).2
  rw [Nat.sub_add_cancel hi] at hg
  have hb := (Nat.div_lt_iff_lt_mul hF).mp hsample
  omega

theorem deep_of_steps (hdepths : Depths m k) (hi : 0 < i) (hn : i ≤ n) (hsample : m.IsSample sc i)
    (hsteps : m.finalityScore (sc i) + m.pruningSamplesSteps = m.finalityScore (sc n)) :
    sc i + m.pruningDepth ≤ sc n := by
  obtain ⟨hk, hlow, hh⟩ := hdepths
  have hs := h.score_of_isSample hi hn hsample (by omega)
  have hl : m.finalityScore (sc n) * m.finalityDepth ≤ sc n := Nat.div_mul_le_self _ _
  have hd := Nat.div_add_mod' m.pruningDepth m.finalityDepth
  generalize m.pruningDepth / m.finalityDepth = q at hd
  have hq : (q + 1) * m.finalityDepth = q * m.finalityDepth + m.finalityDepth := Nat.succ_mul q _
  have hc : m.pruningSamplesSteps = q + 1 := by
    refine Nat.div_eq_of_lt_le (by omega) ?_
    rw [Nat.add_mul]
    omega
  rw [← hsteps, hc, Nat.add_mul] at hl
  omega

theorem pointOf_mono (hij : i ≤ j) (hj : j ≤ n) : m.pointOf sc i ≤ m.pointOf sc j := by
  rcases pointOf_spec m sc i with hz | ⟨hs, hd⟩
  · omega
  · have hm := h.mono hij hj
    by_cases hlt : m.pointOf sc i < j
    · exact le_pointOf hlt hs (by omega)
    · have := pointOf_le m sc i
      omega

-- The invariant of the walk: it is at or above the point, and has made a step for each epoch.
theorem walkSamples_eq (hdepths : Depths m k)
    (hstored : ∀ i < n, 0 < i → m.pruningSamplesStore (b i) = some (b (m.sampleBefore sc i)))
    {parentPoint} (hparent : ∀ i < n, 0 < i → b i = parentPoint → sc i + m.pruningDepth ≤ sc n)
    {fuel steps} (hi : i < fuel) (hin : i < n) (hsample : 0 < i → m.IsSample sc i)
    (hpoint : m.pointOf sc n ≤ i)
    (hsteps : m.IsSample sc n → 0 < i → m.finalityScore (sc i) + steps = m.finalityScore (sc n)) :
    m.walkSamples (sc n) (m.isPruningSample (sc n) (sc (n - 1))) parentPoint fuel steps (b i) =
    some (b (m.pointOf sc n)) := by
  induction fuel generalizing i steps with
  | zero => omega
  | succ fuel ih =>
    rw [walkSamples]
    by_cases hz : i = 0
    · subst hz
      rw [if_pos h.genesis, Nat.le_zero.mp hpoint]
    obtain ⟨header, hh, hsc⟩ := h.header i hin
    have hpos := Nat.pos_of_ne_zero hz
    rw [if_neg (mt (h.eq_genesis_iff hin).mp hz), mem_def.mp hh, bind_eq_bind, bind_some, hsc]
    by_cases hde : sc i + m.pruningDepth ≤ sc n
    · rw [if_pos hde, hpoint.antisymm (le_pointOf hin (hsample hpos) hde)]
    rw [if_neg hde, if_neg ?clamp, if_neg fun heq => hde (hparent i hin hpos heq),
      hstored i hin hpos]
    case clamp =>
      rintro ⟨hse, hl⟩
      have hse := of_decide_eq_true hse
      exact hde (h.deep_of_steps hdepths hpos hin.le (hsample hpos) (hl ▸ hsteps hse hpos))
    have hlt : m.sampleBefore sc i < i := (Nat.findGreatest_le _).trans_lt (Nat.sub_lt hpos one_pos)
    refine ih (by omega) (by omega) (fun hne => ?_) ?_ fun hse hne => ?_
    · exact Nat.findGreatest_of_ne_zero rfl hne.ne'
    · -- the point is a sample below this one
      rcases pointOf_spec m sc n with heq | ⟨hs, hd⟩
      · omega
      · refine Nat.le_findGreatest ?_ hs
        have hne : m.pointOf sc n ≠ i := fun heq => hde (heq ▸ hd)
        omega
    · have := h.epoch_of_isSample hdepths.k_lt hpos hin.le (hsample hpos)
      have := hsteps hse hpos
      omega

section Step

variable (hreplies : ∀ i < n, 0 < i → m.expectedHeaderPruningPointV2 (dataOf b sc i) =
    some ⟨b (m.sampleBefore sc i), b (m.pointOf sc i)⟩)

include hreplies

theorem stored_eq (hi : i < n) (hpos : 0 < i) :
    m.pruningSamplesStore (b i) = some (b (m.sampleBefore sc i)) ∧
    ∃ header ∈ m.headersStore (b i), header.pruningPoint = b (m.pointOf sc i) := by
  obtain ⟨reply, hr, hs, header, hh, hp⟩ := h.stored i hi hpos
  cases (hr.symm.trans (hreplies i hi hpos))
  exact ⟨hs, header, hh, hp⟩

theorem recentSample_eq (hn : 0 < n) :
    m.recentSample (b (n - 1)) (sc (n - 1)) = some (b (m.sampleBefore sc n)) := by
  obtain ⟨l, rfl⟩ : ∃ l, n = l + 1 := ⟨n - 1, by omega⟩
  rw [Nat.add_sub_cancel, recentSample]
  by_cases hz : l = 0
  · subst hz
    rw [if_pos h.genesis, ← h.genesis]
    rfl
  · have hpos := Nat.pos_of_ne_zero hz
    have hlt : m.sampleBefore sc l < l := (Nat.findGreatest_le _).trans_lt (Nat.sub_lt hpos one_pos)
    obtain ⟨ancestor, ha, hb⟩ := h.header (m.sampleBefore sc l) (by omega)
    have he := h.epoch_findGreatest (i := l - 1) (by omega)
    rw [if_neg (mt (h.eq_genesis_iff (by omega)).mp hz), (h.stored_eq hreplies (by omega) hpos).1,
      bind_eq_bind, bind_some, mem_def.mp ha, bind_eq_bind, bind_some, hb]
    obtain ⟨l', rfl⟩ : ∃ l', l = l' + 1 := ⟨l - 1, by omega⟩
    rw [isPruningSample, sampleBefore, he, sampleBefore, Nat.add_sub_cancel, Nat.add_sub_cancel,
      Nat.findGreatest_succ]
    simp only [decide_eq_true_eq, apply_ite b]
    rfl

theorem expected_step (hdepths : Depths m k) (hn : 0 < n) :
    m.expectedHeaderPruningPointV2 (dataOf b sc n) =
    some ⟨b (m.sampleBefore sc n), b (m.pointOf sc n)⟩ := by
  obtain ⟨header, hh, hsc⟩ := h.header (n - 1) (by omega)
  have hp : ∀ i < n, 0 < i → b i = header.pruningPoint → sc i + m.pruningDepth ≤ sc n := by
    intro i hi hpos heq
    obtain ⟨-, header', hh', hpo⟩ := h.stored_eq hreplies (i := n - 1) (by omega) (by omega)
    cases (hh.symm.trans hh')
    have hlt : m.pointOf sc (n - 1) < n := (pointOf_le m sc (n - 1)).trans_lt (by omega)
    obtain rfl := h.block_inj hi hlt (heq.trans hpo)
    rcases pointOf_spec m sc (n - 1) with hz | ⟨-, hd⟩
    · omega
    · have := h.mono (Nat.sub_le n 1) le_rfl
      omega
  have hle : m.sampleBefore sc n ≤ n - 1 := Nat.findGreatest_le _
  have hf := h.mono (Nat.zero_le n) le_rfl
  have hst : m.sampleBefore sc n < sc n + 1 := by omega
  have hw := h.walkSamples_eq hdepths (fun i hi hpos => (h.stored_eq hreplies hi hpos).1) hp hst
    (by omega) (fun hne => Nat.findGreatest_of_ne_zero rfl hne.ne') ?_ fun hse _ =>
      h.epoch_of_isSample hdepths.k_lt hn le_rfl hse
  · rw [expectedHeaderPruningPointV2, dataOf, mem_def.mp hh, bind_eq_bind, bind_some, hsc,
      h.recentSample_eq hreplies hn, bind_eq_bind, bind_some, hw]
    rfl
  · rcases pointOf_spec m sc n with hz | ⟨hs, -⟩
    · omega
    · exact Nat.le_findGreatest (Nat.findGreatest_le _) hs

end Step

end SelectedChain

theorem expectedHeaderPruningPointV2_eq (m : PruningPointManager) (block : Nat → Hash)
    (score : Nat → Nat) (k n : Nat) (hdepths : SelectedChain.Depths m k)
    (h : m.SelectedChain block score k n) :
    (∀ i ≤ n, 0 < i → m.expectedHeaderPruningPointV2 (dataOf block score i) =
      some ⟨block (m.sampleBefore score i), block (m.pointOf score i)⟩) ∧
    ∀ i j, i ≤ j → j ≤ n → m.pointOf score i ≤ m.pointOf score j := by
  refine ⟨fun i hi hpos => ?_, fun i j => h.pointOf_mono⟩
  induction i using Nat.strong_induction_on with
  | _ i ih => exact (h.take hi).expected_step (fun l hl => ih l hl (by omega)) hdepths hpos

-- A chain with the blue score as the hash: block 10 has the sample 8, and the first pruning point
-- above genesis.
def chainPoints : PruningPointManager :=
  ⟨6, 4, 0, fun hash => some ⟨hash, 0⟩, fun hash => some ((hash - 1) / 4 * 4)⟩

theorem pruningPoint_of_ten : chainPoints.expectedHeaderPruningPointV2 ⟨10, 9⟩ = some ⟨8, 4⟩ := by
  have hreplies : ∀ i < 10, 0 < i →
      chainPoints.expectedHeaderPruningPointV2 (dataOf id id i) = some ⟨(i - 1) / 4 * 4, 0⟩ := by
        decide
  exact (chainPoints.expectedHeaderPruningPointV2_eq id id 1 10 ⟨by decide, by decide, by decide⟩
    ⟨rfl, by decide, fun i _ => ⟨_, rfl, rfl⟩, fun i hi hpos => ⟨_, hreplies i hi hpos, rfl, _, rfl,
      rfl⟩⟩).1 10 le_rfl (by decide)

end PruningPointManager

end Spora
