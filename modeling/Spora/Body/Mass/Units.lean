import Spora.Body.Mass.Storage

namespace Spora

open Outcome

namespace StorageMass

variable {C : Nat} {cell : CellMass} {bef after ins outs : List CellMass}

def split (cell : CellMass) : List CellMass :=
  List.replicate cell.plurality ⟨1, cell.amount / cell.plurality⟩

theorem units_split (cell) : units (split cell) = cell.plurality := by
  simp [units, split]

theorem locked_split (hdvd : cell.plurality ∣ cell.amount) : locked (split cell) = cell.amount := by
  simp [locked, split, Nat.mul_div_cancel' hdvd]

section

variable (h : Computable C cell) (hdvd : cell.plurality ∣ cell.amount)
include h hdvd

theorem computable_of_mem_split : ∀ unit ∈ split cell, Computable C unit := by
  intro unit hu
  obtain ⟨hne, rfl⟩ := List.mem_replicate.mp hu
  have hp := Nat.pos_of_ne_zero hne
  have hpa := (Nat.le_mul_of_pos_right _ hp).trans h.scaled
  refine ⟨by simpa using hpa, by simpa using hpa, ?_⟩
  exact Nat.ne_of_gt (Nat.div_pos (Nat.le_of_dvd (Nat.pos_of_ne_zero h.amount) hdvd) hp)

theorem share_split : harmonic C (split cell) ≤ share C cell ∧
    share C cell < harmonic C (split cell) + cell.plurality := by
  obtain ⟨amount, ha⟩ := hdvd
  have hne := ha ▸ h.amount
  have hp := Nat.pos_of_ne_zero (Nat.ne_zero_of_mul_ne_zero_left hne)
  have hpo : 0 < amount := Nat.pos_of_ne_zero (Nat.ne_zero_of_mul_ne_zero_right hne)
  have hw : share C cell = cell.plurality * C / amount := by
    unfold share
    rw [ha, Nat.mul_comm, Nat.mul_div_mul_left _ _ hp, Nat.mul_comm]
  have hpa : harmonic C (split cell) = cell.plurality * (C / amount) := by
    simp [harmonic, split, share, ha, Nat.mul_div_cancel_left _ hp]
  rw [hw, hpa]
  refine ⟨Nat.mul_div_le_mul_div_assoc _ _ _, (Nat.div_lt_iff_lt_mul hpo).mpr ?_⟩
  have hr := Nat.mod_lt C hpo
  have hdiv := Nat.div_add_mod C amount
  calc cell.plurality * C
      = cell.plurality * (amount * (C / amount) + C % amount) := by rw [hdiv]
    _ < cell.plurality * (amount * (C / amount) + amount) :=
        Nat.mul_lt_mul_of_pos_left (Nat.add_lt_add_left hr _) hp
    _ = (cell.plurality * (C / amount) + cell.plurality) * amount := by ring

end

theorem harmonic_split (bef after) (h : Computable C cell) (hdvd : cell.plurality ∣ cell.amount) :
    harmonic C (bef ++ split cell ++ after) ≤ harmonic C (bef ++ cell :: after) ∧
    harmonic C (bef ++ cell :: after) <
    harmonic C (bef ++ split cell ++ after) + cell.plurality := by
  obtain ⟨hle, hlt⟩ := share_split h hdvd
  simp only [harmonic_append, harmonic_cons]
  omega

theorem forall_mem_split {P : CellMass → Prop} (h : ∀ c ∈ bef ++ cell :: after, P c)
    (hunits : ∀ unit ∈ split cell, P unit) : ∀ c ∈ bef ++ split cell ++ after, P c := by
  intro c hc
  rcases List.mem_append.mp hc with hc | hc
  · rcases List.mem_append.mp hc with hc | hc
    · exact h c (List.mem_append_left _ hc)
    · exact hunits c hc
  · exact h c (List.mem_append_right _ (List.mem_cons_of_mem _ hc))

theorem units_split_within (bef after cell) :
    units (bef ++ split cell ++ after) = units (bef ++ cell :: after) := by
  simp only [units_append, units_cons, units_split]
  omega

theorem relaxed_split_input :
    Relaxed (bef ++ split cell ++ after) outs ↔ Relaxed (bef ++ cell :: after) outs := by
  unfold Relaxed
  rw [units_split_within]

theorem relaxed_split_output :
    Relaxed ins (bef ++ split cell ++ after) ↔ Relaxed ins (bef ++ cell :: after) := by
  unfold Relaxed
  rw [units_split_within]

section

variable (hdvd : cell.plurality ∣ cell.amount)
include hdvd

theorem locked_split_within :
    locked (bef ++ split cell ++ after) = locked (bef ++ cell :: after) := by
  simp only [locked_append, locked_cons, locked_split hdvd]
  omega

theorem inputsComputable_split (h : InputsComputable C (bef ++ cell :: after) outs) :
    InputsComputable C (bef ++ split cell ++ after) outs := by
  unfold InputsComputable at h ⊢
  simp only [relaxed_split_input, units_split_within, locked_split_within hdvd]
  split_ifs at h ⊢ with hr
  · exact forall_mem_split h (computable_of_mem_split (h cell (by simp)) hdvd)
  · exact h

theorem relief_split (hpositive : 1 ≤ cell.plurality)
    (h : InputsComputable C (bef ++ cell :: after) outs) :
    relief C (bef ++ split cell ++ after) outs ≤ relief C (bef ++ cell :: after) outs ∧
    relief C (bef ++ cell :: after) outs < relief C (bef ++ split cell ++ after) outs +
    cell.plurality ∧
    (¬ Relaxed (bef ++ cell :: after) outs → relief C (bef ++ split cell ++ after) outs =
      relief C (bef ++ cell :: after) outs) := by
  unfold InputsComputable at h
  unfold relief
  simp only [relaxed_split_input, units_split_within, locked_split_within hdvd]
  split_ifs at h ⊢ with hr
  · obtain ⟨hle, hlt⟩ := harmonic_split bef after (h cell (by simp)) hdvd
    refine ⟨?_, ?_, fun hno => absurd hr hno⟩
    · exact min_le_min_right _ hle
    · omega
  · exact ⟨Nat.le_refl _, by omega, fun _ => rfl⟩

end

theorem plurality_split_input (h : ∀ c ∈ bef ++ cell :: after, 1 ≤ c.plurality) :
    ∀ c ∈ bef ++ split cell ++ after, 1 ≤ c.plurality := by
  refine forall_mem_split h fun unit hu => ?_
  rw [(List.mem_replicate.mp hu).2]

end StorageMass

open StorageMass

variable {stormParam mass : Nat}

theorem calcStorageMass_split_input {before after outputs cell}
    (hunits : ∀ c ∈ before ++ cell :: after, 1 ≤ c.plurality) (hdvd : cell.plurality ∣ cell.amount)
    (hmass : calcStorageMass false (before ++ cell :: after) outputs stormParam = .ok mass) :
    ∃ mass', calcStorageMass false (before ++ split cell ++ after) outputs stormParam = .ok mass' ∧
    mass < mass' + cell.plurality ∧ mass' < mass + cell.plurality ∧
    (¬ Relaxed (before ++ cell :: after) outputs → mass' = mass) := by
  have hp := hunits cell (by simp)
  obtain ⟨ho, hf, hh, hin, rfl⟩ := (calcStorageMass_eq_ok_iff hunits).mp hmass
  obtain ⟨hle, hlt, heq⟩ := relief_split hdvd hp hin
  refine ⟨_, (calcStorageMass_eq_ok_iff (plurality_split_input hunits)).mpr
    ⟨ho, hf, hh, inputsComputable_split hdvd hin, rfl⟩, by omega, by omega, fun hno => ?_⟩
  rw [heq hno]

theorem calcStorageMass_split_output {before after inputs cell}
    (hunits : ∀ c ∈ inputs, 1 ≤ c.plurality) (hdvd : cell.plurality ∣ cell.amount)
    (hmass : calcStorageMass false inputs (before ++ cell :: after) stormParam = .ok mass) :
    ∃ mass', calcStorageMass false inputs (before ++ split cell ++ after) stormParam = .ok mass' ∧
    mass < mass' + cell.plurality ∧ mass' < mass + cell.plurality := by
  obtain ⟨ho, hf, hh, hin, rfl⟩ := (calcStorageMass_eq_ok_iff hunits).mp hmass
  have hc := ho cell (by simp)
  obtain ⟨hle, hlt⟩ := harmonic_split before after hc hdvd
  have hre : InputsComputable stormParam inputs (before ++ split cell ++ after) := by
    unfold InputsComputable at hin ⊢
    simpa only [relaxed_split_output] using hin
  have hr : relief stormParam inputs (before ++ split cell ++ after) =
      relief stormParam inputs (before ++ cell :: after) := by
    unfold relief
    simp only [relaxed_split_output]
  refine ⟨_,
    (calcStorageMass_eq_ok_iff hunits).mpr ⟨forall_mem_split ho (computable_of_mem_split hc hdvd),
    by rwa [units_split_within], hle.trans hh, hre, rfl⟩, ?_, ?_⟩
  · rw [hr]
    omega
  · rw [hr]
    omega

theorem relaxedFormulaPath_of_mass {inputs outputs} (hunits : ∀ c ∈ inputs, 1 ≤ c.plurality)
    (hmass : calcStorageMass false inputs outputs stormParam = .ok mass) :
    relaxedFormulaPath (units outputs) inputs = .ok (decide (Relaxed inputs outputs)) := by
  obtain ⟨-, -, -, hin, -⟩ := (calcStorageMass_eq_ok_iff hunits).mp hmass
  exact (relaxedFormulaPath_eq_ok_iff hunits).mpr ⟨rfl, hin.path⟩

-- A cell of several units costs what its units cost, up to the rounding. Every cell has at least
-- one unit.
theorem calcStorageMass_units (isCoinbase : Bool) (inputs outputs : List CellMass)
    (stormParam mass : Nat) (hunits : ∀ cell ∈ inputs ++ outputs, 1 ≤ cell.plurality)
    (hmass : calcStorageMass isCoinbase inputs outputs stormParam = .ok mass) :
    (∀ before cell after, inputs = before ++ cell :: after → cell.plurality ∣ cell.amount →
      ∃ mass', calcStorageMass isCoinbase (before ++ split cell ++ after) outputs stormParam =
      .ok mass' ∧ mass < mass' + cell.plurality ∧ mass' < mass + cell.plurality ∧
      (isCoinbase = false → ∃ path, relaxedFormulaPath (units outputs) inputs = .ok path ∧
      relaxedFormulaPath (units outputs) (before ++ split cell ++ after) = .ok path ∧
      (path = false → mass' = mass))) ∧
    ∀ before cell after, outputs = before ++ cell :: after → cell.plurality ∣ cell.amount →
    ∃ mass', calcStorageMass isCoinbase inputs (before ++ split cell ++ after) stormParam =
    .ok mass' ∧ mass < mass' + cell.plurality ∧ mass' < mass + cell.plurality ∧
    (isCoinbase = false → ∃ path, relaxedFormulaPath (units outputs) inputs = .ok path ∧
      relaxedFormulaPath (units (before ++ split cell ++ after)) inputs = .ok path) := by
  have hin : ∀ cell ∈ inputs, 1 ≤ cell.plurality :=
    fun cell hc => hunits cell (List.mem_append_left _ hc)
  have ho : ∀ cell ∈ outputs, 1 ≤ cell.plurality :=
    fun cell hc => hunits cell (List.mem_append_right _ hc)
  cases isCoinbase with
  | true =>
    obtain rfl : 0 = mass := Except.ok.inj hmass
    refine ⟨?_, ?_⟩
    · rintro before cell after rfl -
      have hp := hin cell (by simp)
      exact ⟨0, rfl, by omega, by omega, nofun⟩
    · rintro before cell after rfl -
      have hp := ho cell (by simp)
      exact ⟨0, rfl, by omega, by omega, nofun⟩
  | false =>
    have hpa := relaxedFormulaPath_of_mass hin hmass
    refine ⟨?_, ?_⟩
    · rintro before cell after rfl hdvd
      obtain ⟨mass', hm', hlt, hlt', heq⟩ := calcStorageMass_split_input hin hdvd hmass
      have hp' := relaxedFormulaPath_of_mass (plurality_split_input hin) hm'
      refine ⟨mass', hm', hlt, hlt', fun _ => ⟨_, hpa, ?_, fun ha => ?_⟩⟩
      · simpa only [relaxed_split_input] using hp'
      · exact heq (of_decide_eq_false ha)
    · rintro before cell after rfl hdvd
      obtain ⟨mass', hm', hlt, hlt'⟩ := calcStorageMass_split_output hin hdvd hmass
      refine ⟨mass', hm', hlt, hlt', fun _ => ⟨_, hpa, ?_⟩⟩
      rw [units_split_within]
      exact hpa

theorem calcStorageMass_units_three :
    calcStorageMass false [⟨3, 9⟩, ⟨1, 5⟩] [⟨2, 4⟩, ⟨2, 6⟩] 7 = .ok 3 ∧
    ∃ mass', calcStorageMass false [⟨1, 3⟩, ⟨1, 3⟩, ⟨1, 3⟩, ⟨1, 5⟩] [⟨2, 4⟩, ⟨2, 6⟩] 7 = .ok mass' ∧
    3 < mass' + 3 ∧ mass' < 3 + 3 ∧ (false = false → ∃ path,
      relaxedFormulaPath (units [⟨2, 4⟩, ⟨2, 6⟩]) [⟨3, 9⟩, ⟨1, 5⟩] = .ok path ∧
      relaxedFormulaPath (units [⟨2, 4⟩, ⟨2, 6⟩]) [⟨1, 3⟩, ⟨1, 3⟩, ⟨1, 3⟩, ⟨1, 5⟩] = .ok path ∧
      (path = false → mass' = 3)) :=
  ⟨by decide,
    (calcStorageMass_units false [⟨3, 9⟩, ⟨1, 5⟩] [⟨2, 4⟩, ⟨2, 6⟩] 7 3 (by decide) (by decide)).1
    [] ⟨3, 9⟩ [⟨1, 5⟩] rfl (by decide)⟩

end Spora
