import Spora.Body.Mass
import Mathlib.Tactic.Ring
import Mathlib.Tactic.Linarith

namespace Spora

open Outcome StorageMass

namespace StorageMass

def units (cells : List CellMass) : Nat := (cells.map CellMass.plurality).sum

def locked (cells : List CellMass) : Nat := (cells.map CellMass.amount).sum

def share (stormParam : Nat) (cell : CellMass) : Nat :=
  stormParam * cell.plurality * cell.plurality / cell.amount

def harmonic (stormParam : Nat) (cells : List CellMass) : Nat := (cells.map (share stormParam)).sum

@[simp] theorem units_nil : units [] = 0 := rfl

@[simp] theorem units_cons (cell cells) : units (cell :: cells) = cell.plurality + units cells := by
  simp [units]

@[simp] theorem units_append (l m) : units (l ++ m) = units l + units m := by
  simp [units]

@[simp] theorem locked_nil : locked [] = 0 := rfl

@[simp] theorem locked_cons (cell cells) : locked (cell :: cells) = cell.amount + locked cells := by
  simp [locked]

@[simp] theorem locked_append (l m) : locked (l ++ m) = locked l + locked m := by
  simp [locked]

variable {c : Nat}

@[simp] theorem harmonic_nil : harmonic c [] = 0 := rfl

@[simp] theorem harmonic_cons (cell cells) :
    harmonic c (cell :: cells) = share c cell + harmonic c cells := by
  simp [harmonic]

@[simp] theorem harmonic_append (l m) : harmonic c (l ++ m) = harmonic c l + harmonic c m := by
  simp [harmonic]

structure Computable (stormParam : Nat) (cell : CellMass) : Prop where
  scaled : stormParam * cell.plurality ≤ U64_MAX
  squared : stormParam * cell.plurality * cell.plurality ≤ U64_MAX
  amount : cell.amount ≠ 0

theorem checkedMul_eq_some_iff {a b c} : checkedMul a b = some c ↔ c = a * b ∧ a * b ≤ U64_MAX := by
  unfold checkedMul
  split_ifs with h
  · rw [Option.some.injEq]
    exact ⟨fun hc => ⟨hc.symm, h⟩, fun hc => hc.1.symm⟩
  · simp [h]

theorem divOrPanic_eq_ok_iff {a b c} : divOrPanic a b = .ok c ↔ b ≠ 0 ∧ c = a / b := by
  unfold divOrPanic
  split_ifs with h
  · simp [h]
  · rw [Except.ok.injEq]
    exact ⟨fun hc => ⟨h, hc.symm⟩, fun hc => hc.2.symm⟩

theorem addOrPanic_eq_ok_iff {a b c} : addOrPanic a b = .ok c ↔ c = a + b ∧ c ≤ U64_MAX := by
  unfold addOrPanic
  rw [okOr_eq_ok_iff, checkedAdd_eq_some_iff]

theorem addOutput_eq_ok_iff {acc acc' cell} : addOutput c acc cell = .ok acc' ↔ Computable c cell ∧
    acc' = (acc.1 + cell.plurality, acc.2 + share c cell) ∧ acc'.1 ≤ U64_MAX ∧
    acc'.2 ≤ U64_MAX := by
  constructor
  · intro h
    obtain ⟨plurality, hp, h⟩ := bind_ok h
    obtain ⟨scaled, hsc, h⟩ := bind_ok h
    obtain ⟨squared, hs, h⟩ := bind_ok h
    obtain ⟨q, hq, h⟩ := bind_ok h
    obtain ⟨total, ht, h⟩ := bind_ok h
    cases h
    rw [okOr_eq_ok_iff] at hsc hs ht
    obtain ⟨rfl, hf⟩ := addOrPanic_eq_ok_iff.mp hp
    obtain ⟨rfl, hscaledFits⟩ := checkedMul_eq_some_iff.mp hsc
    obtain ⟨rfl, hsq⟩ := checkedMul_eq_some_iff.mp hs
    obtain ⟨ha, rfl⟩ := divOrPanic_eq_ok_iff.mp hq
    obtain ⟨rfl, hto⟩ := checkedAdd_eq_some_iff.mp ht
    exact ⟨⟨hscaledFits, hsq, ha⟩, rfl, hf, hto⟩
  · rintro ⟨⟨hsc, hs, ha⟩, rfl, hf, ht⟩
    unfold addOutput
    simp only [addOrPanic, checkedAdd, checkedMul, divOrPanic, if_pos hf, if_pos hsc, if_pos hs,
      if_neg ha, okOr_some, ok_bind]
    unfold share at ht ⊢
    simp only [if_pos ht]
    rfl

variable {cells : List CellMass}

theorem outputs_eq_ok_iff {acc acc'} (hacc : acc.1 ≤ U64_MAX) (hacc' : acc.2 ≤ U64_MAX) :
    cells.foldlM (addOutput c) acc = .ok acc' ↔ (∀ cell ∈ cells, Computable c cell) ∧
    acc' = (acc.1 + units cells, acc.2 + harmonic c cells) ∧ acc'.1 ≤ U64_MAX ∧
    acc'.2 ≤ U64_MAX := by
  induction cells generalizing acc with
  | nil =>
    simp only [List.foldlM_nil, pure_eq_ok, Except.ok.injEq, List.not_mem_nil, false_implies,
      implies_true, true_and]
    constructor
    · rintro rfl
      exact ⟨rfl, hacc, hacc'⟩
    · rintro ⟨rfl, -⟩
      rfl
  | cons cell cells ih =>
    rw [List.foldlM_cons, bind_eq_ok_iff]
    constructor
    · rintro ⟨next, hn, hr⟩
      obtain ⟨hce, rfl, hf, hf'⟩ := addOutput_eq_ok_iff.mp hn
      obtain ⟨hc, rfl, ht, ht'⟩ := (ih hf hf').mp hr
      refine ⟨List.forall_mem_cons.mpr ⟨hce, hc⟩, ?_, ht, ht'⟩
      simp [Nat.add_assoc]
    · rintro ⟨hall, hsum, ht, ht'⟩
      obtain ⟨hce, hc⟩ := List.forall_mem_cons.mp hall
      rw [units_cons, harmonic_cons, ← Nat.add_assoc, ← Nat.add_assoc] at hsum
      have hf : acc.1 + cell.plurality ≤ U64_MAX := by
        rw [hsum] at ht
        exact Nat.le_of_add_right_le ht
      have hf' : acc.2 + share c cell ≤ U64_MAX := by
        rw [hsum] at ht'
        exact Nat.le_of_add_right_le ht'
      exact ⟨_, addOutput_eq_ok_iff.mpr ⟨hce, rfl, hf, hf'⟩, (ih hf hf').mpr ⟨hc, hsum, ht, ht'⟩⟩

theorem addHarmonicInput_eq_ok_iff {acc total cell} : addHarmonicInput c acc cell = .ok total ↔
    Computable c cell ∧ total = saturatingAdd acc (share c cell) := by
  constructor
  · intro h
    obtain ⟨scaled, hsc, h⟩ := bind_ok h
    obtain ⟨squared, hs, h⟩ := bind_ok h
    obtain ⟨q, hq, h⟩ := bind_ok h
    rw [okOr_eq_ok_iff] at hsc hs
    obtain ⟨rfl, hscaledFits⟩ := checkedMul_eq_some_iff.mp hsc
    obtain ⟨rfl, hsq⟩ := checkedMul_eq_some_iff.mp hs
    obtain ⟨ha, rfl⟩ := divOrPanic_eq_ok_iff.mp hq
    exact ⟨⟨hscaledFits, hsq, ha⟩, (Except.ok.inj h).symm⟩
  · rintro ⟨⟨hsc, hs, ha⟩, rfl⟩
    unfold addHarmonicInput
    simp only [checkedMul, divOrPanic, if_pos hsc, if_pos hs, if_neg ha, okOr_some, ok_bind]
    rfl

theorem harmonicInputs_eq_ok_iff {acc total} (hacc : acc ≤ U64_MAX) :
    cells.foldlM (addHarmonicInput c) acc = .ok total ↔ (∀ cell ∈ cells, Computable c cell) ∧
    total = min (acc + harmonic c cells) U64_MAX := by
  induction cells generalizing acc with
  | nil => simp [eq_comm, hacc]
  | cons cell cells ih =>
    rw [List.foldlM_cons, bind_eq_ok_iff]
    have hs a b d : min (min (a + b) d + harmonic c cells) d =
      min (a + (b + harmonic c cells)) d := by omega
    constructor
    · rintro ⟨next, hn, hr⟩
      obtain ⟨hce, rfl⟩ := addHarmonicInput_eq_ok_iff.mp hn
      obtain ⟨hc, rfl⟩ := (ih (Nat.min_le_right _ _)).mp hr
      exact ⟨List.forall_mem_cons.mpr ⟨hce, hc⟩, by rw [harmonic_cons, hs]⟩
    · rintro ⟨hall, rfl⟩
      obtain ⟨hce, hc⟩ := List.forall_mem_cons.mp hall
      refine ⟨_, addHarmonicInput_eq_ok_iff.mpr ⟨hce, rfl⟩,
        (ih (Nat.min_le_right _ _)).mpr ⟨hc, ?_⟩⟩
      rw [harmonic_cons, hs]

theorem inputUnits_eq_ok_iff {acc total} (hacc : acc ≤ U64_MAX) :
    cells.foldlM (fun acc cell => addOrPanic acc cell.plurality) acc = .ok total ↔
    total = acc + units cells ∧ total ≤ U64_MAX := by
  induction cells generalizing acc with
  | nil =>
    simp only [List.foldlM_nil, pure_eq_ok, Except.ok.injEq]
    exact ⟨fun h => ⟨h.symm, h ▸ hacc⟩, fun h => h.1.symm⟩
  | cons cell cells ih =>
    rw [List.foldlM_cons, bind_eq_ok_iff, units_cons, ← Nat.add_assoc]
    constructor
    · rintro ⟨next, hn, hr⟩
      obtain ⟨rfl, hf⟩ := addOrPanic_eq_ok_iff.mp hn
      exact (ih hf).mp hr
    · rintro ⟨hsum, ht⟩
      have hf : acc + cell.plurality ≤ U64_MAX := by omega
      exact ⟨_, addOrPanic_eq_ok_iff.mpr ⟨rfl, hf⟩, (ih hf).mpr ⟨hsum, ht⟩⟩

theorem arithmeticInputs_eq_ok_iff {acc acc'} (hacc : acc.1 ≤ U64_MAX) (hacc' : acc.2 ≤ U64_MAX) :
    cells.foldlM addArithmeticInput acc = .ok acc' ↔
    acc' = (acc.1 + units cells, acc.2 + locked cells) ∧ acc'.1 ≤ U64_MAX ∧ acc'.2 ≤ U64_MAX := by
  induction cells generalizing acc with
  | nil =>
    simp only [List.foldlM_nil, pure_eq_ok, Except.ok.injEq]
    exact ⟨fun h => ⟨h.symm, h ▸ hacc, h ▸ hacc'⟩, fun h => h.1.symm⟩
  | cons cell cells ih =>
    rw [List.foldlM_cons, bind_eq_ok_iff, units_cons, locked_cons, ← Nat.add_assoc, ← Nat.add_assoc]
    constructor
    · rintro ⟨next, hn, hr⟩
      obtain ⟨plurality, hp, hn⟩ := bind_ok hn
      obtain ⟨amount, ha, hn⟩ := bind_ok hn
      cases hn
      obtain ⟨rfl, hf⟩ := addOrPanic_eq_ok_iff.mp hp
      obtain ⟨rfl, hf'⟩ := addOrPanic_eq_ok_iff.mp ha
      exact (ih hf hf').mp hr
    · rintro ⟨rfl, ht, ht'⟩
      have hf := Nat.le_of_add_right_le ht
      have hf' := Nat.le_of_add_right_le ht'
      refine ⟨(acc.1 + cell.plurality, acc.2 + cell.amount), ?_, (ih hf hf').mpr ⟨rfl, ht, ht'⟩⟩
      unfold addArithmeticInput
      rw [addOrPanic_eq_ok_iff.mpr ⟨rfl, hf⟩, addOrPanic_eq_ok_iff.mpr ⟨rfl, hf'⟩]
      rfl

def Relaxed (inputs outputs : List CellMass) : Prop :=
  units outputs = 1 ∨ units inputs = 1 ∨ units outputs = 2 ∧ units inputs = 2

instance (inputs outputs : List CellMass) : Decidable (Relaxed inputs outputs) :=
  inferInstanceAs (Decidable (_ ∨ _ ∨ _ ∧ _))

theorem length_le_units (h : ∀ cell ∈ cells, 1 ≤ cell.plurality) : cells.length ≤ units cells := by
  induction cells with
  | nil => rfl
  | cons cell cells ih =>
    obtain ⟨hce, hc⟩ := List.forall_mem_cons.mp h
    have := ih hc
    rw [List.length_cons, units_cons]
    omega

variable {inputs outputs : List CellMass}

theorem relaxedFormulaPath_eq_ok_iff (hinputs : ∀ cell ∈ inputs, 1 ≤ cell.plurality) {path} :
    relaxedFormulaPath (units outputs) inputs = .ok path ↔ path = decide (Relaxed inputs outputs) ∧
    (units outputs = 1 ∨ 2 < inputs.length ∨ units inputs ≤ U64_MAX) := by
  have hle := length_le_units hinputs
  unfold relaxedFormulaPath Relaxed
  split_ifs with ho hl
  · simp [ho]
  · have hfew : ¬ units inputs = 1 := by omega
    have htwo : ¬ units inputs = 2 := by omega
    simp [ho, hl, hfew, htwo]
  · rw [bind_eq_ok_iff]
    constructor
    · rintro ⟨total, ht, h⟩
      obtain ⟨rfl, hf⟩ := (inputUnits_eq_ok_iff (Nat.zero_le _)).mp ht
      rw [← Except.ok.inj h]
      refine ⟨?_, .inr (.inr (by omega))⟩
      simp [ho, beq_eq_decide]
    · rintro ⟨rfl, hf⟩
      have hf : units inputs ≤ U64_MAX := by omega
      exact ⟨units inputs, (inputUnits_eq_ok_iff (Nat.zero_le _)).mpr ⟨by omega, hf⟩,
        by simp [ho, beq_eq_decide]⟩

def relief (stormParam : Nat) (inputs outputs : List CellMass) : Nat :=
  if Relaxed inputs outputs then min (harmonic stormParam inputs) U64_MAX
  else min (units inputs * (stormParam / (locked inputs / units inputs))) U64_MAX

def InputsComputable (stormParam : Nat) (inputs outputs : List CellMass) : Prop :=
  if Relaxed inputs outputs then ∀ cell ∈ inputs, Computable stormParam cell
  else units inputs ≤ U64_MAX ∧ locked inputs ≤ U64_MAX ∧ 0 < units inputs ∧
    units inputs ≤ locked inputs

theorem InputsComputable.path (h : InputsComputable c inputs outputs) :
    units outputs = 1 ∨ 2 < inputs.length ∨ units inputs ≤ U64_MAX := by
  unfold InputsComputable at h
  split_ifs at h with hr
  · have hs : 2 ≤ U64_MAX := by decide
    unfold Relaxed at hr
    omega
  · exact .inr (.inr h.1)

theorem mean_ne_zero_iff {a b} (hb : b ≠ 0) : a / b ≠ 0 ↔ b ≤ a := by
  rw [Nat.ne_zero_iff_zero_lt, Nat.div_pos_iff]
  omega

theorem calcStorageMass_eq_ok_iff (hinputs : ∀ cell ∈ inputs, 1 ≤ cell.plurality) {mass} :
    calcStorageMass false inputs outputs c = .ok mass ↔
    (∀ cell ∈ outputs, Computable c cell) ∧ units outputs ≤ U64_MAX ∧
    harmonic c outputs ≤ U64_MAX ∧ InputsComputable c inputs outputs ∧
    mass = harmonic c outputs - relief c inputs outputs := by
  unfold calcStorageMass InputsComputable relief
  simp only [Bool.false_eq_true, if_false, pure_eq_ok]
  constructor
  · intro h
    obtain ⟨acc, hacc, h⟩ := bind_ok h
    obtain ⟨ho, rfl, hu, hh⟩ := (outputs_eq_ok_iff (Nat.zero_le _) (Nat.zero_le _)).mp hacc
    obtain ⟨path, hpa, h⟩ := bind_ok h
    simp only [Nat.zero_add] at hu hh hpa h
    obtain ⟨rfl, -⟩ := (relaxedFormulaPath_eq_ok_iff hinputs).mp hpa
    refine ⟨ho, hu, hh, ?_⟩
    by_cases hr : Relaxed inputs outputs
    · simp only [hr] at h ⊢
      obtain ⟨total, ht, h⟩ := bind_ok h
      obtain ⟨hc, rfl⟩ := (harmonicInputs_eq_ok_iff (Nat.zero_le _)).mp ht
      rw [Nat.zero_add] at h
      exact ⟨hc, (Except.ok.inj h).symm⟩
    · simp only [hr] at h ⊢
      obtain ⟨acc, hacc, h⟩ := bind_ok h
      obtain ⟨rfl, hf, hf'⟩ := (arithmeticInputs_eq_ok_iff (Nat.zero_le _) (Nat.zero_le _)).mp hacc
      obtain ⟨mean, hm, h⟩ := bind_ok h
      obtain ⟨q, hq, h⟩ := bind_ok h
      simp only [Nat.zero_add] at hf hf' hm h
      obtain ⟨hp, rfl⟩ := divOrPanic_eq_ok_iff.mp hm
      obtain ⟨hm, rfl⟩ := divOrPanic_eq_ok_iff.mp hq
      exact ⟨⟨hf, hf', Nat.pos_of_ne_zero hp, (mean_ne_zero_iff hp).mp hm⟩, (Except.ok.inj h).symm⟩
  · rintro ⟨ho, hu, hh, hc, rfl⟩
    have hpa := InputsComputable.path hc
    rw [(outputs_eq_ok_iff (Nat.zero_le _) (Nat.zero_le _)).mpr ⟨ho, rfl, by simpa, by simpa⟩,
      ok_bind]
    simp only [Nat.zero_add]
    rw [(relaxedFormulaPath_eq_ok_iff hinputs).mpr ⟨rfl, hpa⟩, ok_bind]
    by_cases hr : Relaxed inputs outputs
    · simp only [hr, decide_true, if_true] at hc ⊢
      rw [(harmonicInputs_eq_ok_iff (Nat.zero_le _)).mpr ⟨hc, rfl⟩, ok_bind, Nat.zero_add]
    · simp only [hr, decide_false, Bool.false_eq_true, if_false] at hc ⊢
      obtain ⟨hf, hf', hp, hm⟩ := hc
      have hne := Nat.ne_of_gt hp
      rw [(arithmeticInputs_eq_ok_iff (Nat.zero_le _) (Nat.zero_le _)).mpr ⟨rfl, by simpa,
        by simpa⟩, ok_bind]
      simp only [Nat.zero_add]
      rw [divOrPanic_eq_ok_iff.mpr ⟨hne, rfl⟩, ok_bind,
        divOrPanic_eq_ok_iff.mpr ⟨(mean_ne_zero_iff hne).mpr hm, rfl⟩, ok_bind]

theorem addOutput_of_computable {acc cell} (h : Computable c cell) :
    addOutput c acc cell = if U64_MAX < acc.1 + cell.plurality then .error .panicked
      else if U64_MAX < acc.2 + share c cell then .error .incomputable
      else .ok (acc.1 + cell.plurality, acc.2 + share c cell) := by
  split_ifs with hu hh
  · unfold addOutput
    simp only [addOrPanic, checkedAdd, if_neg (Nat.not_le_of_lt hu)]
    rfl
  · unfold addOutput
    unfold share at hh
    simp only [addOrPanic, checkedAdd, checkedMul, divOrPanic, if_pos (Nat.le_of_not_lt hu),
      if_pos h.scaled, if_pos h.squared, if_neg h.amount, okOr_some, ok_bind,
        if_neg (Nat.not_le_of_lt hh)]
    rfl
  · exact addOutput_eq_ok_iff.mpr ⟨h, rfl, Nat.le_of_not_lt hu, Nat.le_of_not_lt hh⟩

theorem outputs_panicked_iff {acc} (hcells : ∀ cell ∈ cells, Computable c cell)
    (hacc : acc.2 ≤ U64_MAX) :
    cells.foldlM (addOutput c) acc = .error .panicked ↔
    ∃ front cell back, cells = front ++ cell :: back ∧
    acc.2 + harmonic c front ≤ U64_MAX ∧ U64_MAX < acc.1 + units (front ++ [cell]) := by
  induction cells generalizing acc with
  | nil => simp
  | cons head tail ih =>
    obtain ⟨hhe, ht⟩ := List.forall_mem_cons.mp hcells
    rw [List.foldlM_cons, addOutput_of_computable hhe]
    split_ifs with hu hh
    · simp only [error_bind, true_iff]
      exact ⟨[], head, tail, rfl, by simpa using hacc, by simpa using hu⟩
    · simp only [error_bind, Except.error.injEq, reduceCtorEq, false_iff]
      rintro ⟨front, cell, back, hs, hf, ho⟩
      cases front with
      | nil =>
        cases hs
        simp at ho
        omega
      | cons first front =>
        cases hs
        rw [harmonic_cons] at hf
        omega
    · rw [ok_bind, ih ht (Nat.le_of_not_lt hh)]
      constructor
      · rintro ⟨front, cell, back, rfl, hf, ho⟩
        refine ⟨head :: front, cell, back, rfl, ?_, ?_⟩
        · rw [harmonic_cons, ← Nat.add_assoc]
          exact hf
        · rw [List.cons_append, units_cons, ← Nat.add_assoc]
          exact ho
      · rintro ⟨front, cell, back, hs, hf, ho⟩
        cases front with
        | nil =>
          cases hs
          simp at ho
          omega
        | cons first front =>
          cases hs
          rw [harmonic_cons, ← Nat.add_assoc] at hf
          rw [List.cons_append, units_cons, ← Nat.add_assoc] at ho
          exact ⟨front, cell, back, rfl, hf, ho⟩

theorem fails_addOrPanic (a b : Nat) : Fails (· = .panicked) (addOrPanic a b) := Fails.okOr rfl

theorem fails_divOrPanic (a b : Nat) : Fails (· = .panicked) (divOrPanic a b) :=
  Fails.ite (.ofError rfl) .ofOk

theorem fails_relaxedFormulaPath (outsPlurality : Nat) :
    Fails (· = .panicked) (relaxedFormulaPath outsPlurality inputs) :=
  .ite .ofOk (.ite .ofOk (.bind (.foldlM (fun _ _ => fails_addOrPanic _ _) 0) fun _ => .ofOk))

theorem fails_calcStorageMass {acc} (h : outputs.foldlM (addOutput c) (0, 0) = .ok acc) :
    Fails (· = .panicked) (calcStorageMass false inputs outputs c) := by
  unfold calcStorageMass
  rw [h, ok_bind]
  refine .bind (fails_relaxedFormulaPath _) fun path =>
    .ite (.bind ?_ fun _ => .ofOk) (.bind ?_ fun acc => ?_)
  · refine .foldlM (fun acc cell => ?_) 0
    exact .bind (.okOr rfl) fun _ => .bind (.okOr rfl) fun _ =>
      .bind (fails_divOrPanic _ _) fun _ => .ofOk
  · refine .foldlM (fun acc cell => ?_) (0, 0)
    exact .bind (fails_addOrPanic _ _) fun _ => .bind (fails_addOrPanic _ _) fun _ => .ofOk
  · exact .bind (fails_divOrPanic _ _) fun _ => .bind (fails_divOrPanic _ _) fun _ => .ofOk

theorem calcStorageMass_of_outputs_error {error}
    (h : outputs.foldlM (addOutput c) (0, 0) = .error error) :
    calcStorageMass false inputs outputs c = .error error := by
  unfold calcStorageMass
  rw [h]
  rfl

-- Neither a sum of units nor the mean amount of the inputs makes the calculation abort.
structure Affordable (stormParam : Nat) (inputs outputs : List CellMass) : Prop where
  outputUnits : ∀ front cell back, outputs = front ++ cell :: back →
    harmonic stormParam front ≤ U64_MAX → units (front ++ [cell]) ≤ U64_MAX
  inputUnits : harmonic stormParam outputs ≤ U64_MAX → ¬ Relaxed inputs outputs →
    units inputs ≤ locked inputs

theorem units_le_of_prefixes (h : ∀ front cell back, outputs = front ++ cell :: back →
      harmonic c front ≤ U64_MAX → units (front ++ [cell]) ≤ U64_MAX)
    (hharmonic : harmonic c outputs ≤ U64_MAX) : units outputs ≤ U64_MAX := by
  rcases List.eq_nil_or_concat' outputs with rfl | ⟨front, cell, rfl⟩
  · exact Nat.zero_le _
  · rw [harmonic_append] at hharmonic
    exact h front cell [] rfl (Nat.le_of_add_right_le hharmonic)

theorem computable_of_positive {cell} (hproduct : c * cell.plurality ^ 2 ≤ U64_MAX)
    (hplurality : 1 ≤ cell.plurality) (hamount : 1 ≤ cell.amount) : Computable c cell := by
  have hs : c * cell.plurality * cell.plurality ≤ U64_MAX := by
    rw [Nat.mul_assoc, ← Nat.pow_two]
    exact hproduct
  exact ⟨(Nat.le_mul_of_pos_right _ hplurality).trans hs, hs, by omega⟩

theorem inputsComputable_iff (hcells : ∀ cell ∈ inputs, Computable c cell) (hinputs : inputs ≠ [])
    (hunits : ∀ cell ∈ inputs, 1 ≤ cell.plurality) (hlocked : locked inputs ≤ MAX_SAU) :
    InputsComputable c inputs outputs ↔
    (¬ Relaxed inputs outputs → units inputs ≤ locked inputs) := by
  have hmax : MAX_SAU ≤ U64_MAX := by decide
  have hl := length_le_units hunits
  have hp := List.length_pos_iff.mpr hinputs
  unfold InputsComputable
  split_ifs with hr
  · exact ⟨fun _ h => absurd hr h, fun _ => hcells⟩
  · constructor
    · rintro ⟨-, -, -, hm⟩ -
      exact hm
    · intro h
      have hm := h hr
      exact ⟨by omega, by omega, by omega, hm⟩

end StorageMass

-- The calculation does not abort if and only if the sums of units fit and, where the arithmetic
-- formula applies, the inputs lock at least one coin for each of their units.
theorem calcStorageMass_ne_panicked_iff (isCoinbase : Bool) (inputs outputs : List CellMass)
    (stormParam : Nat) (hproduct : ∀ cell ∈ inputs ++ outputs, stormParam * cell.plurality ^ 2 ≤
      U64_MAX) (hinputs : inputs ≠ [])
    (hpositive : ∀ cell ∈ inputs ++ outputs, 1 ≤ cell.amount ∧ 1 ≤ cell.plurality)
    (hins : locked inputs ≤ MAX_SAU) :
    calcStorageMass isCoinbase inputs outputs stormParam ≠ .error .panicked ↔
    isCoinbase = true ∨ Affordable stormParam inputs outputs := by
  cases isCoinbase with
  | true => simp [calcStorageMass]
  | false =>
    have hce : ∀ cell ∈ inputs ++ outputs, Computable stormParam cell := fun cell hc =>
      computable_of_positive (hproduct cell hc) (hpositive cell hc).2 (hpositive cell hc).1
    have hun : ∀ cell ∈ inputs, 1 ≤ cell.plurality := fun cell hc =>
      (hpositive cell (List.mem_append_left _ hc)).2
    have hou : ∀ cell ∈ outputs, Computable stormParam cell := fun cell hc =>
      hce cell (List.mem_append_right _ hc)
    have hr : InputsComputable stormParam inputs outputs ↔ _ :=
      inputsComputable_iff (fun cell hc => hce cell (List.mem_append_left _ hc)) hinputs hun hins
    simp only [Bool.false_eq_true, false_or]
    rcases hf : outputs.foldlM (addOutput stormParam) (0, 0) with error | acc
    · have ho : outputs.foldlM (addOutput stormParam) (0, 0) = .error .panicked ↔ _ :=
        outputs_panicked_iff hou (Nat.zero_le _)
      simp only [Nat.zero_add] at ho
      rw [calcStorageMass_of_outputs_error hf]
      cases error with
      | panicked =>
        obtain ⟨front, cell, back, hs, hfi, hov⟩ := ho.mp hf
        simp only [ne_eq, not_true, false_iff]
        intro h
        exact absurd (h.outputUnits front cell back hs hfi) (Nat.not_le_of_lt hov)
      | incomputable =>
        -- the units fit as far as they are summed up, the shares do not
        have hu : ∀ front cell back, outputs = front ++ cell :: back →
            harmonic stormParam front ≤ U64_MAX → units (front ++ [cell]) ≤ U64_MAX := by
          intro front cell back hs hfi
          by_contra hov
          rw [ho.mpr ⟨front, cell, back, hs, hfi, Nat.lt_of_not_le hov⟩] at hf
          cases hf
        simp only [ne_eq, Except.error.injEq, reduceCtorEq, not_false_eq_true, true_iff]
        refine ⟨hu, fun hh _ => ?_⟩
        have ht := units_le_of_prefixes hu hh
        rw [(outputs_eq_ok_iff (Nat.zero_le _) (Nat.zero_le _)).mpr
          ⟨hou, rfl, by simpa using ht, by simpa using hh⟩] at hf
        cases hf
    · obtain ⟨-, rfl, hu, hh⟩ := (outputs_eq_ok_iff (Nat.zero_le _) (Nat.zero_le _)).mp hf
      simp only [Nat.zero_add] at hu hh
      constructor
      · intro hne
        rcases hm : calcStorageMass false inputs outputs stormParam with error | mass
        · exact absurd (fails_calcStorageMass hf error hm ▸ hm) hne
        · obtain ⟨-, -, -, hins, -⟩ := (calcStorageMass_eq_ok_iff hun).mp hm
          refine ⟨?_, fun _ => hr.mp hins⟩
          rintro front cell back rfl -
          simp at hu ⊢
          omega
      · intro h
        rw [(calcStorageMass_eq_ok_iff hun).mpr ⟨hou, hu, hh, hr.mpr (h.inputUnits hh), rfl⟩]
        exact nofun

-- Two inputs of two units with one coin each: their mean amount is rounded down to nothing.
theorem calcStorageMass_poor_inputs : let inputs : List CellMass := [⟨2, 1⟩, ⟨2, 1⟩]
    let outputs : List CellMass := [⟨2, 1⟩]
    (∀ cell ∈ inputs ++ outputs, 300000000000 * cell.plurality ^ 2 ≤ U64_MAX ∧ 1 ≤ cell.amount ∧
      1 ≤ cell.plurality) ∧ locked inputs ≤ MAX_SAU ∧ locked outputs ≤ MAX_SAU ∧
      calcStorageMass false inputs outputs 300000000000 = .error .panicked := by
  decide

theorem calcStorageMass_rich_inputs :
    calcStorageMass false [⟨2, 100⟩, ⟨2, 100⟩] [⟨2, 150⟩] 300000000000 ≠ .error .panicked :=
  (calcStorageMass_ne_panicked_iff false [⟨2, 100⟩, ⟨2, 100⟩] [⟨2, 150⟩] 300000000000 (by decide)
    (by decide) (by decide) (by decide)).mpr (.inr ⟨fun front cell back h _ => by
      have hlength := congrArg List.length h
      simp at hlength
      obtain ⟨rfl, -⟩ : front = [] ∧ back = [] := by
        constructor <;> apply List.eq_nil_of_length_eq_zero <;> omega
      obtain rfl := (List.cons.inj h).1
      decide, fun _ _ => by decide⟩)

end Spora
