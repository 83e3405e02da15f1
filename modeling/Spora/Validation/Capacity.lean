import Spora.Validation.Rules

namespace Spora

open Outcome CellValidationError

namespace CellStateProvider

variable (provider : CellStateProvider) (pov : Hash)

def capacityOf (outPoint : OutPoint) : Option Nat :=
  (provider.getCellCapacity outPoint pov).toOption.join

def capacitySum (inputs : List CellInput) : Nat :=
  (inputs.map fun input => (provider.capacityOf pov input.previousOutput).getD 0).sum

-- Every input is available, has a capacity, and the capacities add up without overflow.
structure Accepts (inputs : List CellInput) : Prop where
  available : ∀ input ∈ inputs, provider.isCellAvailable input.previousOutput pov = .ok true
  capacity : ∀ input ∈ inputs, (provider.capacityOf pov input.previousOutput).isSome
  bounded : provider.capacitySum pov inputs ≤ U64_MAX

end CellStateProvider

namespace CellStateProvider

variable {provider : CellStateProvider} {pov : Hash}

theorem capacityOf_eq_some_iff {o cap} :
    provider.capacityOf pov o = some cap ↔ provider.getCellCapacity o pov = .ok (some cap) := by
  unfold capacityOf
  cases provider.getCellCapacity o pov with
  | error msg => simp [Except.toOption]
  | ok answer => simp [Except.toOption]

theorem checkAvailable_eq_ok_iff {input u} :
    provider.checkAvailable pov input = .ok u ↔
    provider.isCellAvailable input.previousOutput pov = .ok true := by
  simp only [checkAvailable, bind_eq_ok_iff, mapError_eq_ok_iff, ensure_eq_ok_iff, exists_eq_right]

theorem addInputCapacity_eq_ok_iff {inputCapacity total input} :
    provider.addInputCapacity pov inputCapacity input = .ok total ↔
    ∃ cap, provider.capacityOf pov input.previousOutput = some cap ∧ total = inputCapacity + cap ∧
    total ≤ U64_MAX := by
  simp only [addInputCapacity, bind_eq_ok_iff, mapError_eq_ok_iff, okOr_eq_ok_iff,
    checkedAdd_eq_some_iff, capacityOf_eq_some_iff]
  constructor
  · rintro ⟨answer, ha, cap, rfl, ht⟩
    exact ⟨cap, ha, ht⟩
  · rintro ⟨cap, ha, ht⟩
    exact ⟨some cap, ha, cap, rfl, ht⟩

variable {inputs : List CellInput} {tx : CellTx}

theorem foldlM_addInputCapacity_eq_ok_iff {inputCapacity total} (hstart : inputCapacity ≤ U64_MAX) :
    inputs.foldlM (provider.addInputCapacity pov) inputCapacity = .ok total ↔
    (∀ input ∈ inputs, (provider.capacityOf pov input.previousOutput).isSome) ∧
    total = inputCapacity + provider.capacitySum pov inputs ∧ total ≤ U64_MAX := by
  induction inputs generalizing inputCapacity with
  | nil =>
    simp only [List.foldlM_nil, pure_eq_ok, Except.ok.injEq]
    constructor
    · rintro rfl
      exact ⟨by simp, rfl, hstart⟩
    · rintro ⟨-, rfl, -⟩
      rfl
  | cons input inputs ih =>
    have hsum : ∀ cap, provider.capacityOf pov input.previousOutput = some cap →
        provider.capacitySum pov (input :: inputs) = cap + provider.capacitySum pov inputs := by
      intro cap hc
      simp [capacitySum, hc]
    rw [List.foldlM_cons, bind_eq_ok_iff]
    constructor
    · rintro ⟨next, hn, hr⟩
      obtain ⟨cap, hc, rfl, hle⟩ := addInputCapacity_eq_ok_iff.mp hn
      obtain ⟨hall, rfl, ht⟩ := (ih hle).mp hr
      refine ⟨List.forall_mem_cons.mpr ⟨by simp [hc], hall⟩, ?_, ht⟩
      rw [hsum cap hc, Nat.add_assoc]
    · rintro ⟨hall, rfl, ht⟩
      rw [List.forall_mem_cons] at hall
      obtain ⟨cap, hc⟩ := Option.isSome_iff_exists.mp hall.1
      have hs := hsum cap hc
      have hle : inputCapacity + cap ≤ U64_MAX := by omega
      refine ⟨inputCapacity + cap, addInputCapacity_eq_ok_iff.mpr ⟨cap, hc, rfl, hle⟩, ?_⟩
      exact (ih hle).mpr ⟨hall.2, by omega, ht⟩

theorem foldlM_eq_ok_of_accepts (h : provider.Accepts pov inputs) :
    inputs.foldlM (provider.addInputCapacity pov) 0 = .ok (provider.capacitySum pov inputs) := by
  refine (foldlM_addInputCapacity_eq_ok_iff (Nat.zero_le _)).mpr ⟨h.capacity, ?_, h.bounded⟩
  rw [Nat.zero_add]

theorem accepts_iff :
    provider.Accepts pov inputs ↔ inputs.forM (provider.checkAvailable pov) = .ok () ∧
    ∃ total, inputs.foldlM (provider.addInputCapacity pov) 0 = .ok total := by
  simp only [forM_eq_ok_iff, checkAvailable_eq_ok_iff]
  constructor
  · intro h
    exact ⟨h.available, _, foldlM_eq_ok_of_accepts h⟩
  · rintro ⟨ha, total, ht⟩
    obtain ⟨hc, heq, hb⟩ := (foldlM_addInputCapacity_eq_ok_iff (Nat.zero_le _)).mp ht
    rw [Nat.zero_add] at heq
    exact ⟨ha, hc, heq ▸ hb⟩

theorem validateCellTxInContext_of_accepts (h : provider.Accepts pov tx.inputs) :
    provider.validateCellTxInContext pov tx = (do
      ensure (tx.outputCapacity ≤ U64_MAX) .panicked
      ensure (tx.outputCapacity ≤ provider.capacitySum pov tx.inputs)
        (.insufficientCapacity tx.outputCapacity (provider.capacitySum pov tx.inputs))) := by
  rw [validateCellTxInContext, (accepts_iff.mp h).1, foldlM_eq_ok_of_accepts h]
  rfl

theorem accepts_of_validateCellTxInContext_eq_ok {u}
    (h : provider.validateCellTxInContext pov tx = .ok u) : provider.Accepts pov tx.inputs := by
  obtain ⟨_, ha, h⟩ := bind_ok h
  obtain ⟨total, ht, -⟩ := bind_ok h
  exact accepts_iff.mpr ⟨ha, total, ht⟩

theorem checkInputs_fails (provider : CellStateProvider) (pov : Hash) (inputs : List CellInput) :
    Fails (· ≠ panicked) (inputs.forM (provider.checkAvailable pov)) ∧ ∀ cap, Fails (· ≠ panicked)
    (inputs.foldlM (provider.addInputCapacity pov) cap) := by
  constructor
  · exact .forM fun input => .bind (.mapError fun _ => nofun) fun _ => .ite .ofOk (.ofError nofun)
  · exact .foldlM fun _ input => .bind (.mapError fun _ => nofun) fun _ =>
      .bind (.okOr nofun) fun _ => .okOr nofun

theorem accepts_of_validateCellTxInContext_eq_panicked
    (h : provider.validateCellTxInContext pov tx = .error .panicked) :
    provider.Accepts pov tx.inputs := by
  obtain ⟨ha, hc⟩ := checkInputs_fails provider pov tx.inputs
  rw [validateCellTxInContext] at h
  cases hf : tx.inputs.forM (provider.checkAvailable pov) with
  | error error =>
    rw [hf] at h
    exact absurd (Except.error.inj h) (ha error hf)
  | ok _ =>
    cases hsum : tx.inputs.foldlM (provider.addInputCapacity pov) 0 with
    | error error =>
      rw [hf, hsum] at h
      exact absurd (Except.error.inj h) (hc 0 error hsum)
    | ok total => exact accepts_iff.mpr ⟨hf, total, hsum⟩

theorem validateCellTxInContext_eq_panicked_iff :
    provider.validateCellTxInContext pov tx = .error .panicked ↔
    provider.Accepts pov tx.inputs ∧ ¬ tx.outputCapacity ≤ U64_MAX := by
  constructor
  · intro h
    have ha := accepts_of_validateCellTxInContext_eq_panicked h
    refine ⟨ha, fun hle => ?_⟩
    rw [validateCellTxInContext_of_accepts ha, ensure, if_pos hle, ok_bind, ensure] at h
    split_ifs at h
    exact nomatch Except.error.inj h
  · rintro ⟨ha, hgt⟩
    rw [validateCellTxInContext_of_accepts ha, ensure, if_neg hgt, error_bind]

-- An accepted transaction creates no capacity. The validation returns at all exactly if the outputs
-- add up without overflow, or an input is refused first.
theorem validateCellTxInContext_conserves_iff (provider : CellStateProvider) (pov : Hash)
    (tx : CellTx) :
    ((provider.validateCellTxInContext pov tx = .ok () →
      tx.outputCapacity ≤ provider.capacitySum pov tx.inputs) ∧
      provider.validateCellTxInContext pov tx ≠ .error .panicked) ↔
    (provider.Accepts pov tx.inputs → tx.outputCapacity ≤ U64_MAX) := by
  have hc : provider.validateCellTxInContext pov tx = .ok () →
      tx.outputCapacity ≤ provider.capacitySum pov tx.inputs := by
    intro h
    rw [validateCellTxInContext_of_accepts (accepts_of_validateCellTxInContext_eq_ok h)] at h
    obtain ⟨_, -, h⟩ := bind_ok h
    exact ensure_eq_ok_iff.mp h
  rw [and_iff_right hc, ne_eq, validateCellTxInContext_eq_panicked_iff, not_and, not_not]

-- One available input of 1000, and two outputs that add up to more than 2^64.
def richProvider : CellStateProvider := ⟨fun _ _ => .ok true, fun _ _ => .ok (some 1000)⟩

def overflowingTx : CellTx where
  version := CELL_TX_VERSION
  inputs := [⟨⟨1, 0⟩, 0⟩]
  cellDeps := []
  headerDeps := []
  outputs := [⟨default, none, U64_MAX⟩, ⟨default, none, 41⟩]
  outputsData := [[], []]
  witnesses := []

theorem overflowingTx_panics : validateCellTxInIsolation overflowingTx (500 * 1024) = .ok () ∧
    richProvider.validateCellTxInContext 7 overflowingTx = .error .panicked := by
  decide +kernel

end CellStateProvider

end Spora
