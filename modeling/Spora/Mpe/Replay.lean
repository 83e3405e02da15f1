import Mathlib.Data.List.Infix
import Spora.Validation.Locality

namespace Spora

open Std Outcome OverlayCellProvider

-- The view of the state in which replay validates the transactions of one block.
structure ReplayValidationContext where
  snapshotPov : Hash
  currentDaaScore : Nat
  currentTimestamp : Nat
  params : CellConsensusParams
  provider : OverlayCellProvider
  accumulatedCycles : Nat

namespace ReplayValidationContext

variable (self : ReplayValidationContext)

def spendCell (outPoint : OutPoint) : Except RuleError ReplayValidationContext := do
  let provider ← (self.provider.spendCell outPoint).mapError fun err =>
    .cellValidationError s!"virtual replay overlay error: {err}"
  return { self with provider := provider }

def addCell (metadata : CellMetadata) : Except RuleError ReplayValidationContext := do
  let provider ← (self.provider.addCell metadata.outPoint metadata).mapError fun err =>
    .cellValidationError s!"virtual replay overlay error: {err}"
  return { self with provider := provider }

section OverlayOutcomes

variable {self} {o : OutPoint} {metadata : CellMetadata}

theorem spendCell_of_mem_removed (h : o ∈ self.provider.removed) :
    ∃ e, self.spendCell o = .error e := by
  simp only [spendCell, OverlayCellProvider.spendCell, h]
  exact ⟨_, rfl⟩

theorem spendCell_of_mem_added (hrem : o ∉ self.provider.removed) (hadd : o ∈ self.provider.added) :
    self.spendCell o = .ok { self with provider :=
      { self.provider with added := self.provider.added.erase o } } := by
  simp only [spendCell, OverlayCellProvider.spendCell, hrem, hadd]
  rfl

theorem spendCell_of_not_mem (hrem : o ∉ self.provider.removed) (hadd : o ∉ self.provider.added) :
    self.spendCell o = .ok { self with provider :=
      { self.provider with removed := self.provider.removed.insert o } } := by
  simp only [spendCell, OverlayCellProvider.spendCell, hrem, hadd]
  rfl

theorem exists_spendCell (h : o ∉ self.provider.removed) :
    ∃ replay, self.spendCell o = .ok replay := by
  by_cases hadd : o ∈ self.provider.added
  · exact ⟨_, spendCell_of_mem_added h hadd⟩
  · exact ⟨_, spendCell_of_not_mem h hadd⟩

theorem addCell_of_mem
    (h : metadata.outPoint ∈ self.provider.removed ∨ metadata.outPoint ∈ self.provider.added) :
    ∃ e, self.addCell metadata = .error e := by
  simp only [addCell, OverlayCellProvider.addCell, h]
  exact ⟨_, rfl⟩

theorem addCell_of_not_mem (hrem : metadata.outPoint ∉ self.provider.removed)
    (hadd : metadata.outPoint ∉ self.provider.added) :
    self.addCell metadata = .ok { self with provider :=
      { self.provider with added := self.provider.added.insert metadata.outPoint metadata } } := by
  simp only [addCell, OverlayCellProvider.addCell, hrem, hadd]
  rfl

end OverlayOutcomes

def mentions (message text : String) : Bool := decide (text.toList <:+: message.toList)

def immatureSpend (txId : Hash) : List (CellInput × Nat) → RuleError
  | [] => .txInContextFailed txId .missingTxOutpoints
  | (input, inputIndex) :: rest =>
    match self.provider.getCellMetadata input.previousOutput with
    | .ok (some metadata) =>
      if metadata.isCellbase ∧ self.currentDaaScore <
          saturatingAdd metadata.blockDaaScore self.params.cellbaseMaturity then
        .txInContextFailed txId (.immatureCoinbaseSpend inputIndex input.previousOutput
          metadata.blockDaaScore self.currentDaaScore self.params.cellbaseMaturity)
      else immatureSpend txId rest
    | _ => immatureSpend txId rest

def mapValidationError (txId : Hash) (tx : CellTx) : CellValidationError → RuleError
  | .cellNotFound _ | .depCellNotFound _ | .cellAlreadySpent _ =>
    .txInContextFailed txId .missingTxOutpoints
  | .capacityOverflow => .txInContextFailed txId .inputAmountOverflow
  | .insufficientCapacity required available =>
    .txInContextFailed txId (.spendTooHigh required available)
  | .timeLockNotSatisfied _ _ => .txInContextFailed txId .sequenceLockConditionsAreNotMet
  | .cellbaseNotMature _ _ _ => self.immatureSpend txId tx.inputs.zipIdx
  | .scriptVerificationFailed message => .txInContextFailed txId (.cellValidationFailed message)
  | .exceededMaxCycles total limit => .txInContextFailed txId
      (.cellValidationFailed s!"script cycles exceeded limit: total {total}, limit {limit}")
  | .invalidSignature => .txInContextFailed txId (.cellValidationFailed "invalid signature")
  | .panicked => .panicked "attempt to add with overflow"
  | .invalidFormat message =>
    if mentions message "lookup error" || mentions message "unexpected POV" then
      .txInContextFailed txId .missingTxOutpoints
    else
      .cellValidationError (s!"Context validation failed for tx {txId}: " ++
        toString (CellValidationError.invalidFormat message))

def validateTxPreScripts (tx : CellTx) : Except CellValidationError Unit := do
  let provider := self.provider.toProvider
  validateCellTxInIsolation tx self.params.maxCellDataSize
  checkTxSize tx self.params.maxTxSize
  validateCellExistence provider self.snapshotPov tx
  provider.toCellStateProvider.validateCellTxInContext self.snapshotPov tx
  validateTimeLocks provider self.snapshotPov tx self.currentDaaScore self.currentTimestamp
  validateCellbaseMaturity provider self.snapshotPov tx self.currentDaaScore
    self.params.cellbaseMaturity

theorem validateTxPreScripts_eq (tx) : self.validateTxPreScripts tx = (do
    validateCellTxInIsolation tx self.params.maxCellDataSize
    checkTxSize tx self.params.maxTxSize
    validateInDag self.provider.toProvider self.snapshotPov self.params tx self.currentDaaScore
      self.currentTimestamp) := rfl

def validateTx (hasher : Hasher) (engine : ScriptEngine) (tx : CellTx) : Except RuleError Nat :=
  (do
    self.validateTxPreScripts tx
    verifyScriptsWithCycles engine self.params self.provider.toProvider self.snapshotPov tx
    ).mapError (self.mapValidationError (hasher.txid tx) tx)

structure SameFrame (c c' : ReplayValidationContext) : Prop where
  snapshotPov : c.snapshotPov = c'.snapshotPov
  currentDaaScore : c.currentDaaScore = c'.currentDaaScore
  currentTimestamp : c.currentTimestamp = c'.currentTimestamp
  params : c.params = c'.params
  overlayPov : c.provider.snapshotPov = c'.provider.snapshotPov
  basePov : c.provider.basePov = c'.provider.basePov
  base : c.provider.base = c'.provider.base
  baseOverrides : c.provider.baseOverrides = c'.provider.baseOverrides

theorem SameFrame.refl (c) : SameFrame c c := ⟨rfl, rfl, rfl, rfl, rfl, rfl, rfl, rfl⟩

theorem SameFrame.symm {c c'} (h : SameFrame c c') : SameFrame c' c :=
  ⟨h.1.symm, h.2.symm, h.3.symm, h.4.symm, h.5.symm, h.6.symm, h.7.symm, h.8.symm⟩

theorem SameFrame.trans {c c' c''} (h : SameFrame c c') (h' : SameFrame c' c'') : SameFrame c c'' :=
  ⟨h.1.trans h'.1, h.2.trans h'.2, h.3.trans h'.3, h.4.trans h'.4, h.5.trans h'.5, h.6.trans h'.6,
    h.7.trans h'.7, h.8.trans h'.8⟩

structure Spent (c : ReplayValidationContext) (o : OutPoint) (d : ReplayValidationContext) :
    Prop where
  frame : SameFrame c d
  cycles : d.accumulatedCycles = c.accumulatedCycles
  once : o ∉ c.provider.removed
  added : ∀ k : OutPoint, d.provider.added[k]? = if o = k then none else c.provider.added[k]?
  removed : ∀ k : OutPoint, k ∈ d.provider.removed ↔ k ∈ c.provider.removed ∨ k = o ∧
    o ∉ c.provider.added

variable {c d : ReplayValidationContext}

theorem spendCell_eq_ok {o} (h : c.spendCell o = .ok d) : Spent c o d := by
  by_cases hrem : o ∈ c.provider.removed
  · obtain ⟨e, he⟩ := spendCell_of_mem_removed hrem
    rw [he] at h
    contradiction
  by_cases hadd : o ∈ c.provider.added
  · rw [spendCell_of_mem_added hrem hadd] at h
    cases h
    refine ⟨⟨rfl, rfl, rfl, rfl, rfl, rfl, rfl, rfl⟩, rfl, hrem, fun k => ?_, fun k => ?_⟩
    · exact TreeMap.getElem?_erase_eq _ _ _
    · simp [hadd]
  · rw [spendCell_of_not_mem hrem hadd] at h
    cases h
    refine ⟨⟨rfl, rfl, rfl, rfl, rfl, rfl, rfl, rfl⟩, rfl, hrem, fun k => ?_, fun k => ?_⟩
    · by_cases hk : o = k
      · subst hk
        simp [ExtTreeMap.getElem?_eq_none hadd]
      · simp [hk]
    · rw [ExtTreeSet.mem_insert, LawfulEqCmp.compare_eq_iff_eq, or_comm, eq_comm]
      simp [hadd]

theorem Spent.mem_added {o k} (h : Spent c o d) (hk : k ∈ d.provider.added) :
    k ∈ c.provider.added := by
  rw [ExtTreeMap.mem_iff_isSome_getElem?, h.added] at hk
  split_ifs at hk
  · simp at hk
  · rwa [ExtTreeMap.mem_iff_isSome_getElem?]

structure Added (c : ReplayValidationContext) (metadata : CellMetadata)
    (d : ReplayValidationContext) : Prop where
  frame : SameFrame c d
  cycles : d.accumulatedCycles = c.accumulatedCycles
  notRemoved : metadata.outPoint ∉ c.provider.removed
  notAdded : metadata.outPoint ∉ c.provider.added
  added : ∀ k : OutPoint, d.provider.added[k]? = if metadata.outPoint = k then
    some metadata else c.provider.added[k]?
  removed : d.provider.removed = c.provider.removed

theorem addCell_eq_ok {metadata} (h : c.addCell metadata = .ok d) : Added c metadata d := by
  by_cases hmem : metadata.outPoint ∈ c.provider.removed ∨ metadata.outPoint ∈ c.provider.added
  · obtain ⟨e, he⟩ := addCell_of_mem hmem
    rw [he] at h
    contradiction
  rw [not_or] at hmem
  rw [addCell_of_not_mem hmem.1 hmem.2] at h
  cases h
  exact ⟨⟨rfl, rfl, rfl, rfl, rfl, rfl, rfl, rfl⟩, rfl, hmem.1, hmem.2,
    fun k => TreeMap.getElem?_insert_eq _ _ _ _, rfl⟩

end ReplayValidationContext

open ReplayValidationContext

-- A validator of single transactions, with the outpoints its verdict may depend on.
structure TxValidator where
  validateTx : ReplayValidationContext → CellTx → Except RuleError Nat
  reads : ReplayValidationContext → CellTx → List OutPoint
  local_reads : ∀ c c' tx, SameFrame c c' →
    (∀ o ∈ reads c tx, c.provider.getCellMetadata o = c'.provider.getCellMetadata o) →
    Sim Eq (validateTx c tx) (validateTx c' tx)

-- A validator that insists on what it reads: a valid transaction finds all of it, and what is read
-- depends only on what is found there.
structure TxValidator.Demanding (validator : TxValidator) : Prop where
  available : ∀ c tx n, validator.validateTx c tx = .ok n → ∀ o ∈ validator.reads c tx,
    ∃ m, c.provider.getCellMetadata o = .ok (some m)
  reads_congr : ∀ c c' tx, SameFrame c c' →
    (∀ o ∈ validator.reads c tx, c.provider.getCellMetadata o = c'.provider.getCellMetadata o) →
    validator.reads c' tx = validator.reads c tx
  spends : ∀ c tx, ∀ o ∈ tx.spends, o ∈ validator.reads c tx
  deps : ∀ c tx, ∀ o ∈ tx.deps, o ∈ validator.reads c tx

variable {c c' : ReplayValidationContext} {tx : CellTx}

theorem ReplayValidationContext.SameFrame.sameAnswers (hf : SameFrame c c')
    (hcells : ∀ o ∈ c.provider.toProvider.reads c.snapshotPov tx,
      c.provider.getCellMetadata o = c'.provider.getCellMetadata o) :
    SameAnswers c.provider.toProvider c'.provider.toProvider c.snapshotPov c'.snapshotPov tx := by
  have hc : ∀ o ∈ c.provider.toProvider.reads c.snapshotPov tx,
      c.provider.toProvider.getCellAtPov o c.snapshotPov =
          c'.provider.toProvider.getCellAtPov o c'.snapshotPov := by
    intro o ho
    simp only [toProvider, ensureSnapshotPov, hf.snapshotPov, hf.overlayPov, hcells o ho]
  exact .of_eq hc (by simp only [toProvider, hf.base]) (by simp only [toProvider, hf.base])

def TxValidator.replay (hasher : Hasher) (engine : ScriptEngine) : TxValidator where
  validateTx c tx := c.validateTx hasher engine tx
  reads c tx := c.provider.toProvider.reads c.snapshotPov tx
  local_reads c c' tx hf hcells := by
    have h := hf.sameAnswers hcells
    apply Sim.mapError
    simp only [validateTxPreScripts_eq, bind_assoc, ← hf.currentDaaScore, ← hf.currentTimestamp,
      ← hf.params]
    refine Sim.bind Sim.refl fun _ _ _ => Sim.bind Sim.refl fun _ _ _ => ?_
    refine Sim.bind (h.validateInDag_sim _ _ _) fun _ _ _ => ?_
    exact h.verifyScriptsWithCycles_sim engine _

theorem ReplayValidationContext.getCellAtPov_eq_ok {o m}
    (h : c.provider.toProvider.getCellAtPov o c.snapshotPov = .ok m) :
    c.provider.getCellMetadata o = .ok m := by
  obtain ⟨_, -, h⟩ := bind_ok h
  exact h

theorem TxValidator.replay_demanding (H : Hasher) (engine : ScriptEngine) :
    (TxValidator.replay H engine).Demanding where
  available c tx n h o ho := by
    have h := mapError_eq_ok_iff.mp h
    obtain ⟨_, hpre, -⟩ := bind_ok h
    obtain ⟨_, -, hpre⟩ := bind_ok hpre
    obtain ⟨_, -, hpre⟩ := bind_ok hpre
    obtain ⟨_, he, -⟩ := bind_ok hpre
    obtain ⟨m, hm⟩ := available_of_validateCellExistence he o ho
    exact ⟨m, getCellAtPov_eq_ok hm⟩
  reads_congr c c' tx hf h := by
    refine Spora.reads_congr fun o ho => ?_
    simp only [toProvider, ensureSnapshotPov, hf.snapshotPov, hf.overlayPov, h o ho]
  spends c tx o ho := List.mem_append_left _ ho
  deps c tx o ho := by
    obtain ⟨dep, hdep, rfl⟩ := List.mem_map.mp ho
    exact mem_reads_of_dep hdep

end Spora
