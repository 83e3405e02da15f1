import Spora.Lib.TreeMap
import Spora.Vm.ScriptGroups

namespace Spora

open Std Outcome List ScriptGroup GroupMap

namespace GroupMap

variable {groups : GroupMap} {kind : ScriptGroupType} {hash : Hash} {scr : Script}

-- The group of `h` lists the index `j`, among its inputs or its outputs.
def Lists (indices : ScriptGroup → List Nat) (groups : GroupMap) (h : Hash) (j : Nat) : Prop :=
  ∃ g, groups[h]? = some g ∧ j ∈ indices g

def WellKeyed (hashOf : Script → Except ScriptError Hash) (kind : ScriptGroupType)
    (groups : GroupMap) : Prop :=
  ∀ (h : Hash) g, groups[h]? = some g → g.groupType = kind ∧ hashOf g.script = .ok h

variable {is : ScriptGroup → List Nat} {update : ScriptGroup → ScriptGroup}
  {hashOf : Script → Except ScriptError Hash}

section

variable (hfresh : is ⟨scr, kind, [], []⟩ = [])
include hfresh

theorem lists_updateEntry {new} (hupdate : ∀ g, is (update g) = is g ++ new) (h : Hash) (j : Nat) :
    Lists is (groups.updateEntry kind hash scr update) h j ↔ Lists is groups h j ∨
    (hash = h ∧ j ∈ new) := by
  simp only [Lists, updateEntry, TreeMap.getElem?_insert_eq]
  by_cases hh : hash = h
  · subst hh
    cases hg : groups[hash]? <;> simp [hupdate, hfresh]
  · simp [hh]

theorem lists_updateEntry_of_keep (hkeep : ∀ g, is (update g) = is g) (h : Hash) (j : Nat) :
    Lists is (groups.updateEntry kind hash scr update) h j ↔ Lists is groups h j := by
  rw [lists_updateEntry hfresh fun g => (hkeep g).trans (append_nil _).symm]
  simp

end

variable (hw : groups.WellKeyed hashOf kind)
include hw

theorem WellKeyed.updateEntry (hs : hashOf scr = .ok hash)
    (hkeep : ∀ g, (update g).groupType = g.groupType ∧ (update g).script = g.script) :
    (groups.updateEntry kind hash scr update).WellKeyed hashOf kind := by
  intro h g hg
  simp only [GroupMap.updateEntry, TreeMap.getElem?_insert_eq] at hg
  split_ifs at hg with hh
  · subst hh
    cases hg
    rw [(hkeep _).1, (hkeep _).2]
    cases hold : groups[hash]? with
    | none => exact ⟨rfl, hs⟩
    | some old => exact hw hash old hold
  · exact hw h g hg

theorem filter_intoValues {p h j} (hp : ∀ g, p g ↔ g.groupType = kind ∧ j ∈ is g)
    (hmem : Lists is groups h j) (honly : ∀ h', Lists is groups h' j → h' = h) :
    ∃ g, groups.intoValues.filter p = [g] ∧ hashOf g.script = .ok h := by
  obtain ⟨g, hg, hj⟩ := hmem
  refine ⟨g, TreeMap.filter_values_eq_singleton groups hg p ?_, (hw h g hg).2⟩
  intro h' g' hg'
  rw [hp]
  constructor
  · rintro ⟨-, hj'⟩
    exact honly h' ⟨g', hg', hj'⟩
  · rintro rfl
    obtain rfl : g' = g := Option.some.inj (hg'.symm.trans hg)
    exact ⟨(hw _ _ hg').1, hj⟩

theorem filter_intoValues_eq_nil
    {p} (hp : ∀ g, p g → g.groupType ≠ kind) : groups.intoValues.filter p = [] := by
  rw [filter_eq_nil_iff]
  intro g hg hpg
  obtain ⟨⟨h, g'⟩, hmem, rfl⟩ := mem_map.mp hg
  exact hp _ hpg (hw h _ (ExtTreeMap.mem_toList_iff_getElem?_eq_some.mp hmem)).1

end GroupMap

namespace TransactionScriptVerifier

variable (self : TransactionScriptVerifier)

def LocksInto (h : Hash) (input : CellInput) : Prop :=
  ∃ cell, self.loadCellByOutpoint input.previousOutput = some cell ∧
    self.skipLockGroups = false ∧ self.hashOf cell.cellOutput.lock = .ok h ∧
    h ∉ self.skipLockScriptHashes

def ReachesType (cell : ResolvedCell) : Prop :=
  self.skipLockGroups = true ∨ ∃ h, self.hashOf cell.cellOutput.lock = .ok h ∧
    h ∉ self.skipLockScriptHashes

def TypesInto (h : Hash) (input : CellInput) : Prop :=
  ∃ cell, self.loadCellByOutpoint input.previousOutput = some cell ∧ self.ReachesType cell ∧
    ∃ t, cell.cellOutput.type_ = some t ∧ self.hashOf t = .ok h

def OutputTypesInto (h : Hash) (output : CellOutput) : Prop :=
  ∃ t, output.type_ = some t ∧ self.hashOf t = .ok h

variable {self} {groups groups' : GroupMap × GroupMap} {en : CellInput × Nat}

variable {i : Nat}

variable {cell : ResolvedCell} {h h' : Hash}

theorem groupInputType_spec {typeGroups typeGroups'}
    (h : self.groupInputType typeGroups cell i = .ok typeGroups') :
    (∀ h j, Lists inputIndices typeGroups' h j ↔
      Lists inputIndices typeGroups h j ∨
      (i = j ∧ ∃ t, cell.cellOutput.type_ = some t ∧ self.hashOf t = .ok h)) ∧
    (∀ h j, Lists outputIndices typeGroups' h j ↔
      Lists outputIndices typeGroups h j) ∧
    (typeGroups.WellKeyed self.hashOf .type_ → typeGroups'.WellKeyed self.hashOf .type_) := by
  unfold groupInputType at h
  cases ht : cell.cellOutput.type_ with
  | none =>
    simp only [ht] at h
    cases h
    simp
  | some t =>
    simp only [ht] at h
    obtain ⟨th, hth, h⟩ := bind_ok h
    cases h
    refine ⟨fun h j => ?_, fun h j => ?_, fun hw => hw.updateEntry hth fun g => ⟨rfl, rfl⟩⟩
    · rw [pushInput, lists_updateEntry rfl (fun g => rfl)]
      simp [hth, and_comm, eq_comm]
    · apply lists_updateEntry_of_keep
      · rfl
      · intro g
        rfl

theorem groupInput_spec (h : self.groupInput groups en = .ok groups') :
    (∀ h j, Lists inputIndices groups'.1 h j ↔
      Lists inputIndices groups.1 h j ∨ (en.2 = j ∧ self.LocksInto h en.1)) ∧
    (∀ h j, Lists inputIndices groups'.2 h j ↔
      Lists inputIndices groups.2 h j ∨ (en.2 = j ∧ self.TypesInto h en.1)) ∧
    (∀ h j, Lists outputIndices groups'.2 h j ↔ Lists outputIndices groups.2 h j)
    ∧ (groups.1.WellKeyed self.hashOf .lock → groups'.1.WellKeyed self.hashOf .lock) ∧
    (groups.2.WellKeyed self.hashOf .type_ → groups'.2.WellKeyed self.hashOf .type_) := by
  obtain ⟨input, i⟩ := en
  obtain ⟨cell, hc, h⟩ := bind_ok h
  have hload : self.loadCellByOutpoint input.previousOutput = some cell := by
    unfold resolveInput at hc
    cases hl : self.loadCellByOutpoint input.previousOutput with
    | none => simp [hl] at hc
    | some c => simpa [hl] using hc
  by_cases hsk : self.skipLockGroups = true
  · simp only [hsk] at h
    obtain ⟨types, ht, h⟩ := bind_ok h
    cases h
    obtain ⟨hin, hout, hk⟩ := groupInputType_spec ht
    refine ⟨fun h j => by simp [LocksInto, hsk], fun h j => ?_, hout, id, hk⟩
    simp [hin, TypesInto, hload, ReachesType, hsk]
  · have hsk : self.skipLockGroups = false := by simpa using hsk
    simp only [hsk] at h
    obtain ⟨lh, hlo, h⟩ := bind_ok h
    by_cases hmem : lh ∈ self.skipLockScriptHashes
    · simp only [hmem, if_true, pure_eq_ok] at h
      cases h
      refine ⟨fun h j => ?_, fun h j => ?_, fun h j => Iff.rfl, id, id⟩
      · have hnot : ¬ self.LocksInto h input := by
          rintro ⟨cell', hl', -, hh, hns⟩
          cases (hload.symm.trans hl')
          exact hns (Except.ok.inj (hlo.symm.trans hh) ▸ hmem)
        simp [hnot]
      · have hnot : ¬ self.TypesInto h input := by
          rintro ⟨cell', hl', hr, -⟩
          cases (hload.symm.trans hl')
          rcases hr with hs | ⟨h', hh, hns⟩
          · simp [hsk] at hs
          · exact hns (Except.ok.inj (hlo.symm.trans hh) ▸ hmem)
        simp [hnot]
    · simp only [hmem] at h
      obtain ⟨types, ht, h⟩ := bind_ok h
      cases h
      obtain ⟨hin, hout, hk⟩ := groupInputType_spec ht
      refine ⟨fun h j => ?_, fun h j => ?_, hout, fun hw => hw.updateEntry hlo fun g => ⟨rfl, rfl⟩,
        hk⟩
      · rw [pushInput, lists_updateEntry rfl (fun g => rfl)]
        have hiff : self.LocksInto h input ↔ lh = h := by
          simp only [LocksInto, hload, Option.some.injEq, exists_eq_left', hlo, hsk, true_and,
            Except.ok.injEq, and_iff_left_iff_imp]
          rintro rfl
          exact hmem
        rw [hiff]
        simp [eq_comm, and_comm]
      · have hr : self.ReachesType cell := .inr ⟨lh, hlo, hmem⟩
        simp [hin, TypesInto, hload, hr]

theorem groupOutput_spec {typeGroups typeGroups' en}
    (h : self.groupOutput typeGroups en = .ok typeGroups') :
    (∀ h j, Lists outputIndices typeGroups' h j ↔
      Lists outputIndices typeGroups h j ∨ (en.2 = j ∧ self.OutputTypesInto h en.1)) ∧
    (∀ h j, Lists inputIndices typeGroups' h j ↔
      Lists inputIndices typeGroups h j) ∧
    (typeGroups.WellKeyed self.hashOf .type_ → typeGroups'.WellKeyed self.hashOf .type_) := by
  unfold groupOutput at h
  cases ht : en.1.type_ with
  | none =>
    simp only [ht] at h
    cases h
    simp [OutputTypesInto, ht]
  | some t =>
    simp only [ht] at h
    obtain ⟨th, hth, h⟩ := bind_ok h
    cases h
    refine ⟨fun h j => ?_, fun h j => ?_, fun hw => hw.updateEntry hth fun g => ⟨rfl, rfl⟩⟩
    · rw [pushOutput, lists_updateEntry rfl (fun g => rfl)]
      simp [OutputTypesInto, ht, hth, and_comm, eq_comm]
    · apply lists_updateEntry_of_keep
      · rfl
      · intro g
        rfl

structure Extracted (v : TransactionScriptVerifier) (lockGroups typeGroups : GroupMap) : Prop where
  lock_keyed : lockGroups.WellKeyed v.hashOf .lock
  type_keyed : typeGroups.WellKeyed v.hashOf .type_
  locks : ∀ h (i : Nat), Lists ScriptGroup.inputIndices lockGroups h i ↔
    ∃ input, v.tx.inputs[i]? = some input ∧ v.LocksInto h input
  types : ∀ h (i : Nat), Lists ScriptGroup.inputIndices typeGroups h i ↔
    ∃ input, v.tx.inputs[i]? = some input ∧ v.TypesInto h input
  outputs : ∀ h (i : Nat), Lists ScriptGroup.outputIndices typeGroups h i ↔
    ∃ output, v.tx.outputs[i]? = some output ∧ v.OutputTypesInto h output

theorem exists_mem_zipIdx_iff {α : Type} {l : List α} {A : α → Prop} :
    (∃ e ∈ l.zipIdx, e.2 = i ∧ A e.1) ↔ ∃ a, l[i]? = some a ∧ A a := by
  constructor
  · rintro ⟨⟨a, j⟩, he, rfl, ha⟩
    exact ⟨a, mem_zipIdx_iff_getElem?.mp he, ha⟩
  · rintro ⟨a, hget, ha⟩
    exact ⟨(a, i), mem_zipIdx_iff_getElem?.mpr hget, rfl, ha⟩

theorem extractScriptGroups_spec {r} (h : self.extractScriptGroups = .ok r) :
    ∃ lockGroups typeGroups, self.Extracted lockGroups typeGroups ∧
    r = lockGroups.intoValues ++ typeGroups.intoValues := by
  obtain ⟨⟨lockGroups, middle⟩, hin, h⟩ := bind_ok h
  obtain ⟨typeGroups, ho, h⟩ := bind_ok h
  simp only [pure_eq_ok, Except.ok.injEq] at h
  have he : ∀ indices h i, ¬ Lists indices ∅ h i := by
    rintro indices h i ⟨g, hg, -⟩
    simp at hg
  refine ⟨lockGroups, typeGroups, ⟨?_, ?_, fun h i => ?_, fun h i => ?_, fun h i => ?_⟩, h.symm⟩
  · exact foldlM_invariant
      (fun _ _ _ _ hw hs => (groupInput_spec hs).2.2.2.1 hw) (by intro h g hg; simp at hg) hin
  · have hmid := foldlM_invariant
        (fun _ _ _ _ hw hs => (groupInput_spec hs).2.2.2.2 hw) (by intro h g hg; simp at hg) hin
    exact foldlM_invariant (fun _ _ _ _ hw hs => (groupOutput_spec hs).2.2 hw) hmid ho
  · have hrun := foldlM_accumulates (A := fun e : CellInput × Nat => e.2 = i ∧ self.LocksInto h e.1)
      (fun _ _ _ _ hs => (groupInput_spec hs).1 h i) hin
    simpa only [he, false_or, exists_mem_zipIdx_iff] using hrun
  · have hrun := foldlM_accumulates (A := fun e : CellInput × Nat => e.2 = i ∧ self.TypesInto h e.1)
      (fun _ _ _ _ hs => (groupInput_spec hs).2.1 h i) hin
    have hk := foldlM_invariant
        (fun _ _ _ _ hw hs => ((groupOutput_spec hs).2.1 h i).trans hw) Iff.rfl ho
    rw [hk]
    simpa only [he, false_or, exists_mem_zipIdx_iff] using hrun
  · have hrun := foldlM_accumulates
      (A := fun e : CellOutput × Nat => e.2 = i ∧ self.OutputTypesInto h e.1)
      (fun _ _ _ _ hs => (groupOutput_spec hs).1 h i) ho
    have hmid := foldlM_invariant
        (P := fun g : GroupMap × GroupMap => ¬ Lists outputIndices g.2 h i)
        (fun _ _ _ _ hw hs => fun hl => hw (((groupInput_spec hs).2.2.1 h i).mp hl))
        (he _ h i) hin
    simpa only [hmid, false_or, exists_mem_zipIdx_iff] using hrun

-- Every input has a resolved cell and every script that can be grouped has a hash.
structure Resolved (v : TransactionScriptVerifier) : Prop where
  inputs : ∀ input ∈ v.tx.inputs, ∃ cell, v.loadCellByOutpoint input.previousOutput = some cell ∧
    (∃ h, v.hashOf cell.cellOutput.lock = .ok h) ∧
    ∀ t, cell.cellOutput.type_ = some t → ∃ h, v.hashOf t = .ok h
  outputs : ∀ output ∈ v.tx.outputs, ∀ t, output.type_ = some t → ∃ h, v.hashOf t = .ok h

theorem groupInputType_ok (hcell : ∀ t, cell.cellOutput.type_ = some t → ∃ h, self.hashOf t = .ok h)
    (typeGroups) (i : Nat) : ∃ g, self.groupInputType typeGroups cell i = .ok g := by
  unfold groupInputType
  cases ht : cell.cellOutput.type_ with
  | none => exact ⟨_, rfl⟩
  | some t =>
    obtain ⟨h, hh⟩ := hcell t ht
    simp [hh]

theorem groupInput_ok (hr : self.Resolved) (groups)
    (hentry : en.1 ∈ self.tx.inputs) : ∃ groups', self.groupInput groups en = .ok groups' := by
  obtain ⟨cell, hlo, ⟨lh, hl⟩, ht⟩ := hr.inputs en.1 hentry
  have hre : self.resolveInput en.1 = .ok cell := by simp [resolveInput, hlo]
  simp only [groupInput, hre, ok_bind, hl]
  split_ifs
  · obtain ⟨g, hg⟩ := groupInputType_ok ht groups.2 en.2
    simp [hg]
  · exact ⟨_, rfl⟩
  · obtain ⟨g, hg⟩ := groupInputType_ok ht groups.2 en.2
    simp [hg]

theorem groupOutput_ok (hr : self.Resolved) (typeGroups) {en}
    (hentry : en.1 ∈ self.tx.outputs) : ∃ g, self.groupOutput typeGroups en = .ok g := by
  unfold groupOutput
  cases ht : en.1.type_ with
  | none => exact ⟨_, rfl⟩
  | some t =>
    obtain ⟨h, hh⟩ := hr.outputs en.1 hentry t ht
    simp [hh]

theorem extractScriptGroups_ok (hr : self.Resolved) : ∃ r, self.extractScriptGroups = .ok r := by
  have hmem : ∀ {α} {l : List α} {e}, e ∈ l.zipIdx → e.1 ∈ l := fun he =>
    fst_mem_of_mem_zipIdx he
  obtain ⟨groups, hin, -⟩ := foldlM_total (P := fun rest _ => ∀ e ∈ rest, e.1 ∈ self.tx.inputs)
    (fun g e rest hP => by
      obtain ⟨g', hg'⟩ := groupInput_ok hr g (hP e (by simp))
      exact ⟨g', hg', fun e' he' => hP e' (by simp [he'])⟩)
    (s := (∅, ∅)) (fun e he => hmem he)
  obtain ⟨types, ho, -⟩ := foldlM_total (P := fun rest _ => ∀ e ∈ rest, e.1 ∈ self.tx.outputs)
    (fun g e rest hP => by
      obtain ⟨g', hg'⟩ := groupOutput_ok hr g (hP e (by simp))
      exact ⟨g', hg', fun e' he' => hP e' (by simp [he'])⟩)
    (s := groups.2) (fun e he => hmem he)
  exact ⟨_, by simp only [extractScriptGroups, hin, ok_bind, ho]; rfl⟩

-- The groups of `kind` that list index `i` are exactly one, and it belongs to the hash `h`.
def GroupedOnce (self : TransactionScriptVerifier) (groups : List ScriptGroup)
    (kind : ScriptGroupType) (indices : ScriptGroup → List Nat) (h : Hash) (i : Nat) : Prop :=
  ∃ g, groups.filter (fun g => decide (g.groupType = kind ∧ i ∈ indices g)) = [g] ∧
    self.hashOf g.script = .ok h

-- Every type script of an input or an output and every lock that is not skipped is grouped,
-- once, under its own hash.
structure AllGrouped (v : TransactionScriptVerifier) (groups : List ScriptGroup) : Prop where
  inputTypes : ∀ (i : Nat) input cell t h, v.tx.inputs[i]? = some input →
    v.loadCellByOutpoint input.previousOutput = some cell → cell.cellOutput.type_ = some t →
    v.hashOf t = .ok h → v.GroupedOnce groups .type_ ScriptGroup.inputIndices h i
  outputTypes : ∀ (i : Nat) output t h, v.tx.outputs[i]? = some output → output.type_ = some t →
    v.hashOf t = .ok h → v.GroupedOnce groups .type_ ScriptGroup.outputIndices h i
  locks : ∀ (i : Nat) input cell h, v.tx.inputs[i]? = some input →
    v.loadCellByOutpoint input.previousOutput = some cell →
    v.hashOf cell.cellOutput.lock = .ok h → v.skipLockGroups = false →
    h ∉ v.skipLockScriptHashes → v.GroupedOnce groups .lock ScriptGroup.inputIndices h i

def NoTypedSkip (self : TransactionScriptVerifier) : Prop :=
  ∀ input ∈ self.tx.inputs, ∀ cell, self.loadCellByOutpoint input.previousOutput = some cell →
    cell.cellOutput.type_.isSome → self.skipLockGroups = false →
    ∀ h, self.hashOf cell.cellOutput.lock = .ok h → h ∉ self.skipLockScriptHashes

variable {lockGroups typeGroups : GroupMap}

section

variable (hx : self.Extracted lockGroups typeGroups)
include hx

theorem Extracted.lock_unique (hh : Lists inputIndices lockGroups h i)
    (hh' : Lists inputIndices lockGroups h' i) : h' = h := by
  obtain ⟨input, hi, cell, hl, -, hha, -⟩ := (hx.locks h i).mp hh
  obtain ⟨input', hi', cell', hl', -, hha', -⟩ := (hx.locks h' i).mp hh'
  cases (hi'.symm.trans hi)
  cases (hl'.symm.trans hl)
  exact Except.ok.inj (hha'.symm.trans hha)

theorem Extracted.type_unique (hh : Lists inputIndices typeGroups h i)
    (hh' : Lists inputIndices typeGroups h' i) : h' = h := by
  obtain ⟨input, hi, cell, hl, -, t, ht, hha⟩ := (hx.types h i).mp hh
  obtain ⟨input', hi', cell', hl', -, t', ht', hha'⟩ := (hx.types h' i).mp hh'
  cases (hi'.symm.trans hi)
  cases (hl'.symm.trans hl)
  obtain rfl : t' = t := Option.some.inj (ht'.symm.trans ht)
  exact Except.ok.inj (hha'.symm.trans hha)

theorem Extracted.output_unique (hh : Lists outputIndices typeGroups h i)
    (hh' : Lists outputIndices typeGroups h' i) : h' = h := by
  obtain ⟨output, hi, t, ht, hha⟩ := (hx.outputs h i).mp hh
  obtain ⟨output', hi', t', ht', hha'⟩ := (hx.outputs h' i).mp hh'
  cases (hi'.symm.trans hi)
  obtain rfl : t' = t := Option.some.inj (ht'.symm.trans ht)
  exact Except.ok.inj (hha'.symm.trans hha)

theorem Extracted.groupedOnce_type {indices h} (hmem : Lists indices typeGroups h i)
    (honly : ∀ h', Lists indices typeGroups h' i → h' = h) :
    self.GroupedOnce (lockGroups.intoValues ++ typeGroups.intoValues) .type_ indices h i := by
  obtain ⟨g, hg, hh⟩ := filter_intoValues hx.type_keyed
    (p := fun g => decide (g.groupType = .type_ ∧ i ∈ indices g)) (fun g => by simp) hmem honly
  refine ⟨g, ?_, hh⟩
  rw [filter_append, hg, filter_intoValues_eq_nil hx.lock_keyed, nil_append]
  intro g' hg'
  simp only [decide_eq_true_eq] at hg'
  simp [hg'.1]

theorem Extracted.groupedOnce_lock {h} (hmem : Lists inputIndices lockGroups h i) :
    self.GroupedOnce (lockGroups.intoValues ++ typeGroups.intoValues) .lock inputIndices h i := by
  obtain ⟨g, hg, hh⟩ := filter_intoValues hx.lock_keyed
    (p := fun g => decide (g.groupType = .lock ∧ i ∈ g.inputIndices))
    (fun g => by simp) hmem (fun h' => hx.lock_unique hmem)
  refine ⟨g, ?_, hh⟩
  rw [filter_append, hg, filter_intoValues_eq_nil hx.type_keyed, append_nil]
  intro g' hg'
  simp only [decide_eq_true_eq] at hg'
  simp [hg'.1]

theorem Extracted.not_skipped {h th input} (hin : self.tx.inputs[i]? = some input)
    (hload : self.loadCellByOutpoint input.previousOutput = some cell)
    (hskip : self.skipLockGroups = false) (hlock : self.hashOf cell.cellOutput.lock = .ok h)
    (hmem : Lists inputIndices typeGroups th i) : h ∉ self.skipLockScriptHashes := by
  obtain ⟨input', hi, cell', hl', hr, -⟩ := (hx.types th i).mp hmem
  cases (hi.symm.trans hin)
  cases (hl'.symm.trans hload)
  rcases hr with hs | ⟨h', hh', hnot⟩
  · simp [hskip] at hs
  · rwa [Except.ok.inj (hlock.symm.trans hh')]

theorem Extracted.allGrouped (hr : self.Resolved)
    (hcond : self.NoTypedSkip) :
    self.AllGrouped (lockGroups.intoValues ++ typeGroups.intoValues) where
  inputTypes i input cell t h hin hload ht hhash := by
    have hre : self.ReachesType cell := by
      cases hs : self.skipLockGroups with
      | true => exact .inl hs
      | false =>
        have hmem := mem_of_getElem? hin
        obtain ⟨cell', hl', ⟨lh, hlh⟩, -⟩ := hr.inputs input hmem
        cases (hl'.symm.trans hload)
        exact .inr ⟨lh, hlh, hcond input hmem _ hload (by simp [ht]) hs lh hlh⟩
    have hl := (hx.types h i).mpr ⟨input, hin, cell, hload, hre, t, ht, hhash⟩
    exact hx.groupedOnce_type hl fun h' => hx.type_unique hl
  outputTypes i output t h hout ht hhash := by
    have hl := (hx.outputs h i).mpr ⟨output, hout, t, ht, hhash⟩
    exact hx.groupedOnce_type hl fun h' => hx.output_unique hl
  locks i input cell h hin hload hhash hs hnot :=
    hx.groupedOnce_lock ((hx.locks h i).mpr ⟨input, hin, cell, hload, hs, hhash, hnot⟩)

end

-- Every type script is grouped exactly when no typed input has a lock that is skipped by hash.
theorem allGrouped_iff (hr : self.Resolved) :
    (∃ groups, self.extractScriptGroups = .ok groups ∧ self.AllGrouped groups) ↔
    self.NoTypedSkip := by
  obtain ⟨result, hre⟩ := extractScriptGroups_ok hr
  obtain ⟨lockGroups, typeGroups, hx, rfl⟩ := extractScriptGroups_spec hre
  constructor
  · rintro ⟨groups, hgr, hall⟩
    cases (hre.symm.trans hgr)
    intro input hin cell hl hty hs h hlo
    obtain ⟨i, hi⟩ := getElem?_of_mem hin
    obtain ⟨t, ht⟩ := Option.isSome_iff_exists.mp hty
    obtain ⟨cell', hlo', -, htype⟩ := hr.inputs input hin
    cases (hlo'.symm.trans hl)
    obtain ⟨th, hth⟩ := htype t ht
    obtain ⟨g, hg, -⟩ := hall.inputTypes i input _ t th hi hl ht hth
    -- the group found among the values belongs to the type map and lists the input
    have hgm : g ∈ (lockGroups.intoValues ++ typeGroups.intoValues).filter
        (fun g => decide (g.groupType = .type_ ∧ i ∈ g.inputIndices)) := by
      rw [hg]
      exact mem_singleton_self g
    simp only [mem_filter, mem_append, decide_eq_true_eq] at hgm
    obtain ⟨hv, hki, hidx⟩ := hgm
    rcases hv with hv | hv
    · obtain ⟨⟨k, g'⟩, hk, rfl⟩ := mem_map.mp hv
      have hl' := (hx.lock_keyed k _ (ExtTreeMap.mem_toList_iff_getElem?_eq_some.mp hk)).1
      exact absurd (hki.symm.trans hl') (by decide)
    · obtain ⟨⟨k, g'⟩, hk, rfl⟩ := mem_map.mp hv
      exact hx.not_skipped hi hl hs hlo ⟨g', ExtTreeMap.mem_toList_iff_getElem?_eq_some.mp hk, hidx⟩
  · intro hc
    exact ⟨_, hre, hx.allGrouped hr hc⟩

section NativeLock

def nativeLock : Script := ⟨1, 1, [7]⟩

def tokenType : Script := ⟨2, 1, []⟩

-- One input and no typed output. The lock of the input was verified natively.
def nativeVerifier (inputType : Option Script) : TransactionScriptVerifier where
  tx := ⟨CELL_TX_VERSION, [⟨⟨10, 0⟩, 0⟩], [], [], [⟨nativeLock, none, 1000⟩], [[]], [[]]⟩
  loadCellByOutpoint o := if o = ⟨10, 0⟩ then some ⟨⟨nativeLock, inputType, 1000⟩, some []⟩
    else none
  scriptHasher := ⟨Hasher.sample.scriptHash, fun s => .ok (Hasher.sample.scriptHash s)⟩
  skipLockGroups := false
  skipLockScriptHashes := [Hasher.sample.scriptHash nativeLock]
  semantics := .sporaExtended

theorem nativeVerifier_resolved (inputType : Option Script) :
    (nativeVerifier inputType).Resolved where
  inputs input hinput := by
    obtain rfl : input = ⟨⟨10, 0⟩, 0⟩ := by simpa [nativeVerifier] using hinput
    exact ⟨_, rfl, ⟨_, rfl⟩, fun t _ => ⟨_, rfl⟩⟩
  outputs output ho t ht := ⟨_, rfl⟩

-- A second input, typed and under a lock that is left to the VM, and an output of the same type.
def tokenVerifier : TransactionScriptVerifier :=
  { nativeVerifier none with
    tx := ⟨CELL_TX_VERSION, [⟨⟨10, 0⟩, 0⟩, ⟨⟨11, 0⟩, 0⟩], [], [],
      [⟨nativeLock, some tokenType, 1000⟩], [[]], [[], []]⟩
    loadCellByOutpoint := fun o =>
      if o = ⟨11, 0⟩ then some ⟨⟨⟨3, 1, [8]⟩, some tokenType, 1000⟩, some []⟩
      else (nativeVerifier none).loadCellByOutpoint o }

theorem allGrouped_token : ∃ groups, tokenVerifier.extractScriptGroups = .ok groups ∧
    tokenVerifier.AllGrouped groups ∧
    groups.map (fun g => (g.groupType, g.inputIndices, g.outputIndices)) =
    [(.lock, [1], []), (.type_, [1], [0])] := by
  have hin : ∀ input ∈ tokenVerifier.tx.inputs, input = ⟨⟨10, 0⟩, 0⟩ ∨ input = ⟨⟨11, 0⟩, 0⟩ := by
    simp [tokenVerifier]
  have hresolved : tokenVerifier.Resolved := by
    refine ⟨fun input hinput => ?_, fun output ho t ht => ⟨_, rfl⟩⟩
    rcases hin input hinput with rfl | rfl
    · exact ⟨_, rfl, ⟨_, rfl⟩, fun t _ => ⟨_, rfl⟩⟩
    · exact ⟨_, rfl, ⟨_, rfl⟩, fun t _ => ⟨_, rfl⟩⟩
  have hspared : tokenVerifier.NoTypedSkip := by
    intro input hinput cell hload htyped _ h hhash
    rcases hin input hinput with rfl | rfl
    · cases hload
      simp at htyped
    · cases hload
      cases hhash
      decide +kernel
  obtain ⟨groups, hrun, hall⟩ := (allGrouped_iff hresolved).mpr hspared
  refine ⟨groups, hrun, hall, ?_⟩
  have hmap : tokenVerifier.extractScriptGroups.map (fun groups => groups.map fun g =>
      (g.groupType, g.inputIndices, g.outputIndices)) = .ok [(.lock, [1], []),
        (.type_, [1], [0])] := by rfl
  rw [hrun] at hmap
  exact Except.ok.inj hmap

-- With a type script on that input, no group at all is left to run.
theorem typed_input_not_grouped : (nativeVerifier (some tokenType)).Resolved ∧
    (nativeVerifier (some tokenType)).extractScriptGroups = .ok [] ∧
    ¬ ∃ groups, (nativeVerifier (some tokenType)).extractScriptGroups = .ok groups ∧
    (nativeVerifier (some tokenType)).AllGrouped groups := by
  have hrun : (nativeVerifier (some tokenType)).extractScriptGroups = .ok [] := by rfl
  refine ⟨nativeVerifier_resolved _, hrun, ?_⟩
  rintro ⟨groups, hgr, hall⟩
  cases (hrun.symm.trans hgr)
  obtain ⟨g, hg, -⟩ := hall.inputTypes 0 _ _ tokenType _ rfl rfl rfl rfl
  simp at hg

end NativeLock

end TransactionScriptVerifier

end Spora
