import Spora.Lib.TreeMap
import Spora.Vm.Scheduler

namespace Spora

open Std Stateful ExtTreeMap Triple

-- The part of the scheduler that moving machines in and out of memory does not touch.
structure VmTable where
  states : ExtTreeMap VmId VmState
  fds : ExtTreeMap Fd VmId
  nextVmId : VmId
  nextFdSlot : Nat

namespace VmScheduler

variable {M S : Type}

def table (s : VmScheduler M S) : VmTable := ⟨s.states, s.fds, s.nextVmId, s.nextFdSlot⟩

-- Every machine of the table is either instantiated or suspended, and few are instantiated.
structure Placed (s : VmScheduler M S) : Prop where
  disjoint : ∀ id, id ∈ s.instantiated → id ∉ s.suspended
  mem_states_iff : ∀ id, id ∈ s.states ↔ id ∈ s.instantiated ∨ id ∈ s.suspended
  instantiated_le : s.instantiated.size ≤ MAX_INSTANTIATED_VMS

def On (T : VmTable) (s : VmScheduler M S) : Prop := s.table = T ∧ s.Placed

variable {T : VmTable} {s : VmScheduler M S} {id : VmId}

theorem Placed.congr {t : VmScheduler M S} (h : s.Placed) (hstates : t.states = s.states)
    (hinst : t.instantiated = s.instantiated) (hsuspended : t.suspended = s.suspended) :
    t.Placed := by
  refine ⟨?_, ?_, ?_⟩
  · rw [hinst, hsuspended]
    exact h.disjoint
  · rw [hstates, hinst, hsuspended]
    exact h.mem_states_iff
  · rw [hinst]
    exact h.instantiated_le

variable (h : s.On T)
include h

theorem On.withIterationCycles (cycles : Nat) :
    On T { s with iterationCycles := cycles } := ⟨h.1, h.2.congr rfl rfl rfl⟩

theorem On.resume {snap : S} (hs : s.suspended[id]? = some snap)
    (hroom : s.instantiated.size < MAX_INSTANTIATED_VMS) (machine : M) :
    On T { s with
      instantiated := s.instantiated.insert id machine
      suspended := s.suspended.erase id } := by
  obtain ⟨rfl, hp⟩ := h
  have hmem := TreeMap.mem_of_getElem? hs
  refine ⟨rfl, fun a ha => ?_, fun a => ?_, ?_⟩
  · simp only [mem_insert, mem_erase, LawfulEqCmp.compare_eq_iff_eq] at ha ⊢
    rintro ⟨hne, hsuspended⟩
    rcases ha with rfl | ha
    · exact hne (by simp)
    · exact hp.disjoint a ha hsuspended
  · simp only [hp.mem_states_iff]
    by_cases ha : id = a
    · subst ha
      simp [hmem]
    · simp [ha]
  · dsimp only
    have hle := size_insert_le (t := s.instantiated) (k := id) (v := machine)
    omega

theorem On.suspend {m : M} (hm : s.instantiated[id]? = some m) (snapshot : S) : On T { s with
      suspended := s.suspended.insert id snapshot
      instantiated := s.instantiated.erase id } := by
  obtain ⟨rfl, hp⟩ := h
  have hmem := TreeMap.mem_of_getElem? hm
  refine ⟨rfl, fun a ha => ?_, fun a => ?_, ?_⟩
  · simp only [mem_insert, mem_erase, LawfulEqCmp.compare_eq_iff_eq, ne_eq] at ha ⊢
    rintro (rfl | hsuspended)
    · exact ha.1 rfl
    · exact hp.disjoint a ha.2 hsuspended
  · simp only [hp.mem_states_iff]
    by_cases ha : id = a
    · subst ha
      simp [hmem]
    · simp [ha]
  · exact Nat.le_trans size_erase_le hp.instantiated_le

theorem On.setMachine (hid : id ∈ s.instantiated) (machine : M) :
    On T { s with instantiated := s.instantiated.insert id machine } := by
  obtain ⟨rfl, hp⟩ := h
  have hk : ∀ a, a ∈ s.instantiated.insert id machine ↔ a ∈ s.instantiated := by
    intro a
    simp only [TreeMap.mem_insert]
    constructor
    · rintro (rfl | ha)
      · exact hid
      · exact ha
    · exact .inr
  refine ⟨rfl, fun a ha => hp.disjoint a ((hk a).mp ha), fun a => ?_, ?_⟩
  · simp only [hk, hp.mem_states_iff]
  · dsimp only
    rw [size_insert, if_pos (contains_iff_mem.mpr hid)]
    exact hp.instantiated_le

end VmScheduler

namespace VmRuntime

open VmScheduler

variable {M S α : Type} {self : VmRuntime M S} {T : VmTable} {vm : VmId}

-- Whatever it does to the machines, the computation leaves the table alone.
def Keeps (m : Run M S α) : Prop :=
  ∀ T, Triple (On T) m (fun _ => On T) (On T)

variable {P : VmScheduler M S → Prop}

theorem vmTry_keeps {x : Except CkbVmError α} : Triple P (self.vmTry x) (fun _ => P) P :=
  ofLift (fun _ _ _ hs => hs) fun _ hs => hs

theorem lift_keeps {x} : Triple P (Stateful.lift x : Run M S α) (fun _ => P) P :=
  ofLift (fun _ _ _ hs => hs) fun _ hs => hs

theorem okOr_keeps {x e} : Triple P (Stateful.okOr x e : Run M S α) (fun _ => P) P :=
  ofOkOr (fun _ _ _ hs => hs) fun _ hs => hs

theorem addIterationCycles_spec {cycles : Nat}
    (hP : ∀ s c, P s → P { s with iterationCycles := c }) :
    Triple P (self.addIterationCycles cycles) (fun _ => P) P := by
  refine bind (ofGet fun _ hs => hs) fun s => ?_
  refine okOr_keeps.bind fun c => ?_
  exact ofModify fun t ht => hP t c ht

theorem resumeVm_spec : Triple (fun s => On T s ∧ s.instantiated.size < MAX_INSTANTIATED_VMS)
    (self.resumeVm vm) (fun _ => On T) (On T) := by
  refine bind (Q := fun r s => (On T s ∧ s.instantiated.size < MAX_INSTANTIATED_VMS) ∧
    r.suspended = s.suspended) (ofGet fun s hs => ⟨hs, rfl⟩) fun r => ?_
  refine bind (Q := fun snapshot s => (On T s ∧ s.instantiated.size < MAX_INSTANTIATED_VMS) ∧
    s.suspended[vm]? = some snapshot)
    (ofOkOr (fun snapshot s hr hs => ⟨hs.1, hs.2 ▸ hr⟩) fun s hs => hs.1.1) fun snapshot => ?_
  have hb : ∀ s : VmScheduler M S, ((On T s ∧ s.instantiated.size < MAX_INSTANTIATED_VMS) ∧
      s.suspended[vm]? = some snapshot) → On T s := fun s hs => hs.1.1
  refine bind ((addIterationCycles_spec fun s c hs =>
    ⟨⟨hs.1.1.withIterationCycles c, hs.1.2⟩, hs.2⟩).failing hb) fun _ => ?_
  refine bind (lift_keeps.failing hb) fun m => ?_
  refine bind (vmTry_keeps.failing hb) fun m => ?_
  exact ofModify fun s hs => hs.1.1.resume hs.2 hs.1.2 m

theorem suspendVm_spec {n} : Triple (fun s => On T s ∧ s.instantiated.size ≤ n + 1)
    (self.suspendVm vm) (fun _ s => On T s ∧ s.instantiated.size ≤ n) (On T) := by
  have hb : ∀ s : VmScheduler M S, On T s ∧ s.instantiated.size ≤ n + 1 → On T s := fun s hs => hs.1
  refine bind ((addIterationCycles_spec fun s c hs =>
    ⟨hs.1.withIterationCycles c, hs.2⟩).failing hb) fun _ => ?_
  refine bind (Q := fun r s => (On T s ∧ s.instantiated.size ≤ n + 1) ∧
    r.instantiated = s.instantiated) (ofGet fun s hs => ⟨hs, rfl⟩) fun r => ?_
  refine bind (Q := fun m s => (On T s ∧ s.instantiated.size ≤ n + 1) ∧
    s.instantiated[vm]? = some m) (ofOkOr (fun m s hr hs => ⟨hs.1, hs.2 ▸ hr⟩) fun s hs =>
      hs.1.1) fun m => ?_
  refine bind (vmTry_keeps.failing fun s hs => hs.1.1) fun snapshot => ?_
  refine ofModify fun s hs => ⟨hs.1.1.suspend hs.2 snapshot, ?_⟩
  have hmem := TreeMap.mem_of_getElem? hs.2
  rw [size_erase, if_pos (contains_iff_mem.mpr hmem)]
  exact Nat.sub_le_of_le_add hs.1.2

theorem resumeWhileRoom_keeps (ids) : Keeps (self.resumeWhileRoom ids) := by
  intro T
  induction ids with
  | nil => exact ofPure fun _ hs => hs
  | cons vm rest ih =>
    refine bind (Q := fun r s => On T s ∧ r = s) (ofGet fun s hs => ⟨hs, rfl⟩) fun r => ?_
    refine ite (fun hr => ?_) fun _ => ofPure fun s hs => hs.1
    exact (resumeVm_spec.strengthen fun s hs => ⟨hs.1, hs.2 ▸ hr⟩).bind fun _ => ih

theorem ensureVmsInstantiated_keeps (ids) : Keeps (self.ensureVmsInstantiated ids) := by
  intro T
  refine ite (fun _ => ofThrow fun _ hs => hs) fun _ => ?_
  refine bind (ofGet fun _ hs => hs) fun r => ?_
  refine (resumeWhileRoom_keeps _ T).bind fun left => ?_
  refine ite (fun _ => ofPure fun _ hs => hs) fun _ => ?_
  refine bind (ofGet fun _ hs => hs) fun r => ?_
  refine ite (fun _ => ofThrow fun _ hs => hs) fun _ => ?_
  refine forM fun ⟨suspendId, resumeId⟩ _ => ?_
  refine bind ((suspendVm_spec).strengthen fun s hs => ⟨hs, hs.2.instantiated_le⟩) fun _ => ?_
  exact resumeVm_spec.strengthen fun s hs => ⟨hs.1, Nat.lt_succ_of_le hs.2⟩

theorem getMachine_spec :
    Triple (On T) (self.getMachine vm) (fun _ s => On T s ∧ vm ∈ s.instantiated) (On T) := by
  refine (ensureVmsInstantiated_keeps [vm] T).bind fun _ => ?_
  refine bind (Q := fun r s => On T s ∧ r = s) (ofGet fun s hs => ⟨hs, rfl⟩) fun r => ?_
  refine ofOkOr (fun m s hr hs => ⟨hs.1, ?_⟩) fun s hs => hs.1
  exact mem_iff_isSome_getElem?.mpr (by simp [← hs.2, hr])

theorem setMachine_spec {m} : Triple (fun s => On T s ∧ vm ∈ s.instantiated)
    (setMachine vm m : Run M S Unit) (fun _ s => On T s ∧ vm ∈ s.instantiated) (On T) := by
  refine ofModify fun s hs => ⟨hs.1.setMachine hs.2 m, ?_⟩
  simp

theorem reply_keeps (code : Nat) : Keeps (self.reply vm code) := by
  intro T
  exact getMachine_spec.bind fun _ => setMachine_spec.relax fun _ _ hs => hs.1

theorem replyWith_keeps (store) : Keeps (self.replyWith vm store) := by
  intro T
  refine getMachine_spec.bind fun _ => ?_
  refine bind (vmTry_keeps.failing fun s hs => hs.1) fun _ => ?_
  exact setMachine_spec.relax fun _ _ hs => hs.1

theorem collectArgs_spec (m : M) (argc : Nat) : ∀ argvAddr totalLength args,
    Triple P (self.collectArgs m argc argvAddr totalLength args) (fun _ => P) P := by
  induction argc with
  | zero => exact fun _ _ _ => ofPure fun _ hs => hs
  | succ argc ih =>
    intro argvAddr totalLength args
    refine vmTry_keeps.bind fun _ => vmTry_keeps.bind fun _ => lift_keeps.bind fun _ => ?_
    refine ite (fun _ => ofThrow fun _ hs => hs) fun _ => ?_
    exact lift_keeps.bind fun _ => ih _ _ _

theorem loadProgramIntoMachine_keeps {m pid dataOffset program args} :
    Keeps (self.loadProgramIntoMachine m pid dataOffset program args) := by
  intro T
  refine ite (fun _ => ofThrow fun _ hs => hs) fun _ => ?_
  refine bind ?_ fun _ => lift_keeps
  cases args with
  | vector args => exact ofPure fun _ hs => hs
  | reader vm argc argv =>
    refine getMachine_spec.bind fun m => ?_
    exact (collectArgs_spec m argc argv 0 []).strengthen fun _ hs => hs.1

theorem suspendFirst_spec (turns : Nat) :
    Triple (fun s => On T s ∧ s.instantiated.size ≤ turns) (self.suspendFirst turns)
    (fun _ s => On T s ∧ s.instantiated.size < MAX_INSTANTIATED_VMS) (On T) := by
  induction turns with
  | zero => exact ofPure fun s hs => ⟨hs.1, Nat.lt_of_le_of_lt hs.2 (by decide)⟩
  | succ turns ih =>
    refine bind (Q := fun r s => (On T s ∧ s.instantiated.size ≤ turns + 1) ∧ r = s)
      (ofGet fun s hs => ⟨hs, rfl⟩) fun r => ?_
    refine ite (fun _ => ?_) fun hr => ofPure fun s hs =>
      ⟨hs.1.1, hs.2 ▸ Nat.lt_of_not_le hr⟩
    have hb : ∀ s, (On T s ∧ s.instantiated.size ≤ turns + 1) ∧ r = s → On T s := fun s hs => hs.1.1
    refine bind (okOr_keeps.failing hb) fun _ => ?_
    exact ((suspendVm_spec).strengthen fun s hs => hs.1).bind fun _ => ih

end VmRuntime

end Spora
