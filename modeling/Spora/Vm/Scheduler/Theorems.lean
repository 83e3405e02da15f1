import Spora.Vm.Scheduler.Invariant

namespace Spora

open Std Stateful TreeMap ExtTreeMap Triple VmTable VmScheduler

namespace VmScheduler

variable {M S : Type} {cap : Nat} {T : VmTable} {s : VmScheduler M S} {id : VmId}

def Coherent (cap : Nat) (s : VmScheduler M S) : Prop := s.table.Sound cap ∧ s.Placed

structure WellFormed (s : VmScheduler M S) : Prop where
  disjoint : ∀ id, id ∈ s.instantiated → id ∉ s.suspended
  mem_states_iff : ∀ id, id ∈ s.states ↔ id ∈ s.instantiated ∨ id ∈ s.suspended
  instantiated_le : s.instantiated.size ≤ MAX_INSTANTIATED_VMS
  states_le : s.states.size ≤ MAX_VMS_COUNT
  fds_le : s.fds.size ≤ MAX_FDS
  owner_mem : ∀ (fd : Fd) id, s.fds[fd]? = some id → id ∈ s.states
  reader_owns : ∀ (id : VmId) r, s.states[id]? = some (.waitForRead r) → s.fds[r.fd]? = some id
  writer_owns : ∀ (id : VmId) w, s.states[id]? = some (.waitForWrite w) → s.fds[w.fd]? = some id

theorem Coherent.wellFormed (h : s.Coherent MAX_FDS) : s.WellFormed where
  disjoint := h.2.disjoint
  mem_states_iff := h.2.mem_states_iff
  instantiated_le := h.2.instantiated_le
  states_le := h.1.states_le
  fds_le := h.1.fds_le
  owner_mem := h.1.owner_mem
  reader_owns := h.1.reader_owns
  writer_owns := h.1.writer_owns

theorem On.coherent (h : s.On T) (hT : T.Sound cap) : s.Coherent cap := ⟨h.1 ▸ hT, h.2⟩

theorem Coherent.on (h : s.Coherent cap) : s.On s.table := ⟨rfl, h.2⟩

variable (h : s.On T)
include h

theorem On.setState (hid : id ∈ T.states) (state : VmState) :
    On { T with states := T.states.insert id state }
      { s with states := s.states.insert id state } := by
  obtain ⟨rfl, hp⟩ := h
  refine ⟨rfl, hp.disjoint, fun a => ?_, hp.instantiated_le⟩
  rw [← hp.mem_states_iff, TreeMap.mem_insert]
  constructor
  · rintro (rfl | ha)
    · exact hid
    · exact ha
  · exact .inr

theorem On.addFds (fds : ExtTreeMap Fd VmId) (slot : Nat) :
    On { T with fds := fds, nextFdSlot := slot } { s with fds := fds, nextFdSlot := slot } := by
  obtain ⟨rfl, hp⟩ := h
  exact ⟨rfl, hp.congr rfl rfl rfl⟩

theorem On.setFds (fds : ExtTreeMap Fd VmId) (inheritedFd : ExtTreeMap VmId (List Fd)) :
    On { T with fds := fds } { s with fds := fds, inheritedFd := inheritedFd } := by
  obtain ⟨rfl, hp⟩ := h
  exact ⟨rfl, hp.congr rfl rfl rfl⟩

theorem On.boot (hfresh : id ∉ T.states) (hroom : s.instantiated.size < MAX_INSTANTIATED_VMS)
    (machine : M) :
    On { T with states := T.states.insert id .runnable }
      { s with
        instantiated := s.instantiated.insert id machine
        states := s.states.insert id .runnable } := by
  obtain ⟨rfl, hp⟩ := h
  refine ⟨rfl, fun a ha hsuspended => ?_, fun a => ?_, ?_⟩
  · simp only [TreeMap.mem_insert] at ha
    rcases ha with rfl | ha
    · exact hfresh ((hp.mem_states_iff _).mpr (.inr hsuspended))
    · exact hp.disjoint a ha hsuspended
  · simp only [ExtTreeMap.mem_insert, hp.mem_states_iff, or_assoc]
  · dsimp only
    have hle := size_insert_le (t := s.instantiated) (k := id) (v := machine)
    omega

theorem On.terminate : On
    { T with states := T.states.erase id, fds := T.fds.filter fun _ owner => owner ≠ id }
    { s with
      fds := s.fds.filter fun _ owner => owner ≠ id
      inheritedFd := s.inheritedFd.erase id
      states := s.states.erase id
      instantiated := s.instantiated.erase id
      suspended := s.suspended.erase id } := by
  obtain ⟨rfl, hp⟩ := h
  refine ⟨rfl, fun a ha hsuspended => ?_, fun a => ?_, ?_⟩
  · exact hp.disjoint a (mem_of_mem_erase ha) (mem_of_mem_erase hsuspended)
  · simp only [ExtTreeMap.mem_erase, hp.mem_states_iff]
    tauto
  · exact Nat.le_trans size_erase_le hp.instantiated_le

end VmScheduler

namespace VmRuntime

open VmScheduler

variable {M S : Type} {self : VmRuntime M S} {cap : Nat} {T : VmTable} {vm : VmId}

-- The computation leaves a coherent scheduler, also where it fails.
abbrev Leaves (cap : Nat) (P : VmScheduler M S → Prop) {α : Type} (m : Run M S α) : Prop :=
  Triple P m (fun _ => Coherent cap) (Coherent cap)

theorem Keeps.coherent {m : Run M S Unit} (h : Keeps m) (hT : T.Sound cap) :
    Leaves cap (On T) m :=
  (h T).weaken (fun _ hs => hs) (fun _ _ hs => hs.coherent hT) fun _ hs => hs.coherent hT

variable {E : VmScheduler M S → Prop} {s : VmScheduler M S} {limitCycles : Nat}

theorem get_bind_spec {f : VmScheduler M S → Run M S Unit} {Q}
    (h : ∀ r, r.table = T → Triple (On T) (f r) Q E) : Triple (On T) (get >>= f) Q E :=
  .bind (Q := fun r s => r.table = T ∧ On T s) (.ofGet fun _ hs => ⟨hs.1, hs⟩) fun r =>
    .assume (h r)

variable {state : VmState}

theorem setState_spec (hvm : vm ∈ T.states) : Triple (On T) (setState vm state : Run M S Unit)
      (fun _ => On { T with states := T.states.insert vm state }) E :=
  ofModify fun _ hs => hs.setState hvm state

theorem bootVmFromBytes_spec {pid : ProgramDataId} {dataOffset : Nat} {program : Bytes}
    {args : VmArgs} (hT : T.Sound cap) :
    Triple (On T) (self.bootVmFromBytes pid dataOffset program args)
      (fun id s => id = T.nextVmId ∧ On { T with
        states := T.states.insert T.nextVmId .runnable
        nextVmId := T.nextVmId + 1 } s) (Coherent cap : VmScheduler M S → Prop) := by
  have hf : T.nextVmId ∉ T.states := fun hmem => Nat.lt_irrefl _ (hT.states_lt _ hmem)
  refine bind (Q := fun r s => On T s ∧ r = s) (ofGet fun s hs => ⟨hs, rfl⟩) fun r => ?_
  refine bind (Q := fun _ s => r.nextVmId = T.nextVmId ∧
    On { T with nextVmId := T.nextVmId + 1 } s) (ofModify ?_) fun _ => ?_
  · rintro s ⟨⟨rfl, hp⟩, rfl⟩
    exact ⟨rfl, rfl, hp.congr rfl rfl rfl⟩
  refine assume fun hr => ?_
  rw [hr]
  have hsk : ∀ s : VmScheduler M S, On { T with nextVmId := T.nextVmId + 1 } s → Coherent cap s :=
    fun s hs => hs.coherent hT.skipVmId
  refine bind (lift_keeps.failing hsk) fun m => ?_
  refine bind ((loadProgramIntoMachine_keeps _).failing hsk) fun m => ?_
  refine bind (Q := fun r s => On { T with nextVmId := T.nextVmId + 1 } s ∧ r = s)
    (ofGet fun s hs => ⟨hs, rfl⟩) fun r => ?_
  refine bind (((suspendFirst_spec _).strengthen fun s hs => ⟨hs.1, ?_⟩).failing hsk) fun _ => ?_
  · rw [hs.2]
  refine bind (Q := fun _ => On { T with
    states := T.states.insert T.nextVmId .runnable
    nextVmId := T.nextVmId + 1 })
    (ofModify fun s hs => hs.1.boot hf hs.2 m) fun _ => ?_
  exact ofPure fun s hs => ⟨rfl, hs⟩

theorem bootVm_spec {location : ProgramLocation} {args : VmArgs} (hT : T.Sound cap) :
    Triple (On T) (self.bootVm location args)
      (fun id s => id = T.nextVmId ∧ On { T with
        states := T.states.insert T.nextVmId .runnable
        nextVmId := T.nextVmId + 1 } s) (Coherent cap : VmScheduler M S → Prop) := by
  have hf : ∀ s : VmScheduler M S, On T s → Coherent cap s := fun s hs => hs.coherent hT
  refine bind (lift_keeps.failing hf) fun _ => ?_
  refine bind (lift_keeps.failing hf) fun _ => ?_
  exact bootVmFromBytes_spec hT

section Messages

variable (hT : T.Sound cap) (hrun : T.states[vm]? = some .runnable)
include hT hrun

theorem handleSpawn_spec (args) :
    Leaves cap (On T) (self.handleSpawn vm args) := by
  refine get_bind_spec ?_
  rintro r rfl
  refine ite (fun _ => (reply_keeps _).coherent hT) fun hfds => ?_
  refine ite (fun _ => (reply_keeps _).coherent hT) fun hr => ?_
  have hsi := Nat.lt_of_not_le hr
  have hg : ∀ fd ∈ args.fds, r.fds[fd]? = some vm := by
    intro fd hfd
    by_contra hne
    exact hfds (List.any_eq_true.mpr ⟨fd, hfd, by simpa using hne⟩)
  have hne : vm ≠ r.table.nextVmId := fun heq =>
    Nat.lt_irrefl _ (heq ▸ hT.states_lt vm (mem_of_getElem? hrun))
  refine bind (bootVm_spec hT) fun spawned => assume ?_
  rintro rfl
  have hb := hT.boot hsi
  have hr' : (r.table.states.insert r.table.nextVmId .runnable)[vm]? = some .runnable := by
    rw [getElem?_insert_eq, if_neg (Ne.symm hne), hrun]
  have hsp : r.table.nextVmId ∈ r.table.states.insert r.table.nextVmId .runnable :=
    mem_insert.mpr (.inl rfl)
  have hgi := hb.giveFds hr' hg hsp
  refine bind (ofModify fun s hs => ?_) fun _ => (replyWith_keeps _).coherent hgi
  have hfd : s.fds = r.table.fds := congrArg VmTable.fds hs.1
  rw [hfd]
  exact hs.setFds _ _

theorem handleWait_spec (targetId : VmId) (addr : Nat) :
    Leaves cap (On T) (self.handleWait vm targetId addr) := by
  have hvm := mem_of_getElem? hrun
  have hset : ∀ state, waitsOn state = none →
      VmTable.Sound cap { T with states := T.states.insert vm state } :=
    fun state hn => hT.setState hvm fun fd hfd => nomatch hn.symm.trans hfd
  refine bind (ofGet fun s hs => hs) fun r => ?_
  split
  · refine bind ((replyWith_keeps _ T).failing fun s hs => hs.coherent hT) fun _ => ?_
    refine bind (setState_spec hvm) fun _ => ofModify fun s hs => ?_
    exact (hs.coherent (hset _ rfl)).imp_right fun hp => hp.congr rfl rfl rfl
  · refine ite (fun _ => (reply_keeps _).coherent hT) fun _ => ?_
    exact (setState_spec hvm).relax fun _ s hs => hs.coherent (hset _ rfl)

theorem handlePipe_spec (hroom : T.fds.size < MAX_FDS → T.fds.size + 2 ≤ cap) (a₁ a₂ : Nat) :
    Leaves cap (On T) (self.handlePipe vm a₁ a₂) := by
  refine get_bind_spec ?_
  rintro r rfl
  refine ite (fun _ => (reply_keeps _).coherent hT) fun hf => ?_
  have hp := hT.pipe (mem_of_getElem? hrun) (hroom (Nat.lt_of_not_le hf))
  refine bind (ofModify fun s hs => ?_) fun _ => (replyWith_keeps _).coherent hp
  have hfd : s.fds = r.fds := congrArg VmTable.fds hs.1
  have hsl : s.nextFdSlot = r.nextFdSlot := congrArg VmTable.nextFdSlot hs.1
  rw [hfd, hsl]
  exact hs.addFds _ _

theorem handleFdRequest_spec (fd : Fd) {waiting} (hfd : waitsOn waiting = some fd) :
    Leaves cap (On T) (self.handleFdRequest vm fd waiting) := by
  refine get_bind_spec ?_
  rintro r rfl
  refine ite (fun _ => (reply_keeps _).coherent hT) fun hown => ?_
  refine ite (fun _ => (reply_keeps _).coherent hT) fun _ => ?_
  have hvm := mem_of_getElem? hrun
  have hw : r.table.Sound cap → VmTable.Sound cap { r.table with
      states := r.table.states.insert vm waiting } := by
    intro h
    refine h.setState hvm fun fd' hfd' => ?_
    rw [hfd, Option.some.injEq] at hfd'
    exact hfd' ▸ not_not.mp hown
  exact (setState_spec hvm).relax fun _ s hs => hs.coherent (hw hT)

theorem handleClose_spec (fd : Fd) :
    Leaves cap (On T) (self.handleClose vm fd) := by
  refine get_bind_spec ?_
  rintro r rfl
  refine ite (fun hown => ?_) fun _ => (reply_keeps _).coherent hT
  have hc := hT.close hrun hown
  refine bind (ofModify fun s hs => ?_) fun _ => (reply_keeps _).coherent hc
  have hfd : s.fds = r.fds := congrArg VmTable.fds hs.1
  rw [hfd]
  exact hs.setFds _ s.inheritedFd

end Messages

theorem handleInheritedFileDescriptor_keeps (args) :
    Keeps (self.handleInheritedFileDescriptor vm args) := by
  intro T
  refine bind (ofGet fun s hs => hs) fun r => ?_
  refine getMachine_spec.bind fun m => ?_
  have hb : ∀ s : VmScheduler M S, On T s ∧ vm ∈ s.instantiated → On T s := fun s hs => hs.1
  refine bind (vmTry_keeps.failing hb) fun _ => ?_
  refine bind (lift_keeps.failing hb) fun _ => ?_
  refine bind (vmTry_keeps.failing hb) fun _ => ?_
  exact setMachine_spec.relax fun _ _ hs => hs.1

theorem processMessage_spec (hT : T.Sound cap) (hrun : T.states[vm]? = some .runnable) {msg}
    (hroom : ∀ a₁ a₂, msg = .pipe a₁ a₂ → T.fds.size < MAX_FDS → T.fds.size + 2 ≤ cap) :
    Leaves cap (On T) (self.processMessage vm msg) := by
  cases msg with
  | spawn req => exact handleSpawn_spec hT hrun req
  | wait targetId addr => exact handleWait_spec hT hrun targetId addr
  | pipe a₁ a₂ => exact handlePipe_spec hT hrun (hroom _ _ rfl) a₁ a₂
  | fdRead req => exact handleFdRequest_spec hT hrun req.fd rfl
  | fdWrite req => exact handleFdRequest_spec hT hrun req.fd rfl
  | inheritedFileDescriptor req => exact (handleInheritedFileDescriptor_keeps req).coherent hT
  | close fd => exact handleClose_spec hT hrun fd

def Fits (F : VmTable → Prop) (s : VmScheduler M S) : Prop := F s.table ∧ s.Placed

theorem Keeps.fits {α} {m : Run M S α} (h : Keeps m) (F) :
    Triple (Fits F) m (fun _ => Fits F) (Fits F) := by
  refine intro fun s hs => ?_
  have hm := (h s.table).apply ⟨rfl, hs.2⟩
  rcases hr : m.exec s with ⟨e | a, t⟩
  · simp only [hr] at hm ⊢
    exact ⟨hm.1 ▸ hs.1, hm.2⟩
  · simp only [hr] at hm ⊢
    exact ⟨hm.1 ▸ hs.1, hm.2⟩

theorem setState_fits {F G : VmTable → Prop}
    (hF : ∀ T, F T → vm ∈ T.states ∧ G { T with states := T.states.insert vm state }) :
    Triple (Fits F) (setState vm state : Run M S Unit) (fun _ => Fits G) E := by
  refine ofModify fun s hs => ?_
  obtain ⟨hvm, hG⟩ := hF _ hs.1
  have hon := On.setState ⟨rfl, hs.2⟩ hvm state
  exact ⟨hon.1 ▸ hG, hon.2⟩

-- The tables that answering waiting machines passes through: neither the descriptors nor the set of
-- machines changes.
structure Answering (cap : Nat) (T₀ T : VmTable) : Prop where
  sound : T.Sound cap
  fds_eq : T.fds = T₀.fds
  mem_iff : ∀ id, id ∈ T.states ↔ id ∈ T₀.states

variable {T₀ : VmTable}

theorem Answering.refl (hT : T.Sound cap) : Answering cap T T := ⟨hT, rfl, fun _ => Iff.rfl⟩

theorem Answering.setState (h : Answering cap T₀ T) (hvm : vm ∈ T₀.states)
    (hwait : ∀ fd, waitsOn state = some fd → T₀.fds[fd]? = some vm) :
    Answering cap T₀ { T with states := T.states.insert vm state } := by
  have hmem := (h.mem_iff vm).mpr hvm
  refine ⟨h.sound.setState hmem fun fd hfd => by rw [h.fds_eq]; exact hwait fd hfd, h.fds_eq,
    fun id => ?_⟩
  rw [← h.mem_iff, TreeMap.mem_insert]
  constructor
  · rintro (rfl | hid)
    · exact hmem
    · exact hid
  · exact .inr

theorem setState_answering (hvm : vm ∈ T₀.states)
    (hwait : ∀ fd, waitsOn state = some fd → T₀.fds[fd]? = some vm) :
    Triple (Fits (Answering cap T₀)) (setState vm state) (fun _ => Fits (Answering cap T₀)) E :=
  setState_fits fun _ hT => ⟨(hT.mem_iff vm).mpr hvm, hT.setState hvm hwait⟩

theorem setRunnable_answering (hvm : vm ∈ T₀.states) :
    Triple (Fits (Answering cap T₀)) (setState vm .runnable) (fun _ => Fits (Answering cap T₀)) E :=
  setState_answering hvm (by simp [waitsOn])

theorem terminateChild_spec (hT : T.Sound cap) (code : Int) :
    Leaves cap (On T) (self.terminateChild vm code) := by
  have hf : ∀ s : VmScheduler M S, Fits (Answering cap T) s → Coherent cap s :=
    fun s hs => ⟨hs.1.sound, hs.2⟩
  refine bind (Q := fun _ => On T) (ofModify fun s hs => ⟨hs.1, hs.2.congr rfl rfl rfl⟩) fun _ => ?_
  refine bind (Q := fun r s => r.table = T ∧ Fits (Answering cap T) s) (ofGet fun s hs =>
    ⟨hs.1, hs.1 ▸ .refl (hs.1 ▸ hT), hs.2⟩) fun r => ?_
  refine assume ?_
  rintro rfl
  refine bind ((forM ?_).failing hf) fun _ => ?_
  · rintro ⟨id, exitCodeAddr⟩ hid
    have hmem : id ∈ r.table.states := by
      obtain ⟨⟨a, state⟩, ha, hso⟩ := List.mem_filterMap.mp hid
      have hget := mem_toList_iff_getElem?_eq_some.mp ha
      cases state with
      | wait target addr =>
        dsimp only at hso
        split_ifs at hso
        cases (Option.some.inj hso)
        exact mem_iff_isSome_getElem?.mpr (by simp [table, hget])
      | _ => exact nomatch hso
    refine ((replyWith_keeps _).fits _).bind fun _ => ?_
    exact setRunnable_answering hmem
  · refine ofModify fun s hs => ?_
    exact On.coherent (On.terminate ⟨rfl, hs.2⟩) hs.1.sound.terminate

theorem terminateRoot_spec (hT : T.Sound cap) (code : Int) :
    Leaves cap (fun s => On T s ∧ vm ∈ s.instantiated) (terminateRoot vm code : Run M S Unit) := by
  refine ofModify fun s hs => ?_
  obtain ⟨⟨rfl, hp⟩, hvm⟩ := hs
  have hlt := hT.states_lt vm ((hp.mem_states_iff vm).mpr (.inl hvm))
  have hmem : ∀ a, a ∈ (∅ : ExtTreeMap VmId VmState).insert vm .terminated ↔ vm = a := by simp
  refine ⟨.of_owns ?_ (by simp [table]) (fun fd a ha => ?_) ?_ (fun a ha => ?_) (fun fd hfd => ?_),
    fun a _ => by simp, fun a => ?_, ?_⟩
  · simp [table, ExtTreeMap.size_insert, MAX_VMS_COUNT]
  · simp [table] at ha
  · intro a state fd ha hfd
    simp only [table] at ha
    rw [getElem?_insert_eq] at ha
    split_ifs at ha
    · cases ha
      exact nomatch hfd
    · simp at ha
  · obtain rfl := (hmem a).mp ha
    exact hlt
  · simp [table] at hfd
  · dsimp only
    rw [hmem]
    simp only [ExtTreeMap.mem_filter, ExtTreeMap.getKey_eq, decide_eq_true_eq, not_mem_empty,
      or_false]
    constructor
    · rintro rfl
      exact ⟨hvm, rfl⟩
    · rintro ⟨-, ha⟩
      exact ha.symm
  · exact Nat.le_trans size_filter_le_size hp.instantiated_le

theorem releaseClosed_spec (hvm : vm ∈ T₀.states) :
    Triple (Fits (Answering cap T₀)) (self.releaseClosed vm) (fun _ => Fits (Answering cap T₀))
    (Fits (Answering cap T₀)) := by
  refine bind (ofGet fun s hs => hs) fun r => ?_
  split
  · exact ((replyWith_keeps _).fits _).bind fun _ => setRunnable_answering hvm
  · exact ((replyWith_keeps _).fits _).bind fun _ => setRunnable_answering hvm
  · exact ofPure fun s hs => hs

theorem takeFromWriter_keeps (state) (copiable : Nat) :
    Keeps (self.takeFromWriter vm state copiable) := by
  intro T
  have hb : ∀ s : VmScheduler M S, On T s ∧ vm ∈ s.instantiated → On T s := fun s hs => hs.1
  refine getMachine_spec.bind fun m => ?_
  refine bind (vmTry_keeps.failing hb) fun _ => ?_
  refine bind (vmTry_keeps.failing hb) fun _ => ?_
  exact setMachine_spec.bind fun _ => ofPure fun s hs => hs.1

theorem transfer_spec {pair} (hread : pair.readVmId ∈ T₀.states)
    (hwrite : pair.writeVmId ∈ T₀.states)
    (hown : T₀.fds[pair.writeState.fd]? = some pair.writeVmId) :
    Triple (Fits (Answering cap T₀)) (self.transfer pair) (fun _ => Fits (Answering cap T₀))
    (Fits (Answering cap T₀)) := by
  refine ((ensureVmsInstantiated_keeps _).fits _).bind fun _ => ?_
  refine ite (fun _ => ofPure fun s hs => hs) fun _ => ?_
  refine ((takeFromWriter_keeps _ _).fits _).bind fun data => ?_
  have hg : Triple (Fits (Answering cap T₀)) (self.giveToReader pair.readVmId pair.readState data
      (min pair.readState.length (pair.writeState.length - pair.writeState.consumed)))
      (fun _ => Fits (Answering cap T₀)) (Fits (Answering cap T₀) : VmScheduler M S → Prop) :=
    ((replyWith_keeps _).fits _).bind fun _ => setRunnable_answering hread
  refine hg.bind fun _ => ?_
  refine ite (fun _ => ?_) fun _ => ?_
  · exact ((replyWith_keeps _).fits _).bind fun _ => setRunnable_answering hwrite
  · refine setState_answering hwrite ?_
    intro fd hfd
    cases hfd
    exact hown

theorem mem_states_of_mem_closedVms (h : vm ∈ closedVms s) : vm ∈ s.states := by
  obtain ⟨⟨a, state⟩, ha, rfl⟩ := List.mem_map.mp h
  have hget := mem_toList_iff_getElem?_eq_some.mp (List.mem_filter.mp ha).1
  exact mem_of_getElem? hget

theorem states_of_pendingReads {fd r} (h : (pendingReads s)[fd]? = some (vm, r)) :
    s.states[vm]? = some (.waitForRead r) ∧ r.fd = fd := by
  revert h
  refine List.foldlRecOn (motive := fun reads => reads[fd]? = some (vm, r) →
    _) _ _ (fun h => by simp at h) ?_
  rintro reads ih ⟨id, state⟩ hmem h
  cases state with
  | waitForRead inner =>
    dsimp only at h
    split_ifs at h
    · rw [getElem?_insert_eq] at h
      split_ifs at h with hfd
      · cases (Option.some.inj h)
        exact ⟨mem_toList_iff_getElem?_eq_some.mp hmem, hfd⟩
      · exact ih h
    · exact ih h
  | _ => exact ih h

theorem states_of_mem_ioPairs {pair} (h : pair ∈ ioPairs s) :
    s.states[pair.readVmId]? = some (.waitForRead pair.readState) ∧
    s.states[pair.writeVmId]? = some (.waitForWrite pair.writeState) ∧
    pair.writeState.fd.otherFd = pair.readState.fd := by
  obtain ⟨⟨a, state⟩, ha, hs⟩ := List.mem_filterMap.mp h
  have hget := mem_toList_iff_getElem?_eq_some.mp ha
  cases state with
  | waitForWrite inner =>
    dsimp only at hs
    split_ifs at hs
    obtain ⟨⟨readVmId, readState⟩, hr, rfl⟩ := Option.map_eq_some_iff.mp hs
    obtain ⟨hst, hfd⟩ := states_of_pendingReads hr
    exact ⟨hst, hget, hfd.symm⟩
  | _ => exact nomatch hs

theorem processIo_spec :
    Leaves cap (Coherent cap) self.processIo := by
  refine bind (Q := fun r s => r.table.Sound cap ∧ Fits (Answering cap r.table) s)
    (ofGet fun s hs => ⟨hs.1, .refl hs.1, hs.2⟩) fun r => assume fun hr => ?_
  have hend : ∀ s : VmScheduler M S, Fits (Answering cap r.table) s → Coherent cap s :=
    fun s hs => ⟨hs.1.sound, hs.2⟩
  refine bind ((Triple.forM fun vm hvm =>
    releaseClosed_spec (mem_states_of_mem_closedVms hvm)).failing hend) fun _ => ?_
  refine weaken (forM fun pair hp => ?_) (fun _ hs => hs) (fun _ s hs => hend s hs) hend
  obtain ⟨hre, hw, -⟩ := states_of_mem_ioPairs hp
  exact transfer_spec (mem_iff_isSome_getElem?.mpr (by simp [table, hre]))
    (mem_iff_isSome_getElem?.mpr (by simp [table, hw])) (hr.writer_owns _ _ hw)

theorem runnable_of_pickRunnable {states}
    (h : pickRunnable states = some vm) : states[vm]? = some VmState.runnable := by
  obtain ⟨⟨a, state⟩, hf, rfl⟩ := Option.map_eq_some_iff.mp h
  have hrun : state = .runnable := by simpa using List.find?_some hf
  subst hrun
  exact mem_toList_iff_getElem?_eq_some.mp (List.mem_reverse.mp (List.mem_of_find?_eq_some hf))

theorem iteratePrepareMachine_spec : Triple (On T) self.iteratePrepareMachine
    (fun id s => T.states[id]? = some VmState.runnable ∧ On T s) (On T) := by
  refine bind (ofGet fun s hs => ⟨hs.1, hs⟩) fun r => assume ?_
  rintro rfl
  refine bind (Q := fun id s => r.table.states[id]? = some VmState.runnable ∧ On r.table s)
    (ofOkOr (fun id s hid hs => ⟨runnable_of_pickRunnable hid, hs⟩) fun s hs => hs) fun id => ?_
  refine assume fun hid => ?_
  exact (ensureVmsInstantiated_keeps _ _).bind fun _ => ofPure fun s hs => ⟨hid, hs⟩

theorem remainingCycles_spec {P} : Triple P self.remainingCycles (fun _ => P) P := by
  refine bind (ofGet fun s hs => hs) fun r => ?_
  exact ite (fun _ => ofThrow fun s hs => hs) fun _ => ofPure fun s hs => hs

theorem consumeIterationCycles_spec : Leaves cap (Coherent cap) self.consumeIterationCycles := by
  refine bind (ofGet fun s hs => hs) fun r => ?_
  refine okOr_keeps.bind fun nextTotal => ?_
  refine ite (fun _ => ofThrow fun s hs => hs) fun _ => ?_
  refine bind (ofModify fun s hs => ?_) fun _ =>
    ofPure fun s hs => hs
  exact ⟨hs.1, hs.2.congr rfl rfl rfl⟩

theorem runSlice_spec : Triple (On T) (self.runSlice limitCycles)
    (fun r s => T.states[r.1]? = some VmState.runnable ∧ On T s ∧ r.1 ∈ s.instantiated) (On T) := by
  refine iteratePrepareMachine_spec.bind fun id => assume fun hid => ?_
  refine remainingCycles_spec.bind fun rem => ?_
  refine getMachine_spec.bind fun m => ?_
  refine setMachine_spec.bind fun _ => ?_
  have hb : ∀ s : VmScheduler M S, On T s ∧ id ∈ s.instantiated → On T s := fun s hs => hs.1
  refine bind ((addIterationCycles_spec fun s c hs =>
    ⟨hs.1.withIterationCycles c, hs.2⟩).failing hb) fun _ => ?_
  exact ofPure fun s hs => ⟨hid, hs⟩

-- The slice does not ask for a pipe while there is room for one descriptor only.
def PipesFit (self : VmRuntime M S) (limitCycles : Nat) (s : VmScheduler M S) : Prop :=
  ∀ id fd1Addr fd2Addr, ((self.runSlice limitCycles).exec s).1 =
      .ok (id, .yielded (.pipe fd1Addr fd2Addr)) → s.fds.size ≠ MAX_FDS - 1

theorem finishSlice_spec (hT : T.Sound cap) {r} (hrun : T.states[vm]? = some .runnable)
    (hroom : ∀ a₁ a₂, r = .yielded (.pipe a₁ a₂) → T.fds.size < MAX_FDS → T.fds.size + 2 ≤ cap) :
    Leaves cap (fun s => On T s ∧ vm ∈ s.instantiated) (do
      self.processMessageBox vm r
      self.iterateProcessResults vm r
      return vm) := by
  have hon : ∀ s : VmScheduler M S, On T s ∧ vm ∈ s.instantiated → Coherent cap s :=
    fun s hs => hs.1.coherent hT
  cases r with
  | yielded msg =>
    refine bind ((processMessage_spec hT hrun fun a b hab => hroom a b (hab ▸ rfl)).strengthen
      fun s hs => hs.1) fun _ => ?_
    exact bind (ofPure fun s hs => hs) fun _ =>
      ofPure fun s hs => hs
  | exited code =>
    refine bind (Q := fun _ s => On T s ∧ vm ∈ s.instantiated) (ofPure fun s hs => hs) fun _ => ?_
    refine bind ?_ fun _ => ofPure fun s hs => hs
    refine ite (fun _ => terminateRoot_spec hT code) fun _ => ?_
    exact (terminateChild_spec hT code).strengthen fun s hs => hs.1
  | failed error =>
    cases error with
    | pause => exact ofThrow hon
    | cyclesExceeded => exact ofThrow hon
    | other msg => exact ofThrow hon

def PipesBelow (self : VmRuntime M S) (cap limitCycles : Nat) (s : VmScheduler M S) : Prop :=
  ∀ id fd1Addr fd2Addr, ((self.runSlice limitCycles).exec s).1 =
      .ok (id, .yielded (.pipe fd1Addr fd2Addr)) → s.fds.size < MAX_FDS → s.fds.size + 2 ≤ cap

-- The bound is checked before two descriptors are entered, so that there is at most one too many.
theorem pipesBelow_succ (limitCycles : Nat) (s) : self.PipesBelow (MAX_FDS + 1) limitCycles s :=
  fun _ _ _ _ hlt => Nat.succ_le_succ hlt

theorem PipesFit.below (h : self.PipesFit limitCycles s) :
    self.PipesBelow MAX_FDS limitCycles s := by
  intro id a₁ a₂ hs hlt
  have hne := h id a₁ a₂ hs
  omega

theorem iterateInner_spec :
    Leaves cap (fun s => Coherent cap s ∧ self.PipesBelow cap limitCycles s)
    (self.iterateInner limitCycles) := by
  refine intro fun s hs => ?_
  have hsp : Triple (On s.table) (self.runSlice limitCycles) _ _ := runSlice_spec
  have hsl := hsp.apply hs.1.on
  rw [iterateInner, exec_bind]
  rcases hr : (self.runSlice limitCycles).exec s with ⟨e | ⟨id, r⟩, t⟩
  · simp only [hr] at hsl ⊢
    exact hsl.coherent hs.1.1
  · simp only [hr] at hsl ⊢
    refine (finishSlice_spec hs.1.1 hsl.1 fun a b hab => ?_).apply hsl.2
    exact hs.2 id a b (by rw [hr, hab])

def iterateToIo (self : VmRuntime M S) (limitCycles : Nat) :
    Run M S (Except ScriptError VmId × Nat) := do
  let iterateResult ← Stateful.attempt (self.iterateInner limitCycles)
  let spentCycles ← self.consumeIterationCycles
  if spentCycles > limitCycles then throw (.cyclesExceeded limitCycles spentCycles)
  else return (iterateResult, spentCycles)

theorem iterateOuter_eq (limitCycles : Nat) :
    self.iterateOuter limitCycles = self.iterateToIo limitCycles >>= fun r => do
      self.processIo
      let executedVm ← Stateful.lift r.1
      return (executedVm, limitCycles - r.2) := by
  unfold iterateOuter iterateToIo
  simp only [bind_assoc]
  refine congrArg _ (funext fun iterateResult => congrArg _ (funext fun spentCycles => ?_))
  split_ifs
  · rfl
  · rfl

theorem iterateToIo_spec :
    Leaves cap (fun s => Coherent cap s ∧ self.PipesBelow cap limitCycles s)
    (self.iterateToIo limitCycles) := by
  refine bind (Q := fun _ => Coherent cap) ((ofAttempt iterateInner_spec).relax ?_) fun res => ?_
  · intro r s hs
    cases r with
    | ok a => exact hs
    | error e => exact hs
  refine consumeIterationCycles_spec.bind fun spent => ?_
  exact ite (fun _ => ofThrow fun s hs => hs) fun _ => ofPure fun s hs => hs

theorem iterateOuter_spec :
    Leaves cap (fun s => Coherent cap s ∧ self.PipesBelow cap limitCycles s)
    (self.iterateOuter limitCycles) := by
  rw [iterateOuter_eq]
  refine iterateToIo_spec.bind fun r => ?_
  exact processIo_spec.bind fun _ => lift_keeps.bind fun _ => ofPure fun s hs => hs

theorem bootRootVmIfNeeded_spec :
    Leaves cap (Coherent cap) self.bootRootVmIfNeeded := by
  refine bind (ofGet fun s hs => ⟨hs.1, hs.on⟩) fun r => assume fun hr => ?_
  refine ite (fun he => ?_) fun _ => ofPure fun s hs => hs.coherent hr
  have hsi : r.table.states.size < MAX_VMS_COUNT := by
    have hn : r.states = ∅ := by simpa using he
    simp only [table, hn]
    decide
  refine bind (bootVmFromBytes_spec hr) fun id => ofPure fun s hs => ?_
  exact hs.2.coherent (hr.boot hsi)

-- The schedulers that any run of slices leads to, whatever the guests do in them.
inductive Reachable (self : VmRuntime M S) (allowed : Nat → VmScheduler M S → Prop) :
    VmScheduler M S → Prop
  | new : Reachable self allowed new
  | boot {s : VmScheduler M S} (hs : Reachable self allowed s) :
      Reachable self allowed (self.bootRootVmIfNeeded.after s)
  | slice {s : VmScheduler M S} (hs : Reachable self allowed s) {limitCycles : Nat}
      (hallowed : allowed limitCycles s) :
      Reachable self allowed ((self.iterateOuter limitCycles).after s)

theorem coherent_new : (new : VmScheduler M S).Coherent cap := by
  refine ⟨.of_owns (Nat.zero_le _) (Nat.zero_le _) ?_ ?_ ?_ ?_, ?_, ?_, Nat.zero_le _⟩ <;>
    simp [new, table]

theorem Reachable.coherent {allowed}
    (hallowed : ∀ limitCycles s, allowed limitCycles s → self.PipesBelow cap limitCycles s)
    (h : Reachable self allowed s) : s.Coherent cap := by
  induction h with
  | new => exact coherent_new
  | boot hs ih => exact bootRootVmIfNeeded_spec.after ih
  | slice hs hsl ih => exact iterateOuter_spec.after ⟨ih, hallowed _ _ hsl⟩

theorem reachable_wellFormed (h : Reachable self self.PipesFit s) :
    s.WellFormed := (h.coherent fun _ _ => PipesFit.below).wellFormed

end VmRuntime

-- A root that opens pipes until no descriptor is left, closes one and asks for another pipe. Its
-- machine is the number of slices it has run.
def pipeGuest : GuestVm Nat Nat where
  createMachine _ := .ok 0
  loadProgram machine _ _ _ _ := .ok machine
  run _ machine _ := (machine + 1, 1, .yielded (if machine = 32 then .close 2 else .pipe 0 0))
  makeSnapshot machine := .ok machine
  resumeSnapshot _ snapshot := .ok snapshot
  exitCode _ := 0
  setA0 machine _ := machine
  addCyclesNoChecking machine _ := .ok machine
  load64 _ _ := .ok 0
  loadCString _ _ := .ok []
  loadBytes _ _ _ := .ok []
  store8 machine _ _ := .ok machine
  store64 machine _ _ := .ok machine
  storeBytes machine _ _ := .ok machine

def pipeRuntime : VmRuntime Nat Nat where
  guest := pipeGuest
  config :=
    { maxCycles := 1000
      maxScriptSize := 1000
      rootProgram := []
      rootArgs := []
      programResolver := fun _ => .error 0 }

def VmRuntime.slices (self : VmRuntime Nat Nat) : Nat → VmScheduler Nat Nat
  | 0 => self.bootRootVmIfNeeded.after .new
  | n + 1 => (self.iterateOuter 10).after (self.slices n)

theorem VmRuntime.reachable_slices (self : VmRuntime Nat Nat) {allowed} {n : Nat}
    (h : ∀ k < n, allowed 10 (self.slices k)) : self.Reachable allowed (self.slices n) := by
  induction n with
  | zero => exact .boot .new
  | succ n ih => exact .slice (ih fun k hk => h k (Nat.lt_succ_of_lt hk)) (h n n.lt_succ_self)

-- A root that opens a pipe, hands its reading end to a child and writes, and a child that reads.
def talkGuest (readLength writeLength : Nat) : GuestVm Nat Nat :=
  { pipeGuest with
    run := fun vm machine _ => (machine + 1, 1, .yielded (match vm, machine with
      | 0, 0 => .pipe 0 0
      | 0, 1 => .spawn ⟨⟨⟨.cellDep, 0, .cellData⟩, 0, 0⟩, 0, 0, [2], 0⟩
      | 0, _ => .fdWrite ⟨3, writeLength, 0, 0⟩
      | _, _ => .fdRead ⟨2, readLength, 0, 0⟩)) }

def talkRuntime (readLength writeLength : Nat) : VmRuntime Nat Nat where
  guest := talkGuest readLength writeLength
  config := { pipeRuntime.config with programResolver := fun _ => .ok [0] }

theorem wellFormed_talk : ((talkRuntime 5 5).slices 3).WellFormed ∧
    ((talkRuntime 5 5).slices 3).states.size = 2 := by
  have hsize : ∀ k < 3, ((talkRuntime 5 5).slices k).fds.size ≠ MAX_FDS - 1 := by decide +kernel
  have hfits : ∀ k < 3, (talkRuntime 5 5).PipesFit 10 ((talkRuntime 5 5).slices k) :=
    fun k hk _ _ _ _ => hsize k hk
  exact ⟨VmRuntime.reachable_wellFormed (VmRuntime.reachable_slices _ hfits), by decide +kernel⟩

-- 32 pipes, one descriptor closed, and a pipe for which there is room for one end only.
theorem pipe_exceeds_maxFds : ∃ s, pipeRuntime.Reachable (fun _ _ => True) s ∧ ¬ s.WellFormed := by
  refine ⟨pipeRuntime.slices 34, pipeRuntime.reachable_slices fun _ _ => trivial, fun h => ?_⟩
  have hs : (pipeRuntime.slices 34).fds.size = 65 := by decide +kernel
  have hle := h.fds_le
  rw [hs] at hle
  exact absurd hle (by decide)

end Spora
