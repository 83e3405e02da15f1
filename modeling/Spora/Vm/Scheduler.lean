import Spora.Lib.Stateful
import Spora.Vm.ScriptGroups

namespace Spora

open Std

abbrev VmId := Nat

def ROOT_VM_ID : VmId := 0

def MAX_VMS_COUNT : Nat := 16

def MAX_INSTANTIATED_VMS : Nat := 4

def MAX_FDS : Nat := 64

def FIRST_FD_SLOT : Nat := 2

def MAX_ARGV_LENGTH : Nat := 1024 * 1024

def SPAWN_EXTRA_CYCLES_BASE : Nat := 100000

def SUCCESS : Nat := 0

def WAIT_FAILURE : Nat := 5

def INVALID_FD : Nat := 6

def OTHER_END_CLOSED : Nat := 7

def MAX_VMS_SPAWNED : Nat := 8

def MAX_FDS_CREATED : Nat := 9

def SLICE_OUT_OF_BOUND : Nat := 3

def transferredByteCycles (bytes : Nat) : Nat := bytes / 2

inductive Source
  | input
  | output
  | cellDep
  | headerDep
  | groupInput
  | groupOutput
  | groupCellDep
  | groupHeaderDep
deriving DecidableEq, Repr

inductive ProgramPlace
  | cellData
  | witness
deriving DecidableEq, Repr

structure ProgramPiece where
  source : Source
  index : Nat
  place : ProgramPlace
deriving DecidableEq, Repr

structure ProgramLocation where
  piece : ProgramPiece
  offset : Nat
  length : Nat
deriving DecidableEq, Repr

inductive ProgramDataId
  | root
  | piece (piece : ProgramPiece)
deriving DecidableEq, Repr

-- Both ends of a pipe are numbered, an even slot for reading and the next odd one for writing.
abbrev Fd := Nat

def Fd.otherFd (fd : Fd) : Fd := fd ^^^ 1

structure ReadState where
  fd : Fd
  length : Nat
  bufferAddr : Nat
  lengthAddr : Nat
deriving DecidableEq, Repr

structure WriteState where
  fd : Fd
  consumed : Nat
  length : Nat
  bufferAddr : Nat
  lengthAddr : Nat
deriving DecidableEq, Repr

inductive VmState
  | runnable
  | terminated
  | wait (targetVmId : VmId) (exitCodeAddr : Nat)
  | waitForWrite (state : WriteState)
  | waitForRead (state : ReadState)
deriving DecidableEq, Repr

structure SpawnRequest where
  location : ProgramLocation
  argc : Nat
  argv : Nat
  fds : List Fd
  processIdAddr : Nat
deriving DecidableEq, Repr

structure FdRequest where
  fd : Fd
  length : Nat
  bufferAddr : Nat
  lengthAddr : Nat
deriving DecidableEq, Repr

-- What a guest asks the scheduler for. The sender is the machine that ran.
inductive Message
  | spawn (request : SpawnRequest)
  | wait (targetId : VmId) (exitCodeAddr : Nat)
  | pipe (fd1Addr fd2Addr : Nat)
  | fdRead (request : FdRequest)
  | fdWrite (request : FdRequest)
  | inheritedFileDescriptor (request : FdRequest)
  | close (fd : Fd)
deriving DecidableEq, Repr

inductive CkbVmError
  | cyclesExceeded
  | pause
  | other (message : String)
deriving DecidableEq, Repr

-- How `machine.run()` ends. A syscall that leaves a message in the box yields at once, so that a
-- slice carries at most one.
inductive SliceEnd
  | exited (code : Int)
  | yielded (message : Message)
  | failed (error : CkbVmError)
deriving DecidableEq, Repr

def mapVmError (maxCycles : Nat) : CkbVmError → ScriptError
  | .cyclesExceeded => .cyclesExceeded maxCycles (saturatingAdd maxCycles 1)
  | .pause => .executionError "pause"
  | .other message => .executionError message

-- The RISC-V machine with its snapshots, memory and syscalls, and with it the guest code.
structure GuestVm (M S : Type) where
  createMachine : VmId → Except ScriptError M
  loadProgram : M → ProgramDataId → Nat → Bytes → List Bytes → Except ScriptError M
  -- The machine after a slice of at most the given cycles, the cycles it used and how it ended.
  run : VmId → M → Nat → M × Nat × SliceEnd
  makeSnapshot : M → Except CkbVmError S
  resumeSnapshot : M → S → Except CkbVmError M
  exitCode : M → Int
  setA0 : M → Nat → M
  addCyclesNoChecking : M → Nat → Except CkbVmError M
  load64 : M → Nat → Except CkbVmError Nat
  loadCString : M → Nat → Except CkbVmError Bytes
  loadBytes : M → Nat → Nat → Except CkbVmError Bytes
  store8 : M → Nat → Int → Except CkbVmError M
  store64 : M → Nat → Nat → Except CkbVmError M
  storeBytes : M → Nat → Bytes → Except CkbVmError M

structure SchedulerConfig where
  maxCycles : Nat
  maxScriptSize : Nat
  rootProgram : Bytes
  rootArgs : List Bytes
  programResolver : ProgramPiece → Except Nat Bytes

-- A spawn charges more than 100000 cycles and a pipe 800 of a u64 total, so the two counters
-- `nextVmId` and `nextFdSlot` stay below their bounds.
structure VmScheduler (M S : Type) where
  totalCycles : Nat
  iterationCycles : Nat
  nextVmId : VmId
  nextFdSlot : Nat
  states : ExtTreeMap VmId VmState
  fds : ExtTreeMap Fd VmId
  inheritedFd : ExtTreeMap VmId (List Fd)
  instantiated : ExtTreeMap VmId M
  suspended : ExtTreeMap VmId S
  terminatedVms : ExtTreeMap VmId Int

def sliceProgram (payload : Bytes) (offset length : Nat) : Except Nat Bytes :=
  if offset ≥ payload.length then .error SLICE_OUT_OF_BOUND
  else if length = 0 then .ok (payload.drop offset)
  else if offset + length > payload.length then .error SLICE_OUT_OF_BOUND
  else .ok ((payload.drop offset).take length)

namespace VmScheduler

def new {M S : Type} : VmScheduler M S where
  totalCycles := 0
  iterationCycles := 0
  nextVmId := ROOT_VM_ID
  nextFdSlot := FIRST_FD_SLOT
  states := ∅
  fds := ∅
  inheritedFd := ∅
  instantiated := ∅
  suspended := ∅
  terminatedVms := ∅

end VmScheduler

structure VmRuntime (M S : Type) where
  guest : GuestVm M S
  config : SchedulerConfig

namespace VmRuntime

variable {M S : Type}

abbrev Run (M S α : Type) := Stateful ScriptError (VmScheduler M S) α

variable (self : VmRuntime M S)

def vmTry {α : Type} (x : Except CkbVmError α) : Run M S α :=
  Stateful.lift (x.mapError (mapVmError self.config.maxCycles))

def cyclesOverflow : ScriptError :=
  .cyclesExceeded self.config.maxCycles (saturatingAdd self.config.maxCycles 1)

def addIterationCycles (cycles : Nat) : Run M S Unit := do
  let s ← get
  let iterationCycles ← Stateful.okOr (checkedAdd s.iterationCycles cycles) self.cyclesOverflow
  modify fun s => { s with iterationCycles }

def resumeVm (id : VmId) : Run M S Unit := do
  let s ← get
  let snapshot ← Stateful.okOr s.suspended[id]? (.executionError s!"VM {id} is not suspended")
  self.addIterationCycles SPAWN_EXTRA_CYCLES_BASE
  let machine ← Stateful.lift (self.guest.createMachine id)
  let machine ← self.vmTry (self.guest.resumeSnapshot machine snapshot)
  modify fun s => { s with
    instantiated := s.instantiated.insert id machine
    suspended := s.suspended.erase id }

def suspendVm (id : VmId) : Run M S Unit := do
  self.addIterationCycles SPAWN_EXTRA_CYCLES_BASE
  let s ← get
  let machine ← Stateful.okOr s.instantiated[id]? (.executionError s!"VM {id} is not instantiated")
  let snapshot ← self.vmTry (self.guest.makeSnapshot machine)
  modify fun s => { s with
    suspended := s.suspended.insert id snapshot
    instantiated := s.instantiated.erase id }

-- Resumes from the end of the list while there is room; the list is given in reverse.
def resumeWhileRoom : List VmId → Run M S (List VmId)
  | [] => pure []
  | id :: rest => do
    let s ← get
    if s.instantiated.size < MAX_INSTANTIATED_VMS then
      self.resumeVm id
      resumeWhileRoom rest
    else pure (id :: rest)

def ensureVmsInstantiated (ids : List VmId) : Run M S Unit := do
  if ids.length > MAX_INSTANTIATED_VMS then
    throw (.executionError
      s!"at most {MAX_INSTANTIATED_VMS} VMs can be instantiated, requested {ids.length}")
  else
    let s ← get
    let uninstantiatedIds := ids.filter fun id => !s.instantiated.contains id
    let left ← self.resumeWhileRoom uninstantiatedIds.reverse
    if left.isEmpty then pure ()
    else
      let s ← get
      let suspendableIds := s.instantiated.keys.filter fun id => !ids.contains id
      if suspendableIds.length < left.length then
        throw (.executionError "unable to suspend enough VMs to satisfy instantiation request")
      else
        (suspendableIds.zip left.reverse).forM fun (suspendId, resumeId) => do
          self.suspendVm suspendId
          self.resumeVm resumeId

-- `ensure_get_machine_mut`: the machine is read here and written back with `setMachine`.
def getMachine (id : VmId) : Run M S M := do
  self.ensureVmsInstantiated [id]
  let s ← get
  Stateful.okOr s.instantiated[id]? (.executionError s!"VM {id} is missing")

def setMachine (id : VmId) (machine : M) : Run M S Unit :=
  modify fun s => { s with instantiated := s.instantiated.insert id machine }

def setState (id : VmId) (state : VmState) : Run M S Unit :=
  modify fun s => { s with states := s.states.insert id state }

def reply (id : VmId) (code : Nat) : Run M S Unit := do
  let machine ← self.getMachine id
  setMachine id (self.guest.setA0 machine code)

def replyWith (id : VmId) (store : M → Except CkbVmError M) : Run M S Unit := do
  let machine ← self.getMachine id
  let machine ← self.vmTry (store machine)
  setMachine id (self.guest.setA0 machine SUCCESS)

def checkedAddOr (a b : Nat) (message : String) : Except ScriptError Nat :=
  (checkedAdd a b).elim (.error (.executionError message)) .ok

def collectArgs (machine : M) : Nat → Nat → Nat → List Bytes → Run M S (List Bytes)
  | 0, _, _, args => pure args
  | argc + 1, argvAddr, totalLength, args => do
    let argAddr ← self.vmTry (self.guest.load64 machine argvAddr)
    let arg ← self.vmTry (self.guest.loadCString machine argAddr)
    let totalLength ← Stateful.lift
      (checkedAddOr totalLength (8 + arg.length) "argv length overflow")
    if totalLength > MAX_ARGV_LENGTH then
      throw (.executionError "argv length exceeds MAX_ARGV_LENGTH")
    else
      let argvAddr ← Stateful.lift (checkedAddOr argvAddr 8 "argv pointer overflow")
      collectArgs machine argc argvAddr totalLength (args ++ [arg])

inductive VmArgs
  | vector (args : List Bytes)
  | reader (vmId : VmId) (argc argv : Nat)

def collectArgsFromVm (vmId : VmId) (argc argv : Nat) : Run M S (List Bytes) := do
  let machine ← self.getMachine vmId
  self.collectArgs machine argc argv 0 []

def vmArgs : VmArgs → Run M S (List Bytes)
  | .vector args => pure args
  | .reader vmId argc argv => self.collectArgsFromVm vmId argc argv

def loadProgramIntoMachine (machine : M) (programId : ProgramDataId) (dataOffset : Nat)
    (program : Bytes) (args : VmArgs) : Run M S M := do
  if program.length > self.config.maxScriptSize then
    throw (.scriptTooLarge program.length self.config.maxScriptSize)
  else
    let collectedArgs ← self.vmArgs args
    Stateful.lift (self.guest.loadProgram machine programId dataOffset program collectedArgs)

-- `while self.instantiated.len() >= MAX_INSTANTIATED_VMS`: each turn suspends one, so that no more
-- turns are needed than machines are instantiated.
def suspendFirst : Nat → Run M S Unit
  | 0 => pure ()
  | turns + 1 => do
    let s ← get
    if s.instantiated.size ≥ MAX_INSTANTIATED_VMS then
      let suspendedId ← Stateful.okOr s.instantiated.minKey?
        (.executionError "instantiated VM map unexpectedly empty")
      self.suspendVm suspendedId
      suspendFirst turns
    else pure ()

def bootVmFromBytes (programId : ProgramDataId) (dataOffset : Nat) (program : Bytes)
    (args : VmArgs) : Run M S VmId := do
  let vmId := (← get).nextVmId
  modify fun s => { s with nextVmId := s.nextVmId + 1 }
  let machine ← Stateful.lift (self.guest.createMachine vmId)
  let machine ← self.loadProgramIntoMachine machine programId dataOffset program args
  self.suspendFirst (← get).instantiated.size
  modify fun s => { s with
    instantiated := s.instantiated.insert vmId machine
    states := s.states.insert vmId .runnable }
  return vmId

def bootVm (location : ProgramLocation) (args : VmArgs) : Run M S VmId := do
  let payload ← Stateful.lift ((self.config.programResolver location.piece).mapError fun code =>
    .syscallError s!"failed to resolve spawned program payload: return code {code}")
  let program ← Stateful.lift ((sliceProgram payload location.offset location.length).mapError
    fun code => .syscallError s!"invalid spawned program slice: return code {code}")
  self.bootVmFromBytes (.piece location.piece) location.offset program args

def bootRootVmIfNeeded : Run M S Unit := do
  if (← get).states.isEmpty then
    let _ ← self.bootVmFromBytes .root 0 self.config.rootProgram (.vector self.config.rootArgs)

def handleSpawn (vmId : VmId) (args : SpawnRequest) : Run M S Unit := do
  let s ← get
  if args.fds.any fun fd => s.fds[fd]? != some vmId then
    self.reply vmId INVALID_FD
  else if s.states.size ≥ MAX_VMS_COUNT then
    self.reply vmId MAX_VMS_SPAWNED
  else
    let spawnedVmId ← self.bootVm args.location (.reader vmId args.argc args.argv)
    modify fun s => { s with
      fds := args.fds.foldl (fun fds fd => fds.insert fd spawnedVmId) s.fds
      inheritedFd := s.inheritedFd.insert spawnedVmId args.fds }
    self.replyWith vmId fun machine => self.guest.store64 machine args.processIdAddr spawnedVmId

def handleWait (vmId targetId : VmId) (exitCodeAddr : Nat) : Run M S Unit := do
  let s ← get
  match s.terminatedVms[targetId]? with
  | some exitCode =>
    self.replyWith vmId fun machine => self.guest.store8 machine exitCodeAddr exitCode
    setState vmId .runnable
    modify fun s => { s with terminatedVms := s.terminatedVms.erase targetId }
  | none =>
    if !s.states.contains targetId then self.reply vmId WAIT_FAILURE
    else setState vmId (.wait targetId exitCodeAddr)

-- The bound is checked before two descriptors are entered.
def handlePipe (vmId : VmId) (fd1Addr fd2Addr : Nat) : Run M S Unit := do
  let s ← get
  if s.fds.size ≥ MAX_FDS then self.reply vmId MAX_FDS_CREATED
  else
    let fd1 := s.nextFdSlot
    let fd2 := s.nextFdSlot + 1
    modify fun s => { s with
      nextFdSlot := s.nextFdSlot + 2
      fds := (s.fds.insert fd1 vmId).insert fd2 vmId }
    self.replyWith vmId fun machine => do
      let machine ← self.guest.store64 machine fd1Addr fd1
      self.guest.store64 machine fd2Addr fd2

-- Reading and writing check the descriptor alike and leave the guest waiting.
def handleFdRequest (vmId : VmId) (fd : Fd) (waiting : VmState) : Run M S Unit := do
  let s ← get
  if s.fds[fd]? ≠ some vmId then self.reply vmId INVALID_FD
  else if !s.fds.contains fd.otherFd then self.reply vmId OTHER_END_CLOSED
  else setState vmId waiting

def handleFdRead (vmId : VmId) (args : FdRequest) : Run M S Unit :=
  self.handleFdRequest vmId args.fd
    (.waitForRead ⟨args.fd, args.length, args.bufferAddr, args.lengthAddr⟩)

def handleFdWrite (vmId : VmId) (args : FdRequest) : Run M S Unit :=
  self.handleFdRequest vmId args.fd
    (.waitForWrite ⟨args.fd, 0, args.length, args.bufferAddr, args.lengthAddr⟩)

def storeFds (machine : M) (addr : Nat) : List Fd → Nat → Except ScriptError M
  | [], _ => .ok machine
  | fd :: rest, i => do
    let target ← checkedAddOr addr (i * 8) "inherited fd buffer overflow"
    let machine ← (self.guest.store64 machine target fd).mapError (mapVmError self.config.maxCycles)
    storeFds machine addr rest (i + 1)

def handleInheritedFileDescriptor (vmId : VmId) (args : FdRequest) : Run M S Unit := do
  let s ← get
  let inheritedFd := if vmId = ROOT_VM_ID then [] else s.inheritedFd[vmId]?.getD []
  let machine ← self.getMachine vmId
  let fullLength ← self.vmTry (self.guest.load64 machine args.lengthAddr)
  let machine ← Stateful.lift
    (self.storeFds machine args.bufferAddr (inheritedFd.take (min fullLength inheritedFd.length)) 0)
  let machine ← self.vmTry (self.guest.store64 machine args.lengthAddr inheritedFd.length)
  setMachine vmId (self.guest.setA0 machine SUCCESS)

def handleClose (vmId : VmId) (fd : Fd) : Run M S Unit := do
  let s ← get
  if s.fds[fd]? = some vmId then
    modify fun s => { s with fds := s.fds.erase fd }
    self.reply vmId SUCCESS
  else self.reply vmId INVALID_FD

def processMessage (vmId : VmId) : Message → Run M S Unit
  | .spawn request => self.handleSpawn vmId request
  | .wait targetId exitCodeAddr => self.handleWait vmId targetId exitCodeAddr
  | .pipe fd1Addr fd2Addr => self.handlePipe vmId fd1Addr fd2Addr
  | .fdRead request => self.handleFdRead vmId request
  | .fdWrite request => self.handleFdWrite vmId request
  | .inheritedFileDescriptor request => self.handleInheritedFileDescriptor vmId request
  | .close fd => self.handleClose vmId fd

def processMessageBox (vmId : VmId) : SliceEnd → Run M S Unit
  | .yielded message => self.processMessage vmId message
  | _ => pure ()

-- The machines that wait for `vmId`, with the address each wants the exit code at.
def joiningVms (states : ExtTreeMap VmId VmState) (vmId : VmId) : List (VmId × Nat) :=
  states.toList.filterMap fun (id, state) =>
    match state with
    | .wait targetVmId exitCodeAddr => if targetVmId = vmId then some (id, exitCodeAddr) else none
    | _ => none

def terminateRoot (vmId : VmId) (code : Int) : Run M S Unit :=
  modify fun s => { s with
    terminatedVms := s.terminatedVms.insert vmId code
    instantiated := s.instantiated.filter fun id _ => id = vmId
    suspended := ∅
    states := (∅ : ExtTreeMap VmId VmState).insert vmId .terminated
    fds := ∅
    inheritedFd := ∅ }

def terminateChild (vmId : VmId) (code : Int) : Run M S Unit := do
  modify fun s => { s with terminatedVms := s.terminatedVms.insert vmId code }
  (joiningVms (← get).states vmId).forM fun (id, exitCodeAddr) => do
    self.replyWith id fun machine => self.guest.store8 machine exitCodeAddr code
    setState id .runnable
  modify fun s => { s with
    fds := s.fds.filter fun _ owner => owner ≠ vmId
    inheritedFd := s.inheritedFd.erase vmId
    states := s.states.erase vmId
    instantiated := s.instantiated.erase vmId
    suspended := s.suspended.erase vmId }

def iterateProcessResults (vmId : VmId) : SliceEnd → Run M S Unit
  | .exited code => if vmId = ROOT_VM_ID then
    terminateRoot vmId code else self.terminateChild vmId code
  | .yielded _ => pure ()
  | .failed .pause => throw .paused
  | .failed .cyclesExceeded => throw self.cyclesOverflow
  | .failed (.other message) => throw (.executionError message)

-- The readers whose other end is open, by the descriptor they read from.
def pendingReads (s : VmScheduler M S) : ExtTreeMap Fd (VmId × ReadState) :=
  s.states.toList.foldl (fun reads (id, state) =>
    match state with
    | .waitForRead inner =>
      if s.fds.contains inner.fd.otherFd then reads.insert inner.fd (id, inner) else reads
    | _ => reads) ∅

def waitsOnClosed (s : VmScheduler M S) : VmState → Bool
  | .waitForRead inner => !s.fds.contains inner.fd.otherFd
  | .waitForWrite inner => !s.fds.contains inner.fd.otherFd
  | _ => false

def closedVms (s : VmScheduler M S) : List VmId :=
  (s.states.toList.filter fun (_, state) => waitsOnClosed s state).map Prod.fst

structure IoPair where
  readVmId : VmId
  readState : ReadState
  writeVmId : VmId
  writeState : WriteState

def ioPairs (s : VmScheduler M S) : List IoPair :=
  s.states.toList.filterMap fun (id, state) =>
    match state with
    | .waitForWrite inner =>
      if s.fds.contains inner.fd.otherFd then
        (pendingReads s)[inner.fd.otherFd]?.map fun (readVmId, readState) =>
          ⟨readVmId, readState, id, inner⟩
      else none
    | _ => none

-- A wait on a pipe whose other end is gone is over, with what was transferred so far.
def releaseClosed (vmId : VmId) : Run M S Unit := do
  match (← get).states[vmId]? with
  | some (.waitForRead inner) =>
    self.replyWith vmId fun machine => self.guest.store64 machine inner.lengthAddr 0
    setState vmId .runnable
  | some (.waitForWrite inner) =>
    self.replyWith vmId fun machine => self.guest.store64 machine inner.lengthAddr inner.consumed
    setState vmId .runnable
  | _ => pure ()

def chargeTransfer (machine : M) (bytes : Nat) : Except CkbVmError M :=
  self.guest.addCyclesNoChecking machine (transferredByteCycles bytes)

def takeFromWriter (vmId : VmId) (state : WriteState) (copiable : Nat) : Run M S Bytes := do
  let machine ← self.getMachine vmId
  let machine ← self.vmTry (self.chargeTransfer machine copiable)
  let data ← self.vmTry
    (self.guest.loadBytes machine ((state.bufferAddr + state.consumed) % 2 ^ 64) copiable)
  setMachine vmId machine
  return data

def giveToReader (vmId : VmId) (state : ReadState) (data : Bytes) (copiable : Nat) : Run M S Unit :=
  do
  self.replyWith vmId fun machine => do
    let machine ← self.chargeTransfer machine copiable
    let machine ← self.guest.storeBytes machine state.bufferAddr data
    self.guest.store64 machine state.lengthAddr copiable
  setState vmId .runnable

def transfer (pair : IoPair) : Run M S Unit := do
  self.ensureVmsInstantiated [pair.readVmId, pair.writeVmId]
  let write := pair.writeState
  let copiable := min pair.readState.length (write.length - write.consumed)
  if copiable = 0 then pure ()
  else
    let data ← self.takeFromWriter pair.writeVmId write copiable
    self.giveToReader pair.readVmId pair.readState data copiable
    let consumed := saturatingAdd write.consumed copiable
    if consumed ≥ write.length then
      self.replyWith pair.writeVmId fun machine =>
        self.guest.store64 machine write.lengthAddr write.length
      setState pair.writeVmId .runnable
    else setState pair.writeVmId (.waitForWrite { write with consumed })

-- Both lists are collected from the states before the first of them is acted on.
def processIo : Run M S Unit := do
  let s ← get
  (closedVms s).forM self.releaseClosed
  (ioPairs s).forM self.transfer

def remainingCycles : Run M S Nat := do
  let consumed := (← get).totalCycles
  if consumed ≥ self.config.maxCycles then
    throw (.cyclesExceeded self.config.maxCycles consumed)
  else pure (self.config.maxCycles - consumed)

def consumeIterationCycles : Run M S Nat := do
  let s ← get
  let spentCycles := s.iterationCycles
  let nextTotal ← Stateful.okOr (checkedAdd s.totalCycles spentCycles) self.cyclesOverflow
  if nextTotal > self.config.maxCycles then
    throw (.cyclesExceeded self.config.maxCycles nextTotal)
  else
    modify fun s => { s with totalCycles := nextTotal, iterationCycles := 0 }
    return spentCycles

def pickRunnable (states : ExtTreeMap VmId VmState) : Option VmId :=
  (states.toList.reverse.find? fun (_, state) => state = .runnable).map Prod.fst

def iteratePrepareMachine : Run M S VmId := do
  let vmIdToRun ← Stateful.okOr (pickRunnable (← get).states)
    (.executionError "scheduler deadlock: no runnable VMs")
  self.ensureVmsInstantiated [vmIdToRun]
  return vmIdToRun

-- Runs the picked machine up to its budget and keeps account of the cycles.
def runSlice (limitCycles : Nat) : Run M S (VmId × SliceEnd) := do
  let vmIdToRun ← self.iteratePrepareMachine
  let remainingCycles ← self.remainingCycles
  let machine ← self.getMachine vmIdToRun
  let (machine, cycles, result) :=
    self.guest.run vmIdToRun machine (min remainingCycles limitCycles)
  setMachine vmIdToRun machine
  self.addIterationCycles cycles
  return (vmIdToRun, result)

def iterateInner (limitCycles : Nat) : Run M S VmId := do
  let (vmIdToRun, result) ← self.runSlice limitCycles
  self.processMessageBox vmIdToRun result
  self.iterateProcessResults vmIdToRun result
  return vmIdToRun

def iterateOuter (limitCycles : Nat) : Run M S (VmId × Nat) := do
  let iterateResult ← Stateful.attempt (self.iterateInner limitCycles)
  let spentCycles ← self.consumeIterationCycles
  if spentCycles > limitCycles then throw (.cyclesExceeded limitCycles spentCycles)
  else
    self.processIo
    let executedVm ← Stateful.lift iterateResult
    return (executedVm, limitCycles - spentCycles)

end VmRuntime

end Spora
