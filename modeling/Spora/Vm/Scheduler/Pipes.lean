import Spora.Vm.Scheduler.Theorems

namespace Spora

open Std Stateful Triple TreeMap List ExtTreeMap VmState Option

namespace VmRuntime

open VmScheduler

variable {M S : Type} {self : VmRuntime M S} {cap : Nat} {T : VmTable} {vm : VmId}

def IoPair.copiable (pair : IoPair) : Nat :=
  min pair.readState.length (pair.writeState.length - pair.writeState.consumed)

structure IoPair.Matched (pair : IoPair) (states : ExtTreeMap VmId VmState) : Prop where
  reads : states[pair.readVmId]? = some (.waitForRead pair.readState)
  writes : states[pair.writeVmId]? = some (.waitForWrite pair.writeState)
  ends : pair.writeState.fd.otherFd = pair.readState.fd

def release (states : ExtTreeMap VmId VmState) (vm : VmId) : ExtTreeMap VmId VmState :=
  match states[vm]? with
  | some (.waitForRead _) => states.insert vm .runnable
  | some (.waitForWrite _) => states.insert vm .runnable
  | _ => states

def IoPair.advanced (pair : IoPair) : VmState :=
  let consumed := saturatingAdd pair.writeState.consumed pair.copiable
  if consumed ≥ pair.writeState.length then .runnable
  else .waitForWrite { pair.writeState with consumed }

def advance (states : ExtTreeMap VmId VmState) (pair : IoPair) : ExtTreeMap VmId VmState :=
  if pair.copiable = 0 then states
  else (states.insert pair.readVmId .runnable).insert pair.writeVmId pair.advanced

-- A computation that succeeds only with a known effect on the states.
def Moves (m : Run M S Unit) (T : VmTable) (states : ExtTreeMap VmId VmState) : Prop :=
  Triple (On T) m (fun _ => On { T with states }) fun _ => True

theorem Keeps.moves {α} {m : Run M S α} (h : Keeps m) (T) :
    Triple (On T) m (fun _ => On T) fun _ => True := (h T).failing fun _ _ => trivial

theorem releaseClosed_moves (hvm : vm ∈ T.states) :
    Moves (self.releaseClosed vm) T (release T.states vm) := by
  refine bind (Q := fun r s => r.states = T.states ∧ On T s)
    (ofGet fun s hs => ⟨congrArg VmTable.states hs.1, hs⟩) fun r => assume fun hr => ?_
  rw [hr]
  unfold release
  have hrun {store} : Triple (On T) (self.replyWith vm store >>= fun _ => setState vm .runnable)
      (fun _ => On { T with states := T.states.insert vm .runnable }) fun _ => True :=
    ((replyWith_keeps _).moves T).bind fun _ => setState_spec hvm
  cases T.states[vm]? with
  | none => exact ofPure fun s hs => hs
  | some state =>
    cases state with
    | waitForRead inner => exact hrun
    | waitForWrite inner => exact hrun
    | _ => exact ofPure fun s hs => hs

variable {pair : IoPair} {states : ExtTreeMap VmId VmState}

theorem transfer_moves (hread : pair.readVmId ∈ T.states) (hwrite : pair.writeVmId ∈ T.states) :
    Moves (self.transfer pair) T (advance T.states pair) := by
  unfold Moves transfer advance IoPair.advanced IoPair.copiable
  refine ((ensureVmsInstantiated_keeps _).moves T).bind fun _ => ?_
  refine ite (fun hz => ofPure fun s hs => ?_) fun hne => ?_
  · rw [if_pos hz]
    exact hs
  rw [if_neg hne]
  refine ((takeFromWriter_keeps _ _).moves T).bind fun data => ?_
  have hw' : pair.writeVmId ∈ T.states.insert pair.readVmId .runnable :=
    TreeMap.mem_insert.mpr (.inr hwrite)
  refine bind (((replyWith_keeps _).moves T).bind fun _ => setState_spec hread) fun _ => ?_
  refine ite (fun hd => ?_) fun hm => ?_
  · rw [if_pos hd]
    exact ((replyWith_keeps _).moves _).bind fun _ => setState_spec hw'
  · rw [if_neg hm]
    exact setState_spec hw'

theorem forM_moves {β : Type} {l : List β} {f : β → Run M S Unit} {g} (ids : β → List VmId)
    (hkeep : ∀ states b id, id ∈ states → id ∈ g states b)
    (hstep : ∀ T, ∀ b ∈ l, (∀ id ∈ ids b, id ∈ T.states) → Moves (f b) T (g T.states b))
    (hids : ∀ b ∈ l, ∀ id ∈ ids b, id ∈ T.states) : Moves (l.forM f) T (l.foldl g T.states) := by
  induction l generalizing T with
  | nil => exact ofPure fun s hs => hs
  | cons b l ih =>
    rw [forall_mem_cons] at hids
    refine bind (hstep T b mem_cons_self hids.1) fun _ => ?_
    exact ih (fun T c hc => hstep T c (mem_cons_of_mem b hc)) fun c hc id hid =>
      hkeep _ _ _ (hids.2 c hc id hid)

theorem mem_release {id} (h : id ∈ states) : id ∈ release states vm := by
  unfold release
  split
  · exact TreeMap.mem_insert.mpr (.inr h)
  · exact TreeMap.mem_insert.mpr (.inr h)
  · exact h

theorem mem_advance {id} (h : id ∈ states) : id ∈ advance states pair := by
  unfold advance
  split_ifs
  · exact h
  · exact TreeMap.mem_insert.mpr (.inr (TreeMap.mem_insert.mpr (.inr h)))

def served (s : VmScheduler M S) : ExtTreeMap VmId VmState :=
  (ioPairs s).foldl advance ((closedVms s).foldl release s.states)

theorem states_of_processIo {s t} (hs : s.Placed)
    (h : self.processIo.exec s = (.ok (), t)) : t.states = served s := by
  have hm : Triple (fun r => r = s) self.processIo (fun _ => On { s.table with states := served s })
      fun _ => True := by
    refine bind (Q := fun r t => r = s ∧ On s.table t) (ofGet ?_) fun r => assume ?_
    · rintro r rfl
      exact ⟨rfl, rfl, hs⟩
    rintro rfl
    have hmem {id} {state} (hst : r.states[id]? = some state) : id ∈ r.states := mem_of_getElem? hst
    refine bind (forM_moves (g := release) (fun vm => [vm]) (fun _ _ _ => mem_release)
      (fun T vm _ hvm => releaseClosed_moves (hvm vm mem_cons_self)) fun vm hvm id hid =>
        mem_singleton.mp hid ▸ mem_states_of_mem_closedVms hvm) fun _ => ?_
    refine forM_moves (fun pair => [pair.readVmId, pair.writeVmId]) (fun _ _ _ => mem_advance)
      (fun T pair _ hids => transfer_moves (hids _ mem_cons_self)
        (hids _ (mem_cons_of_mem _ mem_cons_self))) fun pair hp id hid => ?_
    obtain ⟨hr, hw, -⟩ := states_of_mem_ioPairs hp
    have hb : id ∈ r.states := by
      rcases mem_pair.mp hid with rfl | rfl
      · exact hmem hr
      · exact hmem hw
    exact List.foldlRecOn (motive := fun states => id ∈ states) _ _ hb fun states hin vm _ =>
      mem_release hin
  have he := hm.apply rfl
  rw [h] at he
  exact congrArg VmTable.states he.1

theorem otherFd_otherFd (fd : Fd) : fd.otherFd.otherFd = fd := by
  rw [Fd.otherFd, Fd.otherFd, Nat.xor_assoc, Nat.xor_self, Nat.xor_zero]

theorem getElem?_release (states) (vm id : VmId) :
    (release states vm)[id]? = states[id]? ∨ (release states vm)[id]? = some .runnable ∧
    vm = id := by
  unfold release
  split
  · rw [getElem?_insert_eq]
    split_ifs with heq
    · exact .inr ⟨rfl, heq⟩
    · exact .inl rfl
  · rw [getElem?_insert_eq]
    split_ifs with heq
    · exact .inr ⟨rfl, heq⟩
    · exact .inl rfl
  · exact .inl rfl

theorem getElem?_advance (hcopiable : pair.copiable ≠ 0) (states) (id : VmId) :
    (advance states pair)[id]? = if pair.writeVmId = id then some pair.advanced
      else if pair.readVmId = id then some .runnable else states[id]? := by
  rw [advance, if_neg hcopiable, getElem?_insert_eq, getElem?_insert_eq]

theorem fd_of_advanced {w} (h : pair.advanced = .waitForWrite w) : w.fd = pair.writeState.fd := by
  unfold IoPair.advanced at h
  dsimp only at h
  split_ifs at h
  obtain rfl := waitForWrite.inj h
  rfl

theorem advanced_ne_waitForRead (pair : IoPair) (r) : pair.advanced ≠ .waitForRead r := by
  unfold IoPair.advanced
  dsimp only
  split_ifs
  · exact VmState.noConfusion
  · exact VmState.noConfusion

section Served

variable {s t : VmScheduler M S} {pair other : IoPair} {id : VmId}

theorem served_induction {P : ExtTreeMap VmId VmState → Prop} (hstates : P s.states)
    (hrelease : ∀ states, P states → ∀ vm ∈ closedVms s, P (release states vm))
    (hadvance : ∀ states, P states → ∀ pair ∈ ioPairs s, pair.copiable ≠ 0 →
      P (advance states pair)) : P (served s) := by
  refine List.foldlRecOn _ _ (List.foldlRecOn _ _ hstates hrelease) fun states hP pair hp => ?_
  by_cases hz : pair.copiable = 0
  · rw [advance, if_pos hz]
    exact hP
  · exact hadvance states hP pair hp hz

theorem waitsForRead_of_served {r} (h : (served s)[id]? = some (.waitForRead r)) :
    s.states[id]? = some (.waitForRead r) := by
  revert h
  refine served_induction (P := fun states => states[id]? = some (.waitForRead r) →
    _) (fun h => h) ?_ ?_
  · intro states ih vm _ h
    rcases getElem?_release states vm id with heq | ⟨heq, -⟩
    · exact ih (heq ▸ h)
    · rw [heq] at h
      cases h
  · intro states ih other _ hc h
    rw [getElem?_advance hc] at h
    split_ifs at h
    · exact absurd (some.inj h) (advanced_ne_waitForRead other r)
    · cases h
    · exact ih h

theorem waitsForWrite_of_served {w} (h : (served s)[id]? = some (.waitForWrite w)) :
    ∃ w', s.states[id]? = some (.waitForWrite w') ∧ w'.fd = w.fd := by
  revert h
  refine served_induction (P := fun states => states[id]? = some (.waitForWrite w) →
    _) (fun h => ⟨w, h, rfl⟩) ?_ ?_
  · intro states ih vm _ h
    rcases getElem?_release states vm id with heq | ⟨heq, -⟩
    · exact ih (heq ▸ h)
    · rw [heq] at h
      cases h
  · intro states ih other ho hc h
    rw [getElem?_advance hc] at h
    split_ifs at h with hw
    · subst hw
      exact ⟨_, (states_of_mem_ioPairs ho).2.1, (fd_of_advanced (some.inj h)).symm⟩
    · cases h
    · exact ih h

theorem readVmId_ne_writeVmId (hpair : pair ∈ ioPairs s) (hother : other ∈ ioPairs s) :
    other.writeVmId ≠ pair.readVmId := by
  intro heq
  have hr := (states_of_mem_ioPairs hpair).1
  rw [← heq, (states_of_mem_ioPairs hother).2.1] at hr
  cases hr

theorem served_readVmId (hpair : pair ∈ ioPairs s) (hcopiable : pair.copiable ≠ 0) :
    (served s)[pair.readVmId]? = some .runnable := by
  obtain ⟨before, after, hsp⟩ := append_of_mem hpair
  rw [served, hsp, foldl_append, foldl_cons]
  refine List.foldlRecOn (motive := fun states : ExtTreeMap VmId VmState =>
    states[pair.readVmId]? = some runnable) _ _ ?_ fun states ih other ho => ?_
  · rw [getElem?_advance hcopiable, if_neg (readVmId_ne_writeVmId hpair hpair), if_pos rfl]
  have hmem := hsp ▸ mem_append_right _ (mem_cons_of_mem _ ho)
  by_cases hz : other.copiable = 0
  · rw [advance, if_pos hz]
    exact ih
  · rw [getElem?_advance hz, if_neg (readVmId_ne_writeVmId hpair hmem)]
    split_ifs
    · rfl
    · exact ih

theorem served_eq_of_not_mem (hclosed : id ∉ closedVms s)
    (hpairs : ∀ other ∈ ioPairs s, other.copiable ≠ 0 → other.readVmId ≠ id ∧
      other.writeVmId ≠ id) :
    (served s)[id]? = s.states[id]? := by
  refine served_induction (P := fun states => states[id]? = s.states[id]?) rfl ?_ ?_
  · intro states ih vm hvm
    rcases getElem?_release states vm id with heq | ⟨-, rfl⟩
    · exact heq.trans ih
    · exact absurd hvm hclosed
  · intro states ih other ho hc
    obtain ⟨hr, hw⟩ := hpairs other ho hc
    rw [getElem?_advance hc, if_neg hw, if_neg hr, ih]

theorem pendingReads_complete {r} (hstate : s.states[vm]? = some (.waitForRead r))
    (hopen : s.fds.contains r.fd.otherFd = true) : ∃ v, (pendingReads s)[r.fd]? = some v := by
  obtain ⟨before, after, hsp⟩ := append_of_mem (mem_toList_iff_getElem?_eq_some.mpr hstate)
  rw [pendingReads, hsp, foldl_append, foldl_cons]
  refine List.foldlRecOn (motive := fun reads : ExtTreeMap Fd (VmId × ReadState) => ∃ v,
    reads[r.fd]? = some v) _ _ ?_ fun reads ih entry _ => ?_
  · dsimp only
    rw [if_pos hopen, getElem?_insert_eq, if_pos rfl]
    exact ⟨_, rfl⟩
  · obtain ⟨id, state⟩ := entry
    cases state with
    | waitForRead inner =>
      dsimp only
      split_ifs
      · rw [getElem?_insert_eq]
        split_ifs
        · exact ⟨_, rfl⟩
        · exact ih
      · exact ih
    | _ => exact ih

theorem matched_of_served (hpair : pair.Matched (served s)) :
    ∃ w, ({ pair with writeState := w }).Matched s.states := by
  obtain ⟨w, hw, hfd⟩ := waitsForWrite_of_served hpair.writes
  exact ⟨w, waitsForRead_of_served hpair.reads, hw, by rw [hfd]; exact hpair.ends⟩

variable (hs : s.Coherent cap)
include hs

theorem owner_eq {fd} {a b : VmId} {x y} (ha : s.states[a]? = some x) (hb : s.states[b]? = some y)
    (hx : VmTable.waitsOn x = some fd) (hy : VmTable.waitsOn y = some fd) : a = b :=
  some.inj ((hs.1.owns ha hx).symm.trans (hs.1.owns hb hy))

theorem contains_of_waitsOn {fd state} (hstate : s.states[id]? = some state)
    (hfd : VmTable.waitsOn state = some fd) : s.fds.contains fd = true := by
  have hown : s.fds[fd]? = some id := hs.1.owns hstate hfd
  rw [ExtTreeMap.contains_eq_isSome_getElem?, hown]
  rfl

theorem mem_ioPairs_iff : pair ∈ ioPairs s ↔ pair.Matched s.states := by
  constructor
  · intro h
    obtain ⟨hr, hw, he⟩ := states_of_mem_ioPairs h
    exact ⟨hr, hw, he⟩
  · rintro ⟨hr, hw, he⟩
    have ho : s.fds.contains pair.writeState.fd.otherFd = true := by
      rw [he]
      exact contains_of_waitsOn hs hr rfl
    have hop : s.fds.contains pair.readState.fd.otherFd = true := by
      rw [← he, otherFd_otherFd]
      exact contains_of_waitsOn hs hw rfl
    obtain ⟨⟨id, r⟩, hp⟩ := pendingReads_complete hr hop
    obtain ⟨hst, hfd⟩ := states_of_pendingReads hp
    obtain rfl := owner_eq hs hst hr rfl (congrArg some hfd.symm)
    rw [hr, some.injEq, waitForRead.injEq] at hst
    subst hst
    refine mem_filterMap.mpr ⟨_, mem_toList_iff_getElem?_eq_some.mpr hw, ?_⟩
    dsimp only
    rw [if_pos ho, he, hp]
    rfl

theorem eq_of_shared (hpair : pair.Matched s.states) (hother : other.Matched s.states)
    (h : other.readVmId = pair.readVmId ∨ other.writeVmId = pair.writeVmId) : other = pair := by
  have hb : other.readVmId = pair.readVmId ∧ other.writeVmId = pair.writeVmId := by
    rcases h with hre | hwr
    · have hst := hother.reads
      rw [hre, hpair.reads, some.injEq, waitForRead.injEq] at hst
      have hfd : other.writeState.fd = pair.writeState.fd := by
        rw [← otherFd_otherFd other.writeState.fd, ← otherFd_otherFd pair.writeState.fd,
          hother.ends, hpair.ends, hst]
      exact ⟨hre, owner_eq hs hother.writes hpair.writes rfl (congrArg some hfd.symm)⟩
    · have hst := hother.writes
      rw [hwr, hpair.writes, some.injEq, waitForWrite.injEq] at hst
      have hfd : other.readState.fd = pair.readState.fd := by rw [← hother.ends, ← hpair.ends, hst]
      exact ⟨owner_eq hs hother.reads hpair.reads rfl (congrArg some hfd.symm), hwr⟩
  have hr := hother.reads
  have hw := hother.writes
  rw [hb.1, hpair.reads, some.injEq, waitForRead.injEq] at hr
  rw [hb.2, hpair.writes, some.injEq, waitForWrite.injEq] at hw
  exact IoPair.mk.injEq .. ▸ ⟨hb.1, hr.symm, hb.2, hw.symm⟩

theorem served_of_stuck (hpair : pair.Matched s.states) (hzero : pair.copiable = 0) :
    pair.Matched (served s) := by
  have hcl id state fd (hst : s.states[id]? = some state)
      (hw : waitsOnClosed s state = !s.fds.contains fd) (hop : s.fds.contains fd = true) : id ∉
          closedVms s := by
    intro hmem
    obtain ⟨⟨a, x⟩, ha, rfl⟩ := mem_map.mp hmem
    obtain ⟨ha, hx⟩ := mem_filter.mp ha
    dsimp only at hx
    rw [mem_toList_iff_getElem?_eq_some.mp ha] at hst
    cases hst
    rw [hw, hop] at hx
    cases hx
  have hot other (ho : other ∈ ioPairs s) (hc : other.copiable ≠ 0) :
      ¬ (other.readVmId = pair.readVmId ∨ other.writeVmId = pair.writeVmId) := by
    intro hsh
    obtain rfl := eq_of_shared hs hpair ((mem_ioPairs_iff hs).mp ho) hsh
    exact hc hzero
  have hmem := (mem_ioPairs_iff hs).mpr hpair
  refine ⟨?_, ?_, hpair.ends⟩
  · rw [served_eq_of_not_mem, hpair.reads]
    · refine hcl _ _ _ hpair.reads rfl ?_
      rw [← hpair.ends, otherFd_otherFd]
      exact contains_of_waitsOn hs hpair.writes rfl
    · exact fun other ho hc => ⟨fun h => hot other ho hc (.inl h), readVmId_ne_writeVmId hmem ho⟩
  · rw [served_eq_of_not_mem, hpair.writes]
    · refine hcl _ _ _ hpair.writes rfl ?_
      rw [hpair.ends]
      exact contains_of_waitsOn hs hpair.reads rfl
    · exact fun other ho hc =>
        ⟨fun h => readVmId_ne_writeVmId ho hmem h.symm, fun h => hot other ho hc (.inr h)⟩

end Served

-- Something is asked for and something is left.
def IoPair.Movable (pair : IoPair) : Prop :=
  pair.readState.length ≠ 0 ∧ pair.writeState.consumed < pair.writeState.length

instance (pair : IoPair) : Decidable pair.Movable := inferInstanceAs (Decidable (_ ∧ _))

theorem IoPair.movable_iff : pair.Movable ↔ pair.copiable ≠ 0 := by
  unfold IoPair.Movable IoPair.copiable
  omega

-- The schedulers in which the pipes are served, whatever the guests have done.
def Arrives (self : VmRuntime M S) (s : VmScheduler M S) : Prop :=
  ∃ r limitCycles result, Reachable self (fun _ _ => True) r ∧
    (self.iterateToIo limitCycles).exec r = (.ok result, s)

theorem Arrives.coherent {s} (h : self.Arrives s) : s.Coherent (MAX_FDS + 1) := by
  obtain ⟨r, limit, res, hre, he⟩ := h
  have hr := hre.coherent fun limit s _ => pipesBelow_succ limit s
  have hb : self.PipesBelow (MAX_FDS + 1) limit r := pipesBelow_succ limit r
  have hsp := iterateToIo_spec.apply ⟨hr, hb⟩
  rw [he] at hsp
  exact hsp

theorem pickRunnable_ne_none (h : states[vm]? = some runnable) :
    pickRunnable states ≠ none := by
  intro hn
  have hf := map_eq_none_iff.mp hn
  have hmem := mem_reverse.mpr (mem_toList_iff_getElem?_eq_some.mpr h)
  exact find?_eq_none.mp hf _ hmem (by simp)

-- One of two machines at the ends of a pipe goes on exactly if something is asked for and something
-- is left. If that is so for all of them, none stays matched, and the next iteration finds a
-- machine to run.
theorem processIo_serves_iff {s t : VmScheduler M S} (harrives : self.Arrives s)
    (hio : self.processIo.exec s = (.ok (), t)) :
    (∀ pair : IoPair, pair.Matched s.states → ((t.states[pair.readVmId]? = some .runnable ∨
      t.states[pair.writeVmId]? = some .runnable) ↔ pair.Movable)) ∧
    ((¬ ∃ pair : IoPair, pair.Matched t.states ∧ ¬ pair.Movable) ↔
      ∀ pair : IoPair, pair.Matched s.states → pair.Movable) ∧
    ((∃ pair : IoPair, pair.Matched s.states ∧ pair.Movable) → pickRunnable t.states ≠ none) := by
  have hs := harrives.coherent
  rw [states_of_processIo hs.2 hio]
  have hrun {pair : IoPair} hp hm : (served s)[pair.readVmId]? = some .runnable :=
    served_readVmId ((mem_ioPairs_iff hs).mpr hp) (IoPair.movable_iff.mp hm)
  have hst {pair : IoPair} hp (hnot : ¬ pair.Movable) : pair.Matched (served s) :=
    served_of_stuck hs hp (not_not.mp fun hne => hnot (IoPair.movable_iff.mpr hne))
  refine ⟨fun pair hp => ⟨fun h => ?_, fun h => .inl (hrun hp h)⟩, ⟨fun h pair hp => ?_, ?_⟩, ?_⟩
  · by_contra hnot
    have hstays := hst hp hnot
    rw [hstays.reads, hstays.writes] at h
    rcases h with h | h <;> cases h
  · by_contra hnot
    exact h ⟨pair, hst hp hnot, hnot⟩
  · rintro h ⟨pair, hp, -⟩
    obtain ⟨w, hb⟩ := matched_of_served hp
    have hr := hrun hb (h _ hb)
    rw [hp.reads] at hr
    cases hr
  · rintro ⟨pair, hp, hm⟩
    exact pickRunnable_ne_none (hrun hp hm)

end VmRuntime

def talkMatched (readLength writeLength : Nat) : VmScheduler Nat Nat :=
  ((talkRuntime readLength writeLength).iterateToIo 10).after
    ((talkRuntime readLength writeLength).slices 3)

def talkServed (readLength writeLength : Nat) : VmScheduler Nat Nat :=
  (talkRuntime readLength writeLength).processIo.after (talkMatched readLength writeLength)

theorem arrives_talkMatched {rl wl}
    (h : (((talkRuntime rl wl).iterateToIo 10).exec ((talkRuntime rl wl).slices 3)).1.isOk =
      true) : (talkRuntime rl wl).Arrives (talkMatched rl wl) := by
  obtain ⟨r, hr⟩ := Outcome.isOk_iff.mp h
  exact ⟨_, 10, r, VmRuntime.reachable_slices _ fun _ _ => trivial, exec_eq_after hr⟩

theorem exec_talkServed {rl wl}
    (h : ((talkRuntime rl wl).processIo.exec (talkMatched rl wl)).1.isOk = true) :
    (talkRuntime rl wl).processIo.exec (talkMatched rl wl) = (.ok (), talkServed rl wl) := by
  obtain ⟨_, hu⟩ := Outcome.isOk_iff.mp h
  exact exec_eq_after hu

def talkPair (readLength writeLength : Nat) : VmRuntime.IoPair :=
  ⟨1, ⟨2, readLength, 0, 0⟩, 0, ⟨3, 0, writeLength, 0, 0⟩⟩

theorem talk_five : (talkPair 5 5).Matched (talkMatched 5 5).states ∧
    VmRuntime.pickRunnable (talkServed 5 5).states ≠ none := by
  have hm : (talkPair 5 5).Matched (talkMatched 5 5).states := by
    refine ⟨?_, ?_, rfl⟩
    · decide +kernel
    · decide +kernel
  have ha : (talkRuntime 5 5).Arrives (talkMatched 5 5) := arrives_talkMatched (by decide +kernel)
  have hio : (talkRuntime 5 5).processIo.exec (talkMatched 5 5) = (.ok (), talkServed 5 5) :=
    exec_talkServed (by decide +kernel)
  exact ⟨hm, (VmRuntime.processIo_serves_iff ha hio).2.2 ⟨_, hm, by decide⟩⟩

-- A write of no bytes and a read of five wait for each other for ever.
theorem talk_zero :
    ∃ s t, (talkRuntime 5 0).Arrives s ∧ (talkRuntime 5 0).processIo.exec s = (.ok (), t) ∧
    (∃ pair : VmRuntime.IoPair, pair.Matched s.states ∧ pair.Matched t.states) ∧
    (((talkRuntime 5 0).iterateOuter 10).exec t).1 =
    .error (.executionError "scheduler deadlock: no runnable VMs") := by
  refine ⟨talkMatched 5 0, talkServed 5 0, arrives_talkMatched (by decide +kernel),
    exec_talkServed (by decide +kernel), ⟨talkPair 5 0, ⟨?_, ?_, rfl⟩, ⟨?_, ?_, rfl⟩⟩, ?_⟩
  · decide +kernel
  · decide +kernel
  · decide +kernel
  · decide +kernel
  · decide +kernel

end Spora
