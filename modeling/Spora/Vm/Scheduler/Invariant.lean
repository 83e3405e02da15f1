import Spora.Vm.Scheduler.Machines

namespace Spora

open Std Stateful TreeMap ExtTreeMap

namespace VmTable

-- Bounds and ownership, together with the freshness that carries them from step to step. The
-- descriptors are bounded by `cap`.
structure Sound (cap : Nat) (T : VmTable) : Prop where
  states_le : T.states.size ≤ MAX_VMS_COUNT
  fds_le : T.fds.size ≤ cap
  owner_mem : ∀ (fd : Fd) id, T.fds[fd]? = some id → id ∈ T.states
  reader_owns : ∀ (id : VmId) r, T.states[id]? = some (.waitForRead r) → T.fds[r.fd]? = some id
  writer_owns : ∀ (id : VmId) w, T.states[id]? = some (.waitForWrite w) → T.fds[w.fd]? = some id
  states_lt : ∀ id ∈ T.states, id < T.nextVmId
  fds_lt : ∀ fd ∈ T.fds, fd < T.nextFdSlot

def waitsOn : VmState → Option Fd
  | .waitForRead r => some r.fd
  | .waitForWrite w => some w.fd
  | _ => none

variable {cap : Nat} {T : VmTable} {id : VmId} {fd : Fd}

variable {state : VmState}

theorem Sound.owns (h : T.Sound cap) (hstate : T.states[id]? = some state)
    (hfd : waitsOn state = some fd) : T.fds[fd]? = some id := by
  cases state with
  | waitForRead r =>
    cases hfd
    exact h.reader_owns id r hstate
  | waitForWrite w =>
    cases hfd
    exact h.writer_owns id w hstate
  | runnable => exact nomatch hfd
  | terminated => exact nomatch hfd
  | wait => exact nomatch hfd

theorem Sound.of_owns (hstates : T.states.size ≤ MAX_VMS_COUNT) (hfds : T.fds.size ≤ cap)
    (hmem : ∀ (fd : Fd) id, T.fds[fd]? = some id → id ∈ T.states)
    (howns : ∀ id state (fd : Fd), T.states[id]? = some state → waitsOn state = some fd →
      T.fds[fd]? = some id)
    (hlt : ∀ id ∈ T.states, id < T.nextVmId) (hfd : ∀ fd ∈ T.fds, fd < T.nextFdSlot) :
    T.Sound cap :=
  ⟨hstates, hfds, hmem, fun id r hr => howns id _ r.fd hr rfl,
    fun id w hw => howns id _ w.fd hw rfl, hlt, hfd⟩

variable (h : T.Sound cap)
include h

theorem Sound.setState (hid : id ∈ T.states)
    (hwait : ∀ fd, waitsOn state = some fd → T.fds[fd]? = some id) :
    Sound cap { T with states := T.states.insert id state } := by
  have hk : ∀ a, a ∈ T.states.insert id state ↔ a ∈ T.states := by
    intro a
    simp only [TreeMap.mem_insert]
    constructor
    · rintro (rfl | ha)
      · exact hid
      · exact ha
    · exact .inr
  refine .of_owns ?_ h.fds_le (fun fd a ha => (hk a).mpr (h.owner_mem fd a ha)) ?_
    (fun a ha => h.states_lt a ((hk a).mp ha)) h.fds_lt
  · dsimp only
    rw [ExtTreeMap.size_insert, if_pos (contains_iff_mem.mpr hid)]
    exact h.states_le
  · intro a state' fd ha hfd
    rw [getElem?_insert_eq] at ha
    split_ifs at ha with heq
    · subst heq
      cases ha
      exact hwait fd hfd
    · exact h.owns ha hfd

theorem Sound.boot (hroom : T.states.size < MAX_VMS_COUNT) : Sound cap { T with
      states := T.states.insert T.nextVmId .runnable
      nextVmId := T.nextVmId + 1 } := by
  refine .of_owns ?_ h.fds_le (fun fd a ha => ?_) ?_ (fun a ha => ?_) h.fds_lt
  · have hle := size_insert_le (t := T.states) (k := T.nextVmId) (v := .runnable)
    dsimp only
    omega
  · exact TreeMap.mem_insert.mpr (.inr (h.owner_mem fd a ha))
  · intro a state fd ha hfd
    rw [getElem?_insert_eq] at ha
    split_ifs at ha with heq
    · cases ha
      exact nomatch hfd
    · exact h.owns ha hfd
  · simp only [TreeMap.mem_insert] at ha
    rcases ha with rfl | ha
    · exact Nat.lt_succ_self _
    · exact Nat.lt_succ_of_lt (h.states_lt a ha)

theorem Sound.skipVmId : Sound cap { T with nextVmId := T.nextVmId + 1 } :=
  ⟨h.states_le, h.fds_le, h.owner_mem, h.reader_owns, h.writer_owns,
    fun a ha => Nat.lt_succ_of_lt (h.states_lt a ha), h.fds_lt⟩

theorem Sound.not_waiting (hrun : T.states[id]? = some .runnable) {a : VmId}
    (ha : T.states[a]? = some state) (hfd : waitsOn state = some fd) : T.fds[fd]? ≠ some id := by
  intro hown
  have hs := h.owns ha hfd
  rw [hown] at hs
  cases hs
  rw [hrun] at ha
  cases ha
  exact nomatch hfd

theorem Sound.giveFds (hrun : T.states[id]? = some .runnable) {given : List Fd}
    (hgiven : ∀ fd ∈ given, T.fds[fd]? = some id) {target : VmId} (htarget : target ∈ T.states) :
    Sound cap { T with fds := given.foldl (fun fds fd => fds.insert fd target) T.fds } := by
  have hget : ∀ fd, (given.foldl (fun fds fd => fds.insert fd target) T.fds)[fd]? =
      if fd ∈ given then some target else T.fds[fd]? := fun fd => getElem?_foldl_insert_const
  have hmem : ∀ fd, fd ∈ given.foldl (fun fds fd => fds.insert fd target) T.fds ↔ fd ∈ T.fds := by
    intro fd
    rw [ExtTreeMap.mem_iff_isSome_getElem?, ExtTreeMap.mem_iff_isSome_getElem?, hget]
    split_ifs with hfd
    · simp [hgiven fd hfd]
    · rfl
  have hs : ∀ (l : List Fd) (m : ExtTreeMap Fd VmId), (∀ fd ∈ l, fd ∈ m) →
      (l.foldl (fun fds fd => fds.insert fd target) m).size = m.size := by
    intro l
    induction l with
    | nil => exact fun _ _ => rfl
    | cons fd l ih =>
      intro m hl
      rw [List.foldl_cons, ih, ExtTreeMap.size_insert, if_pos]
      · exact contains_iff_mem.mpr (hl fd List.mem_cons_self)
      · intro fd' hfd'
        exact TreeMap.mem_insert.mpr (.inr (hl fd' (List.mem_cons_of_mem fd hfd')))
  refine .of_owns h.states_le ?_ (fun fd a ha => ?_) ?_ h.states_lt
    (fun fd hfd => h.fds_lt fd ((hmem fd).mp hfd))
  · dsimp only
    rw [hs given T.fds]
    · exact h.fds_le
    · intro fd hfd
      exact mem_iff_isSome_getElem?.mpr (by simp [hgiven fd hfd])
  · dsimp only at ha
    rw [hget] at ha
    split_ifs at ha with hfd
    · cases ha
      exact htarget
    · exact h.owner_mem fd a ha
  · intro a state fd ha hfd
    rw [hget, if_neg, h.owns ha hfd]
    exact fun hin => h.not_waiting hrun ha hfd (hgiven fd hin)

theorem Sound.pipe (hid : id ∈ T.states) (hroom : T.fds.size + 2 ≤ cap) : Sound cap { T with
      nextFdSlot := T.nextFdSlot + 2
      fds := (T.fds.insert T.nextFdSlot id).insert (T.nextFdSlot + 1) id } := by
  have hget : ∀ fd, ((T.fds.insert T.nextFdSlot id).insert (T.nextFdSlot + 1) id)[fd]? =
      if T.nextFdSlot + 1 = fd ∨ T.nextFdSlot = fd then some id else T.fds[fd]? := by
    intro fd
    rw [getElem?_insert_eq, getElem?_insert_eq]
    split_ifs <;> simp_all
  refine .of_owns h.states_le ?_ (fun fd a ha => ?_) ?_ h.states_lt (fun fd hfd => ?_)
  · dsimp only
    have hle := size_insert_le (t := T.fds) (k := T.nextFdSlot) (v := id)
    have hle' := size_insert_le (t := T.fds.insert T.nextFdSlot id)
      (k := T.nextFdSlot + 1) (v := id)
    omega
  · dsimp only at ha
    rw [hget] at ha
    split_ifs at ha
    · cases ha
      exact hid
    · exact h.owner_mem fd a ha
  · intro a state fd ha hfd
    have hown := h.owns ha hfd
    have hlt := h.fds_lt fd (mem_of_getElem? hown)
    rw [hget, if_neg, hown]
    rintro (rfl | rfl)
    · exact absurd hlt (Nat.not_lt.mpr (Nat.le_succ _))
    · exact Nat.lt_irrefl _ hlt
  · simp only [TreeMap.mem_insert] at hfd
    rcases hfd with rfl | rfl | hfd
    · exact Nat.lt_succ_self _
    · exact Nat.lt_add_of_pos_right (by decide)
    · exact Nat.lt_add_right 2 (h.fds_lt fd hfd)

theorem Sound.close (hrun : T.states[id]? = some .runnable)
    (hown : T.fds[fd]? = some id) : Sound cap { T with fds := T.fds.erase fd } := by
  have hget : ∀ fd', (T.fds.erase fd)[fd']? = if fd = fd' then none else T.fds[fd']? :=
    fun fd' => getElem?_erase_eq _ _ _
  refine .of_owns h.states_le (Nat.le_trans size_erase_le h.fds_le) (fun fd' a ha => ?_)
    ?_ h.states_lt (fun fd' hfd' => h.fds_lt fd' (mem_of_mem_erase hfd'))
  · dsimp only at ha
    rw [hget] at ha
    split_ifs at ha
    exact h.owner_mem fd' a ha
  · intro a state fd' ha hfd'
    rw [hget, if_neg, h.owns ha hfd']
    rintro rfl
    exact h.not_waiting hrun ha hfd' hown

theorem Sound.terminate : Sound cap { T with
    states := T.states.erase id
    fds := T.fds.filter fun _ owner => owner ≠ id } := by
  have hget : ∀ (fd : Fd) a, (T.fds.filter fun _ owner => owner ≠ id)[fd]? = some a ↔
      T.fds[fd]? = some a ∧ a ≠ id := by
    intro fd a
    rw [ExtTreeMap.getElem?_filter]
    cases hfd : T.fds[fd]? with
    | none => simp
    | some b =>
      by_cases hb : b = id
      · simp [Option.pfilter, hb, eq_comm]
      · simp only [Option.pfilter, hb, ne_eq, not_false_eq_true, decide_true, cond_true,
          Option.some.injEq]
        constructor
        · rintro rfl
          exact ⟨rfl, hb⟩
        · exact fun hx => hx.1
  refine .of_owns (Nat.le_trans size_erase_le h.states_le)
    (Nat.le_trans size_filter_le_size h.fds_le) (fun fd a ha => ?_) ?_ (fun a ha => ?_)
    (fun fd hfd => ?_)
  · obtain ⟨hown, hne⟩ := (hget fd a).mp ha
    exact mem_erase.mpr ⟨by simpa using Ne.symm hne, h.owner_mem fd a hown⟩
  · intro a state fd ha hfd
    rw [getElem?_erase_eq] at ha
    split_ifs at ha with hne
    exact (hget fd a).mpr ⟨h.owns ha hfd, Ne.symm hne⟩
  · exact h.states_lt a (mem_of_mem_erase ha)
  · obtain ⟨a, ha⟩ := exists_of_mem hfd
    exact h.fds_lt fd (mem_iff_isSome_getElem?.mpr (by simp [((hget fd a).mp ha).1]))

end VmTable

end Spora
