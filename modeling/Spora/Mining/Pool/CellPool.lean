import Spora.Mining.Pool.Types

namespace Spora

open Std Stateful TreeMap Triple

structure PoolEntry where
  tx : CellTx
  fee : Nat
  cycles : Nat
  dependencies : List Hash
  dependents : List Hash
deriving DecidableEq, Repr

structure CellPool where
  txs : ExtTreeMap Hash PoolEntry
  spentOutputs : ExtTreeMap OutPoint Hash
  maxSize : Nat

def CellTx.spendsFrom (tx : CellTx) (id : Hash) : Prop :=
  ∃ outpoint ∈ tx.spends, outpoint.txHash = id

instance (tx : CellTx) (id : Hash) : Decidable (tx.spendsFrom id) :=
  inferInstanceAs (Decidable (∃ outpoint ∈ tx.spends, outpoint.txHash = id))

namespace CellPool

def new (maxSize : Nat) : CellPool := ⟨∅, ∅, maxSize⟩

variable (env : MempoolServices) (self : CellPool)

def checkConflicts (tx : CellTx) : List Hash :=
  tx.spends.filterMap fun outpoint => self.spentOutputs[outpoint]?

def findDependencies (tx : CellTx) : List Hash :=
  (self.txs.toList.filter fun entry => tx.spendsFrom (env.hasher.txid entry.2.tx)).map Prod.fst

def dropDependent (wtxid : Hash) (entry : PoolEntry) : PoolEntry :=
  { entry with dependents := entry.dependents.filter (· ≠ wtxid) }

def dropDependency (wtxid : Hash) (entry : PoolEntry) : PoolEntry :=
  { entry with dependencies := entry.dependencies.filter (· ≠ wtxid) }

def pushDependent (wtxid : Hash) (entry : PoolEntry) : PoolEntry :=
  { entry with dependents := entry.dependents ++ [wtxid] }

def withoutEntry (wtxid : Hash) (entry : PoolEntry) : CellPool :=
  { self with
    txs :=
      let txs := entry.dependencies.foldl
        (fun txs parent => txs.modify parent (dropDependent wtxid)) (self.txs.erase wtxid)
      entry.dependents.foldl (fun txs child => txs.modify child (dropDependency wtxid)) txs
    spentOutputs := entry.tx.spends.foldl ExtTreeMap.erase self.spentOutputs }

def remove (wtxid : Hash) : Stateful CellPoolError CellPool CellTx := do
  let self ← get
  let entry ← okOr self.txs[wtxid]? (.txNotFound wtxid)
  set (self.withoutEntry wtxid entry)
  return entry.tx

def withEntry (tx : CellTx) (fee cycles : Nat) : CellPool :=
  let wtxid := env.wtxid tx
  let dependencies := self.findDependencies env tx
  { self with
    txs := (dependencies.foldl (fun txs parent => txs.modify parent (pushDependent wtxid))
      self.txs).insert wtxid ⟨tx, fee, cycles, dependencies, []⟩
    spentOutputs :=
      tx.spends.foldl (fun spent outpoint => spent.insert outpoint wtxid) self.spentOutputs }

-- All conflicts are compared before the first of them is removed.
def tryReplaceByFee (tx : CellTx) (fee cycles : Nat) (conflicts : List Hash)
    (addAgain : Stateful CellPoolError CellPool Hash) : Stateful CellPoolError CellPool Hash := do
  let self ← get
  conflicts.forM fun conflictId => do
    let conflict ← okOr self.txs[conflictId]? (.txNotFound conflictId)
    require (env.beats (tx, fee, cycles) (conflict.tx, conflict.fee, conflict.cycles)) .rbfFailed
  conflicts.forM fun conflictId => discard (remove conflictId)
  addAgain

def addOr (tx : CellTx) (fee cycles : Nat) (addAgain : Stateful CellPoolError CellPool Hash) :
    Stateful CellPoolError CellPool Hash := do
  let self ← get
  let wtxid := env.wtxid tx
  require (wtxid ∉ self.txs) (.txExists wtxid)
  require (self.txs.size < self.maxSize) (.mempoolFull self.maxSize)
  let conflicts := self.checkConflicts tx
  if conflicts ≠ [] then tryReplaceByFee env tx fee cycles conflicts addAgain
  else
    set (self.withEntry env tx fee cycles)
    return wtxid

-- Each replacement removes entries, so that their number bounds how often one is tried.
def addWith (tx : CellTx) (fee cycles : Nat) : Nat → Stateful CellPoolError CellPool Hash
  | 0 => addOr env tx fee cycles (throw (.txNotFound (env.wtxid tx)))
  | replacements + 1 => addOr env tx fee cycles (addWith tx fee cycles replacements)

def add (tx : CellTx) (fee cycles : Nat) : Stateful CellPoolError CellPool Hash := do
  let self ← get
  addWith env tx fee cycles self.txs.size

variable {env} {self}

theorem mem_findDependencies {tx wtxid} : wtxid ∈ self.findDependencies env tx ↔
    ∃ entry, self.txs[wtxid]? = some entry ∧ tx.spendsFrom (env.hasher.txid entry.tx) := by
  simp only [findDependencies, List.mem_map, List.mem_filter, Prod.exists, exists_and_right,
    exists_eq_right, ExtTreeMap.mem_toList_iff_getElem?_eq_some, decide_eq_true_eq]

theorem nodup_findDependencies {tx} : (self.findDependencies env tx).Nodup :=
  (nodup_map_fst_toList self.txs).sublist (List.filter_sublist.map _)

-- Dependencies and dependents are inverse to each other, and a spent output has its spender.
structure Linked (env : MempoolServices) (pool : CellPool) : Prop where
  keyed : ∀ {wtxid : Hash} {entry : PoolEntry}, pool.txs[wtxid]? = some entry →
    env.wtxid entry.tx = wtxid
  inverse : ∀ {parent child : Hash} {parentEntry : PoolEntry},
    pool.txs[parent]? = some parentEntry → (child ∈ parentEntry.dependents ↔
      ∃ childEntry : PoolEntry, pool.txs[child]? = some childEntry ∧
        parent ∈ childEntry.dependencies)
  spends : ∀ {parent child : Hash} {childEntry : PoolEntry}, pool.txs[child]? = some childEntry →
    parent ∈ childEntry.dependencies → ∃ parentEntry : PoolEntry,
      pool.txs[parent]? = some parentEntry ∧
        childEntry.tx.spendsFrom (env.hasher.txid parentEntry.tx)
  spent : ∀ {outpoint : OutPoint} {wtxid : Hash}, pool.spentOutputs[outpoint]? = some wtxid →
    ∃ entry : PoolEntry, pool.txs[wtxid]? = some entry ∧ outpoint ∈ entry.tx.spends

def forget (wtxid : Hash) (entry : PoolEntry) : PoolEntry :=
  dropDependency wtxid (dropDependent wtxid entry)

theorem linked_new (maxSize : Nat) : Linked env (new maxSize) where
  keyed h := by simp [new] at h
  inverse h := by simp [new] at h
  spends h := by simp [new] at h
  spent h := by simp [new] at h

section Removal

variable {wtxid : Hash} {en : PoolEntry}

section

variable (h : self.Linked env) (hentry : self.txs[wtxid]? = some en)
include h hentry

theorem Linked.getElem?_withoutEntry (other : Hash) :
    (self.withoutEntry wtxid en).txs[other]? = if wtxid = other then
      none else self.txs[other]?.map (forget wtxid) := by
  have hd : ∀ e, dropDependent wtxid (dropDependent wtxid e) = dropDependent wtxid e := by
    simp [dropDependent]
  have hd' : ∀ e, dropDependency wtxid (dropDependency wtxid e) = dropDependency wtxid e := by
    simp [dropDependency]
  rw [withoutEntry, getElem?_foldl_modify (.inr hd'), getElem?_foldl_modify (.inr hd),
    getElem?_erase_eq]
  by_cases ho : wtxid = other
  · simp [ho]
  cases hv : self.txs[other]? with
  | none => simp
  | some oe =>
    have hp : other ∉ en.dependencies → dropDependent wtxid oe = oe := by
      intro hnot
      have hfr : wtxid ∉ oe.dependents := by
        rw [h.inverse hv]
        rintro ⟨entry', he', hmem⟩
        rw [hentry, Option.some.injEq] at he'
        exact hnot (he' ▸ hmem)
      have hf : oe.dependents.filter (· ≠ wtxid) = oe.dependents := by
        rw [List.filter_eq_self]
        intro child hc
        simpa using fun heq : child = wtxid => hfr (heq ▸ hc)
      rw [dropDependent, hf]
    have hc : other ∉ en.dependents → dropDependency wtxid oe = oe := by
      intro hnot
      have hfr : wtxid ∉ oe.dependencies := fun hmem => hnot ((h.inverse hentry).mpr ⟨_, hv, hmem⟩)
      have hf : oe.dependencies.filter (· ≠ wtxid) = oe.dependencies := by
        rw [List.filter_eq_self]
        intro parent hp
        simpa using fun heq : parent = wtxid => hfr (heq ▸ hp)
      rw [dropDependency, hf]
    have hs : dropDependency wtxid (dropDependent wtxid oe) =
      dropDependent wtxid (dropDependency wtxid oe) := rfl
    by_cases hmem : other ∈ en.dependencies
    · by_cases hm' : other ∈ en.dependents
      · simp [ho, hmem, hm', forget]
      · simp [ho, hmem, forget, hs, hc hm']
    · by_cases hm' : other ∈ en.dependents
      · simp [ho, hm', forget, hp hmem]
      · simp [hmem, hm', forget, hp hmem, hc hm']

theorem Linked.getElem?_withoutEntry_eq_some
    {other oe} : (self.withoutEntry wtxid en).txs[other]? = some oe ↔
    wtxid ≠ other ∧ ∃ before, self.txs[other]? = some before ∧ forget wtxid before = oe := by
  rw [h.getElem?_withoutEntry hentry]
  split_ifs with ho
  · simp [ho]
  · simp [ho]

end

theorem mem_dependents_forget {child} : child ∈ (forget wtxid en).dependents ↔
    child ∈ en.dependents ∧ child ≠ wtxid := by simp [forget, dropDependency, dropDependent]

theorem mem_dependencies_forget {parent} : parent ∈ (forget wtxid en).dependencies ↔
    parent ∈ en.dependencies ∧ parent ≠ wtxid := by simp [forget, dropDependency, dropDependent]

theorem getElem?_spentOutputs_withoutEntry (o) : (self.withoutEntry wtxid en).spentOutputs[o]? =
      if o ∈ en.tx.spends then none else self.spentOutputs[o]? :=
  getElem?_foldl_erase o

theorem Linked.withoutEntry (h : self.Linked env) (hentry : self.txs[wtxid]? = some en) :
    (self.withoutEntry wtxid en).Linked env where
  keyed hother := by
    obtain ⟨-, before, hb, rfl⟩ := (h.getElem?_withoutEntry_eq_some hentry).mp hother
    have hkey := h.keyed hb
    exact hkey
  inverse {parent child pe} hp := by
    obtain ⟨hne, before, hb, rfl⟩ := (h.getElem?_withoutEntry_eq_some hentry).mp hp
    rw [mem_dependents_forget, h.inverse hb]
    constructor
    · rintro ⟨⟨ce, hc, hmem⟩, hc'⟩
      exact ⟨forget wtxid ce, (h.getElem?_withoutEntry_eq_some hentry).mpr ⟨Ne.symm hc', _,
        hc, rfl⟩, mem_dependencies_forget.mpr ⟨hmem, Ne.symm hne⟩⟩
    · rintro ⟨ce, hc, hmem⟩
      obtain ⟨hc', cb, hch, rfl⟩ := (h.getElem?_withoutEntry_eq_some hentry).mp hc
      exact ⟨⟨cb, hch, (mem_dependencies_forget.mp hmem).1⟩, Ne.symm hc'⟩
  spends {parent child ce} hc hmem := by
    obtain ⟨-, before, hb, rfl⟩ := (h.getElem?_withoutEntry_eq_some hentry).mp hc
    obtain ⟨hmem, hne⟩ := mem_dependencies_forget.mp hmem
    obtain ⟨pe, hp, hs⟩ := h.spends hb hmem
    exact ⟨forget wtxid pe, (h.getElem?_withoutEntry_eq_some hentry).mpr ⟨Ne.symm hne, _, hp, rfl⟩,
      hs⟩
  spent {outpoint spender} hspent := by
    rw [getElem?_spentOutputs_withoutEntry] at hspent
    split_ifs at hspent with hmem
    obtain ⟨spenderEntry, hsp, hs⟩ := h.spent hspent
    have hne : wtxid ≠ spender := by
      rintro rfl
      rw [hentry, Option.some.injEq] at hsp
      exact hmem (hsp ▸ hs)
    exact ⟨forget wtxid spenderEntry, (h.getElem?_withoutEntry_eq_some hentry).mpr ⟨hne, _, hsp,
      rfl⟩, hs⟩

end Removal

structure Below (pool before : CellPool) : Prop where
  entries : ∀ {wtxid : Hash} {entry : PoolEntry}, pool.txs[wtxid]? = some entry →
    ∃ entryBefore : PoolEntry, before.txs[wtxid]? = some entryBefore ∧ entryBefore.tx = entry.tx ∧
      entry.dependencies ⊆ entryBefore.dependencies ∧ entry.dependents ⊆ entryBefore.dependents

theorem Below.refl (pool : CellPool) : pool.Below pool :=
  ⟨fun h => ⟨_, h, rfl, List.Subset.refl _, List.Subset.refl _⟩⟩

theorem Below.trans {a b c : CellPool} (hab : a.Below b) (hbc : b.Below c) : a.Below c where
  entries h := by
    obtain ⟨entryB, hB, htxB, hdepsB, hde⟩ := hab.entries h
    obtain ⟨entryC, hC, htxC, hdepsC, hd⟩ := hbc.entries hB
    exact ⟨entryC, hC, htxC.trans htxB, List.Subset.trans hdepsB hdepsC, List.Subset.trans hde hd⟩

theorem Linked.below_withoutEntry (h : self.Linked env) {wtxid entry}
    (hentry : self.txs[wtxid]? = some entry) : (self.withoutEntry wtxid entry).Below self where
  entries hother := by
    obtain ⟨-, before, hb, rfl⟩ := (h.getElem?_withoutEntry_eq_some hentry).mp hother
    exact ⟨before, hb, rfl, fun _ hmem => (mem_dependencies_forget.mp hmem).1,
      fun _ hmem => (mem_dependents_forget.mp hmem).1⟩

section Insertion

variable {tx : CellTx} {fee cycles : Nat}

theorem getElem?_withEntry (other : Hash) : (self.withEntry env tx fee cycles).txs[other]? =
    if env.wtxid tx = other then some ⟨tx, fee, cycles, self.findDependencies env tx, []⟩
    else if other ∈ self.findDependencies env tx then
      self.txs[other]?.map (pushDependent (env.wtxid tx))
    else self.txs[other]? := by
  rw [withEntry, getElem?_insert_eq, getElem?_foldl_modify (.inl nodup_findDependencies)]

theorem getElem?_withEntry_of_ne {other entry} (hne : env.wtxid tx ≠ other)
    (h : (self.withEntry env tx fee cycles).txs[other]? = some entry) :
    ∃ before, self.txs[other]? = some before ∧ before.tx = entry.tx ∧
    before.dependencies = entry.dependencies ∧
    ∀ child, child ∈ entry.dependents ↔
    child ∈ before.dependents ∨
    (child = env.wtxid tx ∧ other ∈ self.findDependencies env tx) := by
  rw [getElem?_withEntry, if_neg hne] at h
  split_ifs at h with hmem
  · obtain ⟨before, hb, rfl⟩ := Option.map_eq_some_iff.mp h
    exact ⟨before, hb, rfl, rfl, fun child => by simp [pushDependent, hmem]⟩
  · exact ⟨entry, h, rfl, rfl, fun child => by simp [hmem]⟩

theorem getElem?_withEntry_self : (self.withEntry env tx fee cycles).txs[env.wtxid tx]? =
    some ⟨tx, fee, cycles, self.findDependencies env tx, []⟩ := by
  rw [getElem?_withEntry, if_pos rfl]

theorem getElem?_spentOutputs_withEntry (o) : (self.withEntry env tx fee cycles).spentOutputs[o]? =
      if o ∈ tx.spends then some (env.wtxid tx) else self.spentOutputs[o]? :=
  getElem?_foldl_insert_const

theorem Linked.spends_withEntry (h : self.Linked env) {parent child : Hash} {ce}
    (hchild : (self.withEntry env tx fee cycles).txs[child]? = some ce)
    (hmem : parent ∈ ce.dependencies) :
    ∃ before, self.txs[parent]? = some before ∧ ce.tx.spendsFrom (env.hasher.txid before.tx) := by
  by_cases heq : env.wtxid tx = child
  · subst heq
    rw [getElem?_withEntry_self] at hchild
    cases hchild
    exact mem_findDependencies.mp hmem
  · obtain ⟨before, hb, htx, hd, -⟩ := getElem?_withEntry_of_ne heq hchild
    rw [← htx]
    exact h.spends hb (hd ▸ hmem)

section Fresh

variable (hnew : env.wtxid tx ∉ self.txs)

include hnew

theorem wtxid_ne_of_getElem? {other before} (h : self.txs[other]? = some before) :
    env.wtxid tx ≠ other := by
  rintro rfl
  rw [ExtTreeMap.getElem?_eq_none hnew] at h
  contradiction

theorem exists_getElem?_withEntry (fee cycles : Nat) {other : Hash} {before}
    (h : self.txs[other]? = some before) :
    ∃ entry, (self.withEntry env tx fee cycles).txs[other]? = some entry ∧
    entry.tx = before.tx ∧ entry.dependencies = before.dependencies := by
  rw [getElem?_withEntry, if_neg (wtxid_ne_of_getElem? hnew h), h]
  split_ifs
  · exact ⟨_, rfl, rfl, rfl⟩
  · exact ⟨_, rfl, rfl, rfl⟩

theorem Linked.inverse_withEntry (h : self.Linked env) {parent child : Hash} {pe}
    (hparent : (self.withEntry env tx fee cycles).txs[parent]? = some pe) :
    child ∈ pe.dependents ↔ ∃ ce, (self.withEntry env tx fee cycles).txs[child]? = some ce ∧
    parent ∈ ce.dependencies := by
  by_cases heq : env.wtxid tx = parent
  · subst heq
    rw [getElem?_withEntry_self] at hparent
    cases hparent
    refine ⟨fun hmem => absurd hmem List.not_mem_nil, ?_⟩
    rintro ⟨ce, hc, hmem⟩
    obtain ⟨before, hb, -⟩ := h.spends_withEntry hc hmem
    exact absurd rfl (wtxid_ne_of_getElem? hnew hb)
  · obtain ⟨before, hb, -, -, hd⟩ := getElem?_withEntry_of_ne heq hparent
    rw [hd, h.inverse hb]
    constructor
    · rintro (⟨ce, hc, hmem⟩ | ⟨rfl, hmem⟩)
      · obtain ⟨entry, hentry, -, hde⟩ := exists_getElem?_withEntry hnew fee cycles hc
        exact ⟨entry, hentry, hde ▸ hmem⟩
      · exact ⟨_, getElem?_withEntry_self, hmem⟩
    · rintro ⟨ce, hc, hmem⟩
      by_cases hchildEq : env.wtxid tx = child
      · subst hchildEq
        rw [getElem?_withEntry_self] at hc
        cases hc
        exact .inr ⟨rfl, hmem⟩
      · obtain ⟨cb, hch, -, hde, -⟩ := getElem?_withEntry_of_ne hchildEq hc
        exact .inl ⟨cb, hch, hde ▸ hmem⟩

theorem Linked.withEntry (h : self.Linked env) : (self.withEntry env tx fee cycles).Linked env where
  keyed {wtxid entry} hentry := by
    by_cases heq : env.wtxid tx = wtxid
    · rw [← heq, getElem?_withEntry_self, Option.some.injEq] at hentry
      rw [← heq, ← hentry]
    · obtain ⟨before, hb, htx, -, -⟩ := getElem?_withEntry_of_ne heq hentry
      rw [← htx]
      exact h.keyed hb
  inverse hp := h.inverse_withEntry hnew hp
  spends hc hmem := by
    obtain ⟨before, hb, hsp⟩ := h.spends_withEntry hc hmem
    obtain ⟨entry, hentry, htx, -⟩ := exists_getElem?_withEntry hnew fee cycles hb
    exact ⟨entry, hentry, htx ▸ hsp⟩
  spent {outpoint wtxid} hs := by
    rw [getElem?_spentOutputs_withEntry] at hs
    split_ifs at hs with hmem
    · rw [Option.some.injEq] at hs
      exact ⟨_, hs ▸ getElem?_withEntry_self, hmem⟩
    · obtain ⟨before, hb, hsp⟩ := h.spent hs
      obtain ⟨entry, hentry, htx, -⟩ := exists_getElem?_withEntry hnew fee cycles hb
      exact ⟨entry, hentry, htx ▸ hsp⟩

end Fresh

theorem exec_remove (wtxid : Hash) (pool) : (remove wtxid).exec pool =
    match pool.txs[wtxid]? with
    | none => (.error (.txNotFound wtxid), pool)
    | some entry => (.ok entry.tx, pool.withoutEntry wtxid entry) := by
  unfold remove
  rw [exec_bind, exec_get]
  dsimp only
  cases pool.txs[wtxid]? with
  | none => rfl
  | some entry => rfl

def Remains (env : MempoolServices) (before pool : CellPool) : Prop :=
  pool.Linked env ∧ pool.Below before

variable {before : CellPool}

theorem remove_remains (wtxid : Hash) : Keeps (Remains env before) (remove wtxid) := by
  refine intro fun pool hp => ?_
  rw [exec_remove]
  cases hentry : pool.txs[wtxid]? with
  | none => exact hp
  | some entry => exact ⟨hp.1.withoutEntry hentry, (hp.1.below_withoutEntry hentry).trans hp.2⟩

def Entered (env : MempoolServices) (before : CellPool) (tx : CellTx) (fee cycles : Nat)
    (wtxid : Hash) (pool : CellPool) : Prop :=
  ∃ remaining, Remains env before remaining ∧ env.wtxid tx ∉ remaining.txs ∧ wtxid = env.wtxid tx ∧
    pool = remaining.withEntry env tx fee cycles

section Add

variable {addAgain : Stateful CellPoolError CellPool Hash}
  (hagain : Triple (Remains env before) addAgain (Entered env before tx fee cycles)
    (Remains env before))

include hagain

theorem tryReplaceByFee_spec (conflicts) :
    Triple (Remains env before) (tryReplaceByFee env tx fee cycles conflicts addAgain)
    (Entered env before tx fee cycles) (Remains env before) := by
  refine bind (ofGet fun _ => id) fun pool => ?_
  refine bind (Keeps.forM fun conflictId _ => .bind .ofOkOr fun _ => .ofRequire) fun _ => ?_
  exact bind (Keeps.forM fun conflictId _ => .map (remove_remains conflictId)) fun _ => hagain

theorem addOr_spec : Triple (Remains env before) (addOr env tx fee cycles addAgain)
    (Entered env before tx fee cycles) (Remains env before) := by
  refine bind (ofGet (Q := fun t s => t = s ∧ Remains env before s) fun _ hs => ⟨rfl, hs⟩)
    fun pool => ?_
  refine bind (ofRequire fun _ hs => hs.2) fun _ => assume fun hnew => ?_
  refine bind (ofRequire fun _ hs => hs.2) fun _ => assume fun _ => ite (fun _ => ?_) fun _ => ?_
  · exact (tryReplaceByFee_spec hagain _).strengthen fun _ hs => hs.2
  · refine bind (ofSet ?_) fun _ =>
      ofPure fun _ => id
    rintro _ ⟨rfl, hs⟩
    exact ⟨pool, hs, hnew, rfl, rfl⟩

end Add

theorem addWith_spec (reps : Nat) : Triple (Remains env before) (addWith env tx fee cycles reps)
    (Entered env before tx fee cycles) (Remains env before) := by
  induction reps with
  | zero => exact addOr_spec (ofThrow fun _ => id)
  | succ reps ih => exact addOr_spec ih

theorem add_spec :
    Triple (Remains env before) (add env tx fee cycles) (Entered env before tx fee cycles)
    (Remains env before) :=
  bind (ofGet (Q := fun _ => Remains env before) fun _ => id) fun _ => addWith_spec _

end Insertion

section Iteration

variable {iteration : List Hash → List Hash} {iteration_perm : ∀ ids, (iteration ids).Perm ids}

theorem addWith_iteration (tx) (fee cycles reps : Nat) :
    addWith { env with iteration, iteration_perm } tx fee cycles reps =
      addWith env tx fee cycles reps := by
  induction reps with
  | zero => rfl
  | succ reps ih =>
    rw [addWith, ih]
    rfl

theorem add_iteration (tx) (fee cycles : Nat) :
    add { env with iteration, iteration_perm } tx fee cycles = add env tx fee cycles := by
  unfold add
  simp [addWith_iteration]

end Iteration

end CellPool

end Spora
