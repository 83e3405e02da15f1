import Mathlib.Data.List.Induction
import Mathlib.Data.Option.Basic

-- Patches of partial maps. A patch drops the keys of `remove` and then writes the entries of
-- `add`; `remove` also records the value it expects to drop, so that a patch can be reversed.
structure Patch (κ ν : Type*) where
  add : κ → Option ν
  remove : κ → Option ν

namespace Patch

open Option

variable {κ ν μ : Type*}

@[ext] theorem ext {p q : Patch κ ν} (hadd : ∀ k, p.add k = q.add k)
    (hremove : ∀ k, p.remove k = q.remove k) : p = q := by
  obtain ⟨pa, pr⟩ := p
  obtain ⟨qa, qr⟩ := q
  simp only [mk.injEq]
  exact ⟨funext hadd, funext hremove⟩

def empty : Patch κ ν := ⟨fun _ => none, fun _ => none⟩

def apply (p : Patch κ ν) (f : κ → Option ν) : κ → Option ν :=
  fun k => (p.add k).or ((p.remove k).elim (f k) fun _ => none)

def reverse (p : Patch κ ν) : Patch κ ν := ⟨p.remove, p.add⟩

def map (g : ν → μ) (p : Patch κ ν) : Patch κ μ :=
  ⟨fun k => (p.add k).map g, fun k => (p.remove k).map g⟩

-- `p` can be applied to `f`: it drops only keys that are present, and the keys it writes are
-- absent once its own removals are done.
structure Applicable (p : Patch κ ν) (f : κ → Option ν) : Prop where
  remove_present : ∀ k, (p.remove k).isSome → (f k).isSome
  add_absent : ∀ k, (p.add k).isSome → f k = none ∨ (p.remove k).isSome

structure Exact (p : Patch κ ν) (f : κ → Option ν) : Prop where
  remove_eq : ∀ k v, p.remove k = some v → f k = some v
  add_absent : ∀ k, (p.add k).isSome → f k = none ∨ (p.remove k).isSome

theorem empty_exact (f : κ → Option ν) : (empty : Patch κ ν).Exact f where
  remove_eq k v h := by simp [empty] at h
  add_absent k h := by simp [empty] at h

@[simp] theorem apply_empty (f) : (empty : Patch κ ν).apply f = f := by
  funext k
  simp [apply, empty]

section Composition

-- What is left of key `k` in `p` once the removals of `q` are folded into it: a key that `p`
-- wrote is no longer written, any other one is dropped.
def afterRemovals (p q : Patch κ ν) : Patch κ ν where
  add k := (q.remove k).elim (p.add k) fun _ => none
  remove k := (p.add k).elim ((q.remove k).or (p.remove k)) fun _ => p.remove k

-- The additions of `q` folded into `p`: a key that `p` drops and `q` writes cancels out, whatever
-- the two values are. This is the same bookkeeping with writing and dropping exchanged.
def afterAdditions (p q : Patch κ ν) : Patch κ ν := (p.reverse.afterRemovals q.reverse).reverse

def comp (p q : Patch κ ν) : Patch κ ν := (p.afterRemovals q).afterAdditions q

-- The composition meets no clash: `q` drops no key that `p` has already dropped, and writes no
-- key that is still written.
structure Composable (p q : Patch κ ν) : Prop where
  remove_once : ∀ k, (q.remove k).isSome → (p.add k).isSome ∨ p.remove k = none
  add_once : ∀ k, (q.add k).isSome → ((p.afterRemovals q).remove k).isSome ∨
    (p.afterRemovals q).add k = none

variable {p q : Patch κ ν} {f : κ → Option ν}

theorem Applicable.composable (hq : q.Applicable (p.apply f)) : p.Composable q where
  remove_once k hk := by
    have hpr := hq.remove_present k hk
    cases ha : p.add k with
    | some v => simp
    | none =>
      right
      by_contra hr
      obtain ⟨w, hw⟩ := ne_none_iff_exists'.mp hr
      simp [apply, ha, hw] at hpr
  add_once k hk := by
    cases hqr : q.remove k with
    | some m => simp [afterRemovals, hqr]
    | none =>
      have habs := hq.add_absent k hk
      simp only [hqr] at habs
      have ha : p.add k = none := by
        cases ha : p.add k with
        | none => rfl
        | some v => simp [apply, ha] at habs
      simp [afterRemovals, hqr, ha]

variable (hp : p.Applicable f) (hq : q.Applicable (p.apply f))
include hp hq

theorem comp_apply (k : κ) : (p.comp q).apply f k =
    (q.add k).elim (q.apply (p.apply f) k) fun v => (f k).or (some v) := by
  have hpr := hp.remove_present k
  have hpa := hp.add_absent k
  have hqr := hq.remove_present k
  have hqa := hq.add_absent k
  simp only [apply] at hqr hqa ⊢
  simp only [comp, afterAdditions, afterRemovals, reverse]
  cases ha : p.add k <;> cases hr : p.remove k <;> cases ha' : q.add k <;>
    cases hr' : q.remove k <;>
    cases hf : f k <;> simp_all

-- The composition law. Composing is the same as applying in turn exactly when every key that `q`
-- writes over an entry of `f` gets the value it had in `f`.
theorem comp_apply_eq_iff :
    (p.comp q).apply f = q.apply (p.apply f) ↔ ∀ k v, q.add k = some v → f k = none ∨
    f k = some v := by
  constructor
  · intro heq k v hv
    have hk := congrFun heq k
    rw [comp_apply hp hq] at hk
    simp only [hv, apply] at hk
    cases hf : f k with
    | none => simp
    | some w => simpa [hf] using hk
  · intro hc
    funext k
    rw [comp_apply hp hq]
    cases hv : q.add k with
    | none => simp
    | some v =>
      simp only [apply, hv]
      rcases hc k v hv with hf | hf <;> simp [hf]

end Composition

section Chain

-- The patches of a chain applied in turn, each exact where the ones in front of it lead to.
def applyAll (chain : List (Patch κ ν)) (f : κ → Option ν) : κ → Option ν :=
  chain.foldl (fun g q => q.apply g) f

def ExactChain : List (Patch κ ν) → (κ → Option ν) → Prop
  | [], _ => True
  | q :: rest, f => q.Exact f ∧ ExactChain rest (q.apply f)

def compAll (chain : List (Patch κ ν)) : Patch κ ν := chain.foldl comp empty

def lastRemoved (chain : List (Patch κ ν)) (k : κ) : Option ν :=
  (chain.filterMap fun q => q.remove k).getLast?

variable {ch : List (Patch κ ν)} {q : Patch κ ν} {f : κ → Option ν} {k : κ}

theorem applyAll_snoc : applyAll (ch ++ [q]) f = q.apply (applyAll ch f) := by
  simp [applyAll]

theorem compAll_snoc : compAll (ch ++ [q]) = (compAll ch).comp q := by
  simp [compAll]

theorem lastRemoved_snoc : lastRemoved (ch ++ [q]) k = (q.remove k).or (lastRemoved ch k) := by
  cases hq : q.remove k <;> simp [lastRemoved, hq]

theorem exactChain_snoc : ExactChain (ch ++ [q]) f ↔ ExactChain ch f ∧ q.Exact (applyAll ch f) := by
  induction ch generalizing f with
  | nil => simp [ExactChain, applyAll]
  | cons p rest ih =>
    simp only [List.cons_append, ExactChain, ih, and_assoc]
    rfl

theorem mem_of_applyAll_eq_some {v} (h : applyAll ch f k = some v) : (∃ q ∈ ch, q.add k = some v) ∨
    f k = some v ∧ ∀ q ∈ ch, q.add k = none ∧ q.remove k = none := by
  induction ch generalizing f with
  | nil => exact .inr ⟨h, by simp⟩
  | cons q rest ih =>
    rcases ih h with ⟨p, hp, hadd⟩ | ⟨hq, hr⟩
    · exact .inl ⟨p, List.mem_cons_of_mem _ hp, hadd⟩
    · cases hadd : q.add k with
      | some w =>
        have hw : w = v := by simpa [apply, hadd] using hq
        exact .inl ⟨q, List.mem_cons_self, hadd.trans (by rw [hw])⟩
      | none =>
        cases hrem : q.remove k with
        | some w => simp [apply, hadd, hrem] at hq
        | none =>
          refine .inr ⟨by simpa [apply, hadd, hrem] using hq, fun p hp => ?_⟩
          rcases List.mem_cons.mp hp with rfl | hp
          · exact ⟨hadd, hrem⟩
          · exact hr p hp

theorem applyAll_eq_of_touched {g}
    (h : f k = g k ∨ ∃ q ∈ ch, (q.add k).isSome ∨ (q.remove k).isSome) :
    applyAll ch f k = applyAll ch g k := by
  induction ch generalizing f g with
  | nil => exact h.resolve_right (by simp)
  | cons q rest ih =>
    refine ih ?_
    by_cases hq : (q.add k).isSome ∨ (q.remove k).isSome
    · left
      cases hadd : q.add k with
      | some v => simp [apply, hadd]
      | none =>
        obtain ⟨v, hv⟩ := isSome_iff_exists.mp (hq.resolve_left (by simp [hadd]))
        simp [apply, hv]
    · rcases h with heq | ⟨p, hp, ht⟩
      · exact .inl (by simp [apply, heq])
      · rcases List.mem_cons.mp hp with rfl | hp
        · exact absurd ht hq
        · exact .inr ⟨p, hp, ht⟩

theorem applyAll_of_untouched (h : ∀ q ∈ ch, q.add k = none ∧ q.remove k = none) :
    applyAll ch f k = f k := by
  induction ch using List.reverseRecOn with
  | nil => rfl
  | append_singleton ch q ih =>
    have hq := h q (by simp)
    rw [applyAll_snoc, apply, hq.1, hq.2]
    exact ih fun p hp => h p (List.mem_append_left _ hp)

-- What a chain amounts to: the keys that are new, and the keys that are gone with the value they
-- were dropped under last. A key that was there before and is there again has left no trace.
def net (f g last : κ → Option ν) : Patch κ ν where
  add k := (f k).elim (g k) fun _ => none
  remove k := (f k).bind fun _ => (g k).elim (last k) fun _ => none

theorem net_self (f last : κ → Option ν) : net f f last = empty := by
  ext1 k
  · cases hf : f k <;> simp [net, empty, hf]
  · cases hf : f k <;> simp [net, empty, hf]

theorem ExactChain.lastRemoved_isSome (h : ExactChain ch f) (hf : (f k).isSome)
    (hg : applyAll ch f k = none) : (lastRemoved ch k).isSome := by
  induction ch using List.reverseRecOn with
  | nil => simp [applyAll, isSome_iff_ne_none.mp hf] at hg
  | append_singleton ch q ih =>
    rw [exactChain_snoc] at h
    rw [applyAll_snoc] at hg
    rw [lastRemoved_snoc]
    cases hr : q.remove k with
    | some v => simp
    | none =>
      have hb : applyAll ch f k = none := by
        simp only [apply, hr, or_eq_none_iff] at hg
        exact hg.2
      simpa using ih h.1 hb

theorem net_comp {g last} (hq : q.Exact g)
    (hlast : ∀ k, (f k).isSome → g k = none → (last k).isSome) :
    (net f g last).Composable q ∧ (net f g last).comp q = net f (q.apply g) fun k =>
    (q.remove k).or (last k) := by
  refine ⟨⟨fun k hk => ?_, fun k hk => ?_⟩, ?_⟩
  · obtain ⟨v, hv⟩ := isSome_iff_exists.mp hk
    have hg := hq.remove_eq k v hv
    cases hf : f k <;> simp [net, hg]
  · have hadd := hq.add_absent k hk
    cases hr : q.remove k with
    | some v => cases hf : f k <;> simp [afterRemovals, hr]
    | none =>
      cases hf : f k <;> simp_all [afterRemovals, net]
  · ext1 k
    all_goals
      have hadd := hq.add_absent k
      have hrem := hq.remove_eq k
      have hl := hlast k
      simp only [comp, afterAdditions, afterRemovals, reverse, net, apply]
      cases hf : f k <;> cases hg : g k <;> cases hr : q.remove k <;> cases ha : q.add k <;>
        cases hv : last k <;> simp_all

theorem ExactChain.compAll_eq (h : ExactChain ch f) :
    compAll ch = net f (applyAll ch f) (lastRemoved ch) := by
  induction ch using List.reverseRecOn with
  | nil => exact (net_self f _).symm
  | append_singleton ch q ih =>
    obtain ⟨hc, hq⟩ := exactChain_snoc.mp h
    rw [compAll_snoc, ih hc, applyAll_snoc,
      (net_comp hq fun k hf hg => hc.lastRemoved_isSome hf hg).2]
    congr 1
    exact funext fun k => lastRemoved_snoc.symm

theorem ExactChain.composable (h : ExactChain (ch ++ [q]) f) : (compAll ch).Composable q := by
  obtain ⟨hc, hq⟩ := exactChain_snoc.mp h
  rw [hc.compAll_eq]
  exact (net_comp hq fun k hf hg => hc.lastRemoved_isSome hf hg).1

-- The composition gives every key that is new or gone its right value. Applied to any map `e`, it
-- leads where the chain leads from `f` exactly when `e` has the right value at all other keys:
-- those that the chain leaves present or leaves absent.
theorem ExactChain.compAll_apply_eq_iff (h : ExactChain ch f) {e} :
    (compAll ch).apply e = applyAll ch f ↔
    ∀ k, (f k).isSome = (applyAll ch f k).isSome → e k = applyAll ch f k := by
  have hl := fun k => h.lastRemoved_isSome (k := k)
  rw [h.compAll_eq]
  constructor
  · intro heq k hk
    have hval := congrFun heq k
    cases hf : f k with
    | none =>
      have hg : applyAll ch f k = none := by simpa [hf] using hk.symm
      simpa [apply, net, hf, hg] using hval
    | some v =>
      obtain ⟨w, hg⟩ := isSome_iff_exists.mp (hk.symm.trans (by simp [hf]))
      simpa [apply, net, hf, hg] using hval
  · intro hs
    funext k
    cases hf : f k with
    | none =>
      cases hg : applyAll ch f k with
      | none => simp_all [apply, net]
      | some w => simp [apply, net, hf, hg]
    | some v =>
      cases hg : applyAll ch f k with
      | some w => simp_all [apply, net]
      | none =>
        obtain ⟨w, hw⟩ := isSome_iff_exists.mp (hl k (by simp [hf]) hg)
        simp [apply, net, hf, hg, hw]

-- The reverse of the composition leads back to the base exactly when every key that is gone was
-- dropped last under the value it has in the base.
theorem ExactChain.reverse_compAll_iff (h : ExactChain ch f) :
    (compAll ch).reverse.apply ((compAll ch).apply f) = f ↔
    ∀ k v, f k = some v → applyAll ch f k = none → lastRemoved ch k = some v := by
  have hl := fun k => h.lastRemoved_isSome (k := k)
  rw [h.compAll_eq]
  constructor
  · intro heq k v hf hg
    have hk := congrFun heq k
    obtain ⟨w, hw⟩ := isSome_iff_exists.mp (hl k (by simp [hf]) hg)
    simpa [apply, reverse, net, hf, hg, hw] using hk
  · intro hc
    funext k
    cases hf : f k with
    | none => cases hg : applyAll ch f k <;> simp [apply, reverse, net, hf, hg]
    | some v =>
      cases hg : applyAll ch f k with
      | some w => simp [apply, reverse, net, hf, hg]
      | none => simp [apply, reverse, net, hf, hg, hc k v hf hg]

end Chain

section Recording

variable [DecidableEq κ]

-- A patch that is built up while the map it describes changes: writing a key, and dropping a key
-- that holds `v`. A key the patch itself wrote is forgotten when it is dropped.
def write (p : Patch κ ν) (k : κ) (v : ν) : Patch κ ν :=
  ⟨Function.update p.add k (some v), p.remove⟩

def drop (p : Patch κ ν) (k : κ) (v : ν) : Patch κ ν :=
  if (p.add k).isSome then ⟨Function.update p.add k none, p.remove⟩
  else ⟨p.add, Function.update p.remove k (some v)⟩

variable {p : Patch κ ν} {f : κ → Option ν} {k : κ} {v : ν}

theorem apply_write : (p.write k v).apply f = Function.update (p.apply f) k (some v) := by
  funext a
  by_cases h : a = k
  · subst h
    simp [write, apply]
  · simp [write, apply, Function.update_of_ne h]

theorem Exact.apply_drop (h : p.Exact f) :
    (p.drop k v).apply f = Function.update (p.apply f) k none := by
  funext a
  have hadd := h.add_absent k
  unfold drop
  by_cases hk : a = k
  · subst hk
    split_ifs with ha
    · rcases hadd ha with hf | hr
      · cases hr : p.remove a <;> simp [apply, hf, hr]
      · obtain ⟨w, hw⟩ := isSome_iff_exists.mp hr
        simp [apply, hw]
    · simp only [Bool.not_eq_true, isSome_eq_false_iff, isNone_iff_eq_none] at ha
      simp [apply, ha]
  · split_ifs <;> simp [apply, Function.update_of_ne hk]

theorem Exact.write (h : p.Exact f) (hk : p.apply f k = none) : (p.write k v).Exact f where
  remove_eq := h.remove_eq
  add_absent a ha := by
    by_cases hak : a = k
    · subst hak
      simp only [apply, or_eq_none_iff] at hk
      cases hr : p.remove a with
      | some w => simp [Patch.write, hr]
      | none => exact .inl (by simpa [hr] using hk.2)
    · simp only [Patch.write, Function.update_of_ne hak] at ha ⊢
      exact h.add_absent a ha

theorem Exact.drop (h : p.Exact f) (hk : p.apply f k = some v) : (p.drop k v).Exact f := by
  unfold Patch.drop
  split_ifs with ha
  · refine ⟨h.remove_eq, fun a hadd => h.add_absent a ?_⟩
    by_cases hak : a = k
    · subst hak
      simp at hadd
    · simpa [Function.update_of_ne hak] using hadd
  · simp only [Bool.not_eq_true, isSome_eq_false_iff, isNone_iff_eq_none] at ha
    refine ⟨fun a w hw => ?_, fun a hadd => ?_⟩
    · by_cases hak : a = k
      · subst hak
        simp only [Function.update_self] at hw
        cases hw
        cases hr : p.remove a with
        | some w => simp [apply, ha, hr] at hk
        | none => simpa [apply, ha, hr] using hk
      · exact h.remove_eq a w (by simpa [Function.update_of_ne hak] using hw)
    · by_cases hak : a = k
      · subst hak
        simp
      · simpa [Function.update_of_ne hak] using h.add_absent a hadd

end Recording

section Map

variable (g : ν → μ)

theorem map_apply (p : Patch κ ν) (f) :
    (p.map g).apply (fun k => (f k).map g) = fun k => (p.apply f k).map g := by
  funext k
  simp only [apply, map]
  cases p.add k <;> cases p.remove k <;> simp

theorem map_applyAll (chain : List (Patch κ ν)) (f) :
    applyAll (chain.map (map g)) (fun k => (f k).map g) = fun k => (applyAll chain f k).map g := by
  induction chain generalizing f with
  | nil => rfl
  | cons q rest ih =>
    have hr := ih (q.apply f)
    rw [← map_apply] at hr
    exact hr

end Map

end Patch
