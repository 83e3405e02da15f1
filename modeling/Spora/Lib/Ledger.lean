import Mathlib.Data.List.Nodup
import Spora.Lib.Patch

-- Partial maps that transactions change: a transaction drops the keys it spends and then writes the
-- entries it creates.
structure Ledger.Tx (κ ν : Type*) where
  spends : List κ
  creates : List (κ × ν)

namespace Ledger

open List

variable {κ ν : Type*}

namespace Tx

def Touches (tx : Tx κ ν) (k : κ) : Prop := k ∈ tx.spends ∨ k ∈ tx.creates.map Prod.fst

-- The spent keys are present, none of them twice, and the created ones are distinct and new.
structure Fits (tx : Tx κ ν) (f : κ → Option ν) : Prop where
  live : ∀ k ∈ tx.spends, (f k).isSome
  spends_nodup : tx.spends.Nodup
  creates_nodup : (tx.creates.map Prod.fst).Nodup
  fresh : ∀ k ∈ tx.creates.map Prod.fst, f k = none ∨ k ∈ tx.spends

theorem Fits.congr {tx : Tx κ ν} {f g : κ → Option ν} (h : tx.Fits f)
    (hfg : ∀ k, tx.Touches k → f k = g k) : tx.Fits g where
  live k hk := hfg k (.inl hk) ▸ h.live k hk
  spends_nodup := h.spends_nodup
  creates_nodup := h.creates_nodup
  fresh k hk := hfg k (.inr hk) ▸ h.fresh k hk

end Tx

variable [DecidableEq κ]

namespace Tx

def apply (tx : Tx κ ν) (f : κ → Option ν) : κ → Option ν :=
  fun k => (tx.creates.lookup k).or (if k ∈ tx.spends then none else f k)

def patch (tx : Tx κ ν) (f : κ → Option ν) : Patch κ ν where
  add k := tx.creates.lookup k
  remove k := if k ∈ tx.spends then f k else none

variable {tx : Tx κ ν} {f : κ → Option ν} {k : κ}

theorem lookup_eq_none_iff : tx.creates.lookup k = none ↔ k ∉ tx.creates.map Prod.fst := by
  rw [List.lookup_eq_none_iff]
  constructor
  · intro hall hmem
    obtain ⟨p, hp, rfl⟩ := mem_map.mp hmem
    simpa using hall p hp
  · intro hnot p hp
    have hne : k ≠ p.1 := fun heq => hnot (mem_map.mpr ⟨p, hp, heq.symm⟩)
    simp [hne]

theorem mem_of_lookup_eq_some {v} (h : tx.creates.lookup k = some v) : (k, v) ∈ tx.creates := by
  obtain ⟨front, rest, hs, -⟩ := lookup_eq_some_iff.mp h
  rw [hs]
  simp

theorem apply_patch : (tx.patch f).apply f = tx.apply f := by
  funext k
  by_cases hk : k ∈ tx.spends
  · cases hf : f k <;> simp [Patch.apply, patch, apply, hk, hf]
  · simp [Patch.apply, patch, apply, hk]

theorem Fits.exact (h : tx.Fits f) : (tx.patch f).Exact f where
  remove_eq k v hv := by
    by_cases hk : k ∈ tx.spends
    · simpa [patch, hk] using hv
    · simp [patch, hk] at hv
  add_absent k hk := by
    have hmem : k ∈ tx.creates.map Prod.fst := by
      by_contra hnot
      rw [← lookup_eq_none_iff] at hnot
      simp [patch, hnot] at hk
    refine (h.fresh k hmem).imp_right fun hs => ?_
    have hl := h.live k hs
    simpa [patch, hs] using hl

theorem apply_of_not_touches (h : ¬ tx.Touches k) : tx.apply f k = f k := by
  rw [Touches, not_or] at h
  simp [apply, lookup_eq_none_iff.mpr h.2, h.1]

theorem apply_congr {g} (h : tx.Touches k) : tx.apply f k = tx.apply g k := by
  unfold apply
  by_cases hc : k ∈ tx.creates.map Prod.fst
  · have hne := mt lookup_eq_none_iff.mp (not_not.mpr hc)
    obtain ⟨v, hv⟩ := Option.ne_none_iff_exists'.mp hne
    simp [hv]
  · have hs := h.resolve_right hc
    simp [hs]

end Tx

def run (txs : List (Tx κ ν)) (f : κ → Option ν) : κ → Option ν :=
  txs.foldl (fun g tx => tx.apply g) f

def Fit : List (Tx κ ν) → (κ → Option ν) → Prop
  | [], _ => True
  | tx :: rest, f => tx.Fits f ∧ Fit rest (tx.apply f)

-- The patches of a run, each recorded where the ones in front of it lead to.
def patches : List (Tx κ ν) → (κ → Option ν) → List (Patch κ ν)
  | [], _ => []
  | tx :: rest, f => tx.patch f :: patches rest (tx.apply f)

variable {txs : List (Tx κ ν)} {tx : Tx κ ν} {f g : κ → Option ν} {k : κ}

theorem run_append (first rest : List (Tx κ ν)) (f) :
    run (first ++ rest) f = run rest (run first f) := by simp [run]

theorem run_snoc : run (txs ++ [tx]) f = tx.apply (run txs f) := by simp [run]

theorem fit_append {first rest : List (Tx κ ν)} :
    Fit (first ++ rest) f ↔ Fit first f ∧ Fit rest (run first f) := by
  induction first generalizing f with
  | nil => simp [Fit, run]
  | cons tx first ih =>
    simp only [cons_append, Fit, ih, and_assoc]
    rfl

theorem fit_snoc : Fit (txs ++ [tx]) f ↔ Fit txs f ∧ tx.Fits (run txs f) := by
  simp [fit_append, Fit]

theorem applyAll_patches (txs) (f : κ → Option ν) :
    Patch.applyAll (patches txs f) f = run txs f := by
  induction txs generalizing f with
  | nil => rfl
  | cons tx rest ih =>
    have hr := ih (tx.apply f)
    rw [patches, Patch.applyAll, foldl_cons, Tx.apply_patch]
    exact hr

theorem mem_creates_of_mem_patches {q v} (hq : q ∈ patches txs f)
    (hadd : q.add k = some v) : ∃ tx ∈ txs, (k, v) ∈ tx.creates := by
  induction txs generalizing f with
  | nil => simp [patches] at hq
  | cons tx rest ih =>
    rcases mem_cons.mp hq with rfl | hq
    · exact ⟨tx, mem_cons_self, Tx.mem_of_lookup_eq_some hadd⟩
    · obtain ⟨tx', htx', hc⟩ := ih hq
      exact ⟨tx', mem_cons_of_mem _ htx', hc⟩

theorem Fit.exactChain (h : Fit txs f) : Patch.ExactChain (patches txs f) f := by
  induction txs generalizing f with
  | nil => trivial
  | cons tx rest ih =>
    refine ⟨h.1.exact, ?_⟩
    rw [Tx.apply_patch]
    exact ih h.2

theorem run_of_untouched (h : ∀ tx ∈ txs, ¬ tx.Touches k) : run txs f k = f k := by
  induction txs using List.reverseRecOn with
  | nil => rfl
  | append_singleton txs tx ih =>
    rw [run_snoc, Tx.apply_of_not_touches (h tx (by simp))]
    exact ih fun t ht => h t (mem_append_left _ ht)

theorem run_congr (h : ∃ tx ∈ txs, tx.Touches k) : run txs f k = run txs g k := by
  induction txs using List.reverseRecOn with
  | nil => simp at h
  | append_singleton txs tx ih =>
    rw [run_snoc, run_snoc]
    by_cases hk : tx.Touches k
    · exact Tx.apply_congr hk
    · rw [Tx.apply_of_not_touches hk, Tx.apply_of_not_touches hk]
      obtain ⟨t, ht, htk⟩ := h
      rcases mem_append.mp ht with ht | ht
      · exact ih ⟨t, ht, htk⟩
      · obtain rfl := mem_singleton.mp ht
        exact absurd htk hk

-- The last transaction that touches a key decides about it.
def LastTouch (txs : List (Tx κ ν)) (tx : Tx κ ν) (k : κ) : Prop :=
  ∃ front rest, txs = front ++ tx :: rest ∧ tx.Touches k ∧ ∀ t ∈ rest, ¬ t.Touches k

theorem LastTouch.run_eq (h : LastTouch txs tx k) : run txs f k = tx.creates.lookup k := by
  obtain ⟨front, rest, rfl, hk, hrest⟩ := h
  rw [run_append, run, foldl_cons]
  refine (run_of_untouched hrest).trans ?_
  rw [Tx.apply]
  rcases hk with hs | hc
  · simp [hs]
  · obtain ⟨v, hv⟩ := Option.ne_none_iff_exists'.mp (mt Tx.lookup_eq_none_iff.mp (not_not.mpr hc))
    simp [hv]

omit [DecidableEq κ] in
theorem exists_lastTouch (h : ∃ tx ∈ txs, tx.Touches k) : ∃ tx, LastTouch txs tx k := by
  induction txs with
  | nil => simp at h
  | cons tx txs ih =>
    by_cases hlater : ∃ t ∈ txs, t.Touches k
    · obtain ⟨t, front, rest, rfl, hk⟩ := ih hlater
      exact ⟨t, tx :: front, rest, rfl, hk⟩
    · have hk : tx.Touches k := by
        obtain ⟨t, ht, hk⟩ := h
        rcases mem_cons.mp ht with rfl | ht
        · exact hk
        · exact absurd ⟨t, ht, hk⟩ hlater
      exact ⟨tx, [], txs, rfl, hk, fun t ht hk => hlater ⟨t, ht, hk⟩⟩

theorem Fit.congr (h : Fit txs f) (hfg : ∀ tx ∈ txs, ∀ k, tx.Touches k → f k = g k) :
    Fit txs g := by
  induction txs generalizing f g with
  | nil => trivial
  | cons tx rest ih =>
    refine ⟨h.1.congr (hfg tx (by simp)), ih h.2 fun t ht k hk => ?_⟩
    by_cases htx : tx.Touches k
    · exact Tx.apply_congr htx
    · rw [Tx.apply_of_not_touches htx, Tx.apply_of_not_touches htx]
      exact hfg t (mem_cons_of_mem tx ht) k hk

theorem mem_of_run_eq_some {v} (h : run txs f k = some v) :
    f k = some v ∨ ∃ tx ∈ txs, (k, v) ∈ tx.creates := by
  induction txs using List.reverseRecOn with
  | nil => exact .inl h
  | append_singleton txs tx ih =>
    rw [run_snoc, Tx.apply] at h
    cases hl : tx.creates.lookup k with
    | some w =>
      obtain rfl : w = v := by simpa [hl] using h
      exact .inr ⟨tx, by simp, Tx.mem_of_lookup_eq_some hl⟩
    | none =>
      rw [hl, Option.none_or] at h
      split_ifs at h
      rcases ih h with hf | ⟨t, ht, hv⟩
      · exact .inl hf
      · exact .inr ⟨t, mem_append_left _ ht, hv⟩

end Ledger
