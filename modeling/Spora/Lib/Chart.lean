import Spora.Lib.Patch

-- Maps and patches whose values are determined by their keys.
namespace Patch

variable {κ ν : Type*}

def Charted (χ : κ → ν) (f : κ → Option ν) : Prop := ∀ k v, f k = some v → v = χ k

variable {χ : κ → ν} {f g : κ → Option ν} {q : Patch κ ν}

theorem Charted.eq (hf : Charted χ f) (hg : Charted χ g) {k} (h : (f k).isSome = (g k).isSome) :
    f k = g k := by
  cases hfk : f k with
  | none => cases hgk : g k with
    | none => rfl
    | some w => simp [hfk, hgk] at h
  | some v => cases hgk : g k with
    | none => simp [hfk, hgk] at h
    | some w => rw [hf k v hfk, hg k w hgk]

theorem Charted.apply (hf : Charted χ f) (hq : Charted χ q.add) : Charted χ (q.apply f) := by
  intro k v hv
  cases hadd : q.add k with
  | some w =>
    have hw : w = v := by simpa [Patch.apply, hadd] using hv
    exact hw ▸ hq k w hadd
  | none => cases hrem : q.remove k with
    | some w => simp [Patch.apply, hadd, hrem] at hv
    | none => exact hf k v (by simpa [Patch.apply, hadd, hrem] using hv)

def difference (f g : κ → Option ν) : Patch κ ν := net f g f

theorem difference_exact (f g : κ → Option ν) : (difference f g).Exact f where
  remove_eq k v hv := by
    cases hf : f k <;> cases hg : g k <;> simp_all [difference, net]
  add_absent k hk := by
    cases hf : f k <;> simp_all [difference, net]

theorem difference_apply (hf : Charted χ f) (hg : Charted χ g) : (difference f g).apply f = g := by
  funext k
  cases hfk : f k with
  | none => cases hgk : g k <;> simp [difference, net, Patch.apply, hfk, hgk]
  | some v => cases hgk : g k with
    | none => simp [difference, net, Patch.apply, hfk, hgk]
    | some w =>
      simp [difference, net, Patch.apply, hfk, hgk, hf k v hfk, hg k w hgk]

theorem difference_self (f : κ → Option ν) : difference f f = empty := net_self f f

theorem reverse_difference (f g : κ → Option ν) : (difference f g).reverse = difference g f := by
  ext1 k
  · cases hf : f k <;> cases hg : g k <;> simp [difference, net, reverse, hf, hg]
  · cases hf : f k <;> cases hg : g k <;> simp [difference, net, reverse, hf, hg]

theorem difference_comp (hf : Charted χ f) (hg : Charted χ g) (hq : q.Exact g) :
    (difference f g).Composable q ∧ (difference f g).comp q = difference f (q.apply g) := by
  obtain ⟨hc, hco⟩ := net_comp hq fun k hk _ => hk
  refine ⟨hc, hco.trans ?_⟩
  ext1 k
  · rfl
  · cases hfk : f k with
    | none => simp [difference, net, hfk]
    | some v => cases hrem : q.remove k with
      | none => simp [difference, net, hrem]
      | some w =>
        have hw : w = v := by rw [hg k w (hq.remove_eq k w hrem), hf k v hfk]
        simp [difference, net, hfk, hrem, hw]

theorem ExactChain.compAll_eq_difference {chain} (h : ExactChain chain f)
    (hf : Charted χ f) (hadds : ∀ q ∈ chain, Charted χ q.add) :
    compAll chain = difference f (applyAll chain f) ∧ Charted χ (applyAll chain f) := by
  induction chain using List.reverseRecOn with
  | nil => exact ⟨(difference_self f).symm, hf⟩
  | append_singleton chain q ih =>
    obtain ⟨hch, hq⟩ := exactChain_snoc.mp h
    obtain ⟨heq, hc⟩ := ih hch fun p hp => hadds p (List.mem_append_left _ hp)
    rw [compAll_snoc, applyAll_snoc, heq]
    exact ⟨(difference_comp hf hc hq).2, hc.apply (hadds q (by simp))⟩

end Patch
