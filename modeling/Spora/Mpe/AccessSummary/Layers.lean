import Spora.Mpe.AccessSummary

namespace Spora.ExecutionDAG

variable {summaries : List BlockAccessSummary}

theorem dependsOn_eq {later e a b} (hb : summaries[later]? = some b)
    (ha : summaries[e]? = some a) : dependsOn summaries later e = b.hasDependencyOn a := by
  simp [dependsOn, hb, ha]

theorem exists_of_dependsOn {later e} (h : dependsOn summaries later e = true) :
    ∃ b a, summaries[later]? = some b ∧ summaries[e]? = some a ∧ b.hasDependencyOn a = true := by
  unfold dependsOn at h
  split at h
  · rename_i b a hb ha
    exact ⟨b, a, hb, ha, h⟩
  · cases h

theorem pairwise_lt_of_mem_layers {layer} (h : layer ∈ (build summaries).layers) :
    layer.Pairwise (· < ·) := by
  have hall : (build summaries).layers.flatten.Pairwise (· < ·) := by
    rw [build, Layers.flatten_layers]
    exact List.pairwise_lt_range
  exact (List.pairwise_flatten.mp hall).1 layer h

theorem build_layers (summaries : List BlockAccessSummary) :
    (build summaries).layers.flatten = List.range summaries.length ∧
    (∀ layer ∈ (build summaries).layers, ∀ earlier ∈ layer, ∀ later ∈ layer, earlier < later →
      ∀ a b, summaries[earlier]? = some a → summaries[later]? = some b →
      b.hasDependencyOn a = false) ∧ ∀ k layer next, (build summaries).layers[k]? = some layer →
    (build summaries).layers[k + 1]? = some next →
    ∃ first a b, next.head? = some first ∧ summaries[first]? = some b ∧
    ∃ earlier ∈ layer, summaries[earlier]? = some a ∧ b.hasDependencyOn a = true := by
  refine ⟨Layers.flatten_layers _ _, ?_, ?_⟩
  · intro layer hl earlier he later hla hlt a b ha hb
    have hin := Layers.independent_of_mem_layers layer hl
    have hascending := pairwise_lt_of_mem_layers hl
    obtain ⟨i, hi, rfl⟩ := List.getElem_of_mem he
    obtain ⟨j, hj, rfl⟩ := List.getElem_of_mem hla
    rw [← dependsOn_eq hb ha]
    -- the two positions stand in the layer in their order
    rcases Nat.lt_trichotomy i j with hij | rfl | hji
    · exact List.pairwise_iff_getElem.mp hin i j hi hj hij
    · exact absurd hlt (Nat.lt_irrefl _)
    · have := List.pairwise_iff_getElem.mp hascending j i hj hi hji
      omega
  · intro k layer next hl hn
    obtain ⟨hk, rfl⟩ := List.getElem?_eq_some_iff.mp hl
    obtain ⟨hk', rfl⟩ := List.getElem?_eq_some_iff.mp hn
    have hc := Layers.isChain_layers (dependsOn summaries) (List.range summaries.length)
    obtain ⟨first, hf, earlier, he, hdep⟩ := List.isChain_iff_getElem.mp hc k hk'
    obtain ⟨b, a, hb, ha, hdep⟩ := exists_of_dependsOn hdep
    exact ⟨first, a, b, hf, hb, earlier, he, ha, hdep⟩

end Spora.ExecutionDAG
