import Mathlib.Data.List.Chain

-- Cutting a list into contiguous layers. The list is read in order, and a layer is closed in front
-- of the first element that depends on one of its members.
namespace Layers

open List

variable {α β : Type*} (dependsOn : α → α → Bool)

def layersFrom (layer : List α) : List α → List (List α)
  | [] => [layer]
  | next :: rest =>
    if layer.any fun earlier => dependsOn next earlier then layer :: layersFrom [next] rest
    else layersFrom (layer ++ [next]) rest

def layers : List α → List (List α)
  | [] => []
  | first :: rest => layersFrom dependsOn [first] rest

theorem flatten_layersFrom (layer l) : (layersFrom dependsOn layer l).flatten = layer ++ l := by
  induction l generalizing layer with
  | nil => simp [layersFrom]
  | cons next rest ih =>
    unfold layersFrom
    split_ifs
    · rw [flatten_cons, ih, singleton_append]
    · rw [ih, append_assoc, singleton_append]

theorem flatten_layers (l) : (layers dependsOn l).flatten = l := by
  cases l with
  | nil => rfl
  | cons first rest => exact flatten_layersFrom dependsOn [first] rest

def Independent (layer : List α) : Prop :=
  layer.Pairwise fun earlier later => dependsOn later earlier = false

variable {dependsOn}

theorem Independent.snoc {layer next} (hlayer : Independent dependsOn layer)
    (hnext : ¬ layer.any fun e => dependsOn next e) : Independent dependsOn (layer ++ [next]) := by
  unfold Independent
  rw [pairwise_append]
  refine ⟨hlayer, pairwise_singleton _ _, ?_⟩
  intro e he later hl
  obtain rfl := mem_singleton.mp hl
  simp only [any_eq_true, not_exists, not_and, Bool.not_eq_true] at hnext
  exact hnext e he

theorem independent_of_mem_layersFrom {layer l} (hlayer : Independent dependsOn layer) :
    ∀ m ∈ layersFrom dependsOn layer l, Independent dependsOn m := by
  induction l generalizing layer with
  | nil =>
    intro m hm
    obtain rfl := mem_singleton.mp hm
    exact hlayer
  | cons next rest ih =>
    unfold layersFrom
    split_ifs with hdep
    · intro m hm
      rcases mem_cons.mp hm with rfl | hm
      · exact hlayer
      · exact ih (pairwise_singleton _ _) m hm
    · exact ih (hlayer.snoc hdep)

theorem independent_of_mem_layers {l} : ∀ m ∈ layers dependsOn l, Independent dependsOn m := by
  cases l with
  | nil => simp [layers]
  | cons first rest => exact independent_of_mem_layersFrom (pairwise_singleton _ _)

-- The first element of the next layer depends on a member of this one.
def Closes (dependsOn : α → α → Bool) (layer next : List α) : Prop :=
  ∃ first ∈ next.head?, ∃ earlier ∈ layer, dependsOn first earlier = true

theorem head?_layersFrom (dependsOn) (layer l : List α) :
    ∃ added, (layersFrom dependsOn layer l).head? = some (layer ++ added) := by
  induction l generalizing layer with
  | nil => exact ⟨[], by simp [layersFrom]⟩
  | cons next rest ih =>
    unfold layersFrom
    split_ifs
    · exact ⟨[], by simp⟩
    · obtain ⟨added, ha⟩ := ih (layer ++ [next])
      exact ⟨next :: added, by rw [ha, append_assoc, singleton_append]⟩

theorem isChain_layersFrom (dependsOn) (layer l : List α) :
    (layersFrom dependsOn layer l).IsChain (Closes dependsOn) := by
  induction l generalizing layer with
  | nil => exact List.IsChain.singleton _
  | cons next rest ih =>
    unfold layersFrom
    split_ifs with hdep
    · rw [isChain_cons]
      refine ⟨fun m hm => ?_, ih [next]⟩
      obtain ⟨added, ha⟩ := head?_layersFrom dependsOn [next] rest
      cases (ha.symm.trans hm)
      exact ⟨next, rfl, any_eq_true.mp hdep⟩
    · exact ih (layer ++ [next])

theorem isChain_layers (dependsOn) (l : List α) :
    (layers dependsOn l).IsChain (Closes dependsOn) := by
  cases l with
  | nil => exact List.IsChain.nil
  | cons first rest => exact isChain_layersFrom dependsOn [first] rest

section Positions

variable {g : α → Option β} {onBeta : β → β → Bool}

theorem layersFrom_filterMap {layer l}
    (hg : ∀ i j a b, g i = some a → g j = some b → dependsOn i j = onBeta a b)
    (hsome : ∀ i ∈ layer ++ l, (g i).isSome) :
    (layersFrom dependsOn layer l).map (List.filterMap g) =
    layersFrom onBeta (layer.filterMap g) (l.filterMap g) := by
  induction l generalizing layer with
  | nil => simp [layersFrom]
  | cons next rest ih =>
    obtain ⟨b, hb⟩ := Option.isSome_iff_exists.mp (hsome next (by simp))
    have hany : (layer.any fun e => dependsOn next e) = (layer.filterMap g).any fun e =>
        onBeta b e := by
      rw [Bool.eq_iff_iff, any_eq_true, any_eq_true]
      constructor
      · rintro ⟨i, hi, hdep⟩
        obtain ⟨a, ha⟩ := Option.isSome_iff_exists.mp (hsome i (by simp [hi]))
        exact ⟨a, mem_filterMap.mpr ⟨i, hi, ha⟩, hg next i b a hb ha ▸ hdep⟩
      · rintro ⟨a, ha, hdep⟩
        obtain ⟨i, hi, ha⟩ := mem_filterMap.mp ha
        exact ⟨i, hi, (hg next i b a hb ha).trans hdep⟩
    have hr : ∀ i ∈ [next] ++ rest, (g i).isSome := fun i hi =>
      hsome i (mem_append_right layer hi)
    have hs : ∀ i ∈ (layer ++ [next]) ++ rest, (g i).isSome := by simpa using hsome
    rw [filterMap_cons_some hb]
    simp only [layersFrom, hany]
    split_ifs
    · rw [map_cons, ih hr]
      simp [hb]
    · rw [ih hs]
      simp [hb]

theorem filterMap_getElem?_range (l : List β) :
    (List.range l.length).filterMap (fun i => l[i]?) = l := by
  induction l with
  | nil => rfl
  | cons a l ih =>
    rw [length_cons, range_succ_eq_map]
    simpa using ih

theorem layers_getElem? {onPos} (l)
    (hg : ∀ i j (a b : β), l[i]? = some a → l[j]? = some b → onPos i j = onBeta a b) :
    (layers onPos (List.range l.length)).map (List.filterMap fun i => l[i]?) = layers onBeta l := by
  have hv : ∀ i ∈ List.range l.length, (l[i]?).isSome := by simp
  conv_rhs => rw [← filterMap_getElem?_range l]
  cases hl : List.range l.length with
  | nil => rfl
  | cons first rest =>
    rw [hl] at hv
    obtain ⟨a, ha⟩ := Option.isSome_iff_exists.mp (hv first (by simp))
    simp only [layers]
    rw [layersFrom_filterMap hg (by simpa using hv)]
    simp [ha]

end Positions

end Layers
