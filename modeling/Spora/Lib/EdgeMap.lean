import Spora.Lib.TreeMap

-- A relation kept as a map from a key to the set of keys it is related to.
abbrev EdgeMap (κ : Type*) [Ord κ] := Std.ExtTreeMap κ (Std.ExtTreeSet κ)

namespace EdgeMap

open Std

variable {κ : Type*} [Ord κ] [TransOrd κ] [LawfulEqOrd κ] [DecidableEq κ]

def targets (m : EdgeMap κ) (a : κ) : ExtTreeSet κ := m[a]?.getD ∅

def Edge (m : EdgeMap κ) (a b : κ) : Prop := b ∈ m.targets a

instance (m : EdgeMap κ) (a b : κ) : Decidable (m.Edge a b) := inferInstanceAs (Decidable (_ ∈ _))

-- `entry(a).or_default().insert(b)`
def addEdge (m : EdgeMap κ) (a b : κ) : EdgeMap κ := m.insert a ((m.targets a).insert b)

-- `get_mut(a)` and then `remove(b)`
def dropEdge (m : EdgeMap κ) (a b : κ) : EdgeMap κ :=
  match m[a]? with
  | none => m
  | some targets => m.insert a (targets.erase b)

variable {m : EdgeMap κ} {a b c d : κ}

omit [LawfulEqOrd κ] [DecidableEq κ] in
@[simp] theorem not_edge_empty : ¬ (∅ : EdgeMap κ).Edge a b := by simp [Edge, targets]

theorem edge_insert {targets} :
    Edge (m.insert a targets) c d ↔ if a = c then d ∈ targets else Edge m c d := by
  unfold Edge EdgeMap.targets
  rw [TreeMap.getElem?_insert_eq]
  split_ifs <;> rfl

theorem edge_erase : Edge (m.erase a) c d ↔ Edge m c d ∧ c ≠ a := by
  unfold Edge EdgeMap.targets
  rw [TreeMap.getElem?_erase_eq]
  split_ifs with h
  · simp [h]
  · simp [Ne.symm h]

theorem edge_addEdge : Edge (m.addEdge a b) c d ↔ Edge m c d ∨ (c = a ∧ d = b) := by
  rw [addEdge, edge_insert]
  split_ifs with h
  · subst h
    rw [ExtTreeSet.mem_insert, LawfulEqCmp.compare_eq_iff_eq]
    tauto
  · simp [Ne.symm h]

theorem edge_dropEdge : Edge (m.dropEdge a b) c d ↔ Edge m c d ∧ ¬ (c = a ∧ d = b) := by
  unfold dropEdge
  cases ha : m[a]? with
  | none =>
    refine ⟨fun h => ⟨h, ?_⟩, And.left⟩
    rintro ⟨rfl, rfl⟩
    simp [Edge, targets, ha] at h
  | some targets =>
    simp only [edge_insert]
    split_ifs with h
    · subst h
      rw [ExtTreeSet.mem_erase, ne_eq, LawfulEqCmp.compare_eq_iff_eq, Edge, EdgeMap.targets, ha]
      tauto
    · simp [Ne.symm h]

theorem edge_foldl_addEdge {sources : List κ} :
    Edge (sources.foldl (fun m a => m.addEdge a b) m) c d ↔ Edge m c d ∨ (c ∈ sources ∧ d = b) := by
  induction sources generalizing m with
  | nil => simp
  | cons a sources ih =>
    rw [List.foldl_cons, ih, edge_addEdge, List.mem_cons]
    tauto

theorem edge_foldl_dropEdge {sources : List κ} :
    Edge (sources.foldl (fun m a => m.dropEdge a b) m) c d ↔
    Edge m c d ∧ ¬ (c ∈ sources ∧ d = b) := by
  induction sources generalizing m with
  | nil => simp
  | cons a sources ih =>
    rw [List.foldl_cons, ih, edge_dropEdge, List.mem_cons]
    tauto

end EdgeMap
