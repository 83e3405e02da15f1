import Spora.Lib.Worklist

-- Finite acyclic graphs given by the parents of each node. The rank falls towards the parents.
structure Dag (α : Type*) where
  nodes : List α
  parents : α → List α
  rank : α → Nat
  mem_nodes : ∀ {a b}, b ∈ parents a → b ∈ nodes
  rank_lt : ∀ {a b}, b ∈ parents a → rank b < rank a

namespace Dag

open List Worklist

open Relation

variable {α : Type*} (dag : Dag α)

def Below (a b : α) : Prop := ReflTransGen (fun x y => y ∈ dag.parents x) b a

def Incomparable (a b : α) : Prop := ¬ dag.Below a b ∧ ¬ dag.Below b a

def PastClosed (stop : α → Prop) : Prop := ∀ {a b}, dag.Below a b → stop b → stop a

variable {dag} {a b c : α} {stop : α → Prop} {seeds : List α}

theorem Below.refl : dag.Below a a := ReflTransGen.refl

theorem Below.trans (hab : dag.Below a b) (hbc : dag.Below b c) : dag.Below a c :=
  ReflTransGen.trans hbc hab

theorem below_of_mem_parents (h : b ∈ dag.parents a) : dag.Below b a := ReflTransGen.single h

theorem Below.rank_lt_or_eq (h : dag.Below a b) : dag.rank a < dag.rank b ∨ a = b := by
  induction h with
  | refl => exact .inr rfl
  | tail _ hs ih =>
    have hlt := dag.rank_lt hs
    rcases ih with ih | rfl
    · exact .inl (Nat.lt_trans hlt ih)
    · exact .inl hlt

theorem Below.antisymm (hab : dag.Below a b) (hba : dag.Below b a) : a = b := by
  rcases hab.rank_lt_or_eq with hlt | heq
  · rcases hba.rank_lt_or_eq with hgt | heq
    · exact absurd hgt (Nat.lt_asymm hlt)
    · exact heq.symm
  · exact heq

theorem Below.eq_or_below_parent (h : dag.Below a b) :
    a = b ∨ ∃ parent ∈ dag.parents b, dag.Below a parent := by
  rcases ReflTransGen.cases_head h with heq | ⟨parent, hp, hr⟩
  · exact .inl heq.symm
  · exact .inr ⟨parent, hp, hr⟩

theorem Below.mem_nodes (h : dag.Below a b) (hne : a ≠ b) : a ∈ dag.nodes := by
  rcases ReflTransGen.cases_tail h with heq | ⟨c, -, hs⟩
  · exact absurd heq hne
  · exact dag.mem_nodes hs

theorem pastClosed_below : dag.PastClosed (dag.Below · b) := fun hab hb => hab.trans hb

theorem Incomparable.symm (h : dag.Incomparable a b) : dag.Incomparable b a := ⟨h.2, h.1⟩

instance : Std.Symm dag.Incomparable := ⟨fun _ _ => Incomparable.symm⟩

variable {next : α → List α}

section

variable (hnext : ∀ a, next a ⊆ dag.parents a) (h : Worklist.Reached next seeds a)
include hnext h

theorem mem_nodes_of_reached : a ∈ seeds ++ dag.nodes := by
  obtain ⟨seed, hse, hp⟩ := h
  rcases ReflTransGen.cases_tail hp with heq | ⟨b, -, hs⟩
  · exact mem_append_left _ (heq ▸ hse)
  · exact mem_append_right _ (dag.mem_nodes (hnext b hs))

theorem below_of_reached : ∃ seed ∈ seeds, dag.Below a seed := by
  obtain ⟨seed, hse, hp⟩ := h
  exact ⟨seed, hse, ReflTransGen.mono (fun x _ hs => hnext x hs) _ _ hp⟩

end

theorem path_of_below (hclosed : dag.PastClosed stop) (ha : ¬ stop a)
    (hnext : ∀ x y, y ∈ dag.parents x → ¬ stop x → ¬ stop y → y ∈ next x) (h : dag.Below a b) :
    ReflTransGen (fun x y => y ∈ next x) b a := by
  induction h using ReflTransGen.head_induction_on with
  | refl => exact .refl
  | head hst hr ih =>
    have hy := fun hs => ha (hclosed hr hs)
    have hx := fun hs => ha (hclosed (ReflTransGen.head hst hr) hs)
    exact ReflTransGen.head (hnext _ _ hst hx hy) ih

def Topological (dag : Dag α) (l : List α) : Prop := l.Pairwise fun a b => ¬ dag.Below b a

-- The list of what is strictly below a node and not below `low`.
structure Lists (dag : Dag α) (low c : α) (l : List α) : Prop where
  topological : dag.Topological l
  mem_iff : ∀ a, a ∈ l ↔ a ≠ c ∧ dag.Below a c ∧ ¬ dag.Below a low

section Lists

variable {low next : α} {l merged : List α}

theorem Topological.nodup (h : dag.Topological l) : l.Nodup := by
  refine List.Pairwise.imp ?_ h
  rintro a _ hab rfl
  exact hab .refl

theorem lists_nil (h : dag.Below c low) : dag.Lists low c [] := by
  refine ⟨.nil, fun a => iff_of_false not_mem_nil ?_⟩
  rintro ⟨-, hb, hlow⟩
  exact hlow (hb.trans h)

namespace Lists

theorem append_topological (h : dag.Lists low c l) (hmerged : dag.Topological (c :: merged))
    (hnew : ∀ a ∈ merged, ¬ dag.Below a c) : dag.Topological (l ++ c :: merged) := by
  refine pairwise_append.mpr ⟨h.topological, hmerged, fun a ha b hb hba => ?_⟩
  obtain ⟨hne, hbe, -⟩ := (h.mem_iff a).mp ha
  rcases mem_cons.mp hb with rfl | hb
  · exact hne (hbe.antisymm hba)
  · exact hnew b hb (hba.trans hbe)

theorem extend {keep} (hkeep : ∀ a, keep a = true ↔ ¬ dag.Below a low) (h : dag.Lists low c l)
    (hc : c ∈ dag.parents next) (hmerged : dag.Topological (c :: merged))
    (hnew : ∀ a, a ∈ merged ↔ ¬ dag.Below a c ∧ a ≠ next ∧ dag.Below a next) :
    dag.Lists low next (l ++ (c :: merged).filter keep) := by
  refine ⟨(h.append_topological hmerged fun a ha => ((hnew a).mp ha).1).sublist
    (filter_sublist.append_left l), fun a => ?_⟩
  have hb := below_of_mem_parents hc
  have hne : ∀ {a}, dag.Below a c → a ≠ next := by
    rintro a ha rfl
    exact Nat.ne_of_lt (dag.rank_lt hc) (congrArg dag.rank (hb.antisymm ha))
  rw [mem_append, h.mem_iff, mem_filter, mem_cons, hnew, hkeep]
  constructor
  · rintro (⟨-, ha, hlow⟩ | ⟨rfl | ⟨-, ha⟩, hlow⟩)
    · exact ⟨hne ha, ha.trans hb, hlow⟩
    · exact ⟨hne .refl, hb, hlow⟩
    · exact ⟨ha.1, ha.2, hlow⟩
  · rintro ⟨hnext, ha, hlow⟩
    by_cases hac : dag.Below a c
    · by_cases heq : a = c
      · exact .inr ⟨.inl heq, hlow⟩
      · exact .inl ⟨heq, hac, hlow⟩
    · exact .inr ⟨.inr ⟨hac, hnext, ha⟩, hlow⟩

theorem close (h : dag.Lists low c l) (hc : ¬ dag.Below c low) :
    dag.Topological (l ++ [c]) ∧ ∀ a, a ∈ l ++ [c] ↔ dag.Below a c ∧ ¬ dag.Below a low := by
  refine ⟨h.append_topological (pairwise_singleton _ _) (by simp), fun a => ?_⟩
  rw [mem_append, h.mem_iff, mem_singleton]
  constructor
  · rintro (ha | rfl)
    · exact ha.2
    · exact ⟨.refl, hc⟩
  · intro ha
    by_cases heq : a = c
    · exact .inr heq
    · exact .inl ⟨heq, ha⟩

theorem length_le (h : dag.Lists low c l) (hc : c ∈ dag.parents next)
    (hmerged : dag.Topological (c :: merged))
    (hnew : ∀ a, a ∈ merged ↔ ¬ dag.Below a c ∧ a ≠ next ∧ dag.Below a next) :
    l.length + (merged.length + 1) ≤ dag.nodes.length := by
  have hn := (h.append_topological hmerged fun a ha => ((hnew a).mp ha).1).nodup
  have hsub : l ++ c :: merged ⊆ dag.nodes := by
    intro a ha
    rcases mem_append.mp ha with ha | ha
    · obtain ⟨hne, hb, -⟩ := (h.mem_iff a).mp ha
      exact hb.mem_nodes hne
    · rcases mem_cons.mp ha with rfl | ha
      · exact dag.mem_nodes hc
      · obtain ⟨-, hne, hb⟩ := (hnew a).mp ha
        exact hb.mem_nodes hne
  simpa using (subperm_of_subset hn hsub).length_le

end Lists

end Lists

variable [DecidableEq α]

variable (dag)

def past (b : α) : List α := Worklist.closure dag.parents (dag.nodes.length + 1) [b]

def descendBefore (stop : α → Prop) [DecidablePred stop] (seeds : List α) : List α :=
  Worklist.closure (fun a => (dag.parents a).filter fun b => ¬ stop b)
    (seeds.length + dag.nodes.length) seeds

variable {dag}

theorem mem_closure_iff_reached (hnext : ∀ a, next a ⊆ dag.parents a) :
    a ∈ closure next (seeds.length + dag.nodes.length) seeds ↔ Worklist.Reached next seeds a :=
  mem_closure_iff (fun _ => mem_nodes_of_reached hnext) (by simp)

theorem mem_past_iff : a ∈ dag.past b ↔ dag.Below a b := by
  rw [past, Nat.add_comm, ← length_singleton, mem_closure_iff_reached fun _ => List.Subset.refl _]
  simp [Worklist.Reached, Below]

instance : Decidable (dag.Below a b) := decidable_of_iff _ mem_past_iff

instance : Decidable (dag.Incomparable a b) := inferInstanceAs (Decidable (_ ∧ _))

section Descend

variable [DecidablePred stop]

theorem nodup_descendBefore : (dag.descendBefore stop seeds).Nodup := nodup_closure

theorem mem_descendBefore_iff (hclosed : dag.PastClosed stop)
    (hseeds : ∀ seed ∈ seeds, ¬ stop seed) :
    a ∈ dag.descendBefore stop seeds ↔ ¬ stop a ∧ ∃ seed ∈ seeds, dag.Below a seed := by
  have hnext : ∀ a, ((dag.parents a).filter fun b => ¬ stop b) ⊆ dag.parents a := fun a =>
    filter_subset_self _
  rw [descendBefore, mem_closure_iff_reached hnext]
  constructor
  · intro hr
    refine ⟨?_, below_of_reached hnext hr⟩
    obtain ⟨seed, hs, hp⟩ := hr
    rcases ReflTransGen.cases_tail hp with heq | ⟨b, -, hstep⟩
    · exact heq ▸ hseeds seed hs
    · simpa using (mem_filter.mp hstep).2
  · rintro ⟨ha, seed, hs, hb⟩
    refine ⟨seed, hs, path_of_below hclosed ha (fun x y hy _ hst => ?_) hb⟩
    exact mem_filter.mpr ⟨hy, by simpa using hst⟩

end Descend

end Dag
