import Mathlib.Data.List.Nodup
import Mathlib.Data.List.Perm.Subperm

-- The closure of a list of seeds under successors, computed with a queue: an element enters the
-- queue when it is seen first, and leaves it when its successors are visited.
namespace Worklist

open List

variable {α : Type*} [DecidableEq α]

structure State (α : Type*) where
  seen : List α
  queue : List α

def visit (s : State α) (a : α) : State α :=
  if a ∈ s.seen then s else ⟨s.seen ++ [a], s.queue ++ [a]⟩

def run (next : α → List α) : Nat → State α → State α
  | 0, s => s
  | fuel + 1, ⟨seen, queue⟩ =>
    match queue with
    | [] => ⟨seen, []⟩
    | a :: queue => run next fuel ((next a).foldl visit ⟨seen, queue⟩)

def start (seeds : List α) : State α := seeds.foldl visit ⟨[], []⟩

def closure (next : α → List α) (fuel : Nat) (seeds : List α) : List α :=
  (run next fuel (start seeds)).seen

def Reached (next : α → List α) (seeds : List α) (a : α) : Prop :=
  ∃ seed ∈ seeds, Relation.ReflTransGen (fun a b => b ∈ next a) seed a

structure Invariant (next : α → List α) (seeds done : List α) (s : State α) : Prop where
  split : s.seen = done ++ s.queue
  nodup : s.seen.Nodup
  reached : ∀ a ∈ s.seen, Reached next seeds a

variable {next : α → List α} {seeds done l : List α} {s : State α} {a : α}

theorem Invariant.visit (h : Invariant next seeds done s) (ha : Reached next seeds a) :
    Invariant next seeds done (visit s a) := by
  unfold Worklist.visit
  split_ifs with hs
  · exact h
  · refine ⟨by simp [h.split], ?_, fun b hb => ?_⟩
    · exact nodup_append.mpr ⟨h.nodup, by simp, fun b hb c hc hbc => by
        rw [mem_singleton] at hc
        exact hs (hc ▸ hbc ▸ hb)⟩
    · rcases mem_append.mp hb with hb | hb
      · exact h.reached b hb
      · exact mem_singleton.mp hb ▸ ha

theorem mem_seen_visit : a ∈ (visit s a).seen := by
  unfold visit
  split_ifs with hs
  · exact hs
  · simp

theorem seen_visit_subset : s.seen ⊆ (visit s a).seen := by
  unfold visit
  split_ifs
  · exact List.Subset.refl _
  · exact subset_append_left _ _

theorem seen_foldl_visit_subset : s.seen ⊆ (l.foldl visit s).seen := by
  induction l generalizing s with
  | nil => exact List.Subset.refl _
  | cons b l ih => exact List.Subset.trans seen_visit_subset ih

theorem mem_seen_foldl_visit (h : a ∈ l) : a ∈ (l.foldl visit s).seen := by
  induction l generalizing s with
  | nil => contradiction
  | cons b l ih =>
    rcases mem_cons.mp h with rfl | h
    · exact seen_foldl_visit_subset (l := l) mem_seen_visit
    · exact ih h

theorem Invariant.foldl_visit (h : Invariant next seeds done s)
    (hl : ∀ a ∈ l, Reached next seeds a) :
    Invariant next seeds done (l.foldl Worklist.visit s) := by
  induction l generalizing s with
  | nil => exact h
  | cons b l ih =>
    rw [forall_mem_cons] at hl
    exact ih (h.visit hl.1) hl.2

theorem Invariant.pop {seen queue} (h : Invariant next seeds done ⟨seen, a :: queue⟩) :
    Invariant next seeds (done ++ [a]) ((next a).foldl Worklist.visit ⟨seen, queue⟩) := by
  have hs : seen = done ++ a :: queue := h.split
  have hm : Invariant next seeds (done ++ [a]) ⟨seen, queue⟩ := ⟨by simp [hs], h.nodup, h.reached⟩
  obtain ⟨seed, hse, hp⟩ := h.reached a (by simp [hs])
  exact hm.foldl_visit fun b hb => ⟨seed, hse, hp.tail hb⟩

variable {n : Nat}

theorem Invariant.run {nodes : List α} (h : Invariant next seeds done s)
    (hnodes : ∀ a, Reached next seeds a → a ∈ nodes)
    (hclosed : ∀ a ∈ done, ∀ b ∈ next a, b ∈ s.seen) (hfuel : nodes.length ≤ done.length + n) :
    (∀ a ∈ (run next n s).seen, Reached next seeds a) ∧ s.seen ⊆ (run next n s).seen ∧
    ∀ a ∈ (run next n s).seen, ∀ b ∈ next a, b ∈ (run next n s).seen := by
  induction n generalizing s done with
  | zero =>
    have hs : s.seen ⊆ nodes := fun a ha => hnodes a (h.reached a ha)
    have hl := (subperm_of_subset h.nodup hs).length_le
    have hq : s.queue = [] := by
      rw [h.split, length_append] at hl
      exact length_eq_zero_iff.mp (by omega)
    refine ⟨h.reached, List.Subset.refl _, fun a ha => hclosed a ?_⟩
    rw [Worklist.run, h.split, hq, append_nil] at ha
    exact ha
  | succ n ih =>
    obtain ⟨seen, queue⟩ := s
    cases queue with
    | nil =>
      have hd : seen = done := by simpa using h.split
      exact ⟨h.reached, List.Subset.refl _, fun a ha => hclosed a (hd ▸ ha)⟩
    | cons a queue =>
      have hc' : ∀ b ∈ done ++ [a], ∀ c ∈ next b,
          c ∈ ((next a).foldl Worklist.visit ⟨seen, queue⟩).seen := by
        intro b hb c hc
        rcases mem_append.mp hb with hb | hb
        · exact seen_foldl_visit_subset (hclosed b hb c hc)
        · rw [mem_singleton] at hb
          exact mem_seen_foldl_visit (hb ▸ hc)
      obtain ⟨hr, hs, hall⟩ := ih h.pop hc' (by simp; omega)
      have hse : seen ⊆ ((next a).foldl Worklist.visit ⟨seen, queue⟩).seen :=
        seen_foldl_visit_subset (s := ⟨seen, queue⟩)
      exact ⟨hr, List.Subset.trans hse hs, hall⟩

theorem mem_closure_iff {nodes : List α} (hnodes : ∀ a, Reached next seeds a → a ∈ nodes)
    (hfuel : nodes.length ≤ n) : a ∈ closure next n seeds ↔ Reached next seeds a := by
  have hst : Invariant next seeds [] (start seeds) :=
    Invariant.foldl_visit ⟨rfl, by simp, by simp⟩ fun b hb => ⟨b, hb, .refl⟩
  obtain ⟨hr, hs, hc⟩ := hst.run hnodes (by simp) (by simpa using hfuel)
  refine ⟨hr a, ?_⟩
  rintro ⟨seed, hse, hp⟩
  induction hp with
  | refl => exact hs (mem_seen_foldl_visit hse)
  | tail _ hn ih => exact hc _ ih _ hn

theorem Invariant.nodup_run (h : Invariant next seeds done s) :
    (Worklist.run next n s).seen.Nodup := by
  induction n generalizing s done with
  | zero => exact h.nodup
  | succ n ih =>
    obtain ⟨seen, queue⟩ := s
    cases queue with
    | nil => exact h.nodup
    | cons a queue => exact ih h.pop

theorem nodup_closure : (closure next n seeds).Nodup := by
  have hs : Invariant next seeds [] (start seeds) :=
    Invariant.foldl_visit ⟨rfl, by simp, by simp⟩ fun b hb => ⟨b, hb, .refl⟩
  exact hs.nodup_run

theorem seen_foldl_visit_eq : ∃ l', (l.foldl visit s).seen = s.seen ++ l' := by
  induction l generalizing s with
  | nil => exact ⟨[], (append_nil _).symm⟩
  | cons b l ih =>
    obtain ⟨l', hl'⟩ := ih
    rw [foldl_cons, hl']
    unfold visit
    split_ifs
    · exact ⟨l', rfl⟩
    · exact ⟨[b] ++ l', append_assoc _ _ _⟩

theorem seen_run_eq : ∃ l', (run next n s).seen = s.seen ++ l' := by
  induction n generalizing s with
  | zero => exact ⟨[], (append_nil _).symm⟩
  | succ n ih =>
    obtain ⟨seen, queue⟩ := s
    cases queue with
    | nil => exact ⟨[], (append_nil _).symm⟩
    | cons b queue =>
      obtain ⟨l₁, h₁⟩ := seen_foldl_visit_eq (l := next b)
      obtain ⟨l₂, h₂⟩ := ih
      exact ⟨l₁ ++ l₂, by rw [run, h₂, h₁, append_assoc]⟩

theorem mem_tail_closure {seed} (h : a ∈ (closure next n [seed]).tail) :
    a ∈ closure next n [seed] ∧ a ≠ seed := by
  obtain ⟨l', hl'⟩ : ∃ l', closure next n [seed] = [seed] ++ l' := seen_run_eq
  have hn : (closure next n [seed]).Nodup := nodup_closure
  rw [hl'] at hn h ⊢
  exact ⟨mem_cons_of_mem seed h, fun heq => (nodup_cons.mp hn).1 (heq ▸ h)⟩

end Worklist
