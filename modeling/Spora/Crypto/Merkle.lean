import Mathlib.Data.List.ReduceOption
import Mathlib.Data.Set.List
import Spora.Lib.HashTree

namespace Spora

open List HashTree

section Root

variable {H : Type*} (merkleHash : H → H → H) (ZERO_HASH : H)

-- The entries of the vector that are written and not read yet: a round reads two at the front and
-- writes one at the back.
def merkleRounds : Nat → List (Option H) → List (Option H)
  | n + 1, left :: right :: merkles =>
    merkleRounds n (merkles ++ [left.map fun left => merkleHash left (right.getD ZERO_HASH)])
  | _, merkles => merkles

-- `none` where the last entry is not there to unwrap.
def calcMerkleRoot (hashes : List H) : Option H :=
  if hashes.length = 0 then some ZERO_HASH
  else
    let nextPot := 2 ^ Nat.clog 2 hashes.length
    (merkleRounds merkleHash ZERO_HASH (nextPot - 1)
      (hashes.map some ++ replicate (nextPot - hashes.length) none)).getLast?.join

-- Hashes that are neither ZERO_HASH nor an output of `merkleHash`.
def IsLeafHash (hash : H) : Prop := hash ≠ ZERO_HASH ∧ ∀ left right, hash ≠ merkleHash left right

variable {H' : Type*} {f : H → H → H} {g : H' → H' → H'} {z : H} {m : H → H'}

theorem merkleRounds_add (a b : Nat) (q) :
    merkleRounds f z (a + b) q = merkleRounds f z b (merkleRounds f z a q) := by
  induction a generalizing q with
  | zero =>
    have hq : merkleRounds f z 0 q = q := by simp [merkleRounds]
    rw [Nat.zero_add, hq]
  | succ a ih =>
    rw [Nat.add_right_comm]
    match q with
    | [] => cases b <;> rfl
    | [x] => cases b <;> rfl
    | x :: y :: q => exact ih _

theorem map_merkleRounds (hm : ∀ a b, m (f a b) = g (m a) (m b)) (n : Nat) (q) :
    (merkleRounds f z n q).map (Option.map m) = merkleRounds g (m z) n (q.map (Option.map m)) := by
  induction n generalizing q with
  | zero => simp [merkleRounds]
  | succ n ih =>
    match q with
    | [] => rfl
    | [x] => rfl
    | x :: y :: q =>
      rw [merkleRounds, ih, map_cons, map_cons, merkleRounds, map_append]
      cases x <;> cases y <;> simp [hm]

theorem map_calcMerkleRoot (hm : ∀ a b, m (f a b) = g (m a) (m b)) (l) :
    (calcMerkleRoot f z l).map m = calcMerkleRoot g (m z) (l.map m) := by
  have hlast : ∀ q : List (Option H),
      q.getLast?.join.map m = (q.map (Option.map m)).getLast?.join := by
    intro q
    rw [getLast?_map]
    cases q.getLast? <;> rfl
  rw [calcMerkleRoot, calcMerkleRoot, length_map]
  split_ifs
  · rfl
  · rw [hlast, map_merkleRounds hm]
    simp

end Root

section Symbolic

-- The hashes below a root as a tree, with `leaf none` for ZERO_HASH.
variable {α : Type*} {ts : List (HashTree (Option α))}

def merkleContent (t : HashTree (Option α)) : List α := t.leaves.reduceOption

def hashPairs : List (HashTree (Option α)) → List (HashTree (Option α))
  | [] => []
  | [t] => [node t (leaf none)]
  | t :: u :: ts => node t u :: hashPairs ts

theorem length_hashPairs : (hashPairs ts).length = (ts.length + 1) / 2 := by
  fun_induction hashPairs ts with
  | case1 => simp
  | case2 => simp
  | case3 t u ts ih =>
    rw [length_cons, ih, length_cons, length_cons]
    omega

theorem merkleContent_hashPairs :
    (hashPairs ts).flatMap merkleContent = ts.flatMap merkleContent := by
  fun_induction hashPairs ts with
  | case1 => rfl
  | case2 t => simp [merkleContent, leaves, reduceOption_append]
  | case3 t u ts ih => simp [ih, merkleContent, leaves, reduceOption_append]

-- A level with its missing entries, and what comes after it in the vector.
theorem merkleRounds_level {n} (ts : List (HashTree (Option α))) (rest) (h : ts.length ≤ 2 * n) :
    merkleRounds node (leaf none) n (ts.map some ++ replicate (2 * n - ts.length) none ++ rest) =
    rest ++ ((hashPairs ts).map some ++ replicate (n - (hashPairs ts).length) none) := by
  induction n generalizing ts rest with
  | zero =>
    obtain rfl := length_eq_zero_iff.mp (Nat.le_zero.mp h)
    simp [merkleRounds, hashPairs]
  | succ n ih =>
    match ts with
    | [] =>
      have hr := ih [] (rest ++ [none]) (Nat.zero_le _)
      simpa [hashPairs, merkleRounds, Nat.mul_add, replicate_succ] using hr
    | [t] =>
      have hr := ih [] (rest ++ [some (node t (leaf none))]) (Nat.zero_le _)
      simpa [hashPairs, merkleRounds, Nat.mul_add, replicate_succ] using hr
    | t :: u :: ts =>
      rw [length_cons, length_cons] at h
      have hr := ih ts (rest ++ [some (node t u)]) (by omega)
      have hn : 2 * (n + 1) - (ts.length + 1 + 1) = 2 * n - ts.length := by omega
      simpa [hashPairs, merkleRounds, hn] using hr

theorem exists_merkleRounds {k} (hne : ts ≠ []) (h : ts.length ≤ 2 ^ k) :
    ∃ t, merkleRounds node (leaf none) (2 ^ k - 1)
    (ts.map some ++ replicate (2 ^ k - ts.length) none) = [some t] ∧
    merkleContent t = ts.flatMap merkleContent := by
  induction k generalizing ts with
  | zero =>
    obtain ⟨t, rfl⟩ := length_eq_one_iff.mp (Nat.le_antisymm h (length_pos_of_ne_nil hne))
    exact ⟨t, by simp [merkleRounds], by simp⟩
  | succ k ih =>
    have hpos := length_pos_of_ne_nil hne
    have hlen : (hashPairs ts).length = (ts.length + 1) / 2 := length_hashPairs
    rw [Nat.pow_succ'] at h ⊢
    obtain ⟨t, ht, hc⟩ :=
      ih (length_pos_iff.mp (by omega)) (by omega : (hashPairs ts).length ≤ 2 ^ k)
    have hlevel := merkleRounds_level ts [] h
    rw [append_nil, nil_append] at hlevel
    rw [show 2 * 2 ^ k - 1 = 2 ^ k + (2 ^ k - 1) by omega, merkleRounds_add, hlevel]
    exact ⟨t, ht, hc.trans merkleContent_hashPairs⟩

theorem exists_calcMerkleRoot (l : List α) : ∃ t : HashTree (Option α),
    calcMerkleRoot node (leaf none) (l.map fun a => leaf (some a)) = some t ∧
    merkleContent t = l := by
  have hl : (l.map fun a => leaf (some a)).flatMap merkleContent = l := by
    rw [flatMap_map]
    exact flatMap_singleton' l
  rw [calcMerkleRoot, length_map]
  split_ifs with h0
  · exact ⟨leaf none, rfl, (length_eq_zero_iff.mp h0).symm⟩
  · have hle : (l.map fun a => leaf (some a)).length ≤ 2 ^ Nat.clog 2 l.length := by
      rw [length_map]
      exact Nat.le_pow_clog Nat.one_lt_two _
    obtain ⟨t, ht, hc⟩ := exists_merkleRounds (by simpa using mt length_eq_zero_iff.mpr h0) hle
    rw [length_map] at ht
    exact ⟨t, congrArg (fun q => q.getLast?.join) ht, hc.trans hl⟩

end Symbolic

theorem calcMerkleRoot_eq_iff {H : Type*} {merkleHash : H → H → H} {ZERO_HASH : H}
    (hinj : ∀ ⦃a b c d : H⦄, merkleHash a b = merkleHash c d → a = c ∧ b = d)
    (hzero : ∀ a b, merkleHash a b ≠ ZERO_HASH) {l₁ l₂ : List H}
    (h₁ : ∀ a ∈ l₁, IsLeafHash merkleHash ZERO_HASH a)
    (h₂ : ∀ a ∈ l₂, IsLeafHash merkleHash ZERO_HASH a) :
    (calcMerkleRoot merkleHash ZERO_HASH l₁).isSome ∧
    (calcMerkleRoot merkleHash ZERO_HASH l₁ = calcMerkleRoot merkleHash ZERO_HASH l₂ ↔
      l₁ = l₂) := by
  lift l₁ to List {a // IsLeafHash merkleHash ZERO_HASH a} using h₁
  lift l₂ to List {a // IsLeafHash merkleHash ZERO_HASH a} using h₂
  let hashing : Hashing (Option {a // IsLeafHash merkleHash ZERO_HASH a}) H :=
    ⟨fun o => o.elim ZERO_HASH Subtype.val, merkleHash⟩
  have ideal : hashing.Ideal := by
    refine ⟨?_, hinj, ?_⟩
    · rintro (_ | a) (_ | b) h
      · rfl
      · exact absurd h.symm b.2.1
      · exact absurd h a.2.1
      · exact congrArg some (Subtype.ext h)
    · rintro (_ | a) b c
      · exact (hzero b c).symm
      · exact a.2.2 b c
  have hroot : ∀ l : List {a // IsLeafHash merkleHash ZERO_HASH a}, ∃ t : HashTree (Option _),
      calcMerkleRoot merkleHash ZERO_HASH (l.map Subtype.val) = some (t.root hashing) ∧
          merkleContent t = l := by
    intro l
    obtain ⟨t, ht, hc⟩ := exists_calcMerkleRoot l
    have hmap := congrArg (Option.map (root hashing)) ht
    rw [map_calcMerkleRoot fun _ _ => rfl, map_map] at hmap
    exact ⟨t, hmap, hc⟩
  obtain ⟨t, ht, hct⟩ := hroot l₁
  obtain ⟨u, hu, hcu⟩ := hroot l₂
  refine ⟨by rw [ht]; rfl, fun h => ?_, fun h => by rw [h]⟩
  rw [ht, hu, Option.some.injEq] at h
  rw [← hct, ← hcu, ideal.root_injective h]

theorem calcMerkleRoot_last_repeated : calcMerkleRoot node (leaf 0) [leaf 1, leaf 2, leaf 3] ≠
    calcMerkleRoot node (leaf 0) [leaf 1, leaf 2, leaf 3, leaf 3] := by
  refine mt (calcMerkleRoot_eq_iff (fun a b c d => node.inj) (by simp) ?_ ?_).2.mp (by simp)
  · simp [IsLeafHash]
  · simp [IsLeafHash]

-- ZERO_HASH is the hash of two leaves here.
theorem calcMerkleRoot_of_zero_output :
    (∀ ⦃a b c d : HashTree Nat⦄, node a b = node c d → a = c ∧ b = d) ∧
    (∀ a ∈ [leaf 1, leaf 2], IsLeafHash node (node (leaf 1) (leaf 2)) a) ∧
    calcMerkleRoot node (node (leaf 1) (leaf 2)) [leaf 1, leaf 2] =
    calcMerkleRoot node (node (leaf 1) (leaf 2)) [] :=
  ⟨fun a b c d => node.inj, by simp [IsLeafHash],
    by simp [calcMerkleRoot, Nat.clog_eq_one, merkleRounds]⟩

end Spora
