import Mathlib.Data.List.Basic
import Mathlib.Data.Nat.Log
import Mathlib.Tactic.Ring

-- Binary hash trees built level by level, where a node without a partner moves up unchanged. The
-- tree behind a list of hashes carries the data at its leaves; what a path of siblings opens is
-- read off that tree.
inductive HashTree (α : Type*) where
  | leaf (a : α)
  | node (l r : HashTree α)

namespace HashTree

open List

variable {α β γ H : Type*}

structure Hashing (α H : Type*) where
  leaf : α → H
  node : H → H → H

structure Hashing.Ideal (hashing : Hashing α H) : Prop where
  leaf_inj : Function.Injective hashing.leaf
  node_inj : ∀ ⦃a b c d : H⦄, hashing.node a b = hashing.node c d → a = c ∧ b = d
  leaf_ne_node : ∀ a b c, hashing.leaf a ≠ hashing.node b c

def leaves : HashTree α → List α
  | leaf a => [a]
  | node l r => l.leaves ++ r.leaves

variable (hashing : Hashing α H)

def root : HashTree α → H
  | leaf a => hashing.leaf a
  | node l r => hashing.node l.root r.root

def path : HashTree α → Nat → List H
  | leaf _, _ => []
  | node l r, i =>
    if i < l.leaves.length then l.path i ++ [r.root hashing]
    else r.path (i - l.leaves.length) ++ [l.root hashing]

def climb (cur : H) : List H → Nat → H
  | [], _ => cur
  | sibling :: siblings, i =>
    climb (if i % 2 = 0 then hashing.node cur sibling else hashing.node sibling cur) siblings
      (i / 2)

section Climb

variable {hashing}

theorem climb_append (cur sibling : H) (siblings) (i : Nat) :
    climb hashing cur (siblings ++ [sibling]) i =
      if i / 2 ^ siblings.length % 2 = 0 then
        hashing.node (climb hashing cur siblings i) sibling
      else hashing.node sibling (climb hashing cur siblings i) := by
  induction siblings generalizing cur i with
  | nil => simp [climb]
  | cons s siblings ih =>
    rw [cons_append, climb, ih, Nat.div_div_eq_div_mul, ← Nat.pow_succ']
    rfl

theorem climb_congr (cur : H) {siblings i j}
    (h : i % 2 ^ siblings.length = j % 2 ^ siblings.length) :
    climb hashing cur siblings i = climb hashing cur siblings j := by
  induction siblings generalizing cur i j with
  | nil => rfl
  | cons s siblings ih =>
    rw [length_cons, Nat.pow_succ', Nat.mod_mul, Nat.mod_mul] at h
    have hbit : i % 2 = j % 2 := by omega
    rw [climb, hbit]
    exact ih _ (by omega)

theorem Hashing.Ideal.root_injective (ideal : hashing.Ideal) :
    Function.Injective (root hashing) := by
  intro t u h
  induction t generalizing u with
  | leaf a =>
    cases u with
    | leaf b => rw [ideal.leaf_inj h]
    | node l r => exact absurd h (ideal.leaf_ne_node _ _ _)
  | node l r ihl ihr =>
    cases u with
    | leaf b => exact absurd h.symm (ideal.leaf_ne_node _ _ _)
    | node l' r' =>
      obtain ⟨hl, hr⟩ := ideal.node_inj h
      rw [ihl hl, ihr hr]

end Climb

inductive Perfect : Nat → HashTree α → Prop
  | leaf (a : α) : Perfect 0 (leaf a)
  | node {k : Nat} {l r : HashTree α} : Perfect k l → Perfect k r → Perfect (k + 1) (node l r)

inductive LeftFull : Nat → HashTree α → Prop
  | leaf (a : α) : LeftFull 0 (leaf a)
  | node {j k : Nat} {l r : HashTree α} : Perfect k l → LeftFull j r → j ≤ k →
      LeftFull (k + 1) (node l r)

section Shape

variable {k : Nat} {t : HashTree α}

theorem Perfect.leftFull (ht : Perfect k t) : LeftFull k t := by
  induction ht with
  | leaf a => exact .leaf a
  | node hl hr ihl ihr => exact .node hl ihr (Nat.le_refl _)

theorem Perfect.length_leaves (ht : Perfect k t) : t.leaves.length = 2 ^ k := by
  induction ht with
  | leaf a => rfl
  | node hl hr ihl ihr => rw [leaves, length_append, ihl, ihr, Nat.pow_succ, Nat.mul_two]

theorem LeftFull.length_leaves_le (ht : LeftFull k t) : t.leaves.length ≤ 2 ^ k := by
  induction ht with
  | leaf a => exact Nat.le_refl 1
  | @node j k l r hl hr hjk ih =>
    have hpow := Nat.pow_le_pow_right Nat.two_pos hjk
    rw [leaves, length_append, hl.length_leaves]
    omega

theorem Perfect.length_path (ht : Perfect k t) (i : Nat) : (t.path hashing i).length = k := by
  induction ht generalizing i with
  | leaf a => rfl
  | node hl hr ihl ihr =>
    rw [path]
    split
    · rw [length_append, ihl, length_singleton]
    · rw [length_append, ihr, length_singleton]

theorem LeftFull.length_path_le (ht : LeftFull k t) (i : Nat) : (t.path hashing i).length ≤ k := by
  induction ht generalizing i with
  | leaf a => exact Nat.le_refl 0
  | node hl hr hle ih =>
    rw [path]
    split
    · rw [length_append, hl.length_path, length_singleton]
    · rw [length_append]
      exact Nat.succ_le_succ ((ih _).trans hle)

end Shape

section Opening

variable {hashing} {k i : Nat} {t : HashTree α} {x : α}

theorem getElem?_leaves_node {l r} (h : (node l r).leaves[i]? = some x) :
    (i < l.leaves.length ∧ l.leaves[i]? = some x) ∨
    (l.leaves.length ≤ i ∧ r.leaves[i - l.leaves.length]? = some x) := by
  rw [leaves] at h
  rcases Nat.lt_or_ge i l.leaves.length with hlt | hge
  · rw [getElem?_append_left hlt] at h
    exact .inl ⟨hlt, h⟩
  · rw [getElem?_append_right hge] at h
    exact .inr ⟨hge, h⟩

theorem top_bit {n} (hle : 2 ^ k ≤ i) (hi : i - 2 ^ k < n) (hn : n ≤ 2 ^ k) :
    i / 2 ^ k % 2 = 1 := by
  have hdiv : i / 2 ^ k = 1 := Nat.div_eq_of_lt_le (by omega) (by omega)
  rw [hdiv]

theorem mod_two_pow_sub {d} (hd : d ≤ k) (hle : 2 ^ k ≤ i) : i % 2 ^ d = (i - 2 ^ k) % 2 ^ d := by
  obtain ⟨q, hq⟩ := Nat.pow_dvd_pow 2 hd
  have hs : i = i - 2 ^ k + 2 ^ d * q := by omega
  rw [hs, Nat.add_mul_mod_self_left, ← hq, Nat.add_sub_cancel]

theorem low_bit {j} (hle : 2 ^ k ≤ i) (hi : i - 2 ^ k < 2 ^ j) (hjk : j < k) :
    i / 2 ^ j % 2 = 0 := by
  obtain ⟨d, rfl⟩ := Nat.exists_eq_add_of_lt hjk
  have hs : i = i - 2 ^ (j + d + 1) + 2 ^ j * (2 * 2 ^ d) := by
    have hpow : 2 ^ (j + d + 1) = 2 ^ j * (2 * 2 ^ d) := by ring
    omega
  rw [hs, Nat.add_mul_div_left _ _ (Nat.two_pow_pos j), Nat.div_eq_of_lt hi, Nat.zero_add,
    Nat.mul_mod_right]

theorem LeftFull.climb_path (ht : LeftFull k t) (hx : t.leaves[i]? = some x)
    (hfull : (t.path hashing i).length = k) :
    climb hashing (hashing.leaf x) (t.path hashing i) i = t.root hashing := by
  induction t generalizing k i with
  | leaf a =>
    obtain ⟨hi, rfl⟩ := List.getElem?_eq_some_iff.mp hx
    obtain rfl : i = 0 := Nat.lt_one_iff.mp hi
    rfl
  | node l r ihl ihr =>
    cases ht with
    | @node j k _ _ hl hr hjk =>
      rcases getElem?_leaves_node hx with ⟨hlt, hx⟩ | ⟨hge, hx⟩
      · have hc := ihl hl.leftFull hx (hl.length_path hashing i)
        have hbit : i / 2 ^ k % 2 = 0 := by rw [Nat.div_eq_of_lt (hl.length_leaves ▸ hlt)]
        rw [path, if_pos hlt, climb_append, hl.length_path, if_pos hbit, hc]
        rfl
      · rw [path, if_neg hge.not_gt, length_append, length_singleton, Nat.add_right_cancel_iff]
          at hfull
        obtain rfl : j = k := Nat.le_antisymm hjk (hfull ▸ hr.length_path_le hashing _)
        have hc := ihr hr hx hfull
        have hi := (List.getElem?_eq_some_iff.mp hx).1
        rw [path, if_neg hge.not_gt, climb_append, hfull]
        rw [hl.length_leaves] at hge hi hc ⊢
        rw [if_neg (by rw [top_bit hge hi hr.length_leaves_le]; exact Nat.one_ne_zero)]
        rw [hl.length_leaves] at hfull
        rw [climb_congr _ (mod_two_pow_sub hfull.le hge), hc]
        rfl

-- Whatever a path opens is a leaf with that path; at full depth the index says which.
theorem Hashing.Ideal.exists_of_climb (ideal : hashing.Ideal) {siblings idx}
    (ht : LeftFull k t) (hclimb : climb hashing (hashing.leaf x) siblings idx = t.root hashing) :
    ∃ i, t.leaves[i]? = some x ∧ siblings = t.path hashing i ∧
    (siblings.length = k → i = idx % 2 ^ k) := by
  induction t generalizing k siblings with
  | leaf a =>
    cases ht
    rcases eq_nil_or_concat' siblings with rfl | ⟨front, sibling, rfl⟩
    · have hx : x = a := ideal.leaf_inj hclimb
      exact ⟨0, congrArg some hx.symm, rfl, fun _ => (Nat.mod_one _).symm⟩
    · rw [climb_append] at hclimb
      split at hclimb
      · exact absurd hclimb.symm (ideal.leaf_ne_node _ _ _)
      · exact absurd hclimb.symm (ideal.leaf_ne_node _ _ _)
  | node l r ihl ihr =>
    cases ht with
    | @node j k _ _ hl hr hjk =>
      rcases eq_nil_or_concat' siblings with rfl | ⟨front, sibling, rfl⟩
      · exact absurd hclimb (ideal.leaf_ne_node _ _ _)
      · rw [climb_append] at hclimb
        have hle : (front ++ [sibling]).length = k + 1 ↔ front.length = k := by simp
        split at hclimb
        case isTrue hbit =>
          obtain ⟨hb, rfl⟩ := ideal.node_inj hclimb
          obtain ⟨i, hx, hp, hin⟩ := ihl hl.leftFull hb
          have hi := (List.getElem?_eq_some_iff.mp hx).1
          refine ⟨i, ?_, ?_, ?_⟩
          · rw [leaves, getElem?_append_left hi, hx]
          · rw [path, if_pos hi, hp]
          · intro hfu
            have hf := hle.mp hfu
            rw [hf] at hbit
            rw [hin hf, Nat.mod_pow_succ, hbit, Nat.mul_zero, Nat.add_zero]
        case isFalse hbit =>
          obtain ⟨rfl, hb⟩ := ideal.node_inj hclimb
          obtain ⟨i, hx, hp, hin⟩ := ihr hr hb
          refine ⟨l.leaves.length + i, ?_, ?_, ?_⟩
          · rw [leaves, getElem?_append_right (Nat.le_add_right _ _), Nat.add_sub_cancel_left, hx]
          · rw [path, if_neg (Nat.not_lt.mpr (Nat.le_add_right _ _)), Nat.add_sub_cancel_left, hp]
          · intro hfu
            have hf := hle.mp hfu
            obtain rfl : j = k := Nat.le_antisymm hjk (hf ▸ hp ▸ hr.length_path_le hashing i)
            rw [hf] at hbit
            have hone := Nat.mod_two_ne_zero.mp hbit
            rw [hin hf, Nat.mod_pow_succ, hone, Nat.mul_one, hl.length_leaves, Nat.add_comm]

theorem Hashing.Ideal.length_path_of_climb (ideal : hashing.Ideal) (ht : LeftFull k t)
    (hx : t.leaves[i]? = some x)
    (hclimb : climb hashing (hashing.leaf x) (t.path hashing i) i = t.root hashing) :
    (t.path hashing i).length = k := by
  induction t generalizing k i with
  | leaf a => cases ht; rfl
  | node l r ihl ihr =>
    cases ht with
    | @node j k _ _ hl hr hjk =>
      rcases getElem?_leaves_node hx with ⟨hlt, hx⟩ | ⟨hge, hx⟩
      · rw [path, if_pos hlt, length_append, hl.length_path, length_singleton]
      · have hi := (List.getElem?_eq_some_iff.mp hx).1
        rw [path, if_neg hge.not_gt] at hclimb ⊢
        rw [length_append, length_singleton, Nat.add_right_cancel_iff]
        rw [climb_append] at hclimb
        rw [hl.length_leaves] at hge hi hx hclimb ⊢
        split at hclimb
        case isTrue hbit =>
          -- a left turn puts the root of l on both sides, so both parts are one perfect tree
          have hro := (ideal.node_inj hclimb).2
          obtain rfl := ideal.root_injective hro
          exact hl.length_path hashing _
        case isFalse hbit =>
          have hclimb := (ideal.node_inj hclimb).2
          have hle : (r.path hashing (i - 2 ^ k)).length ≤ k :=
            (hr.length_path_le hashing _).trans hjk
          rw [climb_congr _ (mod_two_pow_sub hle hge)] at hclimb
          have hlength := ihr hr hx hclimb
          -- below full height the turn is a left one
          rcases Nat.lt_or_ge j k with hjk' | hjk'
          · have hi' := hi.trans_le hr.length_leaves_le
            rw [hlength, low_bit hge hi' hjk'] at hbit
            exact absurd rfl hbit
          · rw [hlength]
            exact Nat.le_antisymm hjk hjk'

end Opening

-- One round over a level: neighbours are joined, the one left over stays.
def pairUp (f : β → β → β) : List β → List β
  | a :: b :: rest => f a b :: pairUp f rest
  | level => level

def reduce (f : β → β → β) : Nat → List β → List β
  | 0, level => level
  | rounds + 1, level => if 1 < level.length then reduce f rounds (pairUp f level) else level

def sibling (i : Nat) : Nat :=
  if i % 2 = 0 then i + 1 else i - 1

-- The siblings met on the way up from index i; a level where there is none gives nothing.
def siblings (f : β → β → β) : Nat → List β → Nat → List β
  | 0, _, _ => []
  | rounds + 1, level, i =>
    if 1 < level.length then level[sibling i]?.toList ++ siblings f rounds (pairUp f level) (i / 2)
    else []

def FullDepth (n i : Nat) : Prop :=
  ∀ k, 2 ^ k < n → sibling (i / 2 ^ k) * 2 ^ k < n

-- Only the levels below n matter, as 2 ^ k < n fails from there on.
instance (n i : Nat) : Decidable (FullDepth n i) :=
  decidable_of_iff (∀ k < n, 2 ^ k < n → sibling (i / 2 ^ k) * 2 ^ k < n)
    ⟨fun h k hk => h k (Nat.lt_two_pow_self.trans hk) hk, fun h k _ => h k⟩

section Rounds

theorem pairUp_map {f : β → β → β} {g : γ → γ → γ} {m : β → γ}
    (hm : ∀ a b, m (f a b) = g (m a) (m b)) :
    ∀ level, pairUp g (level.map m) = (pairUp f level).map m
  | [] => rfl
  | [_] => rfl
  | a :: b :: rest => by
    rw [map_cons, map_cons, pairUp, pairUp, map_cons, hm, pairUp_map hm rest]

theorem length_pairUp (f : β → β → β) : ∀ level, (pairUp f level).length = (level.length + 1) / 2
  | [] => by simp [pairUp]
  | [_] => by simp [pairUp]
  | a :: b :: rest => by
    rw [pairUp, length_cons, length_pairUp f rest, length_cons, length_cons]
    omega

theorem pairUp_take (f : β → β → β) :
    ∀ n (level : List β), (pairUp f level).take n = pairUp f (level.take (2 * n))
  | 0, _ => rfl
  | _ + 1, [] => rfl
  | _ + 1, [_] => by simp [pairUp, Nat.mul_add]
  | n + 1, a :: b :: rest => by
    rw [pairUp, take_succ_cons, pairUp_take f n rest, Nat.mul_succ, take_succ_cons,
      take_succ_cons, pairUp]

theorem getElem?_pairUp_left (f : β → β → β) : ∀ n (level : List β) {a b : β},
    level[2 * n]? = some a → level[2 * n + 1]? = some b → (pairUp f level)[n]? = some (f a b)
  | 0, a :: b :: rest, _, _, ha, hb => by
    cases ha
    cases hb
    rfl
  | 0, [_], _, _, _, hb => by cases hb
  | n + 1, a :: b :: rest, _, _, ha, hb => getElem?_pairUp_left f n rest ha hb
  | n + 1, [_], _, _, ha, _ => by cases ha

theorem getElem?_pairUp_last (f : β → β → β) : ∀ n (level : List β) {a : β},
    level[2 * n]? = some a → level[2 * n + 1]? = none → (pairUp f level)[n]? = some a
  | 0, [_], _, ha, _ => ha
  | 0, _ :: _ :: _, _, _, hb => by cases hb
  | n + 1, a :: b :: rest, _, ha, hb => getElem?_pairUp_last f n rest ha hb
  | n + 1, [_], _, ha, _ => by cases ha

theorem reduce_map {f g} {m : β → γ} (hm : ∀ a b, m (f a b) = g (m a) (m b))
    (rounds : Nat) (level) : reduce g rounds (level.map m) = (reduce f rounds level).map m := by
  induction rounds generalizing level with
  | zero => rfl
  | succ rounds ih =>
    rw [reduce, reduce, length_map]
    split
    · rw [pairUp_map hm, ih]
    · rfl

theorem clog_two_eq {n} (hn : 2 ≤ n) : Nat.clog 2 n = Nat.clog 2 ((n + 1) / 2) + 1 :=
  Nat.clog_of_two_le (Nat.le_refl 2) hn

theorem fullDepth_half {n i} (hn : 2 ≤ n) :
    FullDepth n i ↔ sibling i < n ∧ FullDepth ((n + 1) / 2) (i / 2) := by
  have hs : ∀ k, sibling (i / 2 / 2 ^ k) * 2 ^ k < (n + 1) / 2 ↔
      sibling (i / 2 ^ (k + 1)) * 2 ^ (k + 1) < n := by
    intro k
    rw [Nat.div_div_eq_div_mul, ← Nat.pow_succ', Nat.pow_succ, ← Nat.mul_assoc]
    omega
  constructor
  · intro h
    refine ⟨by simpa using h 0 (by omega), fun k hk => ?_⟩
    rw [hs]
    refine h (k + 1) ?_
    omega
  · rintro ⟨hf, hr⟩ k hk
    cases k with
    | zero => simpa using hf
    | succ k =>
      rw [← hs]
      refine hr k ?_
      omega

theorem length_siblings (f) {rounds} (level : List β) (i : Nat) (hrounds : level.length ≤ rounds) :
    (siblings f rounds level i).length ≤ Nat.clog 2 level.length ∧
    ((siblings f rounds level i).length = Nat.clog 2 level.length ↔ FullDepth level.length i) := by
  induction rounds generalizing level i with
  | zero =>
    obtain rfl : level = [] := length_eq_zero_iff.mp (Nat.le_zero.mp hrounds)
    simp [siblings, FullDepth]
  | succ rounds ih =>
    rw [siblings]
    split
    case isTrue hlt =>
      have hn := length_pairUp f level
      obtain ⟨hle, hiff⟩ := ih (pairUp f level) (i / 2) (by omega)
      rw [hn] at hle hiff
      rw [length_append, clog_two_eq hlt, fullDepth_half hlt, ← hiff]
      rcases Nat.lt_or_ge (sibling i) level.length with hs | hs
      · rw [getElem?_eq_getElem hs, Option.toList_some, length_singleton]
        omega
      · rw [getElem?_eq_none hs, Option.toList_none, length_nil]
        omega
    case isFalse hlt =>
      have hc : Nat.clog 2 level.length = 0 := Nat.clog_of_right_le_one (by omega) 2
      have hf : FullDepth level.length i := by
        intro k hk
        have := Nat.two_pow_pos k
        omega
      simp [hc, hf]

end Rounds

-- A level of trees: all perfect of height k but the last, which may be lower.
inductive Level (k : Nat) : List (HashTree α) → Prop
  | last {j : Nat} {t : HashTree α} : LeftFull j t → j ≤ k → Level k [t]
  | cons {t : HashTree α} {level : List (HashTree α)} : Perfect k t → Level k level →
      Level k (t :: level)

section Levels

variable {k rounds : Nat} {level : List (HashTree α)} {t : HashTree α}

theorem level_map_leaf : ∀ {data : List α}, data ≠ [] → Level 0 (data.map leaf)
  | [_], _ => .last (.leaf _) (Nat.le_refl 0)
  | _ :: b :: rest, _ => .cons (.leaf _) (level_map_leaf (cons_ne_nil b rest))

theorem Level.ne_nil (h : Level k level) : level ≠ [] := by
  cases h with
  | last _ _ => exact cons_ne_nil _ _
  | cons _ _ => exact cons_ne_nil _ _

theorem Level.pairUp :
    ∀ {level : List (HashTree α)}, Level k level → Level (k + 1) (pairUp node level)
  | [_], .last ht hj => .last ht (Nat.le_succ_of_le hj)
  | [_, _], .cons ht (.last hu hj) => .last (.node ht hu hj) (Nat.le_refl _)
  | _ :: _ :: _, .cons ht (.cons hu hrest) => .cons (.node ht hu) hrest.pairUp

theorem flatMap_leaves_pairUp : ∀ level : List (HashTree α),
    (HashTree.pairUp node level).flatMap leaves = level.flatMap leaves
  | [] => rfl
  | [_] => rfl
  | t :: u :: rest => by
    rw [HashTree.pairUp, flatMap_cons, flatMap_cons, flatMap_cons, flatMap_leaves_pairUp rest,
      leaves, append_assoc]

theorem reduce_singleton (f) (rounds : Nat) (b : β) : reduce f rounds [b] = [b] := by
  cases rounds with
  | zero => rfl
  | succ rounds => rfl

theorem Level.reduce (h : Level k level) (hlt : 1 < level.length)
    (hrounds : level.length ≤ rounds) :
    ∃ t, reduce node rounds level = [t] ∧ t.leaves = level.flatMap leaves ∧
    LeftFull (k + Nat.clog 2 level.length) t := by
  induction rounds generalizing k level with
  | zero => omega
  | succ rounds ih =>
    rw [clog_two_eq hlt]
    have hn := length_pairUp node level
    cases h with
    | last ht hj => exact absurd hlt (Nat.lt_irrefl 1)
    | @cons t _ ht hr =>
      cases hr with
      | @last j u hu hj =>
        refine ⟨_, reduce_singleton _ _ _, ?_, ?_⟩
        · simp [leaves]
        · have hone : Nat.clog 2 (([t, u].length + 1) / 2) = 0 := by simp
          rw [hone]
          exact .node ht hu hj
      | @cons u rest hu hr =>
        have hpos := length_pos_iff.mpr hr.ne_nil
        simp only [length_cons] at hlt hrounds hn ⊢
        obtain ⟨t, hre, hl, hf⟩ :=
          ih (Level.cons ht (Level.cons hu hr)).pairUp (by omega) (by omega)
        refine ⟨t, hre, by rw [hl, flatMap_leaves_pairUp], ?_⟩
        rw [hn] at hf
        rwa [Nat.add_comm _ 1, ← Nat.add_assoc]

theorem reduce_leaves {data : List α} (hne : data ≠ []) (hrounds : data.length ≤ rounds) :
    ∃ t, reduce node rounds (data.map leaf) = [t] ∧ t.leaves = data ∧
    LeftFull (Nat.clog 2 data.length) t := by
  have hf : (data.map leaf).flatMap leaves = data := by simp [flatMap_map, leaves]
  rcases Nat.lt_or_ge 1 data.length with hlt | hle
  · obtain ⟨t, hr, hl, ht⟩ := (level_map_leaf hne).reduce
      (by rwa [length_map]) (show (data.map leaf).length ≤ rounds by rwa [length_map])
    rw [length_map, Nat.zero_add] at ht
    exact ⟨t, hr, hl.trans hf, ht⟩
  · obtain ⟨a, rfl⟩ := length_eq_one_iff.mp (Nat.le_antisymm hle (length_pos_iff.mpr hne))
    exact ⟨leaf a, reduce_singleton _ _ _, rfl, .leaf a⟩

theorem exists_pairUp_path {c i} (hc : level[c]? = some t) (hi : i < t.leaves.length) :
    ∃ u i', (HashTree.pairUp node level)[c / 2]? = some u ∧ i' < u.leaves.length ∧
    (((HashTree.pairUp node level).take (c / 2)).flatMap leaves).length + i' =
    ((level.take c).flatMap leaves).length + i ∧
    u.path hashing i' = t.path hashing i ++ ((level.map (root hashing))[sibling c]?).toList := by
  have ht : ((HashTree.pairUp node level).take (c / 2)).flatMap leaves =
      (level.take (2 * (c / 2))).flatMap leaves := by
    rw [pairUp_take, flatMap_leaves_pairUp]
  rw [ht, getElem?_map, sibling]
  rcases Nat.mod_two_eq_zero_or_one c with he | hodd
  · have hd : 2 * (c / 2) = c := by omega
    rw [if_pos he, hd]
    cases hr : level[c + 1]? with
    | none =>
      refine ⟨t, i, ?_, hi, rfl, ?_⟩
      · exact getElem?_pairUp_last node _ _ (by rwa [hd]) (by rwa [hd])
      · exact (append_nil _).symm
    | some r =>
      refine ⟨node t r, i, ?_, ?_, rfl, ?_⟩
      · exact getElem?_pairUp_left node _ _ (by rwa [hd]) (by rwa [hd])
      · rw [leaves, length_append]
        omega
      · rw [path, if_pos hi]
        rfl
  · have hd : 2 * (c / 2) + 1 = c := by omega
    have hle : 2 * (c / 2) = c - 1 := by omega
    have hlt := (List.getElem?_eq_some_iff.mp hc).1
    obtain ⟨l, hl⟩ : ∃ l, level[c - 1]? = some l := ⟨_, getElem?_eq_getElem (by omega)⟩
    rw [if_neg (by omega), hl]
    refine ⟨node l t, l.leaves.length + i, ?_, ?_, ?_, ?_⟩
    · exact getElem?_pairUp_left node _ _ (by rwa [hle]) (by rwa [hd])
    · rw [leaves, length_append]
      omega
    · have hs : level.take c = level.take (c - 1) ++ [l] := by
        conv_lhs => rw [← Nat.sub_add_cancel (show 1 ≤ c by omega), take_add_one, hl]
        rfl
      rw [hle, hs, flatMap_append, length_append, flatMap_singleton]
      omega
    · rw [path, if_neg (by omega), Nat.add_sub_cancel_left]
      rfl

variable {u : HashTree α}

theorem path_of_singleton {c i} (hc : [u][c]? = some t) :
    u.path hashing ((([u].take c).flatMap leaves).length + i) = t.path hashing i := by
  cases c with
  | zero =>
    cases hc
    rw [take_zero, flatMap_nil, length_nil, Nat.zero_add]
  | succ c => simp at hc

theorem path_of_reduce {c i} (hrounds : level.length ≤ rounds)
    (hreduce : reduce node rounds level = [u]) (hc : level[c]? = some t)
    (hi : i < t.leaves.length) :
    u.path hashing (((level.take c).flatMap leaves).length + i) =
    t.path hashing i ++ siblings hashing.node rounds (level.map (root hashing)) c := by
  induction rounds generalizing level t c i with
  | zero =>
    cases hreduce
    exact absurd hrounds (Nat.not_succ_le_zero 0)
  | succ rounds ih =>
    rw [reduce] at hreduce
    rw [siblings, length_map]
    split
    case isTrue hlt =>
      rw [if_pos hlt] at hreduce
      obtain ⟨v, i', hv, hi', ho, hp⟩ := exists_pairUp_path hashing hc hi
      have hn := length_pairUp node level
      have hr := ih (by omega) hreduce hv hi'
      rw [← ho, hr, hp, append_assoc, pairUp_map (f := node) (fun _ _ => rfl)]
    case isFalse hlt =>
      rw [if_neg hlt] at hreduce
      subst hreduce
      rw [append_nil, path_of_singleton hashing hc]

theorem siblings_leaves {data : List α} {i} (hrounds : data.length ≤ rounds)
    (hreduce : reduce node rounds (data.map leaf) = [u]) (hi : i < data.length) :
    siblings hashing.node rounds (data.map hashing.leaf) i = u.path hashing i := by
  have hl : (data.map leaf)[i]? = some (leaf data[i]) := by
    rw [getElem?_map, getElem?_eq_getElem hi, Option.map_some]
  have ho : (((data.map leaf).take i).flatMap leaves).length = i := by
    simp [← map_take, flatMap_map, leaves, hi.le]
  have hr : (data.map leaf).map (root hashing) = data.map hashing.leaf := by
    rw [map_map]
    rfl
  have hp := path_of_reduce hashing (by rwa [length_map]) hreduce hl Nat.one_pos
  rw [ho, hr] at hp
  exact hp.symm

end Levels

end HashTree
