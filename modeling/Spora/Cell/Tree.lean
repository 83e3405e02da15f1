import Spora.Cell.Diff

namespace Spora

open Std ExtTreeMap TreeMap

-- The live cells, keyed by outpoint hash, with the two indexes that remember the outpoints.
-- The MuHash accumulator and its leaf cache are a function of `cells`.
@[ext] structure CellStateTree where
  cells : ExtTreeMap Hash CellEntry
  outpointsByHash : ExtTreeMap Hash OutPoint
  outpointHashes : ExtTreeMap OutPoint Hash
deriving DecidableEq

namespace CellStateTree

def empty : CellStateTree := ⟨∅, ∅, ∅⟩

def insertWithOutpoint (self : CellStateTree) (outpointHash : Hash) (outpoint : OutPoint)
    (entry : CellEntry) : CellStateTree :=
  -- the outpoint that was stored under this hash loses its index entry
  let outpointHashes := match self.outpointsByHash[outpointHash]? with
    | some previousOutpoint => self.outpointHashes.erase previousOutpoint
    | none => self.outpointHashes
  let outpointsByHash := self.outpointsByHash.insert outpointHash outpoint
  -- a cell stored for this outpoint under another hash is evicted
  let (cells, outpointsByHash) := match outpointHashes[outpoint]? with
    | some previousHash =>
      if previousHash ≠ outpointHash then
        (self.cells.erase previousHash, outpointsByHash.erase previousHash)
      else (self.cells, outpointsByHash)
    | none => (self.cells, outpointsByHash)
  { cells := cells.insert outpointHash entry
    outpointsByHash := outpointsByHash
    outpointHashes := outpointHashes.insert outpoint outpointHash }

def get (self : CellStateTree) (outpointHash : Hash) : Option CellEntry := self.cells[outpointHash]?

def remove (self : CellStateTree) (outpointHash : Hash) : CellStateTree :=
  if outpointHash ∈ self.cells then
    { cells := self.cells.erase outpointHash
      outpointsByHash := self.outpointsByHash.erase outpointHash
      outpointHashes := match self.outpointsByHash[outpointHash]? with
        | some outpoint => self.outpointHashes.erase outpoint
        | none => self.outpointHashes }
  else self

def iterByOutpoint (self : CellStateTree) : List (OutPoint × CellEntry) :=
  self.outpointHashes.toList.filterMap fun (outpoint, outpointHash) =>
    (self.get outpointHash).map fun entry => (outpoint, entry)

end CellStateTree

namespace CellStateTree

variable (hasher : Hasher)

def live (tree : CellStateTree) (o : OutPoint) : Option CellEntry :=
  tree.get (hasher.outpointHash o)

-- Every cell is stored under the hash of its outpoint and the indexes list exactly the cells.
structure Keyed (tree : CellStateTree) : Prop where
  cell_key : ∀ h, h ∈ tree.cells → ∃ o, hasher.outpointHash o = h
  byHash : ∀ h o, tree.outpointsByHash[h]? = some o ↔ h = hasher.outpointHash o ∧
    (tree.live hasher o).isSome
  hashes : ∀ o h, tree.outpointHashes[o]? = some h ↔ h = hasher.outpointHash o ∧
    (tree.live hasher o).isSome

variable {hasher} {tree : CellStateTree}

theorem empty_keyed : empty.Keyed hasher where
  cell_key h hh := by simp [empty] at hh
  byHash h o := by simp [empty, live, get]
  hashes o h := by simp [empty, live, get]

section

variable (hk : tree.Keyed hasher)
include hk

theorem Keyed.insertWithOutpoint_eq (o : OutPoint) (entry : CellEntry) :
    tree.insertWithOutpoint (hasher.outpointHash o) o entry =
      { cells := tree.cells.insert (hasher.outpointHash o) entry
        outpointsByHash := tree.outpointsByHash.insert (hasher.outpointHash o) o
        outpointHashes := tree.outpointHashes.insert o (hasher.outpointHash o) } := by
  cases hpr : tree.outpointsByHash[hasher.outpointHash o]? with
  | some p =>
    have hp : p = o := (hasher.outpointHash_injective ((hk.byHash _ _).mp hpr).1).symm
    subst hp
    have hg : (tree.outpointHashes.erase p)[p]? = none := by simp
    have hins : (tree.outpointHashes.erase p).insert p (hasher.outpointHash p) =
        tree.outpointHashes.insert p (hasher.outpointHash p) := by
      apply ext_getElem?
      intro k
      simp only [getElem?_insert_eq, getElem?_erase_eq]
      split_ifs <;> rfl
    simp only [insertWithOutpoint, hpr, hg, hins]
  | none =>
    have hn : tree.outpointHashes[o]? = none := by
      cases hh : tree.outpointHashes[o]? with
      | none => rfl
      | some h =>
        obtain ⟨-, hl⟩ := (hk.hashes o h).mp hh
        rw [(hk.byHash _ o).mpr ⟨rfl, hl⟩] at hpr
        simp at hpr
    simp only [insertWithOutpoint, hpr, hn]

theorem Keyed.remove_eq (o : OutPoint) : tree.remove (hasher.outpointHash o) =
      { cells := tree.cells.erase (hasher.outpointHash o)
        outpointsByHash := tree.outpointsByHash.erase (hasher.outpointHash o)
        outpointHashes := tree.outpointHashes.erase o } := by
  by_cases hmem : hasher.outpointHash o ∈ tree.cells
  · have hl := mem_iff_isSome_getElem?.mp hmem
    simp only [remove, if_pos hmem, (hk.byHash _ o).mpr ⟨rfl, hl⟩]
  · have hl : ¬ (tree.live hasher o).isSome := fun h =>
      hmem (mem_iff_isSome_getElem?.mpr h)
    have hby : hasher.outpointHash o ∉ tree.outpointsByHash := by
      rw [ExtTreeMap.mem_iff_isSome_getElem?, Option.isSome_iff_exists]
      rintro ⟨p, hp⟩
      obtain ⟨heq, hp⟩ := (hk.byHash _ p).mp hp
      exact hl (hasher.outpointHash_injective heq ▸ hp)
    have hhs : o ∉ tree.outpointHashes := by
      rw [ExtTreeMap.mem_iff_isSome_getElem?, Option.isSome_iff_exists]
      rintro ⟨h, hh⟩
      exact hl ((hk.hashes o h).mp hh).2
    simp only [remove, if_neg hmem, erase_eq_self hmem, erase_eq_self hby, erase_eq_self hhs]

theorem Keyed.live_insert (o k entry) :
    (tree.insertWithOutpoint (hasher.outpointHash o) o entry).live hasher k =
      if o = k then some entry else tree.live hasher k := by
  rw [hk.insertWithOutpoint_eq]
  simp only [live, get, getElem?_insert_eq, hasher.outpointHash_injective.eq_iff]

theorem Keyed.live_remove (o k) :
    (tree.remove (hasher.outpointHash o)).live hasher k = if o = k then
      none else tree.live hasher k := by
  rw [hk.remove_eq]
  simp only [live, get, getElem?_erase_eq, hasher.outpointHash_injective.eq_iff]

theorem Keyed.insert (o : OutPoint) (entry : CellEntry) :
    (tree.insertWithOutpoint (hasher.outpointHash o) o entry).Keyed hasher where
  cell_key h hh := by
    rw [hk.insertWithOutpoint_eq, TreeMap.mem_insert] at hh
    rcases hh with heq | hold
    · exact ⟨o, heq⟩
    · exact hk.cell_key h hold
  byHash h p := by
    rw [hk.live_insert, hk.insertWithOutpoint_eq]
    simp only [getElem?_insert_eq]
    by_cases hh : hasher.outpointHash o = h
    · subst hh
      by_cases hp : o = p
      · simp [hp]
      · simp [hp, hasher.outpointHash_injective.eq_iff]
    · by_cases hp : o = p
      · subst hp
        simp [hh, hk.byHash, Ne.symm hh]
      · simp [hh, hp, hk.byHash]
  hashes p h := by
    rw [hk.live_insert, hk.insertWithOutpoint_eq]
    simp only [getElem?_insert_eq]
    by_cases hp : o = p
    · subst hp
      simp [eq_comm]
    · simp [hp, hk.hashes]

theorem Keyed.erase (o : OutPoint) : (tree.remove (hasher.outpointHash o)).Keyed hasher where
  cell_key h hh := by
    rw [hk.remove_eq, ExtTreeMap.mem_erase] at hh
    exact hk.cell_key h hh.2
  byHash h p := by
    rw [hk.live_remove, hk.remove_eq]
    simp only [getElem?_erase_eq]
    by_cases hh : hasher.outpointHash o = h
    · subst hh
      by_cases hp : o = p
      · simp [hp]
      · simp [hp, hasher.outpointHash_injective.eq_iff]
    · by_cases hp : o = p
      · subst hp
        simp [hk.byHash, Ne.symm hh]
      · simp [hh, hp, hk.byHash]
  hashes p h := by
    rw [hk.live_remove, hk.remove_eq]
    simp only [getElem?_erase_eq]
    by_cases hp : o = p
    · simp [hp]
    · simp [hp, hk.hashes]

end

theorem Keyed.eq_of_live_eq {t u : CellStateTree} (ht : t.Keyed hasher) (hu : u.Keyed hasher)
    (h : ∀ o, t.live hasher o = u.live hasher o) : t = u := by
  have hby : ∀ k, t.outpointsByHash[k]? = u.outpointsByHash[k]? := fun k =>
    Option.ext fun o => by rw [ht.byHash, hu.byHash, h]
  have hhs : ∀ k, t.outpointHashes[k]? = u.outpointHashes[k]? := fun k =>
    Option.ext fun o => by rw [ht.hashes, hu.hashes, h]
  have hc : ∀ k : Hash, t.cells[k]? = u.cells[k]? := by
    intro k
    by_cases hk : ∃ o, hasher.outpointHash o = k
    · obtain ⟨o, rfl⟩ := hk
      exact h o
    · have htk : k ∉ t.cells := fun hmem => hk (ht.cell_key k hmem)
      have huk : k ∉ u.cells := fun hmem => hk (hu.cell_key k hmem)
      rw [getElem?_eq_none htk, getElem?_eq_none huk]
  exact CellStateTree.ext (ext_getElem? fun {k} => hc k)
    (ext_getElem? fun {k} => hby k) (ext_getElem? fun {k} => hhs k)

end CellStateTree

-- The trees of the node. Cells are only ever inserted under the hash of their outpoint, so the
-- indexes are part of the type's invariant.
structure LiveTree (hasher : Hasher) where
  tree : CellStateTree
  keyed : tree.Keyed hasher

namespace LiveTree

variable {hasher : Hasher}

instance : DecidableEq (LiveTree hasher) := fun t u =>
  decidable_of_iff (t.tree = u.tree) (by cases t; cases u; simp)

def empty : LiveTree hasher := ⟨CellStateTree.empty, CellStateTree.empty_keyed⟩

def get (self : LiveTree hasher) (o : OutPoint) : Option CellEntry := self.tree.live hasher o

def insert (self : LiveTree hasher) (o : OutPoint) (entry : CellEntry) : LiveTree hasher :=
  ⟨self.tree.insertWithOutpoint (hasher.outpointHash o) o entry, self.keyed.insert o entry⟩

def remove (self : LiveTree hasher) (o : OutPoint) : LiveTree hasher :=
  ⟨self.tree.remove (hasher.outpointHash o), self.keyed.erase o⟩

def iterByOutpoint (self : LiveTree hasher) : List (OutPoint × CellEntry) :=
  self.tree.iterByOutpoint

@[simp] theorem get_empty (o) : (empty : LiveTree hasher).get o = none := by
  simp [get, empty, CellStateTree.live, CellStateTree.get, CellStateTree.empty]

theorem get_insert (t : LiveTree hasher) (o k entry) :
    (t.insert o entry).get k = if o = k then some entry else t.get k :=
  t.keyed.live_insert o k entry

theorem get_remove (t : LiveTree hasher) (o k) :
    (t.remove o).get k = if o = k then none else t.get k :=
  t.keyed.live_remove o k

@[ext] theorem ext_get {t u : LiveTree hasher} (h : ∀ o, t.get o = u.get o) : t = u := by
  cases t with
  | mk t ht =>
    cases u with
    | mk u hu =>
      have heq := ht.eq_of_live_eq hu h
      subst heq
      rfl

theorem mem_iterByOutpoint (t : LiveTree hasher) (o entry) :
    (o, entry) ∈ t.iterByOutpoint ↔ t.get o = some entry := by
  simp only [iterByOutpoint, CellStateTree.iterByOutpoint, List.mem_filterMap, Prod.exists,
    Option.map_eq_some_iff, Prod.mk.injEq, ExtTreeMap.mem_toList_iff_getElem?_eq_some,
    t.keyed.hashes]
  constructor
  · rintro ⟨o', h, ⟨rfl, -⟩, entry', hget, rfl, rfl⟩
    exact hget
  · intro hget
    exact ⟨o, _, ⟨rfl, by rw [show t.tree.live hasher o = some entry from hget]; rfl⟩, entry, hget,
      rfl, rfl⟩

def metaAt (t : LiveTree hasher) (o : OutPoint) : Option CellMeta :=
  (t.get o).map (cellEntryToMeta o)

theorem metaAt_eq_none_iff {t : LiveTree hasher} {o} :
    t.metaAt o = none ↔ t.get o = none := by simp [metaAt]

theorem map_metaAt (t : LiveTree hasher) (o) : (t.metaAt o).map cellMetaToEntry = t.get o := by
  unfold metaAt
  cases t.get o <;> rfl

theorem ext_metaAt {t u : LiveTree hasher} (h : t.metaAt = u.metaAt) : t = u :=
  ext_get fun o => by rw [← map_metaAt t, ← map_metaAt u, h]

theorem metaAt_insert (t : LiveTree hasher) {o m} (hm : m.outPoint = o) :
    (t.insert o (cellMetaToEntry m)).metaAt = Function.update t.metaAt o (some m) := by
  funext k
  by_cases hk : k = o
  · subst hk
    subst hm
    simp [metaAt, get_insert, cellEntryToMeta, cellMetaToEntry]
  · simp [metaAt, get_insert, Function.update_of_ne hk, Ne.symm hk]

theorem metaAt_remove (t : LiveTree hasher) (o) :
    (t.remove o).metaAt = Function.update t.metaAt o none := by
  funext k
  by_cases hk : k = o
  · subst hk
    simp [metaAt, get_remove]
  · simp [metaAt, get_remove, Function.update_of_ne hk, Ne.symm hk]

end LiveTree

section Consensus

variable {hasher : Hasher}

def outpointExistsInTree (tree : LiveTree hasher) (outpoint : OutPoint) : Bool :=
  (tree.get outpoint).isSome

def applyCellDiffToTree (tree : LiveTree hasher) (diff : CellDiff) : LiveTree hasher :=
  let tree := diff.remove.keys.foldl (fun tree outpoint => tree.remove outpoint) tree
  diff.add.toList.foldl (fun tree p => tree.insert p.1 (cellMetaToEntry p.2)) tree

theorem get_applyCellDiffToTree (t : LiveTree hasher) (d k) :
    (applyCellDiffToTree t d).get k = (d.toPatch.map cellMetaToEntry).apply t.get k := by
  simp only [applyCellDiffToTree, Patch.apply, Patch.map, CellDiff.toPatch]
  rw [get_foldl_insert_toList LiveTree.get cellMetaToEntry
      (fun t p a => t.get_insert p.1 a (cellMetaToEntry p.2)),
    get_foldl_erase LiveTree.get (fun t o a => t.get_remove o a)]
  have hmem : k ∈ d.remove.keys ↔ d.remove[k]?.isSome := by
    rw [ExtTreeMap.mem_keys, ExtTreeMap.mem_iff_isSome_getElem?]
  cases hr : d.remove[k]? <;> simp [hmem, hr]

def CellDiff.AddsKeyed (d : CellDiff) : Prop :=
  ∀ (o : OutPoint) (m : CellMeta), d.add[o]? = some m → m.outPoint = o

theorem metaAt_applyCellDiffToTree (t : LiveTree hasher) {d} (hd : d.AddsKeyed) :
    (applyCellDiffToTree t d).metaAt = d.toPatch.apply t.metaAt := by
  funext k
  simp only [LiveTree.metaAt, get_applyCellDiffToTree, Patch.apply, Patch.map, CellDiff.toPatch]
  cases hadd : d.add[k]? with
  | some m =>
    obtain rfl := hd k m hadd
    simp [cellEntryToMeta, cellMetaToEntry]
  | none => cases d.remove[k]? <;> simp

end Consensus

end Spora
