import Mathlib.Data.List.Sort
import Spora.Lib.Dag
import Spora.Store.Storage

namespace Spora

open Std

structure GhostdagEntry extends GhostdagData where
  blueWork : Nat
  bluesAnticoneSizes : ExtTreeMap Hash Nat

-- Blocks with their parents, their work and the data stored for them. Blue work does not fall along
-- the way up.
structure BlockDag extends Dag Hash where
  store : Hash → GhostdagEntry
  calcWork : Hash → Nat
  blueWork_le : ∀ {a b}, b ∈ parents a → (store b).blueWork ≤ (store a).blueWork

namespace BlockDag

variable (self : BlockDag)

-- Includes the block itself, as all that follow.
def isDagAncestorOf (this queried : Hash) : Bool := decide (self.Below this queried)

def chain : Forest Hash where
  parent block :=
    let selectedParent := (self.store block).selectedParent
    if selectedParent ∈ self.parents block then some selectedParent else none
  rank := self.rank
  rank_lt h := by
    dsimp only at h
    split_ifs at h with hmem
    exact Option.some.inj h ▸ self.rank_lt hmem

def isChainAncestorOf (this queried : Hash) : Bool := decide (this ∈ self.chain.path queried)

def forwardChain (fromAncestor toDescendant : Hash) : List Hash :=
  (((self.chain.path toDescendant).takeWhile (· ≠ fromAncestor)) ++ [fromAncestor]).reverse

-- Blue work first, then the hash.
def sortableLe (a b : Hash) : Bool :=
  decide ((self.store a).blueWork < (self.store b).blueWork ∨
    (self.store a).blueWork = (self.store b).blueWork ∧ a ≤ b)

def findSelectedParent : List Hash → Option Hash
  | [] => none
  | parent :: rest =>
    some (rest.foldl (fun best other => if self.sortableLe best other then other else best) parent)

def unorderedMergesetWithoutSelectedParent (selectedParent : Hash) (parents : List Hash) :
    List Hash :=
  self.descendBefore (self.Below · selectedParent) (parents.filter (· ≠ selectedParent))

def orderedMergesetWithoutSelectedParent (selectedParent : Hash) (parents : List Hash) :
    List Hash :=
  (self.unorderedMergesetWithoutSelectedParent selectedParent parents).insertionSort fun a b =>
    self.sortableLe a b

variable {self} {a b : Hash}

theorem selectedParent_of_chain_parent (h : self.chain.parent a = some b) :
    (self.store a).selectedParent = b := by
  simp only [chain] at h
  split_ifs at h
  exact Option.some.inj h

theorem forwardChain_eq : self.forwardChain a b = self.chain.forward a b := by
  simp [forwardChain, Forest.forward]

end BlockDag

inductive ColoringState
  | blue
  | red
  | pending
deriving DecidableEq, Repr

structure CandidateSizes where
  blues : ExtTreeMap Hash Nat
  candidate : Nat

structure GhostdagManager where
  dag : BlockDag
  genesisHash : Hash
  k : Nat

def GhostdagEntry.newWithSelectedParent (selectedParent : Hash) : GhostdagEntry where
  blueScore := 0
  selectedParent := selectedParent
  mergesetBlues := [selectedParent]
  mergesetReds := []
  blueWork := 0
  bluesAnticoneSizes := (∅ : ExtTreeMap Hash Nat).insert selectedParent 0

def GhostdagEntry.addBlue (self : GhostdagEntry) (block : Hash) (sizes : CandidateSizes) :
    GhostdagEntry :=
  { self with
    mergesetBlues := self.mergesetBlues ++ [block]
    bluesAnticoneSizes := sizes.blues.toList.foldl (fun m (blue, size) => m.insert blue (size + 1))
      (self.bluesAnticoneSizes.insert block sizes.candidate) }

def GhostdagEntry.addRed (self : GhostdagEntry) (block : Hash) : GhostdagEntry :=
  { self with mergesetReds := self.mergesetReds ++ [block] }

-- `none` is a panic. Loops down the selected chain have as much fuel as the rank of where they
-- start.
namespace GhostdagManager

variable (self : GhostdagManager)

def blueAnticoneSizeFrom (block : Hash) : Nat → ExtTreeMap Hash Nat → Hash → Option Nat
  | fuel, sizes, selectedParent =>
    match sizes[block]? with
    | some size => some size
    | none =>
      if selectedParent = self.genesisHash ∨ selectedParent = ORIGIN then none
      else match fuel with
        | 0 => none
        | fuel + 1 =>
          let data := self.dag.store selectedParent
          blueAnticoneSizeFrom block fuel data.bluesAnticoneSizes data.selectedParent

def blueAnticoneSize (block : Hash) (context : GhostdagEntry) : Option Nat :=
  self.blueAnticoneSizeFrom block (self.dag.rank context.selectedParent + 1)
    context.bluesAnticoneSizes context.selectedParent

def checkPeers (newBlockData : GhostdagEntry) (blueCandidate : Hash) :
    List Hash → CandidateSizes → Option (ColoringState × CandidateSizes)
  | [], sizes => some (.pending, sizes)
  | peer :: rest, sizes =>
    if self.dag.isDagAncestorOf peer blueCandidate then
      checkPeers newBlockData blueCandidate rest sizes
    else do
      let peerSize ← self.blueAnticoneSize peer newBlockData
      let sizes : CandidateSizes := ⟨sizes.blues.insert peer peerSize, sizes.candidate + 1⟩
      if sizes.candidate > self.k then return (.red, sizes)
      else if peerSize = self.k then return (.red, sizes)
      else if peerSize > self.k then none
      else checkPeers newBlockData blueCandidate rest sizes

def checkBlueCandidateWithChainBlock (newBlockData : GhostdagEntry) (hash : Option Hash)
    (data : GhostdagEntry) (blueCandidate : Hash) (sizes : CandidateSizes) :
    Option (ColoringState × CandidateSizes) :=
  if hash.any (self.dag.isDagAncestorOf · blueCandidate) then some (.blue, sizes)
  else self.checkPeers newBlockData blueCandidate data.mergesetBlues sizes

def checkBlueCandidateFrom (newBlockData : GhostdagEntry) (blueCandidate : Hash) :
    Nat → Option Hash → GhostdagEntry → CandidateSizes → Option (Option CandidateSizes)
  | 0, _, _, _ => none
  | fuel + 1, hash, data, sizes => do
    let (state, sizes) ← self.checkBlueCandidateWithChainBlock newBlockData hash data
      blueCandidate sizes
    match state with
    | .blue => return some sizes
    | .red => return none
    | .pending =>
      checkBlueCandidateFrom newBlockData blueCandidate fuel (some data.selectedParent)
        (self.dag.store data.selectedParent) sizes

def checkBlueCandidate (newBlockData : GhostdagEntry) (blueCandidate : Hash) :
    Option (Option CandidateSizes) :=
  if newBlockData.mergesetBlues.length = self.k + 1 then some none
  else self.checkBlueCandidateFrom newBlockData blueCandidate
    (self.dag.rank newBlockData.selectedParent + 2) none newBlockData ⟨∅, 0⟩

def colorBlock (newBlockData : GhostdagEntry) (blueCandidate : Hash) : Option GhostdagEntry := do
  match ← self.checkBlueCandidate newBlockData blueCandidate with
  | some sizes => return newBlockData.addBlue blueCandidate sizes
  | none => return newBlockData.addRed blueCandidate

def ghostdag (parents : List Hash) : Option GhostdagEntry := do
  let selectedParent ← self.dag.findSelectedParent parents
  if selectedParent = ORIGIN then return .newWithSelectedParent selectedParent
  let orderedMergeset := self.dag.orderedMergesetWithoutSelectedParent selectedParent parents
  let newBlockData ← orderedMergeset.foldlM self.colorBlock (.newWithSelectedParent selectedParent)
  return { newBlockData with
    blueScore := (self.dag.store selectedParent).blueScore + newBlockData.mergesetBlues.length
    blueWork := (self.dag.store selectedParent).blueWork +
      (newBlockData.mergesetBlues.map self.dag.calcWork).sum }

end GhostdagManager

end Spora
