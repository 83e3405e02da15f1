import Spora.Lib.Forest
import Spora.Mpe.Verification

namespace Spora

open Std Outcome VirtualStateProcessor StateDigests

inductive BlockStatus
  | statusInvalid
  | statusCellValid
  | statusCellPendingVerification
  | statusDisqualifiedFromChain
  | statusHeaderOnly
deriving DecidableEq, Repr

structure ChainStores where
  statuses : Hash → Option BlockStatus
  cellDiffs : Hash → Option CellDiff
  cellRoots : Hash → Option Hash
  acceptanceData : Hash → Option (List MergesetBlockAcceptanceData)

namespace ChainStores

variable (self : ChainStores)

def setStatus (block : Hash) (status : BlockStatus) : ChainStores :=
  { self with statuses := Function.update self.statuses block (some status) }

def commitCellState (hash : Hash) (cellDiff : CellDiff) (cellRoot : Hash)
    (acceptanceData : List MergesetBlockAcceptanceData) : ChainStores where
  statuses := Function.update self.statuses hash (some .statusCellValid)
  cellDiffs := Function.update self.cellDiffs hash (some cellDiff)
  cellRoots := Function.update self.cellRoots hash (some cellRoot)
  acceptanceData := Function.update self.acceptanceData hash (some acceptanceData)

end ChainStores

structure VirtualState (hasher : Hasher) where
  parents : List Hash
  ghostdagData : GhostdagData
  daaScore : Nat
  bits : Nat
  pastMedianTime : Nat
  cellStateTree : LiveTree hasher
  cellDiff : CellDiff
  blockCellDiffs : List BlockCellDiff
  acceptedTxIds : List Hash
  mergesetRewards : ExtTreeMap Hash BlockRewardData
  mergesetNonDaa : ExtTreeSet Hash

structure CellsChangedNotification where
  accumulatedCellDiff : CellDiff
  virtualParents : List Hash
  blockCellDiffs : List BlockCellDiff

structure DaaWindow where
  daaScore : Nat
  mergesetNonDaa : ExtTreeSet Hash

-- What resolving virtual asks of the rest of consensus: headers, GHOSTDAG data, relations,
-- reachability and windows, all of them written before a block reaches the virtual processor. The
-- chain iterators follow the selected parents. The choice of virtual parents has a random part, so
-- it is a parameter.
structure ResolveServices where
  chain : Forest Hash
  headers : Hash → Option Header
  ghostdagData : Hash → Option GhostdagData
  parents : Hash → Option (List Hash)
  blueWork : Hash → Option Nat
  isDagAncestorOf : Hash → Hash → Bool
  mergeDepthRoot : Hash → Option Hash
  calcFinalityPoint : GhostdagData → Hash
  pickVirtualParents : Hash → List Hash → List Hash × GhostdagData
  ghostdag : List Hash → GhostdagData
  blockDaaWindow : GhostdagData → Except RuleError DaaWindow
  calculateDifficultyBits : GhostdagData → DaaWindow → Nat
  calcPastMedianTime : GhostdagData → Except RuleError Nat
  blocks : BlockStores
  digests : StateDigests
  cellProvider : ChainStores → DagCellProvider
  -- a single parent is the selected parent
  ghostdag_singleton : ∀ block, (ghostdag [block]).selectedParent = block

structure Progress where
  stores : ChainStores
  diff : CellDiff

namespace VirtualStateProcessor

variable (self : VirtualStateProcessor) (services : ResolveServices)

def reading (stores : ChainStores) : VirtualStateProcessor :=
  { self with baseProvider := services.cellProvider stores }

def isChainAncestorOf (this queried : Hash) : Bool := this ∈ services.chain.path queried

def reconstructTreeFromVirtualDiff (virtualState : VirtualState self.hasher)
    (diffFromVirtual : CellDiff) : LiveTree self.hasher :=
  applyCellDiffToTree virtualState.cellStateTree diffFromVirtual

-- Down to the block where the two chains split, undoing the stored diffs.
def walkDown (source target : Hash) : List Hash → Progress → Except RuleError Hash × Progress
  | [], p => (.error (.panicked "chain iterator was expected to reach the reorg split point"), p)
  | current :: rest, p =>
    if isChainAncestorOf services current target then (.ok current, p)
    else match p.stores.cellDiffs current with
      | none => (.error (.panicked "cell diff must exist for cell-valid block"), p)
      | some mergesetDiff =>
        match p.diff.withDiffInPlace mergesetDiff.asReversed with
        | (.error e, diff) => (.error (.cellValidationError
            (s!"failed to reverse cell diff while reorging from {source} toward {target} at " ++
              s!"{current}: {e}")), { p with diff := diff })
        | (.ok (), diff) => walkDown source target rest { p with diff := diff }

-- Executes the mergeset of a chain block that has no stored diff yet.
def executeChainBlock (prevState : VirtualState self.hasher) (p : Progress)
    (selectedParent current : Hash) : Except RuleError (CellProcessingContext self.hasher) := do
  let header ← okOr (services.headers current) (.panicked "block header must exist")
  let mergesetData ← okOr (services.ghostdagData current) (.panicked "ghostdag data must exist")
  let selectedParentCellTree := self.reconstructTreeFromVirtualDiff prevState p.diff
  let expectedRoot ← okOr (p.stores.cellRoots selectedParent)
    (.panicked "selected parent cell root must exist for chain block")
  ensure (services.digests.root selectedParentCellTree = expectedRoot) (.panicked
    "reconstructed selected parent cell state does not match the committed cell root")
  let ctx ← (self.reading services p.stores).calculateCellState services.blocks
    (.new mergesetData selectedParentCellTree) header.daaScore current header.timestamp
  verifyExpectedCellState services.digests services.blocks ctx header
  return ctx

def disqualify (p : Progress) (block : Hash) : Progress :=
  { p with stores := p.stores.setStatus block .statusDisqualifiedFromChain }

-- One block of the way up: the new diff point, unless the walk ends with an error.
def advance (prevState : VirtualState self.hasher) (source target : Hash) (diffPoint : Hash)
    (p : Progress) (selectedParent current : Hash) : Except RuleError Hash × Progress :=
  if selectedParent ≠ diffPoint then
    -- the selected parent is disqualified, and so is every block above it
    match p.stores.statuses current with
    | none => (.error (.panicked "block status must exist"), p)
    | some _ => (.ok diffPoint, disqualify p current)
  else match p.stores.cellDiffs current with
    | some mergesetDiff =>
      match p.diff.withDiffInPlace mergesetDiff with
      | (.error e, diff) => (.error (.cellValidationError
          (s!"failed to apply stored cell diff while reorging from {source} toward {target} at " ++
            s!"{current}: {e}")), { p with diff := diff })
      | (.ok (), diff) => (.ok current, { p with diff := diff })
    | none => match p.stores.statuses current with
      | none => (.error (.panicked "block status must exist"), p)
      | some .statusDisqualifiedFromChain => (.ok diffPoint, p)
      | some _ =>
        match self.executeChainBlock services prevState p selectedParent current with
        | .error (.panicked message) => (.error (.panicked message), p)
        | .error _ => (.ok diffPoint, disqualify p current)
        | .ok ctx =>
          match p.diff.withDiffInPlace ctx.mergesetCellDiff with
          | (.error _, diff) => (.ok diffPoint, disqualify { p with diff := diff } current)
          | (.ok (), diff) => (.ok current,
              { stores := p.stores.commitCellState current ctx.mergesetCellDiff
                  (services.digests.root ctx.cellStateTree) ctx.mergesetAcceptanceData
                diff := diff })

def walkUp (prevState : VirtualState self.hasher) (source target : Hash) :
    Hash → List (Hash × Hash) → Progress → Except RuleError Hash × Progress
  | diffPoint, [], p => (.ok diffPoint, p)
  | diffPoint, (selectedParent, current) :: rest, p =>
    match self.advance services prevState source target diffPoint p selectedParent current with
    | (.error e, p) => (.error e, p)
    | (.ok diffPoint, p) => walkUp prevState source target diffPoint rest p

-- Leads the diff from the state of `source` to the one of the top-most valid block on the chain of
-- `target`, which is returned.
def calculateCellStateRelatively (prevState : VirtualState self.hasher) (p : Progress)
    (source target : Hash) : Except RuleError Hash × Progress :=
  match p.stores.statuses target with
  | none => (.error (.panicked "block status must exist"), p)
  | some status =>
    if status = .statusDisqualifiedFromChain then (.ok source, p)
    else match walkDown services source target (services.chain.path source) p with
      | (.error e, p) => (.error e, p)
      | (.ok splitPoint, p) =>
        self.walkUp services prevState source target splitPoint
          (services.chain.climb splitPoint target) p

end VirtualStateProcessor

-- Blocks by blue work and then by hash; the heap is a list with the greatest block in front.
structure SortableBlock where
  hash : Hash
  blueWork : Nat
deriving DecidableEq, Repr

def SortableBlock.lt (a b : SortableBlock) : Bool :=
  decide (a.blueWork < b.blueWork) || decide (a.blueWork = b.blueWork) && decide (a.hash < b.hash)

def pushHeap (block : SortableBlock) : List SortableBlock → List SortableBlock
  | [] => [block]
  | top :: rest => if top.lt block then block :: top :: rest else top :: pushHeap block rest

structure SearchState where
  progress : Progress
  diffPoint : Hash
  heap : List SortableBlock

-- How a round of the search ends: with a new sink and the candidates left, or with the next round.
inductive SearchRound
  | found (sink : Hash) (candidates : List Hash) (progress : Progress)
  | next (st : SearchState)

namespace VirtualStateProcessor

variable (self : VirtualStateProcessor) (services : ResolveServices)

def sortable (message : String) (block : Hash) : Except RuleError SortableBlock := do
  let blueWork ← okOr (services.blueWork block) (.panicked message)
  return ⟨block, blueWork⟩

def pushParent (finalityPoint : Hash) (heap : List SortableBlock) (parent : Hash) :
    Except RuleError (List SortableBlock) :=
  if services.isDagAncestorOf finalityPoint parent ∧
      ¬ heap.any (fun block => services.isDagAncestorOf parent block.hash) then do
    let block ← sortable services "parent blue work must exist" parent
    return pushHeap block heap
  else return heap

def pushParents (finalityPoint candidate : Hash) (st : SearchState) :
    Except RuleError SearchRound := do
  let parents ← okOr (services.parents candidate) (.panicked "parents must exist for candidate")
  let heap ← parents.foldlM (pushParent services finalityPoint) st.heap
  return .next { st with heap := heap }

-- The candidates that remain when a sink is found, without those below its merge depth root.
def remainingCandidates (candidate : Hash) (heap : List SortableBlock) :
    Except RuleError (List Hash) := do
  let filteringRoot ← okOr (services.mergeDepthRoot candidate)
    (.panicked "merge depth root must exist")
  let filteringBlueWork := (services.blueWork filteringRoot).getD 0
  return (heap.takeWhile fun block => block.blueWork ≥ filteringBlueWork).map SortableBlock.hash

def sinkSearchRound (prevState : VirtualState self.hasher) (finalityPoint : Hash)
    (st : SearchState) : Except RuleError SearchRound :=
  match st.heap with
  | [] => .error (.panicked "valid sink must exist")
  | ⟨candidate, _⟩ :: heap =>
    if isChainAncestorOf services finalityPoint candidate then
      match self.calculateCellStateRelatively services prevState st.progress st.diffPoint candidate
          with
      | (.error (.panicked message), _) => .error (.panicked message)
      -- the candidate is dropped without its parents; the diff stays as the error left it
      | (.error _, progress) => .ok (.next ⟨progress, st.diffPoint, heap⟩)
      | (.ok diffPoint, progress) =>
        if diffPoint = candidate then do
          return .found candidate (← remainingCandidates services candidate heap) progress
        else pushParents services finalityPoint candidate ⟨progress, diffPoint, heap⟩
    else pushParents services finalityPoint candidate { st with heap := heap }

-- The search loop. Every round takes one block off the heap and puts only blocks below it on it.
def sinkSearch (prevState : VirtualState self.hasher) (finalityPoint : Hash) :
    Nat → SearchState → Except RuleError (Hash × List Hash × Progress)
  | 0, _ => .error (.panicked "no round left")
  | rounds + 1, st => do
    match ← self.sinkSearchRound services prevState finalityPoint st with
    | .found sink candidates progress => return (sink, candidates, progress)
    | .next st => sinkSearch prevState finalityPoint rounds st

def sinkSearchAlgorithm (rounds : Nat) (prevState : VirtualState self.hasher) (p : Progress)
    (prevSink : Hash) (tips : List Hash) (finalityPoint : Hash) :
    Except RuleError (Hash × List Hash × Progress) := do
  let blocks ← tips.mapM (sortable services "blue work must exist for tip")
  self.sinkSearch services prevState finalityPoint rounds
    ⟨p, prevSink, blocks.foldl (fun heap block => pushHeap block heap) []⟩

-- Keeps the candidates with a valid state. Every candidate starts from a copy of the sink's diff.
def filterVirtualParentCandidates (prevState : VirtualState self.hasher) (diffToSink : CellDiff)
    (selectedParent : Hash) :
    List Hash → ChainStores → Except RuleError (List Hash × ChainStores)
  | [], stores => .ok ([], stores)
  | candidate :: rest, stores =>
    match stores.statuses candidate with
    | none => .error (.panicked "block status must exist")
    | some .statusDisqualifiedFromChain =>
      filterVirtualParentCandidates prevState diffToSink selectedParent rest stores
    | some _ =>
      match self.calculateCellStateRelatively services prevState ⟨stores, diffToSink⟩
          selectedParent candidate with
      | (.error (.panicked message), _) => .error (.panicked message)
      | (verdict, p) => do
        let (filtered, stores) ←
          filterVirtualParentCandidates prevState diffToSink selectedParent rest p.stores
        return (if verdict.toOption = some candidate then candidate :: filtered else filtered,
          stores)

def calculateVirtualState (stores : ChainStores) (prevState : VirtualState self.hasher)
    (virtualParents : List Hash) (virtualGhostdagData : GhostdagData)
    (selectedParentCellRoot : Hash) (accumulatedDiff : CellDiff) :
    Except RuleError (VirtualState self.hasher × CellDiff) := do
  let selectedParentCellTree := self.reconstructTreeFromVirtualDiff prevState accumulatedDiff
  let calculatedRoot := services.digests.root selectedParentCellTree
  ensure (calculatedRoot = selectedParentCellRoot) (.badCellRoot
    (s!"selected parent reconstruction mismatch while calculating virtual state: expected " ++
      s!"{selectedParentCellRoot}, got {calculatedRoot}"))
  let virtualDaaWindow ← services.blockDaaWindow virtualGhostdagData
  let virtualPastMedianTime ← services.calcPastMedianTime virtualGhostdagData
  let ctx ← (self.reading services stores).calculateCellState services.blocks
    (.new virtualGhostdagData selectedParentCellTree) virtualDaaWindow.daaScore
    virtualGhostdagData.selectedParent virtualPastMedianTime
  let (verdict, accumulatedDiff) := accumulatedDiff.withDiffInPlace ctx.mergesetCellDiff
  verdict.mapError fun e => .cellValidationError
    s!"failed to compose virtual cell diff while calculating virtual state: {e}"
  return ({ parents := virtualParents
            ghostdagData := virtualGhostdagData
            daaScore := virtualDaaWindow.daaScore
            bits := services.calculateDifficultyBits virtualGhostdagData virtualDaaWindow
            pastMedianTime := virtualPastMedianTime
            cellStateTree := ctx.cellStateTree
            cellDiff := ctx.mergesetCellDiff
            blockCellDiffs := ctx.blockCellDiffs
            acceptedTxIds := ctx.acceptedTxIds
            mergesetRewards := ctx.mergesetRewards
            mergesetNonDaa := virtualDaaWindow.mergesetNonDaa }, accumulatedDiff)

def virtualFinalityPoint (virtualGhostdagData : GhostdagData) (pruningPoint : Hash) : Hash :=
  let finalityPoint := services.calcFinalityPoint virtualGhostdagData
  if isChainAncestorOf services pruningPoint finalityPoint then finalityPoint else pruningPoint

-- First half of resolving: the new sink, its diff from the previous virtual state and the parents.
def searchVirtualParents (rounds : Nat) (stores : ChainStores)
    (prevState : VirtualState self.hasher) (tips : List Hash) (pruningPoint : Hash) :
    Except RuleError (Hash × List Hash × GhostdagData × Progress) := do
  let finalityPoint := virtualFinalityPoint services prevState.ghostdagData pruningPoint
  let tips := tips.filter (services.isDagAncestorOf finalityPoint)
  let (newSink, candidates, p) ← self.sinkSearchAlgorithm services rounds prevState
    ⟨stores, prevState.cellDiff.asReversed⟩ prevState.ghostdagData.selectedParent tips finalityPoint
  let (candidates, stores) ← self.filterVirtualParentCandidates services prevState p.diff newSink
    candidates p.stores
  let (virtualParents, virtualGhostdagData) := services.pickVirtualParents newSink candidates
  ensure (virtualGhostdagData.selectedParent = newSink) (.panicked "assertion failed")
  return (newSink, virtualParents, virtualGhostdagData, { p with stores := stores })

-- Second half: the state of the new virtual block, with the sink as its only parent if the chosen
-- parents do not work out.
def settleVirtualState (stores : ChainStores) (prevState : VirtualState self.hasher)
    (newSink : Hash) (virtualParents : List Hash) (virtualGhostdagData : GhostdagData)
    (accumulatedDiff : CellDiff) :
    Except RuleError (VirtualState self.hasher) := do
  let sinkCellRoot ← okOr (stores.cellRoots newSink)
    (.panicked "sink cell root must exist in store")
  match self.calculateVirtualState services stores prevState virtualParents virtualGhostdagData
      sinkCellRoot accumulatedDiff with
  | .ok (newVirtualState, _) => return newVirtualState
  | .error (.panicked message) => throw (.panicked message)
  | .error _ =>
    let (newVirtualState, _) ← self.calculateVirtualState services stores prevState [newSink]
      (services.ghostdag [newSink]) sinkCellRoot prevState.cellDiff.asReversed
    return newVirtualState

end VirtualStateProcessor

structure Node (hasher : Hasher) where
  stores : ChainStores
  virtualState : VirtualState hasher

namespace VirtualStateProcessor

variable (self : VirtualStateProcessor) (services : ResolveServices)

-- Commits the new virtual state and announces it. What the search wrote to the stores stays even
-- when no virtual state is found for the new sink.
def resolveVirtual (rounds : Nat) (tips : List Hash) (pruningPoint : Hash)
    (node : Node self.hasher) : Except RuleError CellsChangedNotification × Node self.hasher :=
  match self.searchVirtualParents services rounds node.stores node.virtualState tips pruningPoint
      with
  | .error e => (.error e, node)
  | .ok (newSink, virtualParents, virtualGhostdagData, p) =>
    match self.settleVirtualState services p.stores node.virtualState newSink virtualParents
        virtualGhostdagData p.diff with
    | .error e => (.error e, { node with stores := p.stores })
    | .ok newVirtualState =>
      (.ok { accumulatedCellDiff := newVirtualState.cellDiff
             virtualParents := newVirtualState.parents
             blockCellDiffs := newVirtualState.blockCellDiffs },
        { stores := p.stores, virtualState := newVirtualState })

end VirtualStateProcessor

section SampleNetwork

-- A block of a small network, with the state and the accepted ids its header commits to. Parents
-- have smaller hashes.
structure SampleBlock where
  hash : Hash
  selectedParent : Hash
  mergesetBlues : List Hash
  txs : List CellTx
  daaScore : Nat
  acceptedTxIds : List Hash
  cellState : LiveTree Hasher.sample

def SampleBlock.header (self : SampleBlock) : Header where
  hash := self.hash
  directParents := [self.selectedParent]
  hashMerkleRoot := 0
  acceptedIdMerkleRoot := sample.merkleRoot self.acceptedTxIds
  cellCommitment := sample.cellCommitmentV0 (sample.root self.cellState)
  cellRoot := sample.root self.cellState
  segmentRoot := sample.computeBlockSegmentRoot self.txs
  timestamp := self.daaScore
  daaScore := self.daaScore
  blueScore := self.daaScore

def sampleNetwork (blocks : List SampleBlock) : ResolveServices :=
  let find (hash : Hash) : Option SampleBlock := blocks.find? fun block => block.hash = hash
  let chain : Forest Hash :=
    { parent := fun hash => (find hash).bind fun block =>
        if block.selectedParent < hash then some block.selectedParent else none
      rank := id
      rank_lt := by
        intro a b hab
        obtain ⟨block, -, hblock⟩ := Option.bind_eq_some_iff.mp hab
        split_ifs at hblock with hlt
        obtain rfl := Option.some.inj hblock
        exact hlt }
  { chain := chain
    headers := fun hash => (find hash).map SampleBlock.header
    ghostdagData := fun hash => (find hash).map fun block =>
      ⟨block.daaScore, block.selectedParent, block.mergesetBlues, []⟩
    parents := fun hash => (find hash).map fun block => [block.selectedParent]
    blueWork := fun hash => (find hash).map SampleBlock.daaScore
    isDagAncestorOf := fun this queried => this ∈ chain.path queried
    mergeDepthRoot := fun _ => some 1
    calcFinalityPoint := fun _ => 1
    pickVirtualParents := fun sink _ => ([sink], ⟨sink, sink, [sink], []⟩)
    ghostdag := fun parents => ⟨parents.headD 0, parents.headD 0, parents, []⟩
    blockDaaWindow := fun gd => .ok ⟨gd.blueScore + 1, ∅⟩
    calculateDifficultyBits := fun _ _ => 0
    calcPastMedianTime := fun gd => .ok gd.blueScore
    blocks := ⟨fun hash => (find hash).map SampleBlock.txs,
      fun hash => (find hash).map SampleBlock.daaScore⟩
    digests := sample
    cellProvider := fun _ => sample.baseProvider
    ghostdag_singleton := fun _ => rfl }

-- Block 1 is settled with an empty state; the other blocks wait for the virtual processor.
def sampleStores : ChainStores where
  statuses hash := some (if hash = 1 then .statusCellValid else .statusCellPendingVerification)
  cellDiffs hash := if hash = 1 then some .empty else none
  cellRoots hash := if hash = 1 then
    some (sample.root (.empty : LiveTree Hasher.sample))
    else none
  acceptanceData hash := if hash = 1 then some [] else none

def sampleNode : Node Hasher.sample where
  stores := sampleStores
  virtualState := ⟨[1], ⟨1, 1, [1], []⟩, 1, 0, 1, .empty, .empty, [], [], ∅, ∅⟩

def coinbaseCell (capacity daaScore : Nat) : CellMeta :=
  cellMetaFromOutput Hasher.sample daaScore true (sampleCoinbase capacity) 0
    ⟨sampleLock, none, capacity⟩

-- A chain without forks above block 1, with a coinbase in every block.
def lineBlock (hash : Hash) : SampleBlock where
  hash := hash
  selectedParent := hash - 1
  mergesetBlues := [hash - 1]
  txs := if hash = 1 then [] else [sampleCoinbase hash]
  daaScore := hash
  acceptedTxIds := if hash ≤ 2 then []
    else [Hasher.sample.txid (sampleCoinbase (hash - 1))]
  cellState := ((List.range hash).drop 2).foldl (fun tree block =>
    let cell := coinbaseCell block block
    tree.insert cell.outPoint (cellMetaToEntry cell)) .empty

def lineNetwork : ResolveServices :=
  sampleNetwork [lineBlock 1, lineBlock 2, lineBlock 3, lineBlock 4]

end SampleNetwork

end Spora
