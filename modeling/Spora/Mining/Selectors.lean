import Spora.Mining.Mempool
import Spora.Template.Build

namespace Spora

open Std Outcome

structure Policy where
  maxBlockMass : Nat
deriving DecidableEq, Repr

-- The weight is a function of fee and mass.
structure FeerateTransactionKey where
  fee : Nat
  mass : Nat
  tx : CellTx
deriving DecidableEq, Repr

def FeerateTransactionKey.ofMutableTransaction (mtx : MutableTransaction) :
    Option FeerateTransactionKey :=
  mtx.selectionMass.bind fun mass => mtx.calculatedFee.map fun fee => ⟨fee, mass, mtx.tx⟩

structure Frontier where
  searchTree : List FeerateTransactionKey
  totalMass : Nat
  totalMass_eq : totalMass = (searchTree.map FeerateTransactionKey.mass).sum

def COLLISION_FACTOR : Nat := 4

namespace Frontier

def empty : Frontier := ⟨[], 0, rfl⟩

variable (self : Frontier)

def search (rank : Nat) : Option FeerateTransactionKey :=
  self.searchTree[min rank (self.searchTree.length - 1)]?

structure SampleState where
  cache : List Hash
  sequence : List FeerateTransactionKey
  totalSelectedMass : Nat

def desiredMass (policy : Policy) : Nat := policy.maxBlockMass * 6 / 5

variable (hasher : Hasher) (policy : Policy)

-- A draw is the rank of the key that the random number falls on. After a collision only the range
-- of the numbers changes.
def sampleInplaceFrom : List Nat → SampleState → SampleState
  | [], st => st
  | rank :: draws, st =>
    if st.cache.length < self.searchTree.length ∧ st.totalSelectedMass ≤ desiredMass policy then
      match self.search rank with
      | none => st
      | some item =>
        if hasher.txid item.tx ∈ st.cache then sampleInplaceFrom draws st
        else sampleInplaceFrom draws ⟨hasher.txid item.tx :: st.cache, st.sequence ++ [item],
          st.totalSelectedMass + item.mass⟩
    else st

def sampleInplaceWithCells (draws : List Nat) : List FeerateTransactionKey :=
  (self.sampleInplaceFrom hasher policy draws ⟨[], [], 0⟩).sequence

end Frontier

def takeFitting (policy : Policy) (totalSelectedMass : Nat) :
    List FeerateTransactionKey → List FeerateTransactionKey
  | [] => []
  | candidate :: rest =>
    match checkedAdd totalSelectedMass candidate.mass with
    | none => []
    | some nextTotalMass =>
      if nextTotalMass > policy.maxBlockMass then []
      else candidate :: takeFitting policy nextTotalMass rest

structure Candidate where
  index : Nat
  isMarkedForDeletion : Bool
deriving DecidableEq, Repr

structure RebalancingDraw where
  rebalances : Bool
  rank : Nat
deriving DecidableEq, Repr

structure RebalancingWeightedTransactionSelector where
  policy : Policy
  transactions : List FeerateTransactionKey
  selectedTxs : List Nat
  candidateList : List Candidate
  usedCount : Nat
  totalMass : Nat

namespace RebalancingWeightedTransactionSelector

def new (hasher : Hasher) (policy : Policy) (keys : List FeerateTransactionKey) :
    RebalancingWeightedTransactionSelector where
  policy := policy
  transactions := keys.mergeSort fun a b => decide (hasher.txid a.tx ≤ hasher.txid b.tx)
  selectedTxs := []
  candidateList := (List.range keys.length).map fun index => ⟨index, false⟩
  usedCount := 0
  totalMass := 0

variable (self : RebalancingWeightedTransactionSelector)

def rebalanced : RebalancingWeightedTransactionSelector :=
  { self with
    candidateList := self.candidateList.filter fun candidate => !candidate.isMarkedForDeletion
    usedCount := 0 }

def select (position : Nat) (candidate : Candidate) (mass : Nat) :
    RebalancingWeightedTransactionSelector :=
  { self with
    selectedTxs := self.selectedTxs ++ [candidate.index]
    totalMass := self.totalMass + mass
    candidateList := self.candidateList.set position ⟨candidate.index, true⟩
    usedCount := self.usedCount + 1 }

-- One round: `none` ends the loop.
def round (draw : RebalancingDraw) : Option RebalancingWeightedTransactionSelector :=
  if self.candidateList.length - self.usedCount > 0 then
    let self := if draw.rebalances then self.rebalanced else self
    let position := min draw.rank (self.candidateList.length - 1)
    self.candidateList[position]?.bind fun candidate =>
      if candidate.isMarkedForDeletion then some self
      else self.transactions[candidate.index]?.bind fun selected =>
        (checkedAdd self.totalMass selected.mass).bind fun nextTotalMass =>
          if nextTotalMass > self.policy.maxBlockMass then none
          else some (self.select position candidate selected.mass)
  else none

def selectFrom :
    List RebalancingDraw → RebalancingWeightedTransactionSelector →
      RebalancingWeightedTransactionSelector
  | [], self => self
  | draw :: draws, self =>
    match self.round draw with
    | none => self
    | some next => selectFrom draws next

def getTransactions : List FeerateTransactionKey :=
  (self.selectedTxs.mergeSort fun a b => decide (a ≤ b)).filterMap fun index =>
    self.transactions[index]?

end RebalancingWeightedTransactionSelector

inductive TemplateTransactionSelector
  | takeAll (txs : List FeerateTransactionKey)
  | sequence (inputSequence : List FeerateTransactionKey) (policy : Policy)
  | rebalancing (selector : RebalancingWeightedTransactionSelector)

structure TemplateDraws where
  samples : List Nat
  rounds : List RebalancingDraw

def TemplateTransactionSelector.selectTransactions (draws : TemplateDraws) :
    TemplateTransactionSelector → List FeerateTransactionKey
  | .takeAll txs => txs
  | .sequence inputSequence policy => takeFitting policy 0 inputSequence
  | .rebalancing selector => (selector.selectFrom draws.rounds).getTransactions

def Frontier.buildSelectorWithCells (self : Frontier) (hasher : Hasher) (policy : Policy)
    (draws : TemplateDraws) :
    TemplateTransactionSelector :=
  if self.totalMass ≤ policy.maxBlockMass then .takeAll self.searchTree
  else if self.totalMass > policy.maxBlockMass * COLLISION_FACTOR then
    .sequence (self.sampleInplaceWithCells hasher policy draws.samples) policy
  else .rebalancing (.new hasher policy self.searchTree)

structure TransactionsPool where
  readyTransactions : Frontier
  cellscriptSchedulerAccesses : TrustedCellScriptSchedulerAccessSets

-- `maxBlockMass` is one parameter of the network for the mempool and for consensus.
structure MiningManager where
  processor : MempoolProcessor
  services : TemplateServices
  maxBlockMass : Nat
  maximumBuildBlockTemplateAttempts : Nat

namespace MiningManager

variable (self : MiningManager)

def selectedCellscriptSchedulerAccesses (pool : TransactionsPool)
    (selected : List FeerateTransactionKey) :
    TrustedCellScriptSchedulerAccessSets :=
  pool.cellscriptSchedulerAccesses.filter fun txId _ =>
    selected.any fun key => self.processor.storage.hasher.txid key.tx == txId

def selectTransactions (pool : TransactionsPool) (draws : TemplateDraws) :
    List FeerateTransactionKey :=
  (pool.readyTransactions.buildSelectorWithCells self.processor.storage.hasher ⟨self.maxBlockMass⟩
    draws).selectTransactions draws

def buildBlockTemplate (virtualState : VirtualState self.processor.storage.hasher)
    (minerData : MinerData) (unixNow : Nat) (pool : TransactionsPool) (draws : TemplateDraws)
    (buildMode : TemplateBuildMode) :
    Except RuleError BlockTemplate := do
  let selected := self.selectTransactions pool draws
  let accessSets := self.selectedCellscriptSchedulerAccesses pool selected
  let outcome ← self.processor.templateTransactions (selected.map FeerateTransactionKey.tx)
    (if accessSets.isEmpty then none else some accessSets) buildMode virtualState
  { self.services
    with hasher := self.processor.storage.hasher }.buildBlockTemplateFromVirtualStateCell
    virtualState minerData outcome.validTxs outcome.calculatedFees unixNow

-- Each attempt finds the mempool without the transactions that were invalid before, and as others
-- have left it. Only the last one may drop transactions, so there is none behind it.
def getBlockTemplateFrom (virtualState : VirtualState self.processor.storage.hasher)
    (minerData : MinerData) (unixNow : Nat) (pools : Nat → TransactionsPool)
    (draws : Nat → TemplateDraws) :
    Nat → Nat → Except RuleError BlockTemplate
  | attempts, 0 => self.buildBlockTemplate virtualState minerData unixNow (pools attempts)
    (draws attempts) .infallible
  | attempts, left + 1 =>
    match self.buildBlockTemplate virtualState minerData unixNow (pools attempts)
        (draws attempts) .standard with
    | .error (.invalidTransactionsInNewBlock _) =>
      getBlockTemplateFrom virtualState minerData unixNow pools draws (attempts + 1) left
    | result => result

def getBlockTemplate (virtualState : VirtualState self.processor.storage.hasher)
    (minerData : MinerData) (unixNow : Nat) (pools : Nat → TransactionsPool)
    (draws : Nat → TemplateDraws) :
    Except RuleError BlockTemplate :=
  self.getBlockTemplateFrom virtualState minerData unixNow pools draws 1
    (self.maximumBuildBlockTemplateAttempts - 1)

end MiningManager

end Spora
