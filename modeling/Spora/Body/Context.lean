import Spora.Body.Isolation
import Spora.Mpe.Analysis

namespace Spora

open Std Outcome ReplayValidationContext

namespace BlockBodyProcessor

variable (self : BlockBodyProcessor) (block : Block)

section Coinbase

def checkParentBodiesExist : Except RuleError Unit :=
  let missing := block.header.directParents.filter fun parent => !self.hasBlockBody parent
  ensure (missing = []) (.missingParents missing)

def checkCoinbaseOutputsLimit : Except RuleError Unit := do
  let selectedParent ← okOr
    (((self.ghostdagData block.hash).map GhostdagData.selectedParent).or
      block.header.directParents.head?)
    (.panicked "block must have a selected parent or at least one direct parent")
  let _ ← okOr (self.daaScores selectedParent) (.panicked "called unwrap on a missing entry")
  let coinbaseOutputsLimit := self.ghostdagK + 2
  let tx ← coinbase block
  ensure (tx.outputs.length ≤ coinbaseOutputsLimit) (.txInIsolationValidationFailed
    (self.hasher.txid tx) (.coinbaseTooManyOutputs tx.outputs.length coinbaseOutputsLimit))

-- Checks what the payload of the coinbase says; the outputs of the coinbase are not looked at.
def checkCoinbaseBlueScoreAndSubsidy : Except RuleError Unit := do
  let payload := (← coinbase block).payload.getD []
  let data ← (self.coinbaseManager.deserializeCoinbasePayload payload).mapError .badCoinbasePayload
  ensure (data.blueScore = block.header.blueScore)
    (.badCoinbasePayloadBlueScore data.blueScore block.header.blueScore)
  let expectedSubsidy := self.coinbaseManager.calcBlockSubsidy block.header.daaScore
  ensure (data.subsidy = expectedSubsidy) (.wrongSubsidy expectedSubsidy data.subsidy)

end Coinbase

section Overlay

def overlayError (err : String) : RuleError :=
  .cellValidationError s!"failed to build body validation overlay: {err}"

def addOverlayOutput (blockHash : Hash) (blockDaaScore : Nat) (isCellbase : Bool) (tx : CellTx)
    (provider : OverlayCellProvider) (entry : CellOutput × Nat) :
    Except RuleError OverlayCellProvider :=
  let (output, index) := entry
  (provider.addCell ⟨self.hasher.txid tx, index⟩ (cellMetadataFromOutput self.hasher blockHash
    blockDaaScore isCellbase (self.hasher.txid tx) index output (tx.outputData index))).mapError
    overlayError

-- A dependency of a merged transaction, with the members of a `DepGroup` cell.
def ensureOverlayDep (provider : OverlayCellProvider) (dep : CellDep) : Except RuleError Unit := do
  (provider.ensureDepAvailable dep.outPoint).mapError overlayError
  match dep.depType with
  | .code => return ()
  | .depGroup =>
    let cell ← (provider.getCellMetadata dep.outPoint).mapError fun err =>
      .cellValidationError s!"failed to read dep group metadata: {err}"
    match cell.bind CellMetadata.data with
    | none => return ()
    | some data =>
      let outpoints ← (parseDepGroupData data).mapError fun err =>
        .cellValidationError s!"invalid DepGroup data: {err}"
      outpoints.forM fun op => (provider.ensureDepAvailable op).mapError fun err =>
        .cellValidationError s!"DepGroup expanded dep unavailable: {err}"

structure OverlayState where
  provider : OverlayCellProvider
  processedTxs : ExtTreeSet Hash

def mergeTx (blueBlock : Hash) (blueDaaScore : Nat) (st : OverlayState) (entry : CellTx × Nat) :
    Except RuleError OverlayState := do
  let (tx, txIndex) := entry
  if self.hasher.txid tx ∈ st.processedTxs then return st
  else
    tx.cellDeps.forM (ensureOverlayDep st.provider)
    let provider ← tx.inputs.foldlM (fun provider input =>
      (provider.spendCell input.previousOutput).mapError overlayError) st.provider
    let provider ← tx.outputs.zipIdx.foldlM (self.addOverlayOutput blueBlock blueDaaScore
      (txIndex == 0 && tx.isCoinbase) tx) provider
    return ⟨provider, st.processedTxs.insert (self.hasher.txid tx)⟩

def mergeBlue (st : OverlayState) (blueBlock : Hash) : Except RuleError OverlayState := do
  let transactions ← okOr (self.blockTransactions blueBlock)
    (.store s!"block tx lookup failed for {blueBlock}")
  let blueDaaScore ← okOr (self.daaScores blueBlock)
    (.store s!"header daa lookup failed for {blueBlock}")
  transactions.zipIdx.foldlM (self.mergeTx blueBlock blueDaaScore) st

def mergeSelectedParentCoinbase (selectedParent : Hash) (provider : OverlayCellProvider) :
    Except RuleError OverlayState := do
  let transactions ← okOr (self.blockTransactions selectedParent)
    (.store s!"block tx lookup failed for selected parent {selectedParent}")
  let daaScore ← okOr (self.daaScores selectedParent)
    (.store s!"header daa lookup failed for selected parent {selectedParent}")
  match transactions with
  | [] => return ⟨provider, ∅⟩
  | coinbase :: _ =>
    let provider ← coinbase.outputs.zipIdx.foldlM
      (self.addOverlayOutput selectedParent daaScore true coinbase) provider
    return ⟨provider, (∅ : ExtTreeSet Hash).insert (self.hasher.txid coinbase)⟩

def blockGhostdagData : GhostdagData :=
  (self.ghostdagData block.hash).getD (self.ghostdag block.header.directParents)

-- The selected parent's state with the merged blocks on top, frozen for the whole block.
def buildBodyValidationProvider : Except RuleError OverlayCellProvider := do
  let ghostdagData := self.blockGhostdagData block
  let start ← self.mergeSelectedParentCoinbase ghostdagData.selectedParent
    (OverlayCellProvider.new self.baseProvider block.hash ghostdagData.selectedParent)
  let st ← ghostdagData.mergesetBlues.foldlM self.mergeBlue start
  return st.provider

end Overlay

section Transactions

def immatureSpend (provider : OverlayCellProvider) (txId : Hash) :
    List (CellInput × Nat) → RuleError
  | [] => .txInContextFailed txId .missingTxOutpoints
  | (input, inputIndex) :: rest =>
    match provider.toProvider.getCellAtPov input.previousOutput block.hash with
    | .ok (some metadata) =>
      if metadata.isCellbase ∧
          block.header.daaScore < saturatingAdd metadata.blockDaaScore self.coinbaseMaturity then
        .txInContextFailed txId (.immatureCoinbaseSpend inputIndex input.previousOutput
          metadata.blockDaaScore block.header.daaScore self.coinbaseMaturity)
      else immatureSpend provider txId rest
    | _ => immatureSpend provider txId rest

def mapCellValidationError (provider : OverlayCellProvider) (tx : CellTx) :
    CellValidationError → RuleError
  | .cellNotFound _ | .depCellNotFound _ | .cellAlreadySpent _ =>
    .txInContextFailed (self.hasher.txid tx) .missingTxOutpoints
  | .capacityOverflow => .txInContextFailed (self.hasher.txid tx) .inputAmountOverflow
  | .insufficientCapacity required available =>
    .txInContextFailed (self.hasher.txid tx) (.spendTooHigh required available)
  | .timeLockNotSatisfied _ _ =>
    .txInContextFailed (self.hasher.txid tx) .sequenceLockConditionsAreNotMet
  | .cellbaseNotMature _ _ _ =>
    self.immatureSpend block provider (self.hasher.txid tx) tx.inputs.zipIdx
  | .scriptVerificationFailed message =>
    .txInContextFailed (self.hasher.txid tx) (.cellValidationFailed message)
  | .exceededMaxCycles total limit => .txInContextFailed (self.hasher.txid tx)
      (.cellValidationFailed s!"script cycles exceeded limit: total {total}, limit {limit}")
  | .invalidSignature =>
    .txInContextFailed (self.hasher.txid tx) (.cellValidationFailed "invalid signature")
  | .panicked => .panicked "attempt to add with overflow"
  | .invalidFormat message =>
    if mentions message "lookup error" ||
        mentions message "Status lookup error" ||
        mentions message "unexpected POV" then
      .txInContextFailed (self.hasher.txid tx) .missingTxOutpoints
    else .cellValidationError
      s!"Context validation failed for tx {self.hasher.txid tx}: {message}"

def params : CellConsensusParams := { cellbaseMaturity := self.coinbaseMaturity }

-- Validation in the DAG and of the scripts; the isolation checks were made before.
def validateInDagWithScripts (provider : OverlayCellProvider) (tx : CellTx) :
    Except CellValidationError Nat := do
  validateInDag provider.toProvider block.hash self.params tx block.header.daaScore
    block.header.timestamp
  verifyScriptsWithCycles self.engine self.params provider.toProvider block.hash tx

def resolveCellTxInputsFromProvider (provider : OverlayCellProvider) (tx : CellTx) :
    Except String (List CellMetadata) :=
  tx.inputs.mapM fun input => do
    okOr (← provider.toProvider.getCellAtPov input.previousOutput block.hash)
      s!"missing input cell {input.previousOutput}"

def storageMass (provider : OverlayCellProvider) (tx : CellTx) : Except RuleError Nat := do
  let missing := RuleError.txInContextFailed (self.hasher.txid tx) .missingTxOutpoints
  let resolvedInputs ← (resolveCellTxInputsFromProvider block provider tx).mapError fun _ => missing
  let masses ← (self.massCalculator.calcContextualMasses tx resolvedInputs).mapError fun
    | .incomputable => missing
    | .panicked => .panicked "arithmetic overflow"
  return masses.storageMass

def validateBodyTx (provider : OverlayCellProvider) (tx : CellTx) :
    Except RuleError (NonContextualMasses × Nat × Nat) := do
  let txCycles ← (self.validateInDagWithScripts block provider tx).mapError
    (self.mapCellValidationError block provider tx)
  let storageMass ← self.storageMass block provider tx
  return (self.massCalculator.calcNonContextualMassesCell tx, storageMass, txCycles)

structure BodyValidationAccumulators where
  blockCycles : Nat
  computeMass : Nat
  transientMass : Nat
  storageMass : Nat
deriving DecidableEq, Repr

def accumulateBodyTx (provider : OverlayCellProvider) (accum : BodyValidationAccumulators)
    (entry : CellTx × Nat) : Except RuleError BodyValidationAccumulators := do
  let (tx, idx) := entry
  let (nonContextualMasses, storageMass, txCycles) ← self.validateBodyTx block provider tx
  let maxCycles := ({} : CellConsensusParams).maxBlockCycles
  let blockCycles := saturatingAdd accum.blockCycles txCycles
  ensure (blockCycles ≤ maxCycles) (.cellValidationError
    (s!"block script cycles exceeded limit at tx index {idx}: total {blockCycles}, " ++
      s!"limit {maxCycles}"))
  let effectiveComputeMass := max nonContextualMasses.computeMass
    (effectiveSize tx.estimatedSerializedSize txCycles)
  let computeMass := saturatingAdd accum.computeMass effectiveComputeMass
  let transientMass := saturatingAdd accum.transientMass nonContextualMasses.transientMass
  let storageMass := saturatingAdd accum.storageMass storageMass
  ensure (computeMass ≤ self.maxBlockMass) (.exceedsComputeMassLimit computeMass self.maxBlockMass)
  ensure (transientMass ≤ self.maxBlockMass)
    (.exceedsTransientMassLimit transientMass self.maxBlockMass)
  ensure (storageMass ≤ self.maxBlockMass) (.exceedsStorageMassLimit storageMass self.maxBlockMass)
  return ⟨blockCycles, computeMass, transientMass, storageMass⟩

-- Every transaction is validated against the same overlay; the results meet in block order.
def checkBlockTransactionsInContext : Except RuleError Mass := do
  if block.transactions.all CellTx.isCoinbase then return (⟨0, 0⟩, ⟨0⟩)
  else
    let provider ← self.buildBodyValidationProvider block
    let nonCoinbaseTxs := block.transactions.zipIdx.filter fun (tx, _) => !tx.isCoinbase
    let accum ← nonCoinbaseTxs.foldlM (self.accumulateBodyTx block provider) ⟨0, 0, 0, 0⟩
    return (⟨accum.computeMass, accum.transientMass⟩, ⟨accum.storageMass⟩)

end Transactions

def validateBodyInContext : Except RuleError Mass := do
  self.checkParentBodiesExist block
  self.checkCoinbaseOutputsLimit block
  self.checkCoinbaseBlueScoreAndSubsidy block
  self.checkBlockTransactionsInContext block

def validateBody (isTrusted : Bool) : Except RuleError Mass := do
  let isolationMass ← self.validateBodyInIsolation block
  if !isTrusted then self.validateBodyInContext block else return isolationMass

def sample : BlockBodyProcessor where
  hasher := Hasher.sample
  engine := ScriptEngine.sample Hasher.sample
  calcMerkleRoot := Hasher.digest
  coinbaseManager := ⟨150, 216, 1000, 500, 1, [440]⟩
  massCalculator := ⟨1, 10, 1000, 1⟩
  maxBlockMass := 2000000
  ghostdagK := 18
  coinbaseMaturity := 100
  blockTransactions _ := none
  daaScores block := some block
  hasBlockBody _ := true
  ghostdagData _ := none
  ghostdag parents := ⟨parents.length + 1, parents.headD 0, parents, []⟩
  baseProvider := ⟨fun _ _ => .ok none, fun _ => .ok 0, fun _ => .ok none⟩

def samplePayload : Bytes :=
  leBytes 8 2 ++ leBytes 8 500 ++ leBytes 32 11 ++ leBytes 1 1 ++ leBytes 1 20 ++
    List.replicate 20 7

end BlockBodyProcessor

end Spora
