import Spora.Validation.Errors

namespace Spora

open Std

structure MinerData where
  lockScript : Script
  extraData : Bytes
deriving DecidableEq, Repr

structure CoinbaseData where
  blueScore : Nat
  subsidy : Nat
  massCommitment : Nat
  minerData : MinerData
deriving DecidableEq, Repr

structure BlockRewardData where
  subsidy : Nat
  totalFees : Nat
  lockScript : Script
deriving DecidableEq, Repr

-- Holds a coinbase transaction along with meta-data obtained during creation.
structure CoinbaseTransactionTemplate where
  tx : CellTx
  hasRedReward : Bool
deriving DecidableEq, Repr

-- The GHOSTDAG data of a block that mergeset execution reads. The selected parent is the first of
-- the blues.
structure GhostdagData where
  blueScore : Nat
  selectedParent : Hash
  mergesetBlues : List Hash
  mergesetReds : List Hash
deriving DecidableEq, Repr

def COINBASE_MASS_COMMITMENT_MAGIC : Bytes := [0x53, 0x4D, 0x43, 0x31]

def MIN_PAYLOAD_LENGTH : Nat := 8 + 8 + 32 + 1 + 1

def SECONDS_PER_MONTH : Nat := 2629800

-- `subsidyByMonthTable` is the precomputed table of the rewards per block for each month.
structure CoinbaseManager where
  coinbasePayloadScriptPublicKeyMaxLen : Nat
  maxCoinbasePayloadLen : Nat
  deflationaryPhaseDaaScore : Nat
  preDeflationaryPhaseBaseSubsidy : Nat
  bps : Nat
  subsidyByMonthTable : List Nat
deriving DecidableEq, Repr

namespace CoinbaseManager

variable (self : CoinbaseManager)

def subsidyMonth (daaScore : Nat) : Nat :=
  (daaScore - self.deflationaryPhaseDaaScore) / self.bps / SECONDS_PER_MONTH

def calcBlockSubsidy (daaScore : Nat) : Nat :=
  if daaScore < self.deflationaryPhaseDaaScore then self.preDeflationaryPhaseBaseSubsidy
  else
    let month := min (self.subsidyMonth daaScore) (self.subsidyByMonthTable.length - 1)
    self.subsidyByMonthTable[month]?.getD 0

def serializeCoinbasePayload (data : CoinbaseData) : Except CoinbaseError Bytes :=
  let lockScript := data.minerData.lockScript
  let lockArgsLen := lockScript.args.length
  if lockArgsLen > self.coinbasePayloadScriptPublicKeyMaxLen then
    .error (.payloadLockScriptLenAboveMax lockArgsLen self.coinbasePayloadScriptPublicKeyMaxLen)
  else
    .ok (leBytes 8 data.blueScore ++ leBytes 8 data.subsidy ++ leBytes 32 lockScript.codeHash ++
      leBytes 1 lockScript.hashType ++ leBytes 1 lockArgsLen ++ lockScript.args ++
      COINBASE_MASS_COMMITMENT_MAGIC ++ leBytes 8 data.massCommitment ++ data.minerData.extraData)

def splitMassCommitment (remaining : Bytes) : Nat × Bytes :=
  if remaining.length ≥ 4 + 8 ∧ remaining.take 4 = COINBASE_MASS_COMMITMENT_MAGIC then
    (leNat ((remaining.drop 4).take 8), remaining.drop 12)
  else (0, remaining)

def deserializeCoinbasePayload (payload : Bytes) : Except CoinbaseError CoinbaseData := do
  if payload.length < MIN_PAYLOAD_LENGTH then
    throw (.payloadLenBelowMin payload.length MIN_PAYLOAD_LENGTH)
  if payload.length > self.maxCoinbasePayloadLen then
    throw (.payloadLenAboveMax payload.length self.maxCoinbasePayloadLen)
  let lockArgsLen := leNat ((payload.drop 49).take 1)
  if lockArgsLen > self.coinbasePayloadScriptPublicKeyMaxLen then
    throw (.payloadLockScriptLenAboveMax lockArgsLen self.coinbasePayloadScriptPublicKeyMaxLen)
  let remaining := payload.drop MIN_PAYLOAD_LENGTH
  if remaining.length < lockArgsLen then
    throw (.payloadCantContainLockScript payload.length (MIN_PAYLOAD_LENGTH + lockArgsLen))
  let lockScript : Script :=
    ⟨leNat ((payload.drop 16).take 32), leNat ((payload.drop 48).take 1),
      remaining.take lockArgsLen⟩
  let (massCommitment, extraData) := splitMassCommitment (remaining.drop lockArgsLen)
  return {
    blueScore := leNat (payload.take 8)
    subsidy := leNat ((payload.drop 8).take 8)
    massCommitment := massCommitment
    minerData := ⟨lockScript, extraData⟩ }

-- Another miner's data behind the same blue score, subsidy and mass commitment.
def modifyCoinbasePayload (payload : Bytes) (minerData : MinerData) : Except CoinbaseError Bytes :=
  do
  let lockArgsLen := minerData.lockScript.args.length
  if lockArgsLen > self.coinbasePayloadScriptPublicKeyMaxLen then
    throw (.payloadLockScriptLenAboveMax lockArgsLen self.coinbasePayloadScriptPublicKeyMaxLen)
  let parsed ← self.deserializeCoinbasePayload payload
  self.serializeCoinbasePayload ⟨parsed.blueScore, parsed.subsidy, parsed.massCommitment, minerData⟩

def buildCoinbaseCellTx (outputs : List CellOutput) (payload : Bytes) : CellTx :=
  let (outputsData, witnesses) : List Bytes × List Bytes := match outputs with
    | [] => ([], if payload.isEmpty then [] else [payload])
    | _ :: rest => (payload :: rest.map fun _ => [], [])
  ⟨CELL_TX_VERSION, [], [], [], outputs, outputsData, witnesses⟩

def getReward (mergesetRewards : ExtTreeMap Hash BlockRewardData) (block : Hash) :
    Except CoinbaseError BlockRewardData :=
  match mergesetRewards[block]? with
  | some rewardData => .ok rewardData
  | none => .error .panicked

-- The release profile keeps overflow checks on: an overflowing addition aborts.
def addOrPanic (a b : Nat) : Except CoinbaseError Nat :=
  match checkedAdd a b with
  | some sum => .ok sum
  | none => .error .panicked

def blueOutputs (mergesetRewards : ExtTreeMap Hash BlockRewardData)
    (mergesetNonDaa : ExtTreeSet Hash) (outputs : List CellOutput) (blue : Hash) :
    Except CoinbaseError (List CellOutput) := do
  if blue ∈ mergesetNonDaa then return outputs
  let rewardData ← getReward mergesetRewards blue
  let capacity ← addOrPanic rewardData.subsidy rewardData.totalFees
  if capacity > 0 then return outputs ++ [⟨rewardData.lockScript, none, capacity⟩]
  else return outputs

def addRedReward (mergesetRewards : ExtTreeMap Hash BlockRewardData)
    (mergesetNonDaa : ExtTreeSet Hash) (redReward : Nat) (red : Hash) :
    Except CoinbaseError Nat := do
  let rewardData ← getReward mergesetRewards red
  if red ∈ mergesetNonDaa then addOrPanic redReward rewardData.totalFees
  else addOrPanic redReward (← addOrPanic rewardData.subsidy rewardData.totalFees)

-- One output for each blue block, and one for all reds that pays the merging block itself.
def expectedCoinbaseTransaction (daaScore : Nat) (minerData : MinerData)
    (ghostdagData : GhostdagData) (mergesetRewards : ExtTreeMap Hash BlockRewardData)
    (mergesetNonDaa : ExtTreeSet Hash) : Except CoinbaseError CoinbaseTransactionTemplate := do
  let outputs ← ghostdagData.mergesetBlues.foldlM (blueOutputs mergesetRewards mergesetNonDaa) []
  let redReward ← ghostdagData.mergesetReds.foldlM (addRedReward mergesetRewards mergesetNonDaa) 0
  let outputs := if redReward > 0 then outputs ++ [⟨minerData.lockScript, none, redReward⟩]
    else outputs
  let payload ← self.serializeCoinbasePayload
    ⟨ghostdagData.blueScore, self.calcBlockSubsidy daaScore, 0, minerData⟩
  return ⟨buildCoinbaseCellTx outputs payload, redReward > 0⟩

end CoinbaseManager

end Spora
