import Spora.Cell.Types

namespace Spora

-- The errors of the validators. `panicked` stands for a failed overflow check, which aborts.
inductive CellValidationError
  | invalidFormat (message : String)
  | scriptVerificationFailed (message : String)
  | exceededMaxCycles (total limit : Nat)
  | cellNotFound (txHash : Hash)
  | depCellNotFound (txHash : Hash)
  | cellAlreadySpent (txHash : Hash)
  | cellbaseNotMature (createdDaa currentDaa requiredDaa : Nat)
  | capacityOverflow
  | insufficientCapacity (required available : Nat)
  | timeLockNotSatisfied (lockValue current : Nat)
  | invalidSignature
  | panicked
deriving DecidableEq, Repr

instance : ToString CellValidationError where
  toString
    | .invalidFormat message => s!"Invalid transaction format: {message}"
    | .scriptVerificationFailed message => s!"Script verification failed: {message}"
    | .exceededMaxCycles total limit =>
      s!"Script cycles exceeded limit: total {total}, limit {limit}"
    | .cellNotFound txHash => s!"Cell not found: {txHash}"
    | .depCellNotFound txHash => s!"Cell dependency not found: {txHash}"
    | .cellAlreadySpent txHash => s!"Cell already spent: {txHash}"
    | .cellbaseNotMature createdDaa currentDaa requiredDaa =>
      s!"Cellbase not mature: created at DAA {createdDaa}, current DAA {currentDaa}, " ++
      s!"required DAA {requiredDaa}"
    | .capacityOverflow => "Capacity overflow"
    | .insufficientCapacity required available =>
      s!"Insufficient capacity: required {required}, available {available}"
    | .timeLockNotSatisfied lockValue current =>
      s!"Time lock not satisfied: lock value {lockValue}, current {current}"
    | .invalidSignature => "Invalid signature"
    | .panicked => "panicked"

inductive TxRuleError
  | noTxInputs
  | txDuplicateInputs
  | coinbaseHasInputs (inputs : Nat)
  | coinbaseTooManyOutputs (outputs : Nat) (limit : Nat)
  | coinbaseLockScriptTooLong (index : Nat)
  | immatureCoinbaseSpend (input : Nat) (outpoint : OutPoint) (daaScore povDaaScore maturity : Nat)
  | inputAmountOverflow
  | inputAmountTooHigh
  | txOutZero (index : Nat)
  | txOutTooHigh (index : Nat)
  | outputsValueOverflow
  | totalTxOutTooHigh
  | spendTooHigh (required available : Nat)
  | sequenceLockConditionsAreNotMet
  | missingTxOutpoints
  | cellValidationFailed (message : String)
  | massIncomputable
deriving DecidableEq, Repr

inductive CoinbaseError
  | payloadLenBelowMin (length min : Nat)
  | payloadLenAboveMax (length max : Nat)
  | payloadLockScriptLenAboveMax (length max : Nat)
  | payloadCantContainLockScript (length min : Nat)
  | panicked
deriving DecidableEq, Repr

-- The rule errors of the modelled code. `panicked` is no rule error: it stands for a failed
-- `expect` or `assert`, which aborts the process.
inductive RuleError
  | missingParents (parents : List Hash)
  | noTransactions
  | badMerkleRoot (header calculated : Hash)
  | badCellRoot (message : String)
  | badCellCommitment (message : String)
  | badAcceptedIDMerkleRoot (block header calculated : Hash)
  | firstTxNotCoinbase
  | multipleCoinbases (index : Nat)
  | badCoinbasePayload (error : CoinbaseError)
  | badCoinbasePayloadBlueScore (score expected : Nat)
  | coinbaseNonZeroMassCommitment
  | wrongSubsidy (expected actual : Nat)
  | txInIsolationValidationFailed (tx : Hash) (error : TxRuleError)
  | exceedsComputeMassLimit (mass limit : Nat)
  | exceedsTransientMassLimit (mass limit : Nat)
  | exceedsStorageMassLimit (mass limit : Nat)
  | doubleSpendInSameBlock (outpoint : OutPoint)
  | chainedTransaction (outpoint : OutPoint)
  | duplicateTransactions (tx : Hash)
  | txInContextFailed (tx : Hash) (error : TxRuleError)
  | cellValidationError (message : String)
  | invalidTransactionsInNewBlock (invalidTransactions : List (Hash × TxRuleError))
  | store (message : String)
  | panicked (message : String)
deriving DecidableEq, Repr

end Spora
