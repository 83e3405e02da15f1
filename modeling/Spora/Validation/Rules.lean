import Spora.Validation.Errors
import Spora.Validation.Provider

namespace Spora

open Outcome

-- The limits of Cell validation. Every consensus path keeps the default ABI for the data of
-- `DepGroup` cells, so the ABI is not a parameter here.
structure CellConsensusParams where
  cellbaseMaturity : Nat := 100
  maxTxCycles : Nat := 10000000
  maxBlockCycles : Nat := 70000000
  maxTxSize : Nat := 500 * 1024
  maxCellDataSize : Nat := 500 * 1024
deriving DecidableEq, Repr

def parseDepGroupData (data : Bytes) : Except String (List OutPoint) := do
  ensure (4 ≤ data.length) "DepGroup data too short for count header"
  let count := leNat (data.take 4)
  let expected := 4 + count * 36
  ensure (data.length = expected)
    (s!"DepGroup data length mismatch: expected {expected} bytes for {count} outpoints, " ++
      s!"got {data.length}")
  return (List.range count).map fun i =>
    let key := (data.drop (4 + i * 36)).take 36
    ⟨leNat (key.take 32), leNat (key.drop 32)⟩

def CellOutput.occupiedCapacity (self : CellOutput) (dataLen : Nat) : Nat :=
  8 + (32 + 1 + self.lock.args.length) +
    (self.type_.elim 0 fun typeScript => 32 + 1 + typeScript.args.length) + dataLen

def CellOutput.verifyCapacity (self : CellOutput) (dataLen : Nat) :
    Except CellValidationError Unit :=
  let occupied := self.occupiedCapacity dataLen
  ensure (occupied ≤ self.capacity) (.insufficientCapacity occupied self.capacity)

def hexUpper (n : Nat) : String :=
  let digits := (Nat.toDigits 16 n).map Char.toUpper
  String.ofList (List.replicate (4 - digits.length) '0' ++ digits)

def validateCellTxInIsolation (tx : CellTx) (maxCellDataSize : Nat) :
    Except CellValidationError Unit := do
  ensure (tx.version = CELL_TX_VERSION)
    (.invalidFormat ("Invalid version: 0x" ++ hexUpper tx.version))
  ensure (tx.inputs ≠ []) (.invalidFormat "No inputs (use cellbase for mining rewards)")
  ensure (tx.outputs ≠ []) (.invalidFormat "No outputs")
  ensure (tx.outputs.length = tx.outputsData.length)
    (.invalidFormat "outputs and outputs_data length mismatch")
  tx.outputs.zipIdx.forM fun (output, idx) => do
    let dataLen := (tx.outputData idx).length
    ensure (dataLen ≤ maxCellDataSize)
      (.invalidFormat s!"Cell output data too large: {dataLen} > {maxCellDataSize} bytes")
    output.verifyCapacity dataLen

-- Length of the borsh encoding. Vectors carry a four-byte length, options a flag.
def Script.borshSize (script : Script) : Nat := 32 + 1 + (4 + script.args.length)

def CellOutput.borshSize (output : CellOutput) : Nat :=
  output.lock.borshSize + (1 + output.type_.elim 0 Script.borshSize) + 8

def CellTx.borshSize (tx : CellTx) : Nat :=
  4 + (4 + 44 * tx.inputs.length) + (4 + 37 * tx.cellDeps.length) +
    (4 + 32 * tx.headerDeps.length) + (4 + (tx.outputs.map CellOutput.borshSize).sum) +
    (4 + (tx.outputsData.map fun data => 4 + data.length).sum) +
    (4 + (tx.witnesses.map fun witness => 4 + witness.length).sum)

def checkTxSize (tx : CellTx) (maxTxSize : Nat) : Except CellValidationError Unit :=
  ensure (tx.borshSize ≤ maxTxSize)
    (.invalidFormat s!"Transaction too large: {tx.borshSize} > {maxTxSize}")

namespace CellStateProvider

variable (provider : CellStateProvider) (pov : Hash)

def checkAvailable (input : CellInput) : Except CellValidationError Unit := do
  let available ← (provider.isCellAvailable input.previousOutput pov).mapError .invalidFormat
  ensure (available = true) (.cellAlreadySpent input.previousOutput.txHash)

def addInputCapacity (inputCapacity : Nat) (input : CellInput) : Except CellValidationError Nat :=
  do
  let capacity ← okOr
    (← (provider.getCellCapacity input.previousOutput pov).mapError .invalidFormat)
    (.cellNotFound input.previousOutput.txHash)
  okOr (checkedAdd inputCapacity capacity) .capacityOverflow

def validateCellTxInContext (tx : CellTx) : Except CellValidationError Unit := do
  tx.inputs.forM (provider.checkAvailable pov)
  let inputCapacity ← tx.inputs.foldlM (provider.addInputCapacity pov) 0
  -- the plain sum of the outputs aborts on overflow
  ensure (tx.outputCapacity ≤ U64_MAX) .panicked
  ensure (tx.outputCapacity ≤ inputCapacity) (.insufficientCapacity tx.outputCapacity inputCapacity)

end CellStateProvider

section InDag

variable (provider : DagCellProvider) (pov : Hash)

def ensureAvailable (outPoint : OutPoint) (missing : CellValidationError) :
    Except CellValidationError Unit := do
  let available ← (provider.isCellAvailable outPoint pov).mapError .invalidFormat
  ensure (available = true) missing

def resolveCell (outPoint : OutPoint) (missing : CellValidationError) :
    Except CellValidationError CellMetadata := do
  okOr (← (provider.getCellAtPov outPoint pov).mapError .invalidFormat) missing

def validateCellDepExistence (dep : CellDep) : Except CellValidationError Unit := do
  let missing := CellValidationError.depCellNotFound dep.outPoint.txHash
  ensureAvailable provider pov dep.outPoint missing
  match dep.depType with
  | .code => return ()
  | .depGroup =>
    let cell ← resolveCell provider pov dep.outPoint missing
    let data ← okOr cell.data
      (.invalidFormat s!"DepGroup cell data not available for {dep.outPoint}")
    let outpoints ← (parseDepGroupData data).mapError .invalidFormat
    outpoints.forM fun op => ensureAvailable provider pov op (.depCellNotFound op.txHash)

def validateCellExistence (tx : CellTx) : Except CellValidationError Unit := do
  tx.inputs.forM fun input =>
    ensureAvailable provider pov input.previousOutput (.cellNotFound input.previousOutput.txHash)
  tx.cellDeps.forM (validateCellDepExistence provider pov)

def sinceIsRelative (since : Nat) : Bool := since.testBit 63

def sinceIsDaa (since : Nat) : Bool := since.testBit 62

def sinceValue (since : Nat) : Nat := since % 2 ^ 62

def sinceBase (since : Nat) (cell : CellMetadata) : Except CellValidationError Nat :=
  if sinceIsDaa since then .ok cell.blockDaaScore
  else (provider.getBlockTimestamp cell.blockHash).mapError .invalidFormat

def sinceRequired (since : Nat) (cell : CellMetadata) : Except CellValidationError Nat :=
  if sinceIsRelative since then do
    let baseValue ← sinceBase provider since cell
    okOr (checkedAdd baseValue (sinceValue since)) (.invalidFormat "time lock overflow")
  else .ok (sinceValue since)

def validateTimeLock (currentDaa currentTimestamp : Nat) (input : CellInput) :
    Except CellValidationError Unit :=
  if input.since = 0 then .ok ()
  else do
    let cell ← resolveCell provider pov input.previousOutput
      (.cellNotFound input.previousOutput.txHash)
    let currentValue := if sinceIsDaa input.since then currentDaa else currentTimestamp
    let requiredValue ← sinceRequired provider input.since cell
    ensure (requiredValue ≤ currentValue) (.timeLockNotSatisfied requiredValue currentValue)

def validateTimeLocks (tx : CellTx) (currentDaa currentTimestamp : Nat) :
    Except CellValidationError Unit :=
  tx.inputs.forM (validateTimeLock provider pov currentDaa currentTimestamp)

def validateInputMaturity (currentDaa maturity : Nat) (input : CellInput) :
    Except CellValidationError Unit := do
  let cell ← resolveCell provider pov input.previousOutput
    (.cellNotFound input.previousOutput.txHash)
  if cell.isCellbase then
    let maturityDaa ← okOr (checkedAdd cell.blockDaaScore maturity) .panicked
    ensure (maturityDaa ≤ currentDaa) (.cellbaseNotMature cell.blockDaaScore currentDaa maturityDaa)
  else return ()

def validateCellbaseMaturity (tx : CellTx) (currentDaa maturity : Nat) :
    Except CellValidationError Unit :=
  tx.inputs.forM (validateInputMaturity provider pov currentDaa maturity)

def validateInDag (params : CellConsensusParams) (tx : CellTx) (daaScore timestamp : Nat) :
    Except CellValidationError Unit := do
  validateCellExistence provider pov tx
  provider.toCellStateProvider.validateCellTxInContext pov tx
  validateTimeLocks provider pov tx daaScore timestamp
  validateCellbaseMaturity provider pov tx daaScore params.cellbaseMaturity

end InDag

end Spora
