import Spora.Validation.Rules

namespace Spora

open Outcome

structure NonContextualMasses where
  computeMass : Nat
  transientMass : Nat
deriving DecidableEq, Repr

structure ContextualMasses where
  storageMass : Nat
deriving DecidableEq, Repr

abbrev Mass := NonContextualMasses × ContextualMasses

-- `incomputable` is the `None` of the source, `panicked` an overflow or a division by zero.
inductive MassError
  | incomputable
  | panicked
deriving DecidableEq, Repr

def CANONICAL_CELL_CONST_STORAGE : Nat := 32 + 4 + 8 + 8 + 32 + 1 + 32 + 8 + 1

def CELL_UNIT_SIZE : Nat := 100

def CELL_ENTRY_OVERHEAD_EXCLUDING_OUTPUT_BODY : Nat := 32 + 4 + 8 + 1

def TRANSIENT_BYTE_TO_MASS_FACTOR : Nat := 2

def DEFAULT_CYCLES_PER_BYTE : Nat := 100

def divCeil (a b : Nat) : Nat := (a + b - 1) / b

-- Byte counts of values in memory stay far below the word size, so they are plain sums.
def CellTx.estimatedSerializedSize (tx : CellTx) : Nat :=
  let outputSize (output : CellOutput) : Nat := (32 + 1 + 8) + output.lock.args.length +
    output.type_.elim 1 (fun typeScript => 1 + 32 + 1 + 8 + typeScript.args.length) + 8
  2 + (8 + tx.inputs.length * 44) + (8 + tx.cellDeps.length * 37) +
    (8 + tx.headerDeps.length * 32) + (8 + (tx.outputs.map outputSize).sum) +
      (8 + (tx.outputsData.map fun data => 8 + data.length).sum) +
    (8 + (tx.witnesses.map fun witness => 8 + witness.length).sum)

def effectiveSize (serializedSize cycles : Nat) : Nat :=
  max serializedSize (cycles / DEFAULT_CYCLES_PER_BYTE)

structure CellMass where
  plurality : Nat
  amount : Nat
deriving DecidableEq, Repr

def CellMass.ofMetadata (metadata : CellMetadata) : CellMass where
  plurality := divCeil (CANONICAL_CELL_CONST_STORAGE + (if metadata.typeHash.isSome then 32
    else 0) + metadata.dataBytes) CELL_UNIT_SIZE
  amount := metadata.capacity

def CellMass.ofOutput (output : CellOutput) (dataLen : Nat) : CellMass where
  plurality := divCeil (CELL_ENTRY_OVERHEAD_EXCLUDING_OUTPUT_BODY + output.occupiedCapacity dataLen)
    CELL_UNIT_SIZE
  amount := output.capacity

namespace StorageMass

-- Plain arithmetic of the source aborts, checked arithmetic gives up.
def addOrPanic (a b : Nat) : Except MassError Nat := okOr (checkedAdd a b) .panicked

def checkedMul (a b : Nat) : Option Nat := if a * b ≤ U64_MAX then some (a * b) else none

def divOrPanic (a b : Nat) : Except MassError Nat := if b = 0 then .error .panicked else .ok (a / b)

def addOutput (stormParam : Nat) (acc : Nat × Nat) (cell : CellMass) :
    Except MassError (Nat × Nat) := do
  let (accPlurality, accHarm) := acc
  let plurality ← addOrPanic accPlurality cell.plurality
  let scaled ← okOr (checkedMul stormParam cell.plurality) .incomputable
  let squared ← okOr (checkedMul scaled cell.plurality) .incomputable
  let share ← divOrPanic squared cell.amount
  let harmonic ← okOr (checkedAdd accHarm share) .incomputable
  return (plurality, harmonic)

def addHarmonicInput (stormParam acc : Nat) (cell : CellMass) : Except MassError Nat := do
  let scaled ← okOr (checkedMul stormParam cell.plurality) .panicked
  let squared ← okOr (checkedMul scaled cell.plurality) .panicked
  return saturatingAdd acc (← divOrPanic squared cell.amount)

def addArithmeticInput (acc : Nat × Nat) (cell : CellMass) : Except MassError (Nat × Nat) := do
  return (← addOrPanic acc.1 cell.plurality, ← addOrPanic acc.2 cell.amount)

-- `|O| = 1`, `|I| = 1` or `|O| = |I| = 2`.
def relaxedFormulaPath (outsPlurality : Nat) (inputs : List CellMass) : Except MassError Bool := do
  if outsPlurality = 1 then return true
  else if inputs.length > 2 then return false
  else
    let insPlurality ← inputs.foldlM (fun acc cell => addOrPanic acc cell.plurality) 0
    return insPlurality == 1 || (outsPlurality == 2 && insPlurality == 2)

end StorageMass

open StorageMass in
def calcStorageMass (isCoinbase : Bool) (inputs outputs : List CellMass) (stormParam : Nat) :
    Except MassError Nat := do
  if isCoinbase then return 0
  let (outsPlurality, harmonicOuts) ← outputs.foldlM (addOutput stormParam) (0, 0)
  if ← relaxedFormulaPath outsPlurality inputs then
    let harmonicIns ← inputs.foldlM (addHarmonicInput stormParam) 0
    return harmonicOuts - harmonicIns
  else
    let (insPlurality, sumIns) ← inputs.foldlM addArithmeticInput (0, 0)
    let meanIns ← divOrPanic sumIns insPlurality
    let arithmeticIns := min (insPlurality * (← divOrPanic stormParam meanIns)) U64_MAX
    return harmonicOuts - arithmeticIns

structure MassCalculator where
  massPerTxByte : Nat
  massPerScriptPubKeyByte : Nat
  massPerSigOp : Nat
  storageMassParameter : Nat
deriving DecidableEq, Repr

namespace MassCalculator

variable (self : MassCalculator)

def calcNonContextualMassesCell (tx : CellTx) : NonContextualMasses :=
  if tx.isCoinbase then ⟨0, 0⟩
  else
    let size := tx.estimatedSerializedSize
    let lockScriptSize (output : CellOutput) : Nat := 32 + 1 + output.lock.args.length +
      output.type_.elim 0 fun typeScript => 32 + 1 + typeScript.args.length
    let totalLockScriptSize := (tx.outputs.map lockScriptSize).sum
    ⟨size * self.massPerTxByte + totalLockScriptSize * self.massPerScriptPubKeyByte +
      tx.inputs.length * self.massPerSigOp, size * TRANSIENT_BYTE_TO_MASS_FACTOR⟩

-- The resolved inputs carry their metadata, as body validation fills them in.
def calcContextualMasses (tx : CellTx) (resolvedInputs : List CellMetadata) :
    Except MassError ContextualMasses := do
  let outputs := tx.outputs.zipIdx.map fun (output, i) =>
    CellMass.ofOutput output (tx.outputData i).length
  return ⟨← calcStorageMass tx.isCoinbase (resolvedInputs.map CellMass.ofMetadata) outputs
    self.storageMassParameter⟩

end MassCalculator

end Spora
