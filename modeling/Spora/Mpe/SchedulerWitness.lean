import Spora.Cell.Types
import Spora.Lib.Outcome
import Mathlib.Data.List.Dedup

namespace Spora

open Outcome

def CELLSCRIPT_SCHEDULER_WITNESS_MAGIC : Bytes := [0x11, 0xCE]
def CELLSCRIPT_SCHEDULER_WITNESS_VERSION : Nat := 1
def CELLSCRIPT_SCHEDULER_WITNESS_MOLECULE_FIELDS : Nat := 9
def CELLSCRIPT_SCHEDULER_ACCESS_MOLECULE_SIZE : Nat := 38
def CELLSCRIPT_SCHEDULER_EFFECT_PURE : Nat := 0
def CELLSCRIPT_SCHEDULER_EFFECT_READ_ONLY : Nat := 1
def CELLSCRIPT_SCHEDULER_EFFECT_MUTATING : Nat := 2
def CELLSCRIPT_SCHEDULER_EFFECT_CREATING : Nat := 3
def CELLSCRIPT_SCHEDULER_EFFECT_DESTROYING : Nat := 4
def CELLSCRIPT_SCHEDULER_OP_CONSUME : Nat := 1
def CELLSCRIPT_SCHEDULER_OP_TRANSFER : Nat := 2
def CELLSCRIPT_SCHEDULER_OP_DESTROY : Nat := 3
def CELLSCRIPT_SCHEDULER_OP_CLAIM : Nat := 4
def CELLSCRIPT_SCHEDULER_OP_SETTLE : Nat := 5
def CELLSCRIPT_SCHEDULER_OP_READ_REF : Nat := 6
def CELLSCRIPT_SCHEDULER_OP_CREATE : Nat := 7
def CELLSCRIPT_SCHEDULER_OP_MUTATE_INPUT : Nat := 8
def CELLSCRIPT_SCHEDULER_OP_MUTATE_OUTPUT : Nat := 9
def CELLSCRIPT_SCHEDULER_SOURCE_INPUT : Nat := 1
def CELLSCRIPT_SCHEDULER_SOURCE_CELL_DEP : Nat := 2
def CELLSCRIPT_SCHEDULER_SOURCE_OUTPUT : Nat := 3

structure CellScriptSchedulerAccessWitness where
  operation : Nat
  source : Nat
  index : Nat
  bindingHash : Hash
deriving DecidableEq, Repr

structure CellScriptSchedulerWitness where
  magic : Nat
  version : Nat
  effectClass : Nat
  parallelizable : Bool
  touchesSharedCount : Nat
  touchesShared : List Hash
  estimatedCycles : Nat
  accessCount : Nat
  accesses : List CellScriptSchedulerAccessWitness
deriving DecidableEq, Repr

inductive CellScriptSchedulerWitnessError
  | decode (message : String)
  | invalidMagic (magic : Nat)
  | unsupportedVersion (version : Nat)
  | countMismatch (field : String) (declared actual : Nat)
  | invalidEffectClass (effectClass : Nat)
  | invalidOperation (operation : Nat)
  | invalidSource (source : Nat)
  | unexpectedSourceForOperation (operation sourceId : Nat)
  | sourceIndexOutOfBounds (sourceId index available : Nat)
  | accessSetMismatch (operation sourceId index : Nat) (bindingHash : Hash)
      (expectedCount actualCount : Nat)
  | trustedSummaryMismatch (field : String)
  | duplicateSchedulerWitness (count : Nat)
deriving DecidableEq, Repr

instance : ToString CellScriptSchedulerWitnessError where
  toString
    | .decode message => s!"failed to decode CellScript scheduler witness: {message}"
    | .invalidMagic magic =>
      "invalid CellScript scheduler witness magic: expected 0xCE11, got 0x" ++
        String.ofList (Nat.toDigits 16 magic)
    | .unsupportedVersion version => s!"unsupported CellScript scheduler witness version: {version}"
    | .countMismatch field declared actual =>
      s!"CellScript scheduler witness {field} count mismatch: declared {declared}, actual {actual}"
    | .invalidEffectClass effectClass =>
      s!"invalid CellScript scheduler effect class id: {effectClass}"
    | .invalidOperation operation =>
      s!"invalid CellScript scheduler access operation id: {operation}"
    | .invalidSource source => s!"invalid CellScript scheduler access source id: {source}"
    | .unexpectedSourceForOperation operation sourceId =>
      s!"CellScript scheduler access operation {operation} cannot target source {sourceId}"
    | .sourceIndexOutOfBounds sourceId index available =>
      s!"CellScript scheduler access source {sourceId} index {index} is out of bounds; " ++
        s!"available {available}"
    | .accessSetMismatch operation sourceId index bindingHash expectedCount actualCount =>
      s!"CellScript scheduler access set mismatch for operation {operation} source {sourceId} " ++
        s!"index {index} binding {leBytes 32 bindingHash}: expected {expectedCount}, " ++
        s!"actual {actualCount}"
    | .trustedSummaryMismatch field => s!"CellScript scheduler trusted summary mismatch in {field}"
    | .duplicateSchedulerWitness count =>
      s!"duplicate CellScript scheduler witnesses on one transaction: {count}"

def chunksExact (size : Nat) (bytes : Bytes) : List Bytes :=
  (List.range (bytes.length / size)).map fun i => (bytes.drop (i * size)).take size

def schedulerMoleculeUnpackNumber (bytes : Bytes) (ty : String) : Except String Nat :=
  if bytes.length < 4 then
    .error s!"{ty}: expected at least 4 bytes for number, got {bytes.length}"
  else .ok (leNat (bytes.take 4))

def schedulerMoleculeDecodeTable (bytes : Bytes) (expectedFields : Nat) (ty : String) :
    Except String (List Bytes) := do
  if bytes.length < 8 then throw s!"{ty}: table header is too short: {bytes.length}"
  let totalSize ← schedulerMoleculeUnpackNumber bytes ty
  if totalSize ≠ bytes.length then
    throw s!"{ty}: total size mismatch: header {totalSize}, actual {bytes.length}"
  let firstOffset ← schedulerMoleculeUnpackNumber (bytes.drop 4) ty
  if firstOffset % 4 ≠ 0 ∨ firstOffset < 8 ∨ firstOffset > bytes.length then
    throw s!"{ty}: invalid first field offset {firstOffset}"
  let fieldCount := firstOffset / 4 - 1
  if fieldCount ≠ expectedFields then
    throw s!"{ty}: expected {expectedFields} fields, got {fieldCount}"
  let starts ← (chunksExact 4 ((bytes.take firstOffset).drop 4)).mapM fun chunk =>
    schedulerMoleculeUnpackNumber chunk ty
  let offsets := starts ++ [totalSize]
  let windows := offsets.zip offsets.tail
  if windows.any fun pair => pair.1 > pair.2 then throw s!"{ty}: field offsets are not monotonic"
  if offsets.any fun offset => offset < firstOffset || offset > totalSize then
    throw s!"{ty}: field offset is outside table payload"
  return windows.map fun pair => (bytes.take pair.2).drop pair.1

def schedulerMoleculeDecodeFixvecByte32 (bytes : Bytes) (ty : String) : Except String (List Hash) :=
  do
  let count ← schedulerMoleculeUnpackNumber bytes ty
  let expected := 4 + count * 32
  if bytes.length ≠ expected then
    throw s!"{ty}: expected {expected} bytes for {count} hashes, got {bytes.length}"
  return (chunksExact 32 (bytes.drop 4)).map leNat

def schedulerMoleculeDecodeAccesses (bytes : Bytes) :
    Except String (List CellScriptSchedulerAccessWitness) := do
  let count ← schedulerMoleculeUnpackNumber bytes "CellScriptSchedulerAccessVec"
  let expected := 4 + count * CELLSCRIPT_SCHEDULER_ACCESS_MOLECULE_SIZE
  if bytes.length ≠ expected then
    throw (s!"CellScriptSchedulerAccessVec: expected {expected} bytes for {count} accesses, " ++
      s!"got {bytes.length}")
  return (chunksExact CELLSCRIPT_SCHEDULER_ACCESS_MOLECULE_SIZE (bytes.drop 4)).map fun chunk =>
    { operation := leNat (chunk.take 1)
      source := leNat ((chunk.drop 1).take 1)
      index := leNat ((chunk.drop 2).take 4)
      bindingHash := leNat (chunk.drop 6) }

-- The fixed-width fields: `u8`, `u16`, `u32` and `u64` differ in their width only.
def schedulerMoleculeDecodeUint (width : Nat) (unit : String) (bytes : Bytes) (ty : String) :
    Except String Nat :=
  if bytes.length ≠ width then .error s!"{ty}: expected {width} {unit}, got {bytes.length}"
  else .ok (leNat bytes)

def schedulerMoleculeDecodeU8 := schedulerMoleculeDecodeUint 1 "byte"
def schedulerMoleculeDecodeU16 := schedulerMoleculeDecodeUint 2 "bytes"
def schedulerMoleculeDecodeU32 := schedulerMoleculeDecodeUint 4 "bytes"
def schedulerMoleculeDecodeU64 := schedulerMoleculeDecodeUint 8 "bytes"

def schedulerMoleculeDecodeBool (bytes : Bytes) (ty : String) : Except String Bool := do
  match ← schedulerMoleculeDecodeU8 bytes ty with
  | 0 => return false
  | 1 => return true
  | other => throw s!"{ty}: expected boolean byte 0 or 1, got {other}"

def decodeCellscriptSchedulerWitnessMoleculeUnchecked (bytes : Bytes) :
    Except String CellScriptSchedulerWitness := do
  let fields ← schedulerMoleculeDecodeTable bytes CELLSCRIPT_SCHEDULER_WITNESS_MOLECULE_FIELDS
    "CellScriptSchedulerWitness"
  let field (i : Nat) : Bytes := fields[i]?.getD []
  return {
    magic := ← schedulerMoleculeDecodeU16 (field 0) "CellScriptSchedulerWitness.magic"
    version := ← schedulerMoleculeDecodeU8 (field 1) "CellScriptSchedulerWitness.version"
    effectClass := ← schedulerMoleculeDecodeU8 (field 2) "CellScriptSchedulerWitness.effect_class"
    parallelizable :=
      ← schedulerMoleculeDecodeBool (field 3) "CellScriptSchedulerWitness.parallelizable"
    touchesSharedCount :=
      ← schedulerMoleculeDecodeU32 (field 4) "CellScriptSchedulerWitness.touches_shared_count"
    touchesShared :=
      ← schedulerMoleculeDecodeFixvecByte32 (field 5) "CellScriptSchedulerWitness.touches_shared"
    estimatedCycles :=
      ← schedulerMoleculeDecodeU64 (field 6) "CellScriptSchedulerWitness.estimated_cycles"
    accessCount := ← schedulerMoleculeDecodeU32 (field 7) "CellScriptSchedulerWitness.access_count"
    accesses := ← schedulerMoleculeDecodeAccesses (field 8) }

def cellscriptSchedulerOperationAcceptsSource (operation source : Nat) : Bool :=
  if operation ∈ [CELLSCRIPT_SCHEDULER_OP_CONSUME, CELLSCRIPT_SCHEDULER_OP_DESTROY,
      CELLSCRIPT_SCHEDULER_OP_MUTATE_INPUT] then source == CELLSCRIPT_SCHEDULER_SOURCE_INPUT
  else if operation = CELLSCRIPT_SCHEDULER_OP_READ_REF then
    source == CELLSCRIPT_SCHEDULER_SOURCE_CELL_DEP
  else if operation ∈ [CELLSCRIPT_SCHEDULER_OP_CREATE, CELLSCRIPT_SCHEDULER_OP_MUTATE_OUTPUT] then
    source == CELLSCRIPT_SCHEDULER_SOURCE_OUTPUT
  else if operation ∈ [CELLSCRIPT_SCHEDULER_OP_TRANSFER, CELLSCRIPT_SCHEDULER_OP_CLAIM,
      CELLSCRIPT_SCHEDULER_OP_SETTLE] then
    source == CELLSCRIPT_SCHEDULER_SOURCE_INPUT || source == CELLSCRIPT_SCHEDULER_SOURCE_OUTPUT
  else false

def validateCellscriptSchedulerAccessEnvelope (access : CellScriptSchedulerAccessWitness) :
    Except CellScriptSchedulerWitnessError Unit := do
  if access.operation ∉ [CELLSCRIPT_SCHEDULER_OP_CONSUME, CELLSCRIPT_SCHEDULER_OP_TRANSFER,
      CELLSCRIPT_SCHEDULER_OP_DESTROY, CELLSCRIPT_SCHEDULER_OP_CLAIM,
      CELLSCRIPT_SCHEDULER_OP_SETTLE, CELLSCRIPT_SCHEDULER_OP_READ_REF,
      CELLSCRIPT_SCHEDULER_OP_CREATE, CELLSCRIPT_SCHEDULER_OP_MUTATE_INPUT,
      CELLSCRIPT_SCHEDULER_OP_MUTATE_OUTPUT] then throw (.invalidOperation access.operation)
  if access.source ∉ [CELLSCRIPT_SCHEDULER_SOURCE_INPUT, CELLSCRIPT_SCHEDULER_SOURCE_CELL_DEP,
      CELLSCRIPT_SCHEDULER_SOURCE_OUTPUT] then throw (.invalidSource access.source)
  if !cellscriptSchedulerOperationAcceptsSource access.operation access.source then
    throw (.unexpectedSourceForOperation access.operation access.source)

def validateCellscriptSchedulerWitnessEnvelope (witness : CellScriptSchedulerWitness) :
    Except CellScriptSchedulerWitnessError Unit := do
  if witness.effectClass ∉ [CELLSCRIPT_SCHEDULER_EFFECT_PURE,
      CELLSCRIPT_SCHEDULER_EFFECT_READ_ONLY, CELLSCRIPT_SCHEDULER_EFFECT_MUTATING,
      CELLSCRIPT_SCHEDULER_EFFECT_CREATING, CELLSCRIPT_SCHEDULER_EFFECT_DESTROYING] then
    throw (.invalidEffectClass witness.effectClass)
  witness.accesses.forM validateCellscriptSchedulerAccessEnvelope

def validateCellscriptSchedulerWitnessCounts (witness : CellScriptSchedulerWitness) :
    Except CellScriptSchedulerWitnessError Unit := do
  if witness.touchesSharedCount ≠ witness.touchesShared.length then
    throw (.countMismatch "touches_shared" witness.touchesSharedCount witness.touchesShared.length)
  if witness.accessCount ≠ witness.accesses.length then
    throw (.countMismatch "accesses" witness.accessCount witness.accesses.length)

def validateCellscriptSchedulerWitnessHeaderAndBody (witness : CellScriptSchedulerWitness) :
    Except CellScriptSchedulerWitnessError CellScriptSchedulerWitness := do
  if witness.magic ≠ 0xCE11 then throw (.invalidMagic witness.magic)
  if witness.version ≠ CELLSCRIPT_SCHEDULER_WITNESS_VERSION then
    throw (.unsupportedVersion witness.version)
  validateCellscriptSchedulerWitnessCounts witness
  validateCellscriptSchedulerWitnessEnvelope witness
  return witness

def decodeCellscriptSchedulerWitness (bytes : Bytes) :
    Except CellScriptSchedulerWitnessError CellScriptSchedulerWitness := do
  let witness ← (decodeCellscriptSchedulerWitnessMoleculeUnchecked bytes).mapError .decode
  validateCellscriptSchedulerWitnessHeaderAndBody witness

def validateCellscriptSchedulerWitnessAgainstTransaction (tx : CellTx)
    (witness : CellScriptSchedulerWitness) : Except CellScriptSchedulerWitnessError Unit := do
  validateCellscriptSchedulerWitnessEnvelope witness
  witness.accesses.forM fun access => do
    let available ←
      if access.source = CELLSCRIPT_SCHEDULER_SOURCE_INPUT then pure tx.inputs.length
      else if access.source = CELLSCRIPT_SCHEDULER_SOURCE_CELL_DEP then pure tx.cellDeps.length
      else if access.source = CELLSCRIPT_SCHEDULER_SOURCE_OUTPUT then pure tx.outputs.length
      else throw (.invalidSource access.source)
    if access.index ≥ available then
      throw (.sourceIndexOutOfBounds access.source access.index available)

def decodeCellscriptSchedulerWitnessForTx (tx : CellTx) (bytes : Bytes) :
    Except CellScriptSchedulerWitnessError CellScriptSchedulerWitness := do
  let witness ← decodeCellscriptSchedulerWitness bytes
  validateCellscriptSchedulerWitnessAgainstTransaction tx witness
  return witness

def CellScriptSchedulerAccessWitness.le (a b : CellScriptSchedulerAccessWitness) : Bool :=
  if a.operation ≠ b.operation then a.operation < b.operation
  else if a.source ≠ b.source then a.source < b.source
  else if a.index ≠ b.index then a.index < b.index
  else a.bindingHash ≤ b.bindingHash

-- Accesses are compared with their multiplicities; the first key that differs is reported.
def validateCellscriptSchedulerWitnessAccessSet (witness : CellScriptSchedulerWitness)
    (expectedAccesses : List CellScriptSchedulerAccessWitness) :
    Except CellScriptSchedulerWitnessError Unit := do
  validateCellscriptSchedulerWitnessCounts witness
  validateCellscriptSchedulerWitnessEnvelope witness
  expectedAccesses.forM validateCellscriptSchedulerAccessEnvelope
  let keys (accesses : List CellScriptSchedulerAccessWitness) :=
    accesses.dedup.mergeSort CellScriptSchedulerAccessWitness.le
  (keys expectedAccesses ++ keys witness.accesses).forM fun key =>
    let expectedCount := expectedAccesses.count key
    let actualCount := witness.accesses.count key
    ensure (expectedCount = actualCount) (.accessSetMismatch key.operation key.source key.index
      key.bindingHash expectedCount actualCount)

def validateCellscriptSchedulerWitnessSummary (witness expected : CellScriptSchedulerWitness) :
    Except CellScriptSchedulerWitnessError Unit := do
  validateCellscriptSchedulerWitnessCounts witness
  validateCellscriptSchedulerWitnessCounts expected
  validateCellscriptSchedulerWitnessEnvelope witness
  validateCellscriptSchedulerWitnessEnvelope expected
  ensure (witness.magic = expected.magic) (.trustedSummaryMismatch "magic")
  ensure (witness.version = expected.version) (.trustedSummaryMismatch "version")
  ensure (witness.effectClass = expected.effectClass) (.trustedSummaryMismatch "effect_class")
  ensure (witness.parallelizable = expected.parallelizable)
    (.trustedSummaryMismatch "parallelizable")
  ensure (witness.estimatedCycles = expected.estimatedCycles)
    (.trustedSummaryMismatch "estimated_cycles")
  ensure (witness.touchesShared.isPerm expected.touchesShared)
    (.trustedSummaryMismatch "touches_shared")
  validateCellscriptSchedulerWitnessAccessSet witness expected.accesses

def hasLegacyBorshSchedulerWitnessMarker (witness : Bytes) : Bool :=
  witness.length ≥ 3 && witness.take 2 == CELLSCRIPT_SCHEDULER_WITNESS_MAGIC &&
    leNat ((witness.drop 2).take 1) == CELLSCRIPT_SCHEDULER_WITNESS_VERSION

def isCellscriptSchedulerWitnessCandidateBytes (witness : Bytes) : Bool :=
  hasLegacyBorshSchedulerWitnessMarker witness ||
    match decodeCellscriptSchedulerWitnessMoleculeUnchecked witness with
    | .ok decoded =>
      decoded.magic == 0xCE11 && decoded.version == CELLSCRIPT_SCHEDULER_WITNESS_VERSION
    | .error _ => false

def CellTx.cellscriptSchedulerWitnesses (tx : CellTx) : List Bytes :=
  tx.witnesses.filter isCellscriptSchedulerWitnessCandidateBytes

end Spora
