import Spora.Cell.Types
import Spora.Lib.Outcome

namespace Spora

open Std

inductive ScriptError
  | itemMissing (message : String)
  | invalidData (message : String)
  | cyclesExceeded (limit actual : Nat)
  | executionError (message : String)
  | syscallError (message : String)
  | scriptTooLarge (size limit : Nat)
  | paused
  | nonZeroExitCode (code : Int)
  | other (message : String)
deriving DecidableEq, Repr

instance : ToString ScriptError where
  toString
    | .itemMissing message => s!"VM error: Item missing: {message}"
    | .invalidData message => s!"VM error: Invalid data: {message}"
    | .cyclesExceeded limit actual => s!"VM error: Cycles exceeded: limit={limit}, actual={actual}"
    | .executionError message => s!"VM error: VM execution error: {message}"
    | .syscallError message => s!"VM error: Syscall error: {message}"
    | .scriptTooLarge size limit => s!"VM error: Script too large: size={size}, limit={limit}"
    | .paused => "VM error: VM execution paused"
    | .nonZeroExitCode code => s!"VM error: Script exited with code {code}"
    | .other message => message

inductive ScriptGroupType
  | lock
  | type_
deriving DecidableEq, Repr

structure ScriptGroup where
  script : Script
  groupType : ScriptGroupType
  inputIndices : List Nat
  outputIndices : List Nat
deriving DecidableEq, Repr

structure ResolvedCell where
  cellOutput : CellOutput
  data : Option Bytes
deriving DecidableEq, Repr

inductive VmSemantics
  | sporaExtended
  | ckbStrict
deriving DecidableEq, Repr

-- The script hashes of the two semantics. The CKB one serialises the script first and may fail.
structure ScriptHasher where
  sporaHash : Script → Hash
  ckbHash : Script → Except String Hash

def scriptHashForSemantics (scriptHasher : ScriptHasher) (script : Script) :
    VmSemantics → Except ScriptError Hash
  | .sporaExtended => .ok (scriptHasher.sporaHash script)
  | .ckbStrict => (scriptHasher.ckbHash script).mapError fun err =>
    .invalidData s!"failed to hash CKB Molecule Script: {err}"

-- What grouping reads of the verifier: the transaction, the resolved cells and the skip settings.
structure TransactionScriptVerifier where
  tx : CellTx
  loadCellByOutpoint : OutPoint → Option ResolvedCell
  scriptHasher : ScriptHasher
  skipLockGroups : Bool
  skipLockScriptHashes : List Hash
  semantics : VmSemantics

abbrev GroupMap := ExtTreeMap Hash ScriptGroup

namespace GroupMap

def intoValues (groups : GroupMap) : List ScriptGroup := groups.toList.map Prod.snd

-- `entry(hash).or_insert_with(..)` followed by an update of the group.
def updateEntry (groups : GroupMap) (groupType : ScriptGroupType) (hash : Hash) (script : Script)
    (update : ScriptGroup → ScriptGroup) : GroupMap :=
  groups.insert hash (update (groups[hash]?.getD ⟨script, groupType, [], []⟩))

def pushInput (groups : GroupMap) (groupType : ScriptGroupType) (hash : Hash) (script : Script)
    (i : Nat) : GroupMap :=
  groups.updateEntry groupType hash script fun group =>
    { group with inputIndices := group.inputIndices ++ [i] }

def pushOutput (groups : GroupMap) (groupType : ScriptGroupType) (hash : Hash) (script : Script)
    (i : Nat) : GroupMap :=
  groups.updateEntry groupType hash script fun group =>
    { group with outputIndices := group.outputIndices ++ [i] }

end GroupMap

namespace TransactionScriptVerifier

variable (self : TransactionScriptVerifier)

def hashOf (script : Script) : Except ScriptError Hash :=
  scriptHashForSemantics self.scriptHasher script self.semantics

def resolveInput (input : CellInput) : Except ScriptError ResolvedCell :=
  match self.loadCellByOutpoint input.previousOutput with
  | some resolved => .ok resolved
  | none => .error (.itemMissing s!"missing resolved input cell {input.previousOutput}")

def groupInputType (typeGroups : GroupMap) (resolved : ResolvedCell) (i : Nat) :
    Except ScriptError GroupMap :=
  match resolved.cellOutput.type_ with
  | none => .ok typeGroups
  | some typeScript => do
    let typeHash ← self.hashOf typeScript
    return typeGroups.pushInput .type_ typeHash typeScript i

-- One turn of the loop over the inputs. A skipped lock `continue`s past the type script.
def groupInput (groups : GroupMap × GroupMap) (entry : CellInput × Nat) :
    Except ScriptError (GroupMap × GroupMap) := do
  let (lockGroups, typeGroups) := groups
  let (input, i) := entry
  let resolved ← self.resolveInput input
  if self.skipLockGroups then
    return (lockGroups, ← self.groupInputType typeGroups resolved i)
  else
    let lockHash ← self.hashOf resolved.cellOutput.lock
    if lockHash ∈ self.skipLockScriptHashes then return (lockGroups, typeGroups)
    else
      let lockGroups := lockGroups.pushInput .lock lockHash resolved.cellOutput.lock i
      return (lockGroups, ← self.groupInputType typeGroups resolved i)

def groupOutput (typeGroups : GroupMap) (entry : CellOutput × Nat) : Except ScriptError GroupMap :=
  match entry.1.type_ with
  | none => .ok typeGroups
  | some typeScript => do
    let typeHash ← self.hashOf typeScript
    return typeGroups.pushOutput .type_ typeHash typeScript entry.2

def extractScriptGroups : Except ScriptError (List ScriptGroup) := do
  let (lockGroups, typeGroups) ← self.tx.inputs.zipIdx.foldlM self.groupInput (∅, ∅)
  let typeGroups ← self.tx.outputs.zipIdx.foldlM self.groupOutput typeGroups
  return lockGroups.intoValues ++ typeGroups.intoValues

-- The cycles of all groups. `verifyScriptGroup` runs one group in the virtual machine; the first
-- failing group in the order of the list decides the error.
def verifyWithCycles (verifyScriptGroup : ScriptGroup → Except ScriptError Nat) :
    Except ScriptError Nat := do
  let scriptGroups ← self.extractScriptGroups
  scriptGroups.foldlM (fun total group => do
    let cycles ← verifyScriptGroup group
    return saturatingAdd total cycles) 0

end TransactionScriptVerifier

end Spora
