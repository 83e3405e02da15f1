import Mathlib.Algebra.Ring.Nat
import Mathlib.Data.List.Basic
import Mathlib.Data.Nat.Pairing

namespace Spora

open Std

-- 32-byte digests. Only equality and the order of the keys matter here, so they are numbers.
abbrev Hash := Nat

abbrev Bytes := List UInt8

-- u64 bounds: capacities, scores and cycles are numbers with explicit overflow checks.
def U64_MAX : Nat := 2 ^ 64 - 1

def SAU_PER_SPORA : Nat := 100000000

def MAX_SAU : Nat := 29000000000 * SAU_PER_SPORA

def CELL_TX_VERSION : Nat := 0xC001

def checkedAdd (a b : Nat) : Option Nat := if a + b ≤ U64_MAX then some (a + b) else none

theorem checkedAdd_eq_some_iff {a b c} : checkedAdd a b = some c ↔ c = a + b ∧ c ≤ U64_MAX := by
  unfold checkedAdd
  split_ifs with h
  · rw [Option.some.injEq]
    constructor
    · rintro rfl
      exact ⟨rfl, h⟩
    · exact fun hc => hc.1.symm
  · simp only [false_iff, not_and]
    rintro rfl
    exact h

def saturatingAdd (a b : Nat) : Nat := min (a + b) U64_MAX

def leNat (bytes : Bytes) : Nat := bytes.foldr (fun b acc => b.toNat + 256 * acc) 0

def leBytes : Nat → Nat → Bytes
  | 0, _ => []
  | width + 1, n => UInt8.ofNat (n % 256) :: leBytes width (n / 256)

-- Identifies a cell: the transaction that creates it and the position of the output.
structure OutPoint where
  txHash : Hash
  index : Nat
deriving DecidableEq, Repr, Inhabited

instance : ToString OutPoint := ⟨fun o => s!"{o.txHash}:{o.index}"⟩

-- The derived ordering of the source: transaction hash first, then index.
instance : Ord OutPoint := ⟨compareLex (compareOn OutPoint.txHash) (compareOn OutPoint.index)⟩

instance : TransOrd OutPoint :=
  inferInstanceAs (TransCmp (compareLex (compareOn OutPoint.txHash) (compareOn OutPoint.index)))

instance : LawfulEqOrd OutPoint where
  eq_of_compare := by
    intro a b hab
    obtain ⟨htx, hix⟩ : compare a.txHash b.txHash = .eq ∧ compare a.index b.index = .eq :=
      compareLex_eq_eq.mp hab
    cases a
    cases b
    simp_all

structure Script where
  codeHash : Hash
  hashType : Nat
  args : Bytes
deriving DecidableEq, Repr, Inhabited

structure CellOutput where
  lock : Script
  type_ : Option Script
  capacity : Nat
deriving DecidableEq, Repr

structure CellInput where
  previousOutput : OutPoint
  since : Nat
deriving DecidableEq, Repr

inductive DepType
  | code
  | depGroup
deriving DecidableEq, Repr

structure CellDep where
  outPoint : OutPoint
  depType : DepType
deriving DecidableEq, Repr

structure CellTx where
  version : Nat
  inputs : List CellInput
  cellDeps : List CellDep
  headerDeps : List Hash
  outputs : List CellOutput
  outputsData : List Bytes
  witnesses : List Bytes
deriving DecidableEq, Repr

namespace CellTx

def isCoinbase (tx : CellTx) : Bool := tx.inputs.isEmpty

def outputData (tx : CellTx) (index : Nat) : Bytes := tx.outputsData[index]?.getD []

def outputCapacity (tx : CellTx) : Nat := (tx.outputs.map CellOutput.capacity).sum

def payload (tx : CellTx) : Option Bytes :=
  if !tx.isCoinbase then none
  else match tx.outputsData with
    | first :: _ => some first
    | [] => tx.witnesses.head?

end CellTx

-- The digests the node computes. All that is assumed of them is that two outpoints never share a
-- key of the cell tree.
structure Hasher where
  txid : CellTx → Hash
  scriptHash : Script → Hash
  cellDataHash : Bytes → Hash
  outpointHash : OutPoint → Hash
  outpointHash_injective : Function.Injective outpointHash

namespace CellTx

def spends (tx : CellTx) : List OutPoint := tx.inputs.map CellInput.previousOutput

def deps (tx : CellTx) : List OutPoint := tx.cellDeps.map CellDep.outPoint

def creates (hasher : Hasher) (tx : CellTx) : List OutPoint :=
  (List.range tx.outputs.length).map fun index => ⟨hasher.txid tx, index⟩

end CellTx

namespace Hasher

def digest (words : List Nat) : Hash :=
  words.foldl (fun acc word => (acc * 1000003 + word + 1) % 2305843009213693951) 7

def scriptWords (script : Script) : List Nat :=
  [script.codeHash, script.hashType] ++ script.args.map UInt8.toNat

def txWords (tx : CellTx) : List Nat :=
  tx.inputs.flatMap (fun i => [i.previousOutput.txHash, i.previousOutput.index, i.since]) ++
  tx.cellDeps.flatMap (fun d => [d.outPoint.txHash, d.outPoint.index]) ++ tx.headerDeps ++
  tx.outputs.flatMap (fun o => o.capacity :: scriptWords o.lock) ++
  tx.outputsData.flatMap (fun data => data.length :: data.map UInt8.toNat)

def sample : Hasher where
  txid tx := digest (tx.version :: txWords tx)
  scriptHash script := digest (scriptWords script)
  cellDataHash data := digest (data.map UInt8.toNat)
  outpointHash o := Nat.pair o.txHash o.index
  outpointHash_injective := by
    intro a b hab
    obtain ⟨htx, hix⟩ := Nat.pair_eq_pair.mp hab
    cases a
    cases b
    simp_all

end Hasher

def Hasher.computeDataHash (hasher : Hasher) (data : Bytes) : Hash :=
  if data.isEmpty then 0 else hasher.cellDataHash data

structure CellMeta where
  outPoint : OutPoint
  capacity : Nat
  dataBytes : Nat
  lockHash : Hash
  typeHash : Option Hash
  dataHash : Hash
  blockDaaScore : Nat
  isCellbase : Bool
  lockScript : Option Script
  typeScript : Option Script
  data : Option Bytes
deriving DecidableEq, Repr

-- What the live cell tree stores about a cell: the same without the outpoint, its key.
structure CellEntry where
  capacity : Nat
  dataBytes : Nat
  lockHash : Hash
  typeHash : Option Hash
  dataHash : Hash
  blockDaaScore : Nat
  isCellbase : Bool
  lockScript : Option Script
  typeScript : Option Script
  data : Option Bytes
deriving DecidableEq, Repr

-- What validation sees of a cell: a `CellMeta` and the block that holds it.
structure CellMetadata where
  outPoint : OutPoint
  capacity : Nat
  dataBytes : Nat
  lockHash : Hash
  typeHash : Option Hash
  dataHash : Hash
  blockDaaScore : Nat
  isCellbase : Bool
  blockHash : Hash
  lockCodeHash : Option Hash
  typeCodeHash : Option Hash
  lockScript : Option Script
  typeScript : Option Script
  data : Option Bytes
deriving DecidableEq, Repr

def cellMetaToEntry (m : CellMeta) : CellEntry where
  capacity := m.capacity
  dataBytes := m.dataBytes
  lockHash := m.lockHash
  typeHash := m.typeHash
  dataHash := m.dataHash
  blockDaaScore := m.blockDaaScore
  isCellbase := m.isCellbase
  lockScript := m.lockScript
  typeScript := m.typeScript
  data := m.data

def cellEntryToMeta (outPoint : OutPoint) (entry : CellEntry) : CellMeta where
  outPoint := outPoint
  capacity := entry.capacity
  dataBytes := entry.dataBytes
  lockHash := entry.lockHash
  typeHash := entry.typeHash
  dataHash := entry.dataHash
  blockDaaScore := entry.blockDaaScore
  isCellbase := entry.isCellbase
  lockScript := entry.lockScript
  typeScript := entry.typeScript
  data := entry.data

def CellMetadata.toCellMeta (m : CellMetadata) : CellMeta where
  outPoint := m.outPoint
  capacity := m.capacity
  dataBytes := m.dataBytes
  lockHash := m.lockHash
  typeHash := m.typeHash
  dataHash := m.dataHash
  blockDaaScore := m.blockDaaScore
  isCellbase := m.isCellbase
  lockScript := m.lockScript
  typeScript := m.typeScript
  data := m.data

def CellMetadata.ofCellMeta (m : CellMeta) : CellMetadata where
  outPoint := m.outPoint
  capacity := m.capacity
  dataBytes := m.dataBytes
  lockHash := m.lockHash
  typeHash := m.typeHash
  dataHash := m.dataHash
  blockDaaScore := m.blockDaaScore
  isCellbase := m.isCellbase
  blockHash := 0
  lockCodeHash := m.lockScript.map Script.codeHash
  typeCodeHash := m.typeScript.map Script.codeHash
  lockScript := m.lockScript
  typeScript := m.typeScript
  data := m.data

end Spora
