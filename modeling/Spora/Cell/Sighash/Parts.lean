import Spora.Cell.Sighash.Theorems

namespace Spora

-- What the signature hash of an input covers of a transaction. `none` stands for a part that the
-- type of the signature leaves open, and for an output that is not there.
structure SignedParts where
  version : Nat
  previousOutputs : Option (List OutPoint)
  sinces : Option (List Nat)
  sigOpCounts : Option Nat
  previousOutput : OutPoint
  signingInput : StandardSigningInput
  since : Nat
  outputs : Option (List (CellOutput × Bytes))
  payload : Option Bytes
  hashType : SigHashType
deriving DecidableEq, Repr

namespace SigHashType

variable (hashType : SigHashType)

def coversSinces : Bool :=
  !(hashType.isSighashSingle || hashType.isSighashAnyoneCanPay || hashType.isSighashNone)

theorem anyoneCanPay_of_coversSinces {hashType : SigHashType} (h : hashType.coversSinces = true) :
    hashType.isSighashAnyoneCanPay = false := by
  simp only [coversSinces, Bool.not_eq_true', Bool.or_eq_false_iff] at h
  exact h.1.2

-- The outputs among `outputs` that a signature of the input at `inputIndex` covers.
def coveredOutputs {α : Type} (inputIndex : Nat) (outputs : List α) : Option (List α) :=
  if hashType.isSighashNone then none
  else if hashType.isSighashSingle then outputs[inputIndex]?.map fun output => [output]
  else some outputs

end SigHashType

def signedParts (tx : CellTx) (hashType : SigHashType) (inputIndex : Nat)
    (signingInput : StandardSigningInput) :
    Option SignedParts := do
  let input ← tx.inputs[inputIndex]?
  return {
    version := tx.version
    previousOutputs := if hashType.isSighashAnyoneCanPay then none else some tx.spends
    sinces := if hashType.coversSinces then some (tx.inputs.map CellInput.since) else none
    sigOpCounts := if hashType.isSighashAnyoneCanPay then none else some tx.inputs.length
    previousOutput := input.previousOutput
    signingInput := signingInput
    since := input.since
    outputs := hashType.coveredOutputs inputIndex tx.signedOutputs
    payload := if !tx.isCoinbase && (tx.payload.getD []).isEmpty then
      none else some (tx.payload.getD [])
    hashType := hashType }

section Preimage

variable {D : Type} (signingHash : Bytes → D) (zeroHash : D)

def SignedParts.preimage (parts : SignedParts) : List (Token D) :=
  let digest (o : Option Bytes) : Token D := .digest (o.elim zeroHash signingHash)
  (leBytes 4 parts.version).map .byte ++
      [digest (parts.previousOutputs.map (List.flatMap OutPoint.encode)),
      digest (parts.sinces.map (List.flatMap (leBytes 8))),
      digest (parts.sigOpCounts.map fun count => List.replicate count 1)] ++
    (parts.previousOutput.encode ++ hashStandardSigningInput parts.signingInput ++
      leBytes 8 parts.signingInput.capacity ++ leBytes 8 parts.since ++ [1]).map .byte ++
    [digest (parts.outputs.map (List.flatMap hashCellOutput))] ++
    (leBytes 8 0).map .byte ++ [digest (parts.payload.map writeVarBytes)] ++
    [.byte parts.hashType.toU8]

variable {signingHash zeroHash} {tx : CellTx} {ht : SigHashType} {idx : Nat}

theorem CellTx.getElem?_signedOutputs (tx : CellTx) (i : Nat) :
    tx.signedOutputs[i]? = tx.outputs[i]?.map fun out => (out, tx.outputData i) := by
  unfold signedOutputs
  rw [List.getElem?_map, List.getElem?_zipIdx, Option.map_map, Nat.zero_add]
  rfl

theorem standardOutputsHash_eq : standardOutputsHash signingHash zeroHash tx ht idx =
    ((ht.coveredOutputs idx tx.signedOutputs).map (List.flatMap hashCellOutput)).elim zeroHash
    signingHash := by
  unfold standardOutputsHash SigHashType.coveredOutputs
  split_ifs with hn hs
  · rfl
  · rw [tx.getElem?_signedOutputs]
    cases tx.outputs[idx]? <;> simp
  · rfl

theorem standardSignaturePreimage_eq (signingInput) :
    standardSignaturePreimage signingHash zeroHash tx ht idx signingInput =
    (signedParts tx ht idx signingInput).map (SignedParts.preimage signingHash zeroHash) := by
  have hpr : standardPreviousOutputsHash signingHash zeroHash tx ht =
      ((if ht.isSighashAnyoneCanPay then none else some tx.spends).map
        (List.flatMap OutPoint.encode)).elim zeroHash signingHash := by
    unfold standardPreviousOutputsHash CellTx.spends
    split_ifs with hacp
    · rfl
    · simp [List.flatMap_map]
  have hs : standardSequencesHash signingHash zeroHash tx ht =
      ((if ht.coversSinces then some (tx.inputs.map CellInput.since) else none).map
        (List.flatMap (leBytes 8))).elim zeroHash signingHash := by
    unfold standardSequencesHash SigHashType.coversSinces
    cases ht.isSighashSingle || ht.isSighashAnyoneCanPay || ht.isSighashNone
    · simp [List.flatMap_map]
    · simp
  have hc : standardSigOpCountsHash signingHash zeroHash tx ht =
      ((if ht.isSighashAnyoneCanPay then none else some tx.inputs.length).map
        fun count => List.replicate count 1).elim zeroHash signingHash := by
    unfold standardSigOpCountsHash
    split_ifs with hacp
    · rfl
    · simp
  have hp : standardPayloadHash signingHash zeroHash tx =
      ((if !tx.isCoinbase && (tx.payload.getD []).isEmpty then none
        else some (tx.payload.getD [])).map writeVarBytes).elim zeroHash signingHash := by
    unfold standardPayloadHash
    dsimp only
    split_ifs with hp
    · rfl
    · rfl
  unfold standardSignaturePreimage signedParts
  cases hin : tx.inputs[idx]? with
  | none => rfl
  | some input =>
    rw [hpr, hs, hc, hp, standardOutputsHash_eq]
    rfl

end Preimage

end Spora
