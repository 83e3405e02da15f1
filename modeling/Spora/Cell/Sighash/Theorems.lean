import Spora.Cell.Sighash
import Spora.Cell.Words

namespace Spora

open Framing List CellInput

-- The ranges of the source's types, with every length below a number of that many bytes: eight for
-- a length in memory, four for the counts of the transaction ids.
def OutPoint.Typed (o : OutPoint) : Prop := Fits 32 o.txHash ∧ Fits 4 o.index

def CellInput.Typed (input : CellInput) : Prop := input.previousOutput.Typed ∧ Fits 8 input.since

def CellDep.Typed (dep : CellDep) : Prop := dep.outPoint.Typed

def Script.Typed (width : Nat) (script : Script) : Prop :=
  Fits 32 script.codeHash ∧ Fits 1 script.hashType ∧ Fits width script.args.length

def CellOutput.Typed (width : Nat) (output : CellOutput) : Prop :=
  output.lock.Typed width ∧ (∀ type_ ∈ output.type_, type_.Typed width) ∧ Fits 8 output.capacity

structure CellTx.Typed (width : Nat) (tx : CellTx) : Prop where
  version : Fits 4 tx.version
  inputs : Fits width tx.inputs.length ∧ ∀ input ∈ tx.inputs, input.Typed
  cellDeps : Fits width tx.cellDeps.length ∧ ∀ dep ∈ tx.cellDeps, dep.Typed
  headerDeps : Fits width tx.headerDeps.length ∧ ∀ hash ∈ tx.headerDeps, Fits 32 hash
  outputs : Fits width tx.outputs.length ∧ ∀ output ∈ tx.outputs, output.Typed width
  outputsData : ∀ data ∈ tx.outputsData, Fits width data.length

structure StandardSigningInput.Typed (input : StandardSigningInput) : Prop where
  lockHash : Fits 32 input.lockHash
  typeHash : ∀ hash ∈ input.typeHash, Fits 32 hash
  dataHash : Fits 32 input.dataHash
  dataBytes : Fits 8 input.dataBytes
  capacity : Fits 8 input.capacity

section Encodings

theorem framed_outPoint : Framed OutPoint.Typed OutPoint.encode := by
  intro a b x y ha hb hab
  obtain ⟨hh, hab⟩ := framed_leBytes 32 ha.1 hb.1 hab
  obtain ⟨hin, hr⟩ := framed_leBytes 4 ha.2 hb.2 hab
  cases a
  exact ⟨by simp_all, hr⟩

theorem framed_cellInput : Framed Typed encode := by
  intro a b x y ha hb hab
  obtain ⟨ho, hab⟩ := framed_outPoint ha.1 hb.1 hab
  obtain ⟨hs, hr⟩ := framed_leBytes 8 ha.2 hb.2 hab
  cases a
  exact ⟨by simp_all, hr⟩

theorem framed_cellDep : Framed CellDep.Typed CellDep.encode := by
  intro a b x y ha hb hab
  obtain ⟨ho, hab⟩ := framed_outPoint ha hb hab
  obtain ⟨oa, ta⟩ := a
  obtain ⟨ob, tb⟩ := b
  cases ta <;> cases tb <;> simp_all [DepType.toByte]

theorem framed_option {α : Type} {valid} {encode : α → Bytes} (h : Framed valid encode) :
    Framed (fun o : Option α => ∀ a ∈ o, valid a) fun o => o.elim [0] fun a => 1 :: encode a := by
  intro a b x y ha hb hab
  cases a with
  | none =>
    cases b with
    | none => exact ⟨rfl, (List.cons.inj hab).2⟩
    | some b => exact absurd (List.cons.inj hab).1 (by decide)
  | some a =>
    cases b with
    | none => exact absurd (List.cons.inj hab).1 (by decide)
    | some b =>
      obtain ⟨rfl, hr⟩ := h (ha a rfl) (hb b rfl) (List.cons.inj hab).2
      exact ⟨rfl, hr⟩

theorem framed_scriptFields (width : Nat) : Framed (Script.Typed width) fun script =>
    leBytes 32 script.codeHash ++ leBytes 1 script.hashType ++
    (leBytes width script.args.length ++ script.args) := by
  intro a b x y ha hb hab
  simp only [append_assoc] at hab
  obtain ⟨hc, hab⟩ := framed_leBytes 32 ha.1 hb.1 hab
  obtain ⟨ht, hab⟩ := framed_leBytes 1 ha.2.1 hb.2.1 hab
  obtain ⟨har, hr⟩ := framed_varBytes width ha.2.2 hb.2.2 (by simpa [append_assoc] using hab)
  cases a
  exact ⟨by simp_all, hr⟩

theorem framed_script : Framed (Script.Typed 4) Script.encode := framed_scriptFields 4

theorem framed_hashScript : Framed (Script.Typed 8) hashScript := framed_scriptFields 8

theorem framed_cellOutput : Framed (CellOutput.Typed 4) CellOutput.encode := by
  intro a b x y ha hb hab
  unfold CellOutput.encode at hab
  simp only [append_assoc] at hab
  obtain ⟨hl, hab⟩ := framed_script ha.1 hb.1 hab
  obtain ⟨ht, hab⟩ := framed_option framed_script ha.2.1 hb.2.1 hab
  obtain ⟨hc, hr⟩ := framed_leBytes 8 ha.2.2 hb.2.2 hab
  cases a
  exact ⟨by simp_all, hr⟩

theorem framed_hashCellOutput :
    Framed (fun entry : CellOutput × Bytes => entry.1.Typed 8 ∧
      Fits 8 entry.2.length) hashCellOutput := by
  intro a b x y ha hb hab
  unfold hashCellOutput writeVarBytes at hab
  simp only [append_assoc] at hab
  obtain ⟨hc, hab⟩ := framed_leBytes 8 ha.1.2.2 hb.1.2.2 hab
  obtain ⟨hl, hab⟩ := framed_hashScript ha.1.1 hb.1.1 hab
  obtain ⟨ht, hab⟩ := framed_option framed_hashScript ha.1.2.1 hb.1.2.1 hab
  obtain ⟨hd, hr⟩ := framed_varBytes 8 ha.2 hb.2 (by simpa [append_assoc] using hab)
  obtain ⟨⟨_, _, _⟩, _⟩ := a
  exact ⟨by simp_all, hr⟩

theorem framed_signingInput :
    Framed StandardSigningInput.Typed fun input =>
    hashStandardSigningInput input ++ leBytes 8 input.capacity := by
  intro a b x y ha hb hab
  unfold hashStandardSigningInput at hab
  simp only [append_assoc] at hab
  obtain ⟨hl, hab⟩ := framed_leBytes 32 ha.lockHash hb.lockHash hab
  obtain ⟨ht, hab⟩ := framed_option (framed_leBytes 32) ha.typeHash hb.typeHash hab
  obtain ⟨hd, hab⟩ := framed_leBytes 32 ha.dataHash hb.dataHash hab
  obtain ⟨hby, hab⟩ := framed_leBytes 8 ha.dataBytes hb.dataBytes hab
  obtain ⟨hc, hr⟩ := framed_leBytes 8 ha.capacity hb.capacity hab
  cases a
  exact ⟨by simp_all, hr⟩

end Encodings

theorem eq_of_map_eq {α β γ : Type} {f : α → β} {g : α → γ}
    (hfg : ∀ a b, f a = f b → g a = g b → a = b) {l m : List α} (hf : l.map f = m.map f)
    (hg : l.map g = m.map g) : l = m := by
  induction l generalizing m with
  | nil => exact (map_eq_nil_iff.mp hf.symm).symm
  | cons a l ih =>
    cases m with
    | nil => simp at hf
    | cons b m =>
      obtain ⟨hfab, hflm⟩ := List.cons.inj hf
      obtain ⟨hgab, hglm⟩ := List.cons.inj hg
      rw [hfg a b hfab hgab, ih hflm hglm]

-- Nothing is left out of the signature hash.
def SigHashType.SignsAll (hashType : SigHashType) : Prop :=
  hashType.isSighashNone = false ∧ hashType.isSighashSingle = false ∧
    hashType.isSighashAnyoneCanPay = false

section Signed

variable {D : Type} {signingHash : Bytes → D} {zeroHash : D} {tx tx' : CellTx}
  {hashType hashType' : SigHashType}
  {inputIndex inputIndex' : Nat} {signingInput signingInput' : StandardSigningInput}

theorem token_byte_injective : Function.Injective (Token.byte : UInt8 → Token D) :=
  fun _ _ h => Token.byte.inj h

def CellTx.signedOutputs (tx : CellTx) : List (CellOutput × Bytes) :=
  tx.outputs.zipIdx.map fun (output, i) => (output, tx.outputData i)

theorem CellTx.map_fst_signedOutputs (tx : CellTx) :
    tx.signedOutputs.map Prod.fst = tx.outputs := by
  unfold signedOutputs
  rw [map_map]
  exact zipIdx_map_fst 0 tx.outputs

theorem CellTx.Typed.signedOutputs (ht : tx.Typed 8) :
    ∀ entry ∈ tx.signedOutputs, entry.1.Typed 8 ∧ Fits 8 entry.2.length := by
  intro entry he
  obtain ⟨⟨output, i⟩, hmem, rfl⟩ := mem_map.mp he
  refine ⟨ht.outputs.2 output (fst_mem_of_mem_zipIdx hmem), ?_⟩
  dsimp only
  unfold outputData
  cases hd : tx.outputsData[i]? with
  | none => simp [Fits]
  | some data => exact ht.outputsData data (mem_of_getElem? hd)

section

variable (hs : signingInput.Typed) (hs' : signingInput'.Typed) (ht : tx.Typed 8)
  (ht' : tx'.Typed 8) {preimage : List (Token D)}
  (h : standardSignaturePreimage signingHash zeroHash tx hashType inputIndex signingInput =
    some preimage)
  (h' : standardSignaturePreimage signingHash zeroHash tx' hashType' inputIndex' signingInput' =
    some preimage)
include hs hs' ht ht' h h'

theorem digests_of_preimage_eq :
    tx.version = tx'.version ∧ standardPreviousOutputsHash signingHash zeroHash tx hashType =
    standardPreviousOutputsHash signingHash zeroHash tx' hashType' ∧
    standardSequencesHash signingHash zeroHash tx hashType =
    standardSequencesHash signingHash zeroHash tx' hashType' ∧
    standardOutputsHash signingHash zeroHash tx hashType inputIndex =
    standardOutputsHash signingHash zeroHash tx' hashType' inputIndex' := by
  obtain ⟨input, hinput, h⟩ := Option.bind_eq_some_iff.mp h
  obtain ⟨input', hi', h'⟩ := Option.bind_eq_some_iff.mp h'
  have hin := ht.inputs.2 input (mem_of_getElem? hinput)
  have hin' := ht'.inputs.2 input' (mem_of_getElem? hi')
  have heq := Option.some.inj (h.trans h'.symm)
  simp only [map_append, append_assoc] at heq
  obtain ⟨hv, heq⟩ := (framed_leBytes 4).map token_byte_injective ht.version ht'.version heq
  obtain ⟨hp, heq⟩ := List.cons.inj heq
  obtain ⟨hse, heq⟩ := List.cons.inj heq
  obtain ⟨-, heq⟩ := List.cons.inj heq
  obtain ⟨-, heq⟩ := framed_outPoint.map token_byte_injective hin.1 hin'.1 heq
  obtain ⟨-, heq⟩ := framed_signingInput.map token_byte_injective hs hs'
    (by simpa [append_assoc] using heq)
  obtain ⟨-, heq⟩ := (framed_leBytes 8).map token_byte_injective hin.2 hin'.2 heq
  obtain ⟨-, heq⟩ := List.cons.inj heq
  exact ⟨hv, Token.digest.inj hp, Token.digest.inj hse, Token.digest.inj (List.cons.inj heq).1⟩

theorem signed_of_preimage_eq (hinj : Function.Injective signingHash) (hall : hashType.SignsAll)
    (hall' : hashType'.SignsAll) :
    tx.version = tx'.version ∧ tx.inputs = tx'.inputs ∧ tx.signedOutputs = tx'.signedOutputs := by
  obtain ⟨hv, hp, hse, ho⟩ := digests_of_preimage_eq hs hs' ht ht' h h'
  obtain ⟨hn, hsi, hacp⟩ := hall
  obtain ⟨hn', hsi', ha'⟩ := hall'
  simp only [standardPreviousOutputsHash, hacp, ha'] at hp
  simp only [standardSequencesHash, hn, hn', hsi, hsi', hacp, ha'] at hse
  simp only [standardOutputsHash, hn, hn', hsi, hsi'] at ho
  have hsp : tx.inputs.map previousOutput = tx'.inputs.map previousOutput := by
    refine framed_outPoint.eq_of_flatMap (fun o hnil => ?_) ?_ ?_
      (by simpa [flatMap_map] using hinj hp)
    · have hl := congrArg List.length hnil
      simp [OutPoint.encode, length_leBytes] at hl
    · simpa using fun input hin => (ht.inputs.2 input hin).1
    · simpa using fun input hin => (ht'.inputs.2 input hin).1
  have hsince : tx.inputs.map since = tx'.inputs.map since := by
    refine (framed_leBytes 8).eq_of_flatMap (fun n hnil => ?_) ?_ ?_
      (by simpa [flatMap_map] using hinj hse)
    · have hl := congrArg List.length hnil
      simp [length_leBytes] at hl
    · simpa using fun input hin => (ht.inputs.2 input hin).2
    · simpa using fun input hin => (ht'.inputs.2 input hin).2
  refine ⟨hv, eq_of_map_eq (fun a b hpr hsame => ?_) hsp hsince, ?_⟩
  · cases a
    simp_all
  · refine framed_hashCellOutput.eq_of_flatMap (fun entry hnil => ?_) ht.signedOutputs
      ht'.signedOutputs (hinj ho)
    have hl := congrArg List.length hnil
    simp [hashCellOutput, length_leBytes] at hl

end

theorem payloadFallback_of_input {input} (h : tx.inputs[inputIndex]? = some input) :
    tx.payloadFallback = [] := by
  have hne : tx.isCoinbase = false := by
    unfold CellTx.isCoinbase
    cases hin : tx.inputs with
    | nil => simp [hin] at h
    | cons a l => rfl
  simp [CellTx.payloadFallback, hne]

theorem fields_of_encodeFields_append (ht : tx.Typed 4) (ht' : tx'.Typed 4) {x y}
    (h : tx.encodeFields ++ x = tx'.encodeFields ++ y) :
    tx.version = tx'.version ∧ tx.inputs = tx'.inputs ∧ tx.cellDeps = tx'.cellDeps ∧
    tx.headerDeps = tx'.headerDeps ∧ tx.outputs = tx'.outputs ∧
    tx.outputsData.flatMap encodeVarBytes ++ (tx.payloadFallback ++ x) =
    tx'.outputsData.flatMap encodeVarBytes ++ (tx'.payloadFallback ++ y) := by
  unfold CellTx.encodeFields encodeList at h
  simp only [append_assoc] at h
  obtain ⟨hv, h⟩ := framed_leBytes 4 ht.version ht'.version h
  obtain ⟨hin, h⟩ := (framed_leBytes 4).counted framed_cellInput ht.inputs ht'.inputs
    (by simpa [append_assoc] using h)
  obtain ⟨hc, h⟩ := (framed_leBytes 4).counted framed_cellDep ht.cellDeps ht'.cellDeps
    (by simpa [append_assoc] using h)
  obtain ⟨hh, h⟩ := (framed_leBytes 4).counted (framed_leBytes 32) ht.headerDeps ht'.headerDeps
    (by simpa [append_assoc] using h)
  obtain ⟨hou, h⟩ := (framed_leBytes 4).counted framed_cellOutput ht.outputs ht'.outputs
    (by simpa [append_assoc] using h)
  exact ⟨hv, hin, hc, hh, hou, h⟩

theorem fields_of_txidPreimage_eq (ht : tx.Typed 4) (ht' : tx'.Typed 4)
    (hfallback : tx.payloadFallback = []) (hfallback' : tx'.payloadFallback = [])
    (h : tx.txidPreimage = tx'.txidPreimage) :
    tx.cellDeps = tx'.cellDeps ∧ tx.headerDeps = tx'.headerDeps ∧
    tx.outputsData = tx'.outputsData := by
  obtain ⟨-, -, hc, hh, -, hf⟩ :=
    fields_of_encodeFields_append ht ht' (congrArg (· ++ []) (append_cancel_left h))
  simp only [hfallback, hfallback', append_nil] at hf
  refine ⟨hc, hh, (framed_varBytes 4).eq_of_flatMap (fun data hnil => ?_) ht.outputsData
    ht'.outputsData hf⟩
  have hl := congrArg List.length hnil
  simp [length_leBytes] at hl

-- Two transactions whose signature hashes over everything have one preimage have one id when they
-- agree in what only the id covers: the dependencies, the header dependencies, and the data of the
-- outputs as a list. Unless a length wraps around in its count, they have one id only then.
theorem txidPreimage_eq_iff_of_signed {D : Type} (signingHash : Bytes → D)
    (hinj : Function.Injective signingHash) (zeroHash : D) (tx tx' : CellTx) (ht : tx.Typed 8)
    (ht' : tx'.Typed 8) (inputIndex inputIndex' : Nat)
    (signingInput signingInput' : StandardSigningInput) (hs : signingInput.Typed)
    (hs' : signingInput'.Typed) (hashType hashType' : SigHashType)
    (hall : hashType.SignsAll) (hall' : hashType'.SignsAll) (preimage : List (Token D))
    (h : standardSignaturePreimage signingHash zeroHash tx hashType inputIndex signingInput =
      some preimage)
    (h' : standardSignaturePreimage signingHash zeroHash tx' hashType' inputIndex' signingInput' =
      some preimage) :
    (tx.cellDeps = tx'.cellDeps ∧ tx.headerDeps = tx'.headerDeps ∧
      tx.outputsData = tx'.outputsData → tx.txidPreimage = tx'.txidPreimage) ∧
    (tx.Typed 4 → tx'.Typed 4 → tx.txidPreimage = tx'.txidPreimage →
      tx.cellDeps = tx'.cellDeps ∧ tx.headerDeps = tx'.headerDeps ∧
      tx.outputsData = tx'.outputsData) := by
  obtain ⟨input, hinput, -⟩ := Option.bind_eq_some_iff.mp h
  obtain ⟨input', hi', -⟩ := Option.bind_eq_some_iff.mp h'
  have hf := payloadFallback_of_input hinput
  have hf' := payloadFallback_of_input hi'
  constructor
  · rintro ⟨hc, hh, ho⟩
    obtain ⟨hv, hin, hsi⟩ := signed_of_preimage_eq hs hs' ht ht' h h' hinj hall hall'
    have hou : tx.outputs = tx'.outputs := by
      rw [← tx.map_fst_signedOutputs, ← tx'.map_fst_signedOutputs, hsi]
    unfold CellTx.txidPreimage CellTx.encodeFields
    rw [hv, hin, hc, hh, hou, ho, hf, hf']
  · intro hco hc'
    exact fields_of_txidPreimage_eq hco hc' hf hf'

end Signed

section Malleable

def signedTx (cellDeps : List CellDep) (witnesses : List Bytes) : CellTx :=
  ⟨CELL_TX_VERSION, [⟨⟨7, 0⟩, 0⟩], cellDeps, [], [⟨⟨0, 0, []⟩, none, 1000⟩], [[]], witnesses⟩

def signedInput : StandardSigningInput := ⟨1, none, 0, 0, 1000⟩

theorem typed_signedTx (witnesses) {width} (hwidth : 0 < width) :
    (signedTx [] witnesses).Typed width := by
  have hone : Fits width 1 := Nat.one_lt_pow (Nat.pos_iff_ne_zero.mp hwidth) (by decide)
  have hz : Fits width 0 := Nat.pow_pos (by decide)
  constructor <;>
    simp_all [signedTx, Typed, OutPoint.Typed, CellOutput.Typed, Script.Typed, Fits,
    CELL_TX_VERSION]

theorem typed_signedInput : signedInput.Typed := by
  constructor <;> simp [signedInput, Fits]

theorem signsAll_SIG_HASH_ALL : SigHashType.SIG_HASH_ALL.SignsAll := ⟨rfl, rfl, rfl⟩

theorem txidPreimage_signedTx : (signedTx [] []).txidPreimage = (signedTx [] [[5]]).txidPreimage :=
  (txidPreimage_eq_iff_of_signed id Function.injective_id [] (signedTx [] []) (signedTx [] [[5]])
    (typed_signedTx [] (by decide)) (typed_signedTx [[5]] (by decide)) 0 0 signedInput signedInput
    typed_signedInput typed_signedInput .SIG_HASH_ALL .SIG_HASH_ALL signsAll_SIG_HASH_ALL
      signsAll_SIG_HASH_ALL
    _ rfl rfl).1 ⟨rfl, rfl, rfl⟩

-- Another dependency leaves the preimage of the signature hash as it is, but not that of the id.
theorem signature_leaves_cellDeps_open :
    (standardSignaturePreimage id [] (signedTx [] []) .SIG_HASH_ALL 0 signedInput).isSome ∧
    standardSignaturePreimage id [] (signedTx [] []) .SIG_HASH_ALL 0 signedInput =
    standardSignaturePreimage id [] (signedTx [⟨⟨9, 0⟩, .code⟩] []) .SIG_HASH_ALL 0 signedInput ∧
    (signedTx [] []).txidPreimage ≠ (signedTx [⟨⟨9, 0⟩, .code⟩] []).txidPreimage := by
  decide +kernel

end Malleable

end Spora
