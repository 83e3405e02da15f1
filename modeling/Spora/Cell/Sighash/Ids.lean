import Spora.Cell.Sighash.Theorems

namespace Spora.CellTx

open Framing List

structure SameBody (tx tx' : CellTx) : Prop where
  version : tx.version = tx'.version
  inputs : tx.inputs = tx'.inputs
  cellDeps : tx.cellDeps = tx'.cellDeps
  headerDeps : tx.headerDeps = tx'.headerDeps
  outputs : tx.outputs = tx'.outputs
  outputsData : tx.outputsData = tx'.outputsData

variable {tx tx' : CellTx}

theorem SameBody.encodeFields (h : SameBody tx tx')
    (hfallback : tx.payloadFallback = tx'.payloadFallback) :
    tx.encodeFields = tx'.encodeFields := by
  unfold CellTx.encodeFields
  rw [h.version, h.inputs, h.cellDeps, h.headerDeps, h.outputs, h.outputsData, hfallback]

theorem SameBody.eq (h : SameBody tx tx') (hwitnesses : tx.witnesses = tx'.witnesses) :
    tx = tx' := by
  obtain ⟨version, inputs, cellDeps, headerDeps, outputs, outputsData⟩ := h
  cases tx
  simp_all

theorem sameBody_of_encodeFields_eq (ht : tx.Typed 4) (ht' : tx'.Typed 4)
    (hdata : tx.outputs.length = tx.outputsData.length)
    (hdata' : tx'.outputs.length = tx'.outputsData.length) {x y}
    (h : tx.encodeFields ++ x = tx'.encodeFields ++ y) :
    SameBody tx tx' ∧ tx.payloadFallback ++ x = tx'.payloadFallback ++ y := by
  obtain ⟨hv, hin, hc, hh, hou, h⟩ := fields_of_encodeFields_append ht ht' h
  have hl : tx.outputsData.length = tx'.outputsData.length := by rw [← hdata, ← hdata', hou]
  obtain ⟨ho, h⟩ := (framed_varBytes 4).flatMap hl ht.outputsData ht'.outputsData h
  exact ⟨⟨hv, hin, hc, hh, hou, ho⟩, h⟩

def fallback (tx : CellTx) : Option Bytes :=
  if tx.inputs = [] ∧ tx.outputs = [] then tx.witnesses.head? else none

theorem payloadFallback_eq (tx : CellTx) : tx.payloadFallback = tx.fallback.elim [] fun payload =>
    asciiBytes "coinbase-payload-fallback" ++ encodeVarBytes payload := by
  unfold payloadFallback fallback CellTx.isCoinbase
  simp only [Bool.and_eq_true, List.isEmpty_iff]
  split_ifs <;> rfl

theorem fallback_ne_nil (payload : Bytes) (x : Bytes) :
    asciiBytes "coinbase-payload-fallback" ++ encodeVarBytes payload ++ x ≠ [] := by
  simp [asciiBytes]

theorem fallback_ne_zero (payload x y : Bytes) :
    asciiBytes "coinbase-payload-fallback" ++ encodeVarBytes payload ++ x ≠ leBytes 4 0 ++ y := by
  intro h
  have hf := congrArg List.head? h
  revert hf
  simp [asciiBytes, leBytes]

theorem fallback_eq_of_sameBody (h : SameBody tx tx') : tx.fallback = tx'.fallback ↔
    (tx.inputs = [] → tx.outputs = [] → tx.witnesses.head? = tx'.witnesses.head?) := by
  unfold fallback
  rw [← h.inputs, ← h.outputs]
  split_ifs with he
  · exact ⟨fun heq _ _ => heq, fun heq => heq he.1 he.2⟩
  · refine ⟨fun _ hin ho => absurd ⟨hin, ho⟩ he, fun _ => rfl⟩

theorem witnesses_eq_nil_of_fallback (h : SameBody tx tx') (hnone : tx.fallback = none) {payload}
    (hsome : tx'.fallback = some payload) : tx.witnesses = [] := by
  unfold fallback at hnone hsome
  rw [← h.inputs, ← h.outputs] at hsome
  split_ifs at hnone hsome
  exact head?_eq_none_iff.mp hnone

def WitnessesTyped (tx : CellTx) : Prop :=
  Fits 4 tx.witnesses.length ∧ ∀ witness ∈ tx.witnesses, Fits 4 witness.length

theorem WitnessesTyped.fallback (h : tx.WitnessesTyped) :
    ∀ payload ∈ tx.fallback, Fits 4 payload.length := by
  intro payload hp
  unfold CellTx.fallback at hp
  split_ifs at hp
  · exact h.2 payload (mem_of_mem_head? hp)
  · cases hp

theorem fallback_eq_of_append (h : SameBody tx tx') (hw : tx.WitnessesTyped)
    (hw' : tx'.WitnessesTyped) {x y : Bytes}
    (hx : tx.witnesses = [] → x = [] ∨ ∃ rest, x = leBytes 4 0 ++ rest)
    (hy : tx'.witnesses = [] → y = [] ∨ ∃ rest, y = leBytes 4 0 ++ rest)
    (heq : tx.payloadFallback ++ x = tx'.payloadFallback ++ y) :
    tx.fallback = tx'.fallback ∧ x = y := by
  have hs : SameBody tx' tx := ⟨h.version.symm, h.inputs.symm, h.cellDeps.symm, h.headerDeps.symm,
    h.outputs.symm, h.outputsData.symm⟩
  rw [payloadFallback_eq, payloadFallback_eq] at heq
  cases hf : tx.fallback with
  | none =>
    cases hf' : tx'.fallback with
    | none =>
      rw [hf, hf'] at heq
      exact ⟨rfl, heq⟩
    | some payload =>
      rw [hf, hf'] at heq
      rcases hx (witnesses_eq_nil_of_fallback h hf hf') with rfl | ⟨rest, rfl⟩
      · exact absurd heq.symm (fallback_ne_nil payload y)
      · exact absurd heq.symm (fallback_ne_zero payload y rest)
  | some payload =>
    cases hf' : tx'.fallback with
    | none =>
      rw [hf, hf'] at heq
      rcases hy (witnesses_eq_nil_of_fallback hs hf' hf) with rfl | ⟨rest, rfl⟩
      · exact absurd heq (fallback_ne_nil payload x)
      · exact absurd heq (fallback_ne_zero payload x rest)
    | some payload' =>
      rw [hf, hf'] at heq
      simp only [Option.elim_some, append_assoc] at heq
      obtain ⟨rfl, hr⟩ := framed_varBytes 4 (hw.fallback payload hf) (hw'.fallback payload' hf')
        (append_cancel_left heq)
      exact ⟨rfl, hr⟩

section

variable (ht : tx.Typed 4) (ht' : tx'.Typed 4) (hw : tx.WitnessesTyped) (hw' : tx'.WitnessesTyped)
  (hdata : tx.outputs.length = tx.outputsData.length)
  (hdata' : tx'.outputs.length = tx'.outputsData.length)
include ht ht' hw hw' hdata hdata'

theorem txidPreimage_eq_iff :
    tx.txidPreimage = tx'.txidPreimage ↔ SameBody tx tx' ∧ tx.fallback = tx'.fallback := by
  constructor
  · intro h
    have hfi := congrArg (· ++ []) (append_cancel_left h)
    obtain ⟨hs, hta⟩ := sameBody_of_encodeFields_eq ht ht' hdata hdata' hfi
    exact ⟨hs, (fallback_eq_of_append hs hw hw' (fun _ => .inl rfl) (fun _ => .inl rfl) hta).1⟩
  · rintro ⟨hs, hf⟩
    unfold txidPreimage
    rw [hs.encodeFields (by rw [payloadFallback_eq, payloadFallback_eq, hf])]

theorem wtxidPreimage_eq_iff : tx.wtxidPreimage = tx'.wtxidPreimage ↔ tx = tx' := by
  constructor
  · intro h
    unfold wtxidPreimage at h
    rw [append_assoc] at h
    obtain ⟨hs, hta⟩ := sameBody_of_encodeFields_eq ht ht' hdata hdata' (append_cancel_left h)
    have hc l (hl : l = []) : encodeList encodeVarBytes l = [] ∨
        ∃ rest, encodeList encodeVarBytes l = leBytes 4 0 ++ rest := by
      subst hl
      exact .inr ⟨[], rfl⟩
    have hwi := (fallback_eq_of_append hs hw hw' (hc _) (hc _) hta).2
    exact hs.eq (((framed_leBytes 4).counted (framed_varBytes 4)).eq_of_eq hw hw' hwi)
  · rintro rfl
    rfl

end

-- The ids cover what they are meant to cover, and nothing in two ways.
theorem id_preimages_injective (tx tx' : CellTx) (ht : tx.Typed 4) (ht' : tx'.Typed 4)
    (hw : tx.WitnessesTyped) (hw' : tx'.WitnessesTyped)
    (hdata : tx.outputs.length = tx.outputsData.length)
    (hdata' : tx'.outputs.length = tx'.outputsData.length) :
    (tx.txidPreimage = tx'.txidPreimage ↔ SameBody tx tx' ∧
      (tx.inputs = [] → tx.outputs = [] → tx.witnesses.head? = tx'.witnesses.head?)) ∧
    (tx.wtxidPreimage = tx'.wtxidPreimage ↔ tx = tx') := by
  refine ⟨?_, wtxidPreimage_eq_iff ht ht' hw hw' hdata hdata'⟩
  rw [txidPreimage_eq_iff ht ht' hw hw' hdata hdata']
  exact and_congr_right fun hs => fallback_eq_of_sameBody hs

theorem id_preimages_of_signature :
    (signedTx [] []).txidPreimage = (signedTx [] [[5]]).txidPreimage ∧
    (signedTx [] []).wtxidPreimage ≠ (signedTx [] [[5]]).wtxidPreimage := by
  have h := id_preimages_injective (signedTx [] []) (signedTx [] [[5]])
    (typed_signedTx [] (by decide)) (typed_signedTx [[5]] (by decide))
      (by simp [WitnessesTyped, signedTx, Fits])
    (by simp [WitnessesTyped, signedTx, Fits]) rfl rfl
  exact ⟨h.1.mpr ⟨⟨rfl, rfl, rfl, rfl, rfl, rfl⟩, fun hin => absurd hin (by decide)⟩,
    fun heq => absurd (h.2.mp heq) (by decide)⟩

end Spora.CellTx
