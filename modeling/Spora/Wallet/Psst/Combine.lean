import Spora.Wallet.Psst

namespace Spora.Psst

open Std Outcome Combine

namespace Input

structure Merged (ours theirs merged : Input) : Prop where
  samePreviousOutpoint : theirs.previousOutpoint = ours.previousOutpoint
  previousOutpoint : merged.previousOutpoint = ours.previousOutpoint
  cellEntry : merged.cellEntry = ours.cellEntry.or theirs.cellEntry
  sameCellEntry : ∀ m ∈ ours.cellEntry, ∀ n ∈ theirs.cellEntry, m = n
  since : merged.since = max ours.since theirs.since
  partialSigs : ∀ key : PublicKey,
    merged.partialSigs[key]? = theirs.partialSigs[key]?.or ours.partialSigs[key]?
  sighashType : merged.sighashType = ours.sighashType

variable {ours theirs merged : Input}

theorem add_spec (h : ours.add theirs = .ok merged) : Merged ours theirs merged := by
  obtain ⟨_, htx, h⟩ := bind_ok h
  obtain ⟨_, hin, h⟩ := bind_ok h
  obtain ⟨cellEntry, he, h⟩ := bind_ok h
  obtain ⟨_, _, h⟩ := bind_ok h
  obtain ⟨_, _, h⟩ := bind_ok h
  obtain ⟨_, _, h⟩ := bind_ok h
  obtain ⟨_, _, h⟩ := bind_ok h
  obtain ⟨_, _, h⟩ := bind_ok h
  cases h
  obtain ⟨hv, hs⟩ := keepOne_eq_ok_iff.mp he
  have ho : theirs.previousOutpoint = ours.previousOutpoint := by
    generalize ours.previousOutpoint = o at htx hin
    cases o
    simp_all
  exact ⟨ho, rfl, hv, hs, rfl, getElem?_extend _ _, rfl⟩

structure Carried (input : Input) (other : Option Input) (merged : Input) : Prop where
  previousOutpoint : merged.previousOutpoint = input.previousOutpoint
  cellEntry : ∀ entry, input.cellEntry = some entry → merged.cellEntry = some entry
  since : merged.since.getD 0 =
    max (input.since.getD 0) (other.elim 0 fun theirs => theirs.since.getD 0)

theorem getD_max (s t : Option Nat) : (max s t).getD 0 = max (s.getD 0) (t.getD 0) := by
  cases s <;> cases t <;> simp

theorem Carried.refl (input : Input) : Carried input none input := ⟨rfl, fun _ h => h, by simp⟩

theorem Merged.left (h : Merged ours theirs merged) : Carried ours (some theirs) merged where
  previousOutpoint := h.previousOutpoint
  cellEntry entry he := by rw [h.cellEntry, he, Option.some_or]
  since := by rw [h.since, getD_max]; rfl

theorem Merged.right (h : Merged ours theirs merged) : Carried theirs (some ours) merged where
  previousOutpoint := h.previousOutpoint.trans h.samePreviousOutpoint.symm
  cellEntry entry he := by
    rw [h.cellEntry, he]
    cases ho : ours.cellEntry with
    | none => rfl
    | some m => rw [h.sameCellEntry m ho entry he, Option.some_or]
  since := by rw [h.since, getD_max, max_comm]; rfl

end Input

namespace Output

def signed (output : Output) : CellOutput × Bytes :=
  (cellOutFromPsstOutput output, output.outputData.getD [])

theorem add_spec {ours theirs merged : Output} (h : ours.add theirs = .ok merged) :
    merged.signed = ours.signed ∧ merged.signed = theirs.signed := by
  obtain ⟨_, hc, h⟩ := bind_ok h
  obtain ⟨_, hl, h⟩ := bind_ok h
  obtain ⟨_, ht, h⟩ := bind_ok h
  obtain ⟨_, hd, h⟩ := bind_ok h
  obtain ⟨_, _, h⟩ := bind_ok h
  obtain ⟨_, _, h⟩ := bind_ok h
  obtain ⟨_, _, h⟩ := bind_ok h
  obtain ⟨_, _, h⟩ := bind_ok h
  cases h
  rw [ensure_eq_ok_iff] at hc hl ht hd
  exact ⟨rfl, by simp [signed, cellOutFromPsstOutput, hc, hl, ht, hd]⟩

end Output

namespace Inner

-- What the combination has of one of the two transactions, whichever came first.
structure Combined (psst other combined : Inner) : Prop where
  carried : ∀ (i : Nat) (input : Input), psst.inputs[i]? = some input →
    ∃ merged, combined.inputs[i]? = some merged ∧ input.Carried other.inputs[i]? merged
  restInputs : ∀ i : Nat, psst.inputs[i]? = none → combined.inputs[i]? = other.inputs[i]?
  lengthInputs : combined.inputs.length = max psst.inputs.length other.inputs.length
  outputs : ∀ (i : Nat) (output : Output), psst.outputs[i]? = some output →
    ∃ merged, combined.outputs[i]? = some merged ∧ merged.signed = output.signed
  lengthOutputs : combined.outputs.length = max psst.outputs.length other.outputs.length

variable {a b c : Inner}

theorem add_eq_ok (h : a.add b = .ok c) : combineLonger Input.add a.inputs b.inputs = .ok c.inputs ∧
    combineLonger Output.add a.outputs b.outputs = .ok c.outputs := by
  obtain ⟨_, _, h⟩ := bind_ok h
  obtain ⟨inputs, hin, h⟩ := bind_ok h
  obtain ⟨outputs, ho, h⟩ := bind_ok h
  cases h
  exact ⟨mapError_eq_ok_iff.mp hin, mapError_eq_ok_iff.mp ho⟩

theorem combined_of_merges (hinputs : Merges Input.add a.inputs b.inputs c.inputs)
    (houtputs : Merges Output.add a.outputs b.outputs c.outputs) : Combined a b c where
  carried i input hi := by
    cases ho : b.inputs[i]? with
    | none => exact ⟨input, (hinputs.ofLeft i ho).trans hi, .refl input⟩
    | some theirs =>
      obtain ⟨merged, hm, hadd | hadd⟩ := hinputs.both i input theirs hi ho
      · exact ⟨merged, hm, (Input.add_spec hadd).left⟩
      · exact ⟨merged, hm, (Input.add_spec hadd).right⟩
  restInputs := hinputs.ofRight
  lengthInputs := hinputs.length
  outputs i output hi := by
    cases ho : b.outputs[i]? with
    | none => exact ⟨output, (houtputs.ofLeft i ho).trans hi, rfl⟩
    | some theirs =>
      obtain ⟨merged, hm, hadd | hadd⟩ := houtputs.both i output theirs hi ho
      · exact ⟨merged, hm, (Output.add_spec hadd).1⟩
      · exact ⟨merged, hm, (Output.add_spec hadd).2⟩
  lengthOutputs := houtputs.length

theorem combined_of_add (h : a.add b = .ok c) : Combined a b c ∧ Combined b a c := by
  obtain ⟨hin, ho⟩ := add_eq_ok h
  have hin := merges_combineLonger hin
  have ho := merges_combineLonger ho
  exact ⟨combined_of_merges hin ho, combined_of_merges hin.symm ho.symm⟩

end Inner

end Spora.Psst
