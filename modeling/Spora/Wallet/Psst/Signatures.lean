import Spora.Wallet.Psst.Combine

namespace Spora.Psst

open Std Outcome Combine Input List Option MutableTransaction ExtTreeMap

-- A signature is made for one signature hash, and a signature hash stands for the parts it covers.
structure SigningScheme where
  Digest : Type
  schnorrHash : SignedParts → Digest
  ecdsaHash : SignedParts → Digest
  schnorrHash_injective : Function.Injective schnorrHash
  ecdsaHash_injective : Function.Injective ecdsaHash
  madeFor : PublicKey → Signature → Digest

namespace SigningScheme

variable (scheme : SigningScheme)

def signatureHash : Signature → SignedParts → scheme.Digest
  | .ecdsa _ => scheme.ecdsaHash
  | .schnorr _ => scheme.schnorrHash

theorem signatureHash_injective (sig) : Function.Injective (scheme.signatureHash sig) := by
  cases sig with
  | ecdsa => exact scheme.ecdsaHash_injective
  | schnorr => exact scheme.schnorrHash_injective

def Good (psst : Inner) (inputIndex : Nat) (hashType : SigHashType) (key : PublicKey)
    (signature : Signature) : Prop :=
  ∃ tx parts, psst.unsignedTx = .ok tx ∧ tx.signedPartsOf hashType inputIndex = some parts ∧
    scheme.madeFor key signature = scheme.signatureHash signature parts

end SigningScheme

namespace Inner

def Signed (scheme : SigningScheme) (psst : Inner) : Prop :=
  ∀ (i : Nat) (input : Input), psst.inputs[i]? = some input →
    ∀ (key : PublicKey) (signature : Signature), input.partialSigs[key]? = some signature →
      scheme.Good psst i input.sighashType key signature

def HasSigned (psst : Inner) (i : Nat) (key : PublicKey) : Prop :=
  ∃ input, psst.inputs[i]? = some input ∧ key ∈ input.partialSigs

section Parts

variable (psst : Inner)

def cellTx : CellTx where
  version := CELL_TX_VERSION
  inputs := psst.inputs.map fun input => CellInput.mk input.previousOutpoint (input.since.getD 0)
  cellDeps := []
  headerDeps := []
  outputs := psst.outputs.map cellOutFromPsstOutput
  outputsData := psst.outputs.map fun output => output.outputData.getD []
  witnesses := psst.inputs.map (fun _ => []) ++ psst.payloadWitnesses

theorem unsignedTx_eq : psst.unsignedTx = .ok (if (psst.inputs.map cellEntry).all Option.isSome then
      .withEntries psst.cellTx (psst.inputs.map cellEntry).reduceOption else .new psst.cellTx) := by
  unfold unsignedTx CellTx.new CellTx.newWithHeaderDeps
  simp only [length_map, ne_eq]
  rfl

theorem signedOutputs_cellTx : psst.cellTx.signedOutputs = psst.outputs.map Output.signed := by
  apply List.ext_getElem?
  intro i
  rw [CellTx.getElem?_signedOutputs]
  simp only [cellTx, CellTx.outputData, getElem?_map]
  cases psst.outputs[i]? <;> rfl

def signingInput (entry : CellMeta) : StandardSigningInput :=
  ⟨entry.lockHash, entry.typeHash, entry.dataHash, entry.dataBytes, entry.capacity⟩

-- What a signature of `input` covers, read off the partially signed transaction.
def parts (hashType : SigHashType) (inputIndex : Nat) (input : Input) (entry : CellMeta) :
    SignedParts where
  version := CELL_TX_VERSION
  previousOutputs := if hashType.isSighashAnyoneCanPay then
    none else some (psst.inputs.map Input.previousOutpoint)
  sinces := if hashType.coversSinces then some (psst.inputs.map fun input => input.since.getD 0)
    else none
  sigOpCounts := if hashType.isSighashAnyoneCanPay then none else some psst.inputs.length
  previousOutput := input.previousOutpoint
  signingInput := signingInput entry
  since := input.since.getD 0
  outputs := hashType.coveredOutputs inputIndex (psst.outputs.map Output.signed)
  payload := none
  hashType := hashType

def Populated : Prop := ∀ input ∈ psst.inputs, input.cellEntry.isSome

variable {psst} {ht : SigHashType} {i : Nat}

theorem signedParts_cellTx {input} (hinput : psst.inputs[i]? = some input) (entry) :
    signedParts psst.cellTx ht i (Inner.signingInput entry) =
    some (psst.parts ht i input entry) := by
  have hco : psst.cellTx.isCoinbase = false := by
    have hne := ne_nil_of_mem (mem_of_getElem? hinput)
    simpa [CellTx.isCoinbase, cellTx] using hne
  have hce : psst.cellTx.inputs[i]? = some ⟨input.previousOutpoint, input.since.getD 0⟩ := by
    simp [cellTx, hinput]
  have hp : psst.cellTx.payload = none := by simp [CellTx.payload, hco]
  simp only [signedParts, hce, signedOutputs_cellTx, hco, hp]
  simp [cellTx, CellTx.spends, parts, Function.comp_def]

theorem map_reduceOption {α β : Type} (g : α → β) {l : List (Option α)}
    (h : l.all Option.isSome = true) :
    (l.reduceOption.map fun a => some (g a)) = l.map (Option.map g) := by
  induction l with
  | nil => rfl
  | cons o l ih =>
    rw [all_cons, Bool.and_eq_true] at h
    obtain ⟨a, rfl⟩ := isSome_iff_exists.mp h.1
    exact congrArg (some (g a) :: ·) (ih h.2)

theorem all_isSome_iff : (psst.inputs.map cellEntry).all Option.isSome = true ↔ psst.Populated := by
  simp [Populated]

theorem signedPartsOf_withEntries (h : psst.Populated) {input}
    (hinput : psst.inputs[i]? = some input) {entry} (hentry : input.cellEntry = some entry) :
    (withEntries psst.cellTx (psst.inputs.map cellEntry).reduceOption).signedPartsOf
    ht i = some (psst.parts ht i input entry) := by
  have hr : (withEntries psst.cellTx
      (psst.inputs.map cellEntry).reduceOption).resolvedCellMetadata =
      psst.inputs.map fun input => input.cellEntry.map CellMetadata.ofCellMeta :=
    (map_reduceOption _ (all_isSome_iff.mpr h)).trans (map_map ..)
  have hv : (withEntries psst.cellTx
      (psst.inputs.map cellEntry).reduceOption).isVerifiable = true := by
    unfold isVerifiable
    rw [hr]
    simpa [Populated] using h
  have hm : (withEntries psst.cellTx
      (psst.inputs.map cellEntry).reduceOption).signingInputMaterial i =
      some (signingInput entry) := by
    unfold signingInputMaterial
    rw [hr, getElem?_map, hinput]
    simp only [map_some, hentry]
    rfl
  unfold signedPartsOf
  rw [if_pos hv, hm]
  exact signedParts_cellTx hinput entry

theorem signedPartsOf_new (tx) : (new tx).signedPartsOf ht i = none := by
  have hm : (new tx).signingInputMaterial i = none := by
    unfold signingInputMaterial new
    rw [getElem?_map]
    cases tx.inputs[i]? <;> rfl
  unfold signedPartsOf
  rw [hm]
  simp

theorem lt_of_signedPartsOf {tx : MutableTransaction} {parts}
    (h : tx.signedPartsOf ht i = some parts) : i < tx.tx.inputs.length := by
  unfold signedPartsOf at h
  split_ifs at h
  obtain ⟨material, -, h⟩ := bind_eq_some_iff.mp h
  obtain ⟨input, hinput, -⟩ := bind_eq_some_iff.mp h
  exact (List.getElem?_eq_some_iff.mp hinput).1

theorem good_iff {scheme : SigningScheme} {key sig} : scheme.Good psst i ht key sig ↔
    psst.Populated ∧ ∃ input entry, psst.inputs[i]? = some input ∧ input.cellEntry = some entry ∧
    scheme.madeFor key sig = scheme.signatureHash sig (psst.parts ht i input entry) := by
  unfold SigningScheme.Good
  rw [unsignedTx_eq]
  by_cases hp : psst.Populated
  · rw [if_pos (all_isSome_iff.mpr hp)]
    constructor
    · rintro ⟨tx, parts, htx, hpa, hm⟩
      cases htx
      have hlt : i < psst.inputs.length := by
        simpa [cellTx, withEntries, new] using lt_of_signedPartsOf hpa
      obtain ⟨input, hinput⟩ : ∃ input, psst.inputs[i]? = some input := ⟨_, getElem?_eq_getElem hlt⟩
      obtain ⟨entry, he⟩ := isSome_iff_exists.mp (hp input (mem_of_getElem? hinput))
      rw [signedPartsOf_withEntries hp hinput he, Option.some.injEq] at hpa
      exact ⟨hp, input, entry, hinput, he, hpa ▸ hm⟩
    · rintro ⟨-, input, entry, hinput, he, hm⟩
      exact ⟨_, _, rfl, signedPartsOf_withEntries hp hinput he, hm⟩
  · rw [if_neg (fun h => hp (all_isSome_iff.mp h))]
    constructor
    · rintro ⟨tx, parts, htx, hpa, -⟩
      cases htx
      rw [signedPartsOf_new] at hpa
      cases hpa
    · exact fun h => absurd h.1 hp

end Parts

-- `other` leaves alone what the signatures of the input at `inputIndex` of `psst` cover.
structure Spares (other psst : Inner) (inputIndex : Nat) (input : Input) : Prop where
  since : ∀ theirs : Input, other.inputs[inputIndex]? = some theirs →
    theirs.since.getD 0 ≤ input.since.getD 0
  entries : ∀ (i : Nat) (theirs : Input), psst.inputs.length ≤ i → other.inputs[i]? = some theirs →
    theirs.cellEntry.isSome
  inputs : input.sighashType.isSighashAnyoneCanPay = false →
    other.inputs.length ≤ psst.inputs.length
  sinces : input.sighashType.coversSinces = true → ∀ (i : Nat) (mine theirs : Input),
    psst.inputs[i]? = some mine → other.inputs[i]? = some theirs →
      theirs.since.getD 0 ≤ mine.since.getD 0
  outputs : input.sighashType.isSighashNone = false → input.sighashType.isSighashSingle = false →
    other.outputs.length ≤ psst.outputs.length
  output : input.sighashType.isSighashNone = false → input.sighashType.isSighashSingle = true →
    inputIndex < other.outputs.length → inputIndex < psst.outputs.length

namespace Combined

variable {psst other c : Inner} (hc : Combined psst other c)

include hc

theorem populated_iff (hp : psst.Populated) :
    c.Populated ↔ ∀ i (theirs : Input), psst.inputs.length ≤ i → other.inputs[i]? = some theirs →
    theirs.cellEntry.isSome := by
  constructor
  · intro h i theirs hi ht
    refine h theirs (mem_of_getElem? (i := i) ?_)
    rw [hc.restInputs i (getElem?_eq_none hi), ht]
  · intro h merged hmem
    obtain ⟨i, hi⟩ := mem_iff_getElem?.mp hmem
    cases hinput : psst.inputs[i]? with
    | none =>
      rw [hc.restInputs i hinput] at hi
      exact h i merged (getElem?_eq_none_iff.mp hinput) hi
    | some input =>
      obtain ⟨merged', hm, hca⟩ := hc.carried i input hinput
      cases (hm.symm.trans hi)
      obtain ⟨entry, he⟩ := isSome_iff_exists.mp (hp input (mem_of_getElem? hinput))
      rw [hca.cellEntry entry he]
      rfl

theorem length_inputs_eq_iff :
    c.inputs.length = psst.inputs.length ↔ other.inputs.length ≤ psst.inputs.length := by
  rw [hc.lengthInputs]
  omega

theorem map_previousOutpoint_eq_iff :
    c.inputs.map previousOutpoint = psst.inputs.map previousOutpoint ↔
    other.inputs.length ≤ psst.inputs.length := by
  rw [← hc.length_inputs_eq_iff]
  constructor
  · intro h
    simpa using congrArg List.length h
  · intro hlength
    apply List.ext_getElem?
    intro i
    rw [getElem?_map, getElem?_map]
    cases hinput : psst.inputs[i]? with
    | none =>
      have hlong := hlength ▸ getElem?_eq_none_iff.mp hinput
      rw [getElem?_eq_none hlong]
    | some input =>
      obtain ⟨merged, hm, hca⟩ := hc.carried i input hinput
      rw [hm, map_some, map_some, hca.previousOutpoint]

theorem map_since_eq_iff (hlength : other.inputs.length ≤ psst.inputs.length) :
    (c.inputs.map fun input => input.since.getD 0) =
    (psst.inputs.map fun input => input.since.getD 0) ↔
    ∀ (i : Nat) mine theirs, psst.inputs[i]? = some mine → other.inputs[i]? = some theirs →
    theirs.since.getD 0 ≤ mine.since.getD 0 := by
  constructor
  · intro h i mine theirs hm ht
    obtain ⟨merged, hme, hca⟩ := hc.carried i mine hm
    have hat := congrArg (·[i]?) h
    simp only [getElem?_map, hme, hm, map_some, Option.some.injEq] at hat
    have hsi := hca.since
    rw [ht, elim_some] at hsi
    omega
  · intro h
    apply List.ext_getElem?
    intro i
    rw [getElem?_map, getElem?_map]
    cases hm : psst.inputs[i]? with
    | none =>
      have hlong := hc.length_inputs_eq_iff.mpr hlength ▸ getElem?_eq_none_iff.mp hm
      rw [getElem?_eq_none hlong]
    | some mine =>
      obtain ⟨merged, hme, hca⟩ := hc.carried i mine hm
      rw [hme, map_some, hca.since]
      cases ht : other.inputs[i]? with
      | none => simp
      | some theirs => simpa using h i mine theirs hm ht

theorem coveredOutputs_eq_iff (hashType : SigHashType) (inputIndex : Nat) :
    hashType.coveredOutputs inputIndex (c.outputs.map Output.signed) =
    hashType.coveredOutputs inputIndex (psst.outputs.map Output.signed) ↔
    (hashType.isSighashNone = false → hashType.isSighashSingle = false →
      other.outputs.length ≤ psst.outputs.length) ∧
    (hashType.isSighashNone = false → hashType.isSighashSingle = true →
      inputIndex < other.outputs.length → inputIndex < psst.outputs.length) := by
  have hat : ∀ i, i < psst.outputs.length →
      (c.outputs.map Output.signed)[i]? = (psst.outputs.map Output.signed)[i]? := by
    intro i hi
    obtain ⟨merged, hm, hsi⟩ := hc.outputs i _ (getElem?_eq_getElem hi)
    rw [getElem?_map, getElem?_map, hm, getElem?_eq_getElem hi, map_some, map_some, hsi]
  have hlength := hc.lengthOutputs
  unfold SigHashType.coveredOutputs
  cases hashType.isSighashNone with
  | true => simp
  | false =>
    cases hashType.isSighashSingle with
    | true =>
      simp only [if_false, if_true, true_implies, reduceCtorEq, false_implies, true_and]
      by_cases hi : inputIndex < psst.outputs.length
      · simp [hat inputIndex hi, hi]
      · have hn : (psst.outputs.map Output.signed)[inputIndex]? = none := by simpa using hi
        rw [hn, map_none, map_eq_none_iff, getElem?_eq_none_iff, length_map]
        omega
    | false =>
      simp only [Bool.false_eq_true, if_false, true_implies, Option.some.injEq]
      constructor
      · intro h
        have h' := congrArg List.length h
        simp only [length_map] at h'
        omega
      · intro hle
        apply List.ext_getElem?
        intro i
        by_cases hi : i < psst.outputs.length
        · exact hat i hi
        · rw [List.getElem?_eq_none (by rw [length_map]; omega),
            List.getElem?_eq_none (by rw [length_map]; omega)]

variable {idx : Nat} {inp merged : Input}

variable (hinput : psst.inputs[idx]? = some inp)
include hinput

theorem since_eq_iff (hmerged : c.inputs[idx]? = some merged) :
    merged.since.getD 0 = inp.since.getD 0 ↔
    ∀ theirs, other.inputs[idx]? = some theirs → theirs.since.getD 0 ≤ inp.since.getD 0 := by
  obtain ⟨merged', hm', hca⟩ := hc.carried idx inp hinput
  cases (hm'.symm.trans hmerged)
  rw [hca.since]
  cases other.inputs[idx]? with
  | none => simp
  | some theirs => simp

theorem parts_eq_iff (hmerged : c.inputs[idx]? = some merged) (hashType : SigHashType) (entry)
    (hentries : ∀ i (theirs : Input), psst.inputs.length ≤ i → other.inputs[i]? = some theirs →
      theirs.cellEntry.isSome) :
    c.parts hashType idx merged entry = psst.parts inp.sighashType idx inp entry ↔
    hashType = inp.sighashType ∧ Spares other psst idx inp := by
  have houtpoint : merged.previousOutpoint = inp.previousOutpoint := by
    obtain ⟨merged', hm', hca⟩ := hc.carried idx inp hinput
    cases (hm'.symm.trans hmerged)
    exact hca.previousOutpoint
  constructor
  · intro h
    obtain rfl := congrArg SignedParts.hashType h
    have hin : inp.sighashType.isSighashAnyoneCanPay = false →
        other.inputs.length ≤ psst.inputs.length := by
      intro hacp
      have hcounts := congrArg SignedParts.sigOpCounts h
      simp only [parts, hacp, Bool.false_eq_true, if_false, Option.some.injEq] at hcounts
      exact hc.length_inputs_eq_iff.mp hcounts
    obtain ⟨ho, hou⟩ :=
      (hc.coveredOutputs_eq_iff inp.sighashType idx).mp (congrArg SignedParts.outputs h)
    refine ⟨rfl, (hc.since_eq_iff hinput hmerged).mp (congrArg SignedParts.since h), hentries, hin,
      fun hco => ?_, ho, hou⟩
    have hsi := congrArg SignedParts.sinces h
    simp only [parts, hco, if_true, Option.some.injEq] at hsi
    exact (hc.map_since_eq_iff (hin (SigHashType.anyoneCanPay_of_coversSinces hco))).mp hsi
  · rintro ⟨rfl, hsp⟩
    have hp : inp.sighashType.isSighashAnyoneCanPay = false →
        c.inputs.map previousOutpoint = psst.inputs.map previousOutpoint ∧
          c.inputs.length = psst.inputs.length := fun hacp =>
      ⟨hc.map_previousOutpoint_eq_iff.mpr (hsp.inputs hacp),
        hc.length_inputs_eq_iff.mpr (hsp.inputs hacp)⟩
    have hsi : inp.sighashType.coversSinces = true →
        (c.inputs.map fun inp => inp.since.getD 0) = psst.inputs.map fun inp =>
            inp.since.getD 0 := by
      intro hco
      have hlength := hsp.inputs (SigHashType.anyoneCanPay_of_coversSinces hco)
      exact (hc.map_since_eq_iff hlength).mpr (hsp.sinces hco)
    have ho := (hc.coveredOutputs_eq_iff inp.sighashType idx).mpr ⟨hsp.outputs, hsp.output⟩
    have hsince := (hc.since_eq_iff hinput hmerged).mpr hsp.since
    unfold parts
    congr 1
    · cases hacp : inp.sighashType.isSighashAnyoneCanPay with
      | true => rfl
      | false => rw [(hp hacp).1]
    · cases hco : inp.sighashType.coversSinces with
      | false => rfl
      | true => rw [hsi hco]
    · cases hacp : inp.sighashType.isSighashAnyoneCanPay with
      | true => rfl
      | false => rw [(hp hacp).2]

theorem good_iff {scheme : SigningScheme} {key sig}
    (hgood : scheme.Good psst idx inp.sighashType key sig) (hashType : SigHashType) :
    scheme.Good c idx hashType key sig ↔ hashType = inp.sighashType ∧
    Spares other psst idx inp := by
  obtain ⟨hp, input', entry, hi', he, hma⟩ := Inner.good_iff.mp hgood
  obtain rfl := Option.some.inj (hi'.symm.trans hinput)
  obtain ⟨merged, hm, hca⟩ := hc.carried idx input' hinput
  rw [Inner.good_iff, hc.populated_iff hp]
  constructor
  · rintro ⟨hen, merged', entry', hm', he', hma'⟩
    cases (hm'.symm.trans hm)
    obtain rfl := Option.some.inj (he'.symm.trans (hca.cellEntry entry he))
    exact (hc.parts_eq_iff hinput hm hashType entry' hen).mp
      (scheme.signatureHash_injective sig (hma'.symm.trans hma))
  · rintro ⟨ht, hsp⟩
    refine ⟨hsp.entries, merged, entry, hm, hca.cellEntry entry he, ?_⟩
    rw [hma, (hc.parts_eq_iff hinput hm hashType entry hsp.entries).mpr ⟨ht, hsp⟩]

end Combined

-- The longer list of inputs comes first, and that of `b` if they are equally long.
def byInputs (a b : Inner) : Inner × Inner :=
  if b.inputs.length < a.inputs.length then (a, b) else (b, a)

-- The two transactions agree wherever a signature that is kept looks. All signatures of `short` are
-- kept, and those of `long` whose key did not sign in `short`; the types are those of `long`.
structure Fits (long short : Inner) : Prop where
  ofShort : ∀ (i : Nat) (input : Input), short.inputs[i]? = some input → ∀ key ∈ input.partialSigs,
    (∀ theirs : Input, long.inputs[i]? = some theirs → theirs.sighashType = input.sighashType) ∧
      Spares long short i input
  ofLong : ∀ (i : Nat) (input : Input), long.inputs[i]? = some input → ∀ key ∈ input.partialSigs,
    (∀ theirs : Input, short.inputs[i]? = some theirs → key ∉ theirs.partialSigs) →
      Spares short long i input

section Overlay

variable {long short c : Inner} (hc : overlay Input.add long.inputs short.inputs = .ok c.inputs)
  (hlength : short.inputs.length ≤ long.inputs.length)

include hc hlength

theorem merged_of_short {i : Nat} {input} (hinput : short.inputs[i]? = some input) :
    ∃ theirs merged, long.inputs[i]? = some theirs ∧ c.inputs[i]? = some merged ∧
    theirs.Merged input merged := by
  have hlt : i < long.inputs.length := by
    have := (List.getElem?_eq_some_iff.mp hinput).1
    omega
  obtain ⟨merged, hm, hadd⟩ := (overlay_at hc i).2 _ input (getElem?_eq_getElem hlt) hinput
  exact ⟨_, merged, getElem?_eq_getElem hlt, hm, add_spec hadd⟩

theorem hasSigned_combined {i key} (h : long.HasSigned i key ∨ short.HasSigned i key) :
    c.HasSigned i key := by
  cases hshort : short.inputs[i]? with
  | none =>
    rcases h with ⟨input, hinput, hkey⟩ | ⟨input, hinput, -⟩
    · exact ⟨input, ((overlay_at hc i).1 hshort).trans hinput, hkey⟩
    · rw [hshort] at hinput
      cases hinput
  | some ours =>
    obtain ⟨theirs, merged, ht, hm, hsp⟩ := merged_of_short hc hlength hshort
    refine ⟨merged, hm, ?_⟩
    rw [mem_iff_isSome_getElem?, hsp.partialSigs, isSome_or, Bool.or_eq_true,
      ← mem_iff_isSome_getElem?, ← mem_iff_isSome_getElem?]
    rcases h with ⟨input, hinput, hkey⟩ | ⟨input, hinput, hkey⟩
    · cases (ht.symm.trans hinput)
      exact .inr hkey
    · cases (hshort.symm.trans hinput)
      exact .inl hkey

variable {scheme : SigningScheme} (hl : Combined long short c) (hs : Combined short long c)
  (hlong : long.Signed scheme) (hshort : short.Signed scheme)

include hl hs hlong hshort

theorem fits_of_signed (h : c.Signed scheme) : Fits long short where
  ofShort i input hinput key hkey := by
    obtain ⟨sig, hsi⟩ := TreeMap.exists_of_mem hkey
    obtain ⟨theirs, merged, ht, hm, hsp⟩ := merged_of_short hc hlength hinput
    have hk : merged.partialSigs[key]? = some sig := by rw [hsp.partialSigs, hsi, some_or]
    have hg := h i merged hm key sig hk
    obtain ⟨hty, hspares⟩ := (hs.good_iff hinput (hshort i input hinput key sig hsi) _).mp hg
    refine ⟨fun theirs' ht' => ?_, hspares⟩
    cases (ht.symm.trans ht')
    exact hsp.sighashType.symm.trans hty
  ofLong i input hinput key hkey hf := by
    obtain ⟨sig, hsi⟩ := TreeMap.exists_of_mem hkey
    have hb := hlong i input hinput key sig hsi
    cases ho : short.inputs[i]? with
    | none =>
      have hm := ((overlay_at hc i).1 ho).trans hinput
      exact ((hl.good_iff hinput hb _).mp (h i input hm key sig hsi)).2
    | some ours =>
      obtain ⟨theirs, merged, ht, hm, hsp⟩ := merged_of_short hc hlength ho
      cases (ht.symm.trans hinput)
      have hk : merged.partialSigs[key]? = some sig := by
        rw [hsp.partialSigs, getElem?_eq_none (hf ours ho), hsi, none_or]
      exact ((hl.good_iff hinput hb _).mp (h i merged hm key sig hk)).2

theorem signed_of_fits (h : Fits long short) : c.Signed scheme := by
  intro i merged hm key sig hsi
  cases ho : short.inputs[i]? with
  | none =>
    have hinput := ((overlay_at hc i).1 ho).symm.trans hm
    have hsp := h.ofLong i merged hinput key (TreeMap.mem_of_getElem? hsi) (by simp [ho])
    exact (hl.good_iff hinput (hlong i merged hinput key sig hsi) _).mpr ⟨rfl, hsp⟩
  | some ours =>
    obtain ⟨theirs, merged', ht, hm', hspec⟩ := merged_of_short hc hlength ho
    cases (hm'.symm.trans hm)
    rw [hspec.partialSigs] at hsi
    rw [hspec.sighashType]
    cases hown : ours.partialSigs[key]? with
    | some own =>
      rw [hown, some_or, Option.some.injEq] at hsi
      subst hsi
      have hkey := TreeMap.mem_of_getElem? hown
      obtain ⟨hty, hsp⟩ := h.ofShort i ours ho key hkey
      exact (hs.good_iff ho (hshort i ours ho key own hown) _).mpr ⟨hty theirs ht, hsp⟩
    | none =>
      rw [hown] at hsi
      have hkey := TreeMap.mem_of_getElem? hsi
      have hsp := h.ofLong i theirs ht key hkey fun ours' ho' hmem => by
        cases (ho.symm.trans ho')
        rw [mem_iff_isSome_getElem?, hown] at hmem
        cases hmem
      exact (hl.good_iff ht (hlong i theirs ht key sig hsi) _).mpr ⟨rfl, hsp⟩

end Overlay

-- Combining keeps every signer, and it keeps the signatures good exactly when the transactions
-- agree on what the kept signatures cover.
theorem add_keeps_signatures_iff (scheme : SigningScheme) {a b c : Inner} (ha : a.Signed scheme)
    (hb : b.Signed scheme) (hadd : a.add b = .ok c) :
    (c.Signed scheme ∧ ∀ i key, a.HasSigned i key ∨ b.HasSigned i key → c.HasSigned i key) ↔
    Fits (a.byInputs b).1 (a.byInputs b).2 := by
  obtain ⟨hleft, hr⟩ := combined_of_add hadd
  have hin := (add_eq_ok hadd).1
  unfold combineLonger at hin
  unfold byInputs
  split_ifs at hin ⊢ with hlength
  · constructor
    · exact fun h => fits_of_signed hin hlength.le hleft hr ha hb h.1
    · exact fun h => ⟨signed_of_fits hin hlength.le hleft hr ha hb h,
        fun i key hkey => hasSigned_combined hin hlength.le hkey⟩
  · have hle := Nat.le_of_not_lt hlength
    constructor
    · exact fun h => fits_of_signed hin hle hr hleft hb ha h.1
    · exact fun h => ⟨signed_of_fits hin hle hr hleft hb ha h,
        fun i key hkey => hasSigned_combined hin hle hkey.symm⟩

section Samples

def sampleCell : CellMeta := ⟨⟨1, 0⟩, 100, 0, 7, none, 0, 1, false, none, none, none⟩

def sampleInput (since : Option Nat) (key : PublicKey) : Input :=
  ⟨some sampleCell, ⟨1, 0⟩, since, (∅ : PartialSigs).insert key (.schnorr []), .SIG_HASH_ALL, none,
    ∅, none, ∅, ∅⟩

def samplePsst (since : Option Nat) (key : PublicKey) : Inner where
  global := ⟨.zero, 1, false, false, 1, 1, ∅, none, ∅, ∅, none⟩
  inputs := [sampleInput since key]
  outputs := [⟨90, ⟨7, 0, []⟩, none, none, none, ∅, ∅, ∅⟩]

def sampleScheme (since : PublicKey → Option Nat) : SigningScheme where
  Digest := SignedParts
  schnorrHash := id
  ecdsaHash := id
  schnorrHash_injective := Function.injective_id
  ecdsaHash_injective := Function.injective_id
  madeFor key _ :=
    (samplePsst (since key) key).parts .SIG_HASH_ALL 0 (sampleInput (since key) key) sampleCell

theorem eq_of_getElem?_sample {s key i input}
    (h : (samplePsst s key).inputs[i]? = some input) : i = 0 ∧ input = sampleInput s key := by
  obtain ⟨hi, rfl⟩ := List.getElem?_eq_some_iff.mp h
  have hi : i = 0 := by simpa [samplePsst] using hi
  subst hi
  exact ⟨rfl, rfl⟩

theorem eq_of_getElem?_sampleInput {s key key' sig}
    (h : (sampleInput s key).partialSigs[key']? = some sig) : key' = key ∧ sig = .schnorr [] := by
  unfold sampleInput at h
  rw [TreeMap.getElem?_insert_eq] at h
  split_ifs at h with hkey
  · exact ⟨hkey.symm, (Option.some.inj h).symm⟩
  · simp at h

theorem signed_sample (since key) : (samplePsst (since key) key).Signed (sampleScheme since) := by
  intro i input hinput key' sig hsi
  obtain ⟨rfl, rfl⟩ := eq_of_getElem?_sample hinput
  obtain ⟨rfl, rfl⟩ := eq_of_getElem?_sampleInput hsi
  refine good_iff.mpr ⟨?_, _, _, hinput, rfl, rfl⟩
  simp [Populated, samplePsst, sampleInput]

theorem spares_sample (key key' : PublicKey) :
    Spares (samplePsst none key') (samplePsst none key) 0 (sampleInput none key) where
  since theirs htheirs := by
    obtain ⟨-, rfl⟩ := eq_of_getElem?_sample htheirs
    rfl
  entries i theirs hi htheirs := by
    obtain ⟨rfl, -⟩ := eq_of_getElem?_sample htheirs
    exact absurd hi (by simp [samplePsst])
  inputs _ := le_rfl
  sinces _ i mine theirs hm htheirs := by
    obtain ⟨-, rfl⟩ := eq_of_getElem?_sample hm
    obtain ⟨-, rfl⟩ := eq_of_getElem?_sample htheirs
    rfl
  outputs _ _ := le_rfl
  output _ _ h := h

theorem fits_sample (key key' : PublicKey) : Fits (samplePsst none key) (samplePsst none key') where
  ofShort i input hinput _ _ := by
    obtain ⟨rfl, rfl⟩ := eq_of_getElem?_sample hinput
    refine ⟨fun theirs ht => ?_, spares_sample key' key⟩
    obtain ⟨-, rfl⟩ := eq_of_getElem?_sample ht
    rfl
  ofLong i input hinput _ _ _ := by
    obtain ⟨rfl, rfl⟩ := eq_of_getElem?_sample hinput
    exact spares_sample key key'

theorem same_transaction_keeps_signatures :
    ∃ c, (samplePsst none 1).add (samplePsst none 2) = .ok c ∧
    c.Signed (sampleScheme fun _ => none) ∧ c.HasSigned 0 1 ∧ c.HasSigned 0 2 := by
  have hrun : ((samplePsst none 1).add (samplePsst none 2)).toOption.isSome = true := by
    decide +kernel
  have hadd := eq_ok_getD_of_isSome hrun (samplePsst none 1)
  obtain ⟨hsi, hk⟩ := (add_keeps_signatures_iff (sampleScheme fun _ => none) (signed_sample _ 1)
    (signed_sample _ 2) hadd).mpr (fits_sample 2 1)
  exact ⟨_, hadd, hsi, hk 0 1 (.inl ⟨_, rfl, by simp [sampleInput]⟩),
    hk 0 2 (.inr ⟨_, rfl, by simp [sampleInput]⟩)⟩

-- The second signer saw a later `since`: the combination takes it, and the first signature is void.
theorem later_since_voids_signature :
    ∃ (scheme : SigningScheme) (a b c : Inner), a.Signed scheme ∧ b.Signed scheme ∧
    a.add b = .ok c ∧ a.HasSigned 0 1 ∧ ¬ c.Signed scheme := by
  have hrun : ((samplePsst none 1).add (samplePsst (some 5) 2)).toOption.isSome = true := by
    decide +kernel
  let since : PublicKey → Option Nat := fun key => if key = 1 then none else some 5
  have hadd := eq_ok_getD_of_isSome hrun (samplePsst none 1)
  have hkey : 1 ∈ (sampleInput none 1).partialSigs := by simp [sampleInput]
  obtain ⟨hle, hr⟩ := combined_of_add hadd
  refine ⟨sampleScheme since, samplePsst none 1, samplePsst (some 5) 2, _, signed_sample since 1,
    signed_sample since 2, hadd, ⟨_, rfl, hkey⟩, fun hsi => ?_⟩
  have hf := fits_of_signed (add_eq_ok hadd).1 le_rfl hr hle (signed_sample since 2)
    (signed_sample since 1) hsi
  have hla := (hf.ofShort 0 _ rfl 1 hkey).2.since _ rfl
  exact absurd hla (by decide)

end Samples

end Inner

end Spora.Psst
