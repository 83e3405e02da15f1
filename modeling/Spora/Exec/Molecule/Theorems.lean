import Spora.Cell.Sighash.Theorems
import Spora.Exec.Molecule

namespace Spora.Molecule

open Codec Outcome List

theorem guard_eq_ok_iff {α c} [Decidable c] {ty reason x}
    {a : α} : (if c then invalid ty reason else x) = .ok a ↔ ¬ c ∧ x = .ok a := by
  split_ifs with hc <;> simp [invalid, hc]

section Numbers

variable {bs : Bytes} {n : Nat} {ty : String}

@[simp] theorem length_packNumber (n : Nat) : (packNumber n).length = NUMBER_SIZE :=
  length_leBytes _ _

theorem unpackNumber_packNumber (rest : Bytes) (h : n < 2 ^ 32) :
    unpackNumber (packNumber n ++ rest) ty = .ok n := by
  have hf : Fits NUMBER_SIZE n := h
  unfold unpackNumber
  rw [if_neg (by simp), take_left' (length_packNumber n), packNumber, leNat_leBytes hf]

theorem unpackNumber_eq_ok_iff :
    unpackNumber bs ty = .ok n ↔ NUMBER_SIZE ≤ bs.length ∧ leNat (bs.take NUMBER_SIZE) = n := by
  unfold unpackNumber
  rw [guard_eq_ok_iff, Nat.not_lt, Except.ok.injEq]

theorem packNumber_of_unpackNumber (h : unpackNumber bs ty = .ok n) :
    packNumber n = bs.take NUMBER_SIZE := by
  obtain ⟨hl, rfl⟩ := unpackNumber_eq_ok_iff.mp h
  have hb := leBytes_leNat (bs.take NUMBER_SIZE)
  rwa [length_take_of_le hl] at hb

theorem lossless_decodeFixed {size : Nat} {expected ty : String} :
    Lossless (2 ^ 32) (Fits size) (leBytes size) (decodeFixed size expected · ty) where
  decode_encode := by
    intro n hf _
    unfold decodeFixed
    rw [if_neg (by simp [length_leBytes]), leNat_leBytes hf]
  encode_decode := by
    intro bs n h
    obtain ⟨hs, h⟩ := guard_eq_ok_iff.mp h
    cases h
    obtain rfl := Decidable.not_not.mp hs
    exact ⟨fits_leNat bs, leBytes_leNat bs⟩

end Numbers

section Tables

variable {bytes : Bytes} {fields : List Bytes} {totalSize firstOffset : Nat}
  {ty part layout : String}

def tableHeader (fields : List Bytes) : Bytes :=
  packNumber (NUMBER_SIZE * (fields.length + 1) + fields.flatten.length) ++
    (offsets (NUMBER_SIZE * (fields.length + 1)) fields).dropLast.flatMap packNumber

theorem encodeTable_eq (fields) : encodeTable fields = tableHeader fields ++ fields.flatten := by
  unfold encodeTable tableHeader
  rw [length_flatten]

theorem length_flatMap_packNumber (l : List Nat) :
    (l.flatMap packNumber).length = l.length * NUMBER_SIZE := by
  simp

theorem length_tableHeader (fields) :
    (tableHeader fields).length = NUMBER_SIZE * (fields.length + 1) := by
  rw [tableHeader, length_append, length_packNumber, length_flatMap_packNumber, length_dropLast,
    length_offsets, Nat.add_sub_cancel, Nat.mul_comm, Nat.mul_succ, Nat.add_comm]

theorem length_encodeTable (fields) :
    (encodeTable fields).length = NUMBER_SIZE * (fields.length + 1) + fields.flatten.length := by
  rw [encodeTable_eq, length_append, length_tableHeader]

theorem length_le_encodeTable {field} (h : field ∈ fields) :
    field.length ≤ (encodeTable fields).length := by
  have hle := (sublist_flatten_of_mem h).length_le
  rw [length_encodeTable]
  omega

theorem mapM_unpackNumber {parts : List Bytes} (h : ∀ bytes ∈ parts, bytes.length = NUMBER_SIZE) :
    parts.mapM (unpackNumber · ty) = .ok (parts.map leNat) := by
  induction parts with
  | nil => rfl
  | cons bytes parts ih =>
    obtain ⟨hl, hp⟩ := forall_mem_cons.mp h
    have hf : unpackNumber bytes ty = .ok (leNat bytes) := by
      unfold unpackNumber
      rw [if_neg (by omega), take_of_length_le hl.le]
    rw [mapM_cons, hf, ih hp]
    rfl

theorem mapM_packNumber {l : List Nat} (h : ∀ n ∈ l, n < 2 ^ 32) :
    (l.map packNumber).mapM (unpackNumber · ty) = .ok l := by
  have hr : ∀ n ∈ l, (leNat ∘ packNumber) n = n := fun n hn => leNat_leBytes (h n hn)
  rw [mapM_unpackNumber (forall_mem_map.mpr fun n _ => length_packNumber n), map_map,
    map_congr_left hr, map_id']

theorem flatMap_packNumber_leNat {parts : List Bytes}
    (h : ∀ bytes ∈ parts, bytes.length = NUMBER_SIZE) :
    (parts.map leNat).flatMap packNumber = parts.flatten := by
  rw [flatMap_map, flatten_eq_flatMap]
  refine flatMap_congr fun bytes hb => ?_
  rw [packNumber, ← h bytes hb, leBytes_leNat, id]

theorem checkTotalSize_eq_ok (h : checkTotalSize bytes ty = .ok totalSize) :
    totalSize = bytes.length ∧ unpackNumber bytes ty = .ok bytes.length := by
  obtain ⟨size, hs, h⟩ := bind_ok h
  obtain ⟨heq, h⟩ := guard_eq_ok_iff.mp h
  cases h
  obtain rfl := Decidable.not_not.mp heq
  exact ⟨rfl, hs⟩

theorem encodeTable_of_partsFrom (hsize : unpackNumber bytes ty = .ok bytes.length)
    (hoffset : readFirstOffset part bytes ty = .ok firstOffset)
    (h : partsFrom part layout bytes ty bytes.length firstOffset = .ok fields) :
    fields ≠ [] ∧ NUMBER_SIZE * (fields.length + 1) = firstOffset ∧ encodeTable fields = bytes := by
  obtain ⟨first, hfi, hoffset⟩ := bind_ok hoffset
  obtain ⟨hin, hoffset⟩ := guard_eq_ok_iff.mp hoffset
  obtain rfl := Except.ok.inj hoffset
  obtain ⟨hdvd, hlow, hhi⟩ : first % NUMBER_SIZE = 0 ∧ NUMBER_SIZE * 2 ≤ first ∧
      first ≤ bytes.length := by
    simpa [ne_eq] using hin
  obtain ⟨count, rfl⟩ : ∃ count, first = NUMBER_SIZE * (count + 2) :=
    ⟨first / NUMBER_SIZE - 2, by unfold NUMBER_SIZE at *; omega⟩
  have hh : ((bytes.take (NUMBER_SIZE * (count + 2))).drop NUMBER_SIZE).length =
      (count + 1) * NUMBER_SIZE := by
    rw [length_drop, length_take, Nat.min_eq_left hhi]
    unfold NUMBER_SIZE
    omega
  have hp := length_of_mem_chunks hh
  unfold partsFrom at h
  dsimp only at h
  rw [hh, Nat.mul_div_cancel _ (by decide), mapM_unpackNumber hp] at h
  obtain ⟨hch, h⟩ := guard_eq_ok_iff.mp h
  obtain ⟨-, h⟩ := guard_eq_ok_iff.mp h
  cases h
  -- the first of the offsets is where the fields start
  have hst : leNat (((bytes.take (NUMBER_SIZE * (count + 2))).drop NUMBER_SIZE).take NUMBER_SIZE) =
      NUMBER_SIZE * (count + 2) := by
    rw [drop_take, take_take]
    exact (unpackNumber_eq_ok_iff.mp hfi).2
  have hs := flatMap_packNumber_leNat hp
  rw [flatten_chunks hh] at hs
  obtain ⟨rest, hr⟩ : ∃ rest, (chunks NUMBER_SIZE (count + 1)
      ((bytes.take (NUMBER_SIZE * (count + 2))).drop NUMBER_SIZE)).map leNat =
          NUMBER_SIZE * (count + 2) :: rest :=
    ⟨_, by rw [chunks, map_cons, hst]⟩
  rw [hr] at hs
  rw [hr, cons_append] at hch ⊢
  have hl : (NUMBER_SIZE * (count + 2) :: (rest ++ [bytes.length])).getLast? =
      some bytes.length := by
    rw [← cons_append, getLast?_concat]
  obtain ⟨ho, hfl⟩ := offsets_slices (Decidable.not_not.mp hch) hl
  have hc := congrArg List.length hr
  rw [length_map, length_chunks, length_cons] at hc
  have hf := congrArg List.length ho
  rw [length_offsets, length_cons, length_append, length_singleton, ← hc] at hf
  refine ⟨ne_nil_of_length_pos (by omega), by rw [hf], ?_⟩
  rw [encodeTable_eq, tableHeader, hf, hfl, ho, ← cons_append,
    dropLast_concat, hs, length_drop, Nat.add_sub_cancel' hhi, packNumber_of_unpackNumber hsize]
  have hfr : bytes.take NUMBER_SIZE =
      (bytes.take (NUMBER_SIZE * (count + 2))).take NUMBER_SIZE := by
    rw [take_take, Nat.min_eq_left (by unfold NUMBER_SIZE; omega)]
  rw [hfr, take_append_drop, take_append_drop]

theorem partsFrom_encodeTable (hsize : (encodeTable fields).length < 2 ^ 32) :
    partsFrom part layout (encodeTable fields) ty (encodeTable fields).length
    (NUMBER_SIZE * (fields.length + 1)) = .ok fields := by
  have hl := length_encodeTable fields
  have hh : ((encodeTable fields).take (NUMBER_SIZE * (fields.length + 1))).drop NUMBER_SIZE =
      (offsets (NUMBER_SIZE * (fields.length + 1)) fields).dropLast.flatMap packNumber := by
    rw [encodeTable_eq, take_left' (length_tableHeader fields), tableHeader,
      drop_left' (length_packNumber _)]
  have hof : (offsets (NUMBER_SIZE * (fields.length + 1)) fields).dropLast ++
      [(encodeTable fields).length] = offsets (NUMBER_SIZE * (fields.length + 1)) fields := by
    rw [hl]
    exact dropLast_append_getLast? _ getLast?_offsets
  have hb : ∀ o ∈ offsets (NUMBER_SIZE * (fields.length + 1)) fields,
      NUMBER_SIZE * (fields.length + 1) ≤ o ∧ o ≤ (encodeTable fields).length :=
        fun o ho => hl ▸ mem_offsets ho
  unfold partsFrom
  dsimp only
  rw [hh, length_flatMap_packNumber, Nat.mul_div_cancel _ (by decide),
    chunks_flatMap length_packNumber, mapM_packNumber fun o ho =>
      (hb o (dropLast_subset _ ho)).2.trans_lt hsize, ok_bind, hof,
    guard_eq_ok_iff, guard_eq_ok_iff]
  refine ⟨not_not.mpr isChain_offsets, ?_, ?_⟩
  · rintro ⟨o, ho, hlt⟩
    have hin := hb o ho
    omega
  · rw [encodeTable_eq, ← length_tableHeader fields, slices_offsets]

theorem readHeader_encodeTable (part ty) (hne : fields ≠ [])
    (hsize : (encodeTable fields).length < 2 ^ 32) :
    checkTotalSize (encodeTable fields) ty = .ok (encodeTable fields).length ∧
    readFirstOffset part (encodeTable fields) ty = .ok (NUMBER_SIZE * (fields.length + 1)) := by
  have hl := length_encodeTable fields
  have hfi := length_pos_iff.mpr hne
  obtain ⟨rest, hr⟩ := exists_dropLast_offsets_eq (NUMBER_SIZE * (fields.length + 1)) hne
  have hs : encodeTable fields = packNumber (encodeTable fields).length ++
      (packNumber (NUMBER_SIZE * (fields.length + 1)) ++
          (rest.flatMap packNumber ++ fields.flatten)) := by
    rw [hl, encodeTable_eq, tableHeader, hr, flatMap_cons]
    simp [append_assoc]
  have ht : unpackNumber (encodeTable fields) ty = .ok (encodeTable fields).length := by
    conv_lhs => rw [hs]
    exact unpackNumber_packNumber _ hsize
  have hf : unpackNumber ((encodeTable fields).drop NUMBER_SIZE) ty =
      .ok (NUMBER_SIZE * (fields.length + 1)) := by
    rw [hs]
    exact unpackNumber_packNumber _ (by omega)
  unfold checkTotalSize readFirstOffset
  rw [ht, hf, ok_bind, ok_bind, if_neg (not_not.mpr rfl), if_neg]
  · exact ⟨rfl, rfl⟩
  · unfold NUMBER_SIZE at *
    omega

theorem decodeTable_encodeTable (hne : fields ≠ []) (hsize : (encodeTable fields).length < 2 ^ 32) :
    decodeTable (encodeTable fields) fields.length ty = .ok fields := by
  obtain ⟨ht, hf⟩ := readHeader_encodeTable "field" ty hne hsize
  have hfi := length_pos_iff.mpr hne
  have hl := length_encodeTable fields
  have hc : NUMBER_SIZE * (fields.length + 1) / NUMBER_SIZE - 1 = fields.length := by
    unfold NUMBER_SIZE
    omega
  unfold decodeTable
  rw [if_neg (by unfold NUMBER_SIZE at *; omega), ht, hf, ok_bind, ok_bind]
  rw [if_neg (not_not.mpr hc), partsFrom_encodeTable hsize]

-- What the decoder of a record starts from: its fields, each of which is short enough.
theorem readFields (ty) (hne : fields ≠ []) (hsize : (encodeTable fields).length < 2 ^ 32) :
    decodeTable (encodeTable fields) fields.length ty = .ok fields ∧ ∀ field ∈ fields,
    field.length < 2 ^ 32 :=
  ⟨decodeTable_encodeTable hne hsize, fun _ h => (length_le_encodeTable h).trans_lt hsize⟩

theorem encodeTable_of_decodeTable {n} (h : decodeTable bytes n ty = .ok fields) :
    fields.length = n ∧ encodeTable fields = bytes := by
  obtain ⟨-, h⟩ := guard_eq_ok_iff.mp h
  obtain ⟨total, ht, h⟩ := bind_ok h
  obtain ⟨rfl, hs⟩ := checkTotalSize_eq_ok ht
  obtain ⟨first, hf, h⟩ := bind_ok h
  dsimp only at h
  split_ifs at h with hc
  obtain ⟨-, hfi, hb⟩ := encodeTable_of_partsFrom hs hf h
  refine ⟨?_, hb⟩
  unfold NUMBER_SIZE at *
  omega

theorem decodeDynvec_encodeDynvec {items} (hsize : (encodeDynvec items).length < 2 ^ 32) :
    decodeDynvec (encodeDynvec items) ty = .ok items := by
  cases items with
  | nil =>
    have ht : unpackNumber (packNumber NUMBER_SIZE) ty = .ok NUMBER_SIZE := by
      simpa using unpackNumber_packNumber [] (by decide)
    simp [decodeDynvec, encodeDynvec, checkTotalSize, ht]
  | cons item items =>
    have hne : item :: items ≠ [] := cons_ne_nil _ _
    obtain ⟨ht, hf⟩ := readHeader_encodeTable "item" ty hne hsize
    have hl : NUMBER_SIZE * 2 ≤ (encodeTable (item :: items)).length := by
      rw [length_encodeTable, length_cons]
      unfold NUMBER_SIZE
      omega
    have hta : encodeDynvec (item :: items) = encodeTable (item :: items) := rfl
    unfold decodeDynvec
    rw [hta, ht, ok_bind, hf, ok_bind, partsFrom_encodeTable hsize, if_neg, if_neg, if_neg]
    all_goals
      unfold NUMBER_SIZE at *
      omega

theorem encodeDynvec_of_decodeDynvec {items} (h : decodeDynvec bytes ty = .ok items) :
    encodeDynvec items = bytes := by
  obtain ⟨-, h⟩ := guard_eq_ok_iff.mp h
  obtain ⟨total, ht, h⟩ := bind_ok h
  obtain ⟨rfl, hs⟩ := checkTotalSize_eq_ok ht
  by_cases he : bytes.length = NUMBER_SIZE
  · rw [if_pos he] at h
    cases h
    have hb := packNumber_of_unpackNumber hs
    rwa [he, ← he, take_length, he] at hb
  · rw [if_neg he] at h
    obtain ⟨-, h⟩ := guard_eq_ok_iff.mp h
    obtain ⟨first, hf, h⟩ := bind_ok h
    obtain ⟨hne, -, hb⟩ := encodeTable_of_partsFrom hs hf h
    rwa [encodeDynvec, if_neg (by simpa using hne)]

end Tables

section Vectors

variable {α : Type} {valid : α → Prop} {encode : α → Bytes}
  {decode : Bytes → Except MoleculeError α}
  {ty : String}

theorem lossless_bytes : Lossless (2 ^ 32) (fun _ => True) encodeBytes decodeBytes where
  decode_encode := by
    intro bytes _ hs
    have hl : (encodeBytes bytes).length = NUMBER_SIZE + bytes.length := by simp [encodeBytes]
    have hc : unpackNumber (encodeBytes bytes) "Bytes" = .ok bytes.length :=
      unpackNumber_packNumber bytes (by omega)
    unfold decodeBytes
    rw [hc, ok_bind]
    rw [if_neg (not_not.mpr hl), encodeBytes, drop_left' (length_packNumber _)]
  encode_decode := by
    intro bytes content h
    obtain ⟨count, hc, h⟩ := bind_ok h
    obtain ⟨hl, h⟩ := guard_eq_ok_iff.mp h
    cases h
    have hs : (bytes.drop NUMBER_SIZE).length = count := by
      rw [length_drop, Decidable.not_not.mp hl, Nat.add_sub_cancel_left]
    exact ⟨trivial, by rw [encodeBytes, hs, packNumber_of_unpackNumber hc, take_append_drop]⟩

variable (h : Lossless (2 ^ 32) valid encode decode)
include h

theorem lossless_dynvec :
    Lossless (2 ^ 32) (fun l : List α => ∀ a ∈ l, valid a) (fun l => encodeDynvec (l.map encode))
      fun bytes => do (← decodeDynvec bytes ty).mapM decode where
  decode_encode := by
    intro l hv hs
    rw [decodeDynvec_encodeDynvec hs]
    refine h.mapM_encode hv fun a ha => ?_
    have hne : (l.map encode).isEmpty = false := by simpa using ne_nil_of_mem ha
    rw [encodeDynvec, hne] at hs
    exact (length_le_encodeTable (mem_map_of_mem ha)).trans_lt hs
  encode_decode := by
    intro bytes l hl
    obtain ⟨items, hit, hl⟩ := bind_ok hl
    obtain ⟨hv, hmap⟩ := h.encode_mapM hl
    exact ⟨hv, by rw [hmap, encodeDynvec_of_decodeDynvec hit]⟩

theorem lossless_fixvec {size : Nat} (hwidth : ∀ a, (encode a).length = size) (hpos : 0 < size) :
    Lossless (2 ^ 32) (fun l : List α => ∀ a ∈ l, valid a) (encodeFixvec encode)
    (decodeFixvec size decode · ty) where
  decode_encode := by
    intro l hv hs
    have hb : (l.flatMap encode).length = l.length * size := by simp [hwidth]
    have hlength : (encodeFixvec encode l).length = NUMBER_SIZE + l.length * size := by
      rw [encodeFixvec, length_append, length_packNumber, hb]
    have hco : l.length ≤ l.length * size := Nat.le_mul_of_pos_right _ hpos
    have hr : unpackNumber (encodeFixvec encode l) ty = .ok l.length :=
      unpackNumber_packNumber _ (by omega)
    have hd : (encodeFixvec encode l).drop NUMBER_SIZE = l.flatMap encode :=
      drop_left' (length_packNumber _)
    unfold decodeFixvec
    rw [hr, ok_bind]
    rw [if_neg (not_not.mpr hlength), hd, hb, Nat.mul_div_cancel _ hpos, chunks_flatMap hwidth]
    refine h.mapM_encode hv fun a ha => ?_
    have hle : 1 * size ≤ l.length * size := Nat.mul_le_mul_right _ (length_pos_of_mem ha)
    rw [hwidth]
    omega
  encode_decode := by
    intro bytes l hl
    obtain ⟨count, hco, hl⟩ := bind_ok hl
    obtain ⟨hlength, hl⟩ := guard_eq_ok_iff.mp hl
    have hb : (bytes.drop NUMBER_SIZE).length = count * size := by
      rw [length_drop, Decidable.not_not.mp hlength, Nat.add_sub_cancel_left]
    rw [hb, Nat.mul_div_cancel _ hpos] at hl
    obtain ⟨hv, hmap⟩ := h.encode_mapM hl
    have hc := congrArg List.length hmap
    rw [length_map, length_chunks] at hc
    refine ⟨hv, ?_⟩
    rw [encodeFixvec, hc, packNumber_of_unpackNumber hco, flatMap_def, hmap, flatten_chunks hb,
      take_append_drop]

end Vectors

section Cells

theorem length_serializeOutpointMolecule (o) : (serializeOutpointMolecule o).length = 36 := by
  simp [serializeOutpointMolecule, length_leBytes]

theorem lossless_outpoint :
    Lossless (2 ^ 32) OutPoint.Typed serializeOutpointMolecule deserializeOutpointMolecule where
  decode_encode := by
    rintro ⟨txHash, index⟩ ⟨ht, hin⟩ hsi
    obtain ⟨hf, hs⟩ := lossless_decodeFixed.decode_append lossless_decodeFixed (length_leBytes 32)
      ht hin hsi
    unfold deserializeOutpointMolecule
    rw [serializeOutpointMolecule, decodeArray32, hf, decodeU32, hs]
    rfl
  encode_decode := by
    intro bytes o h
    obtain ⟨-, h⟩ := guard_eq_ok_iff.mp h
    obtain ⟨txHash, ht, h⟩ := bind_ok h
    obtain ⟨index, hin, h⟩ := bind_ok h
    cases h
    obtain ⟨hf, hs, hb⟩ := lossless_decodeFixed.append_of_decode lossless_decodeFixed ht hin
    exact ⟨⟨hf, hs⟩, hb⟩

theorem length_serializeCellInputMolecule (input) :
    (serializeCellInputMolecule input).length = 44 := by
  simp [serializeCellInputMolecule, length_leBytes, length_serializeOutpointMolecule]

theorem lossless_cellInput :
    Lossless (2 ^ 32) CellInput.Typed serializeCellInputMolecule deserializeCellInputMolecule where
  decode_encode := by
    rintro ⟨prev, since⟩ ⟨hp, hsi⟩ hsize
    obtain ⟨hf, hs⟩ := lossless_decodeFixed.decode_append lossless_outpoint (length_leBytes 8)
      hsi hp hsize
    unfold deserializeCellInputMolecule
    rw [serializeCellInputMolecule, decodeU64, hf, hs]
    rfl
  encode_decode := by
    intro bytes input h
    obtain ⟨-, h⟩ := guard_eq_ok_iff.mp h
    obtain ⟨since, hsi, h⟩ := bind_ok h
    obtain ⟨prev, hp, h⟩ := bind_ok h
    cases h
    obtain ⟨hf, hs, hb⟩ := lossless_decodeFixed.append_of_decode lossless_outpoint hsi hp
    exact ⟨⟨hs, hf⟩, hb⟩

theorem length_serializeCellDepMolecule (dep) : (serializeCellDepMolecule dep).length = 37 := by
  simp [serializeCellDepMolecule, length_serializeOutpointMolecule]

theorem encodeDepType_of_decodeDepType {byte dt} (h : decodeDepType byte = .ok dt) :
    encodeDepType dt = byte := by
  unfold decodeDepType at h
  split_ifs at h with hc hg
  · rw [← Except.ok.inj h, hc, encodeDepType]
  · rw [← Except.ok.inj h, hg, encodeDepType]
  · simp [invalid] at h

theorem lossless_cellDep :
    Lossless (2 ^ 32) CellDep.Typed serializeCellDepMolecule deserializeCellDepMolecule where
  decode_encode := by
    rintro ⟨outPoint, dt⟩ ho _
    have hf : (serializeCellDepMolecule ⟨outPoint, dt⟩).take 36 =
        serializeOutpointMolecule outPoint :=
      take_left' (length_serializeOutpointMolecule outPoint)
    have hs : (serializeCellDepMolecule ⟨outPoint, dt⟩).getD 36 0 = encodeDepType dt := by
      simp [serializeCellDepMolecule, length_serializeOutpointMolecule]
    have hd : decodeDepType (encodeDepType dt) = .ok dt := by cases dt <;> rfl
    unfold deserializeCellDepMolecule
    rw [hf, hs, hd,
      lossless_outpoint.decode_encode ho (by rw [length_serializeOutpointMolecule]; decide)]
    rfl
  encode_decode := by
    intro bytes dep h
    obtain ⟨hle, h⟩ := guard_eq_ok_iff.mp h
    obtain ⟨outPoint, ho, h⟩ := bind_ok h
    obtain ⟨dt, hd, h⟩ := bind_ok h
    cases h
    obtain ⟨hv, ht⟩ := lossless_outpoint.encode_decode ho
    have hdr : bytes.drop 36 = [bytes.getD 36 0] := by
      have hl : 36 < bytes.length := by omega
      rw [drop_eq_getElem_cons hl, drop_of_length_le (by omega), getD_eq_getElem?_getD,
        getElem?_eq_getElem hl, Option.getD_some]
    refine ⟨hv, ?_⟩
    rw [serializeCellDepMolecule, ht, encodeDepType_of_decodeDepType hd, ← hdr, take_append_drop]

-- The numbers are in the range of their types.
def ScriptRanged (script : Script) : Prop := Fits 32 script.codeHash ∧ Fits 1 script.hashType

def OutputRanged (output : CellOutput) : Prop :=
  ScriptRanged output.lock ∧ (∀ type_ ∈ output.type_, ScriptRanged type_) ∧ Fits 8 output.capacity

structure TxRanged (tx : CellTx) : Prop where
  version : Fits 4 tx.version
  inputs : ∀ input ∈ tx.inputs, input.Typed
  cellDeps : ∀ dep ∈ tx.cellDeps, dep.Typed
  headerDeps : ∀ hash ∈ tx.headerDeps, Fits 32 hash
  outputs : ∀ output ∈ tx.outputs, OutputRanged output

theorem lossless_script :
    Lossless (2 ^ 32) ScriptRanged serializeScriptMolecule deserializeScriptMolecule where
  decode_encode := by
    rintro ⟨codeHash, hashType, args⟩ ⟨hc, hh⟩ hs
    obtain ⟨hf, hfi⟩ := readFields "Script" (cons_ne_nil _ _) hs
    rw [length_cons, length_cons, length_singleton] at hf
    unfold deserializeScriptMolecule serializeScriptMolecule
    rw [hf, ok_bind]
    simp only [getD_cons_zero, getD_cons_succ, decodeArray32, decodeByte]
    rw [lossless_decodeFixed.decode_encode hc (hfi _ (by simp)), ok_bind,
      lossless_decodeFixed.decode_encode hh (hfi _ (by simp)), ok_bind,
      lossless_bytes.decode_encode trivial (hfi _ (by simp)), ok_bind]
  encode_decode := by
    intro bytes scr h
    obtain ⟨fields, hf, hp⟩ := bind_ok h
    obtain ⟨hl, rfl⟩ := encodeTable_of_decodeTable hf
    obtain ⟨first, second, third, rfl⟩ := length_eq_three.mp hl
    obtain ⟨codeHash, hc, hp⟩ := bind_ok hp
    obtain ⟨hashType, hh, hp⟩ := bind_ok hp
    obtain ⟨args, ha, hp⟩ := bind_ok hp
    cases hp
    obtain ⟨hr, rfl⟩ := lossless_decodeFixed.encode_decode hc
    obtain ⟨hr', rfl⟩ := lossless_decodeFixed.encode_decode hh
    obtain ⟨-, rfl⟩ := lossless_bytes.encode_decode ha
    exact ⟨⟨hr, hr'⟩, rfl⟩

theorem serializeScriptMolecule_ne_nil (scr) : serializeScriptMolecule scr ≠ [] := by
  refine ne_nil_of_length_pos ?_
  rw [serializeScriptMolecule, length_encodeTable]
  exact Nat.add_pos_left (Nat.mul_pos (by decide) (Nat.succ_pos _)) _

theorem lossless_scriptOpt :
    Lossless (2 ^ 32) (fun o : Option Script => ∀ scr ∈ o, ScriptRanged scr) encodeScriptOpt
    decodeScriptOpt :=
  lossless_script.option serializeScriptMolecule_ne_nil

theorem lossless_cellOutput :
    Lossless (2 ^ 32) OutputRanged serializeCellOutputMolecule deserializeCellOutputMolecule where
  decode_encode := by
    rintro ⟨lock, type_, capacity⟩ ⟨hl, ht, hc⟩ hs
    obtain ⟨hf, hfi⟩ := readFields "CellOutput" (cons_ne_nil _ _) hs
    rw [length_cons, length_cons, length_singleton] at hf
    unfold deserializeCellOutputMolecule serializeCellOutputMolecule
    rw [hf, ok_bind]
    simp only [getD_cons_zero, getD_cons_succ, decodeU64]
    rw [lossless_decodeFixed.decode_encode hc (hfi _ (by simp)), ok_bind,
      lossless_script.decode_encode hl (hfi _ (by simp)), ok_bind,
      lossless_scriptOpt.decode_encode ht (hfi _ (by simp)), ok_bind]
  encode_decode := by
    intro bytes output h
    obtain ⟨fields, hf, hp⟩ := bind_ok h
    obtain ⟨hle, rfl⟩ := encodeTable_of_decodeTable hf
    obtain ⟨first, second, third, rfl⟩ := length_eq_three.mp hle
    obtain ⟨capacity, hc, hp⟩ := bind_ok hp
    obtain ⟨lock, hl, hp⟩ := bind_ok hp
    obtain ⟨type_, ht, hp⟩ := bind_ok hp
    cases hp
    obtain ⟨hr, rfl⟩ := lossless_decodeFixed.encode_decode hc
    obtain ⟨hr', rfl⟩ := lossless_script.encode_decode hl
    obtain ⟨hr'', rfl⟩ := lossless_scriptOpt.encode_decode ht
    exact ⟨⟨hr', hr'', hr⟩, rfl⟩

end Cells

section Transactions

variable {ty : String}

theorem lossless_cellDeps :
    Lossless (2 ^ 32) (fun l : List CellDep => ∀ dep ∈ l,
      dep.Typed) encodeFixvecCellDeps decodeFixvecCellDeps :=
  lossless_fixvec lossless_cellDep length_serializeCellDepMolecule (by decide)

theorem lossless_byte32 :
    Lossless (2 ^ 32) (fun l : List Hash => ∀ hash ∈ l, Fits 32 hash) encodeFixvecByte32
    (decodeFixvecByte32 · ty) :=
  lossless_fixvec lossless_decodeFixed (length_leBytes 32) (by decide)

theorem lossless_cellInputs :
    Lossless (2 ^ 32) (fun l : List CellInput => ∀ input ∈ l, input.Typed) encodeFixvecCellInputs
    decodeFixvecCellInputs :=
  lossless_fixvec lossless_cellInput length_serializeCellInputMolecule (by decide)

theorem lossless_cellOutputs :
    Lossless (2 ^ 32) (fun l : List CellOutput => ∀ output ∈ l,
      OutputRanged output) encodeDynvecCellOutputs decodeDynvecCellOutputs :=
  lossless_dynvec lossless_cellOutput

theorem lossless_bytesVec :
    Lossless (2 ^ 32) (fun l : List Bytes => ∀ bytes ∈ l, True) encodeBytesVec
    (decodeBytesVec · ty) :=
  lossless_dynvec lossless_bytes

theorem lossless_rawTransaction :
    Lossless (2 ^ 32) (fun tx => TxRanged tx ∧ tx.outputs.length = tx.outputsData.length ∧
      tx.witnesses = [])
    serializeRawTransactionMolecule deserializeRawTransactionMolecule where
  decode_encode := by
    rintro ⟨version, inputs, cellDeps, headerDeps, outputs, outputsData, witnesses⟩ ⟨hr, hd, rfl⟩ hs
    obtain ⟨hfi, hf⟩ := readFields "RawTransaction" (cons_ne_nil _ _) hs
    simp only [length_cons, length_nil] at hfi
    unfold deserializeRawTransactionMolecule serializeRawTransactionMolecule
    rw [hfi, ok_bind]
    simp only [getD_cons_zero, getD_cons_succ, decodeU32]
    rw [lossless_cellOutputs.decode_encode hr.outputs (hf _ (by simp)), ok_bind,
      lossless_bytesVec.decode_encode (fun _ _ => trivial) (hf _ (by simp)), ok_bind,
      if_neg (not_not.mpr hd),
      lossless_decodeFixed.decode_encode hr.version (hf _ (by simp)), ok_bind,
      lossless_cellDeps.decode_encode hr.cellDeps (hf _ (by simp)), ok_bind,
      lossless_byte32.decode_encode hr.headerDeps (hf _ (by simp)), ok_bind,
      lossless_cellInputs.decode_encode hr.inputs (hf _ (by simp)), ok_bind]
  encode_decode := by
    intro bytes tx h
    obtain ⟨fields, hfi, hp⟩ := bind_ok h
    obtain ⟨hl, rfl⟩ := encodeTable_of_decodeTable hfi
    match fields, hl, hp with
    | [_, _, _, _, _, _], _, hp =>
      obtain ⟨outputs, houtputs, hp⟩ := bind_ok hp
      obtain ⟨outputsData, hou, hp⟩ := bind_ok hp
      split_ifs at hp with hd
      obtain ⟨version, hve, hp⟩ := bind_ok hp
      obtain ⟨cellDeps, hce, hp⟩ := bind_ok hp
      obtain ⟨headerDeps, hhe, hp⟩ := bind_ok hp
      obtain ⟨inputs, hin, hp⟩ := bind_ok hp
      cases hp
      obtain ⟨hv, rfl⟩ := lossless_decodeFixed.encode_decode hve
      obtain ⟨hc, rfl⟩ := lossless_cellDeps.encode_decode hce
      obtain ⟨hh, rfl⟩ := lossless_byte32.encode_decode hhe
      obtain ⟨hi, rfl⟩ := lossless_cellInputs.encode_decode hin
      obtain ⟨ho, rfl⟩ := lossless_cellOutputs.encode_decode houtputs
      obtain ⟨-, rfl⟩ := lossless_bytesVec.encode_decode hou
      exact ⟨⟨⟨hv, hi, hc, hh, ho⟩, not_not.mp hd, rfl⟩, rfl⟩

theorem transactionMolecule_canonical :
    (∀ tx, TxRanged tx → tx.outputs.length = tx.outputsData.length →
      (serializeTransactionMolecule tx).length < 2 ^ 32 →
      deserializeTransactionMolecule (serializeTransactionMolecule tx) = .ok tx) ∧
    ∀ bytes tx, deserializeTransactionMolecule bytes = .ok tx →
    serializeTransactionMolecule tx = bytes := by
  constructor
  · intro tx hr hd hs
    obtain ⟨hf, hfi⟩ := readFields "Transaction" (cons_ne_nil _ _) hs
    rw [length_cons, length_singleton] at hf
    -- the witnesses are no part of the first field
    have hraw : deserializeRawTransactionMolecule (serializeRawTransactionMolecule tx) =
        .ok { tx with witnesses := [] } :=
      lossless_rawTransaction.decode_encode (a := { tx with witnesses := [] })
        ⟨⟨hr.version, hr.inputs, hr.cellDeps, hr.headerDeps, hr.outputs⟩, hd, rfl⟩
        (hfi _ (mem_cons_self ..))
    unfold deserializeTransactionMolecule serializeTransactionMolecule
    rw [hf, ok_bind]
    simp only [getD_cons_zero, getD_cons_succ]
    rw [hraw, ok_bind, lossless_bytesVec.decode_encode (fun _ _ => trivial) (hfi _ (by simp)),
      ok_bind]
  · intro bytes tx h
    obtain ⟨fields, hf, hp⟩ := bind_ok h
    obtain ⟨hl, rfl⟩ := encodeTable_of_decodeTable hf
    obtain ⟨first, second, rfl⟩ := length_eq_two.mp hl
    obtain ⟨raw, hraw, hp⟩ := bind_ok hp
    obtain ⟨witnesses, hw, hp⟩ := bind_ok hp
    cases hp
    obtain ⟨-, rfl⟩ := lossless_rawTransaction.encode_decode hraw
    obtain ⟨-, rfl⟩ := lossless_bytesVec.encode_decode hw
    rfl

def smallTx : CellTx :=
  { version := CELL_TX_VERSION
    inputs := [⟨⟨7, 1⟩, 0⟩]
    cellDeps := [⟨⟨8, 0⟩, .depGroup⟩]
    headerDeps := [9]
    outputs := [⟨⟨1, 0, [1, 2]⟩, some ⟨2, 1, []⟩, 100⟩]
    outputsData := [[5]]
    witnesses := [[3], []] }

theorem smallTx_readBack :
    TxRanged smallTx ∧ deserializeTransactionMolecule (serializeTransactionMolecule smallTx) =
    .ok smallTx := by
  have hr : TxRanged smallTx := by
    constructor <;> simp [smallTx, CellInput.Typed, CellDep.Typed, OutPoint.Typed, OutputRanged,
      ScriptRanged, Fits, CELL_TX_VERSION]
  exact ⟨hr, transactionMolecule_canonical.1 smallTx hr rfl (by decide +kernel)⟩

end Transactions

end Spora.Molecule
