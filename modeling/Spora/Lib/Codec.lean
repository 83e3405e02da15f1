import Spora.Lib.Outcome

-- Decoders that accept what an encoder writes and nothing else. Below a limit on the size of an
-- encoding every valid value is read back.
namespace Codec

open Outcome List

universe u v w

variable {ε : Type u} {α : Type v} {β : Type w}

structure Lossless (limit : Nat) (valid : α → Prop) (encode : α → List β)
    (decode : List β → Except ε α) : Prop where
  decode_encode : ∀ {a : α}, valid a → (encode a).length < limit → decode (encode a) = .ok a
  encode_decode : ∀ {bytes : List β} {a : α}, decode bytes = .ok a → valid a ∧ encode a = bytes

section Elements

variable {limit : Nat} {valid : α → Prop} {encode : α → List β} {decode : List β → Except ε α}

theorem Lossless.mapM_encode (h : Lossless limit valid encode decode) {l : List α}
    (hvalid : ∀ a ∈ l, valid a) (hsize : ∀ a ∈ l, (encode a).length < limit) :
    (l.map encode).mapM decode = .ok l := by
  induction l with
  | nil => rfl
  | cons a l ih =>
    rw [forall_mem_cons] at hvalid hsize
    rw [map_cons, mapM_cons, h.decode_encode hvalid.1 hsize.1, ih hvalid.2 hsize.2]
    rfl

theorem Lossless.encode_mapM (h : Lossless limit valid encode decode) {parts : List (List β)} {l}
    (hl : parts.mapM decode = .ok l) : (∀ a ∈ l, valid a) ∧ l.map encode = parts := by
  induction parts generalizing l with
  | nil =>
    cases hl
    exact ⟨forall_mem_nil _, rfl⟩
  | cons part parts ih =>
    rw [mapM_cons] at hl
    obtain ⟨a, ha, hl⟩ := bind_ok hl
    obtain ⟨rest, hr, hl⟩ := bind_ok hl
    cases hl
    obtain ⟨hva, hpa⟩ := h.encode_decode ha
    obtain ⟨hv, hp⟩ := ih hr
    exact ⟨forall_mem_cons.mpr ⟨hva, hv⟩, by rw [map_cons, hpa, hp]⟩

section Pairs

variable {γ : Type v} {valid' : γ → Prop} {encode' : γ → List β} {decode' : List β → Except ε γ}
  {width : Nat}

variable (h : Lossless limit valid encode decode) (h' : Lossless limit valid' encode' decode')
include h h'

theorem Lossless.decode_append
    (hwidth : ∀ a, (encode a).length = width) {a c} (ha : valid a) (hc : valid' c)
    (hsize : (encode a ++ encode' c).length < limit) :
    decode ((encode a ++ encode' c).take width) = .ok a ∧
    decode' ((encode a ++ encode' c).drop width) = .ok c := by
  rw [length_append] at hsize
  rw [take_left' (hwidth a), drop_left' (hwidth a)]
  exact ⟨h.decode_encode ha (by omega), h'.decode_encode hc (by omega)⟩

theorem Lossless.append_of_decode {bytes a c}
    (ha : decode (bytes.take width) = .ok a) (hc : decode' (bytes.drop width) = .ok c) :
    valid a ∧ valid' c ∧ encode a ++ encode' c = bytes := by
  obtain ⟨hv, ht⟩ := h.encode_decode ha
  obtain ⟨hv', hd⟩ := h'.encode_decode hc
  exact ⟨hv, hv', by rw [ht, hd, take_append_drop]⟩

end Pairs

def encodeOption (encode : α → List β) (o : Option α) : List β := (o.map encode).getD []

def decodeOption (decode : List β → Except ε α) (bytes : List β) : Except ε (Option α) :=
  if bytes.isEmpty then .ok none else some <$> decode bytes

theorem Lossless.option (h : Lossless limit valid encode decode) (hne : ∀ a, encode a ≠ []) :
    Lossless limit (fun o : Option α => ∀ a ∈ o, valid a) (encodeOption encode)
    (decodeOption decode) where
  decode_encode := by
    intro o hv hs
    cases o with
    | none => rfl
    | some a =>
      have hr := h.decode_encode (hv a rfl) hs
      simp [encodeOption, decodeOption, hr, hne a]
  encode_decode := by
    intro bytes o ho
    unfold decodeOption at ho
    split_ifs at ho with he
    · cases ho
      exact ⟨by simp, (isEmpty_iff.mp he).symm⟩
    · cases hr : decode bytes with
      | error e => simp [hr] at ho
      | ok a =>
        rw [hr] at ho
        cases ho
        obtain ⟨hv, hb⟩ := h.encode_decode hr
        exact ⟨by simpa using hv, hb⟩

end Elements

section Chunks

def chunks (width : Nat) : Nat → List β → List (List β)
  | 0, _ => []
  | count + 1, l => l.take width :: chunks width count (l.drop width)

variable {width count : Nat} {l : List β}

@[simp] theorem length_chunks : (chunks width count l).length = count := by
  induction count generalizing l with
  | zero => rfl
  | succ count ih => rw [chunks, length_cons, ih]

theorem chunks_flatMap {encode : α → List β} (hwidth : ∀ a, (encode a).length = width)
    (l : List α) :
    chunks width l.length (l.flatMap encode) = l.map encode := by
  induction l with
  | nil => rfl
  | cons a l ih =>
    rw [length_cons, chunks, flatMap_cons, take_left' (hwidth a), drop_left' (hwidth a), ih,
      map_cons]

theorem flatten_chunks (h : l.length = count * width) : (chunks width count l).flatten = l := by
  induction count generalizing l with
  | zero =>
    have hnil : l = [] := by simpa using h
    rw [hnil, chunks, flatten_nil]
  | succ count ih =>
    have hr : (l.drop width).length = count * width := by
      rw [length_drop, h, Nat.succ_mul, Nat.add_sub_cancel]
    rw [chunks, flatten_cons, ih hr, take_append_drop]

theorem length_of_mem_chunks (h : l.length = count * width) :
    ∀ part ∈ chunks width count l, part.length = width := by
  induction count generalizing l with
  | zero => simp [chunks]
  | succ count ih =>
    have hr : (l.drop width).length = count * width := by
      rw [length_drop, h, Nat.succ_mul, Nat.add_sub_cancel]
    refine forall_mem_cons.mpr ⟨?_, ih hr⟩
    rw [length_take, h, Nat.succ_mul]
    omega

end Chunks

section Offsets

-- Where parts that are laid out from a position on begin, and where the last one ends.
def offsets (start : Nat) : List (List β) → List Nat
  | [] => [start]
  | part :: parts => start :: offsets (start + part.length) parts

def slices (bytes : List β) : List Nat → List (List β)
  | start :: next :: rest => (bytes.take next).drop start :: slices bytes (next :: rest)
  | _ => []

variable {start : Nat} {parts : List (List β)}

@[simp] theorem length_offsets : (offsets start parts).length = parts.length + 1 := by
  induction parts generalizing start with
  | nil => rfl
  | cons part parts ih => simp [offsets, ih]

theorem exists_offsets_eq (start : Nat) (parts : List (List β)) :
    ∃ rest, offsets start parts = start :: rest := by
  cases parts with
  | nil => exact ⟨[], rfl⟩
  | cons part parts => exact ⟨_, rfl⟩

theorem exists_dropLast_offsets_eq (start : Nat) (h : parts ≠ []) :
    ∃ rest, (offsets start parts).dropLast = start :: rest := by
  obtain ⟨part, parts, rfl⟩ := exists_cons_of_ne_nil h
  obtain ⟨rest, hr⟩ := exists_offsets_eq (start + part.length) parts
  exact ⟨_, by rw [offsets, hr, dropLast_cons_cons]⟩

theorem getLast?_offsets :
    (offsets start parts).getLast? = some (start + parts.flatten.length) := by
  induction parts generalizing start with
  | nil => rfl
  | cons part parts ih =>
    obtain ⟨rest, hr⟩ := exists_offsets_eq (start + part.length) parts
    have hl := @ih (start + part.length)
    rw [hr] at hl
    rw [offsets, hr, getLast?_cons_cons, hl, flatten_cons, length_append, Nat.add_assoc]

theorem isChain_offsets : (offsets start parts).IsChain (· ≤ ·) := by
  induction parts generalizing start with
  | nil => exact .singleton _
  | cons part parts ih =>
    obtain ⟨rest, hr⟩ := exists_offsets_eq (start + part.length) parts
    have hc := @ih (start + part.length)
    rw [offsets, hr, isChain_cons_cons]
    exact ⟨Nat.le_add_right _ _, hr ▸ hc⟩

theorem mem_offsets {o} (h : o ∈ offsets start parts) :
    start ≤ o ∧ o ≤ start + parts.flatten.length := by
  induction parts generalizing start with
  | nil => simp_all [offsets]
  | cons part parts ih =>
    rw [flatten_cons, length_append]
    rcases mem_cons.mp h with rfl | hmem
    · omega
    · have hb := ih hmem
      omega

theorem slices_offsets (hd : List β) :
    slices (hd ++ parts.flatten) (offsets hd.length parts) = parts := by
  induction parts generalizing hd with
  | nil => rfl
  | cons part parts ih =>
    have ht := ih (hd ++ part)
    obtain ⟨rest, hr⟩ := exists_offsets_eq (hd.length + part.length) parts
    rw [length_append, hr] at ht
    have hp : ((hd ++ (part ++ parts.flatten)).take (hd.length + part.length)).drop hd.length =
        part := by
      rw [← append_assoc, take_left' (length_append ..), drop_left]
    rw [offsets, hr, slices, flatten_cons, hp, ← append_assoc, ht]

theorem offsets_slices {bytes : List β} {rest} (hchain : (start :: rest).IsChain (· ≤ ·))
    (hlast : (start :: rest).getLast? = some bytes.length) :
    offsets start (slices bytes (start :: rest)) = start :: rest ∧
    (slices bytes (start :: rest)).flatten = bytes.drop start := by
  induction rest generalizing start with
  | nil =>
    obtain rfl : start = bytes.length := by simpa using hlast
    simp [slices, offsets]
  | cons next rest ih =>
    obtain ⟨hle, hchain⟩ := isChain_cons_cons.mp hchain
    rw [getLast?_cons_cons] at hlast
    obtain ⟨ho, hf⟩ := ih hchain hlast
    have hn : next ≤ bytes.length := by
      rcases mem_cons.mp (mem_of_getLast? hlast) with heq | hmem
      · exact Nat.le_of_eq heq.symm
      · exact rel_of_pairwise_cons (isChain_iff_pairwise.mp hchain) hmem
    have hl : start + ((bytes.take next).drop start).length = next := by
      rw [length_drop, length_take]
      omega
    rw [slices, offsets, hl, ho, flatten_cons, hf]
    refine ⟨rfl, ?_⟩
    rw [drop_take, ← Nat.add_sub_cancel' hle, ← drop_drop, Nat.add_sub_cancel_left,
      take_append_drop]

end Offsets

end Codec
