import Spora.Cell.Types
import Spora.Lib.HashTree
import Mathlib.Logic.Equiv.List

-- Data availability proofs of segments: the ordered chunks of a segment are committed to by a hash
-- tree, and a sample is a chunk with the siblings on its way up.
namespace Spora

open List HashTree

open HashTree (FullDepth)

-- Blake3 under the two domains of the source, for leaves and for inner nodes.
structure SegmentHasher where
  hashLeaf : Bytes → Hash
  hashInternal : Hash → Hash → Hash

namespace SegmentHasher

def hashing (self : SegmentHasher) : Hashing Bytes Hash where
  leaf := self.hashLeaf
  node := self.hashInternal

abbrev Ideal (self : SegmentHasher) : Prop := self.hashing.Ideal

variable (self : SegmentHasher)

-- In each level chunks(2): neighbours are hashed together, a last chunk of one hash is copied. The
-- loop runs while a level has two hashes or more; a level has fewer hashes than the one before it.
def computeMerkleRootFromLeaves (leaves : List Hash) : Hash :=
  if leaves.isEmpty then 0
  else (reduce self.hashInternal leaves.length leaves).headD 0

def verifyMerkleProof (leaf : Hash) (proof : List Hash) (root : Hash) (index : Nat) : Bool :=
  climb self.hashing leaf proof index == root

end SegmentHasher

structure MerkleTreeBuilder where
  leaves : List Hash := []
deriving DecidableEq, Repr

namespace MerkleTreeBuilder

def addLeaf (self : MerkleTreeBuilder) (hasher : SegmentHasher) (data : Bytes) :
    MerkleTreeBuilder :=
  { leaves := self.leaves ++ [hasher.hashLeaf data] }

def build (self : MerkleTreeBuilder) (hasher : SegmentHasher) : Hash :=
  hasher.computeMerkleRootFromLeaves self.leaves

-- One sibling for each level of two hashes or more, unless the node has no partner there.
def getProof (self : MerkleTreeBuilder) (hasher : SegmentHasher) (index : Nat) : List Hash :=
  if self.leaves.length ≤ index then []
  else siblings hasher.hashInternal self.leaves.length self.leaves index

def ofChunks (hasher : SegmentHasher) (chunks : List Bytes) : MerkleTreeBuilder :=
  chunks.foldl (fun builder chunk => builder.addLeaf hasher chunk) {}

end MerkleTreeBuilder

def SegmentHasher.computeSegmentRoot (self : SegmentHasher) (chunks : List Bytes) : Hash :=
  (MerkleTreeBuilder.ofChunks self chunks).build self

inductive SegmentError
  | database (message : String)
  | segmentNotFound (segmentId : Nat)
  | invalidProof (message : String)
  | io (message : String)
deriving DecidableEq, Repr

structure SegmentProof where
  segmentId : Nat
  leafIndex : UInt32
  chunkData : Bytes
  chunkOffset : Nat
  chunkLength : UInt32
  merklePath : List Hash
  segmentRoot : Hash
deriving DecidableEq, Repr

namespace SegmentProof

def verify (self : SegmentProof) (hasher : SegmentHasher) : Except SegmentError Bool :=
  if self.chunkData.length ≠ self.chunkLength.toNat then .ok false
  else
    let leaf := hasher.hashLeaf self.chunkData
    .ok (hasher.verifyMerkleProof leaf self.merklePath self.segmentRoot self.leafIndex.toNat)

def ofChunks (hasher : SegmentHasher) (segmentId chunkOffset : Nat) (chunks : List Bytes)
    (leafIndex : UInt32) (chunk : Bytes) : SegmentProof where
  segmentId
  leafIndex
  chunkData := chunk
  chunkOffset
  chunkLength := UInt32.ofNat chunk.length
  merklePath := (MerkleTreeBuilder.ofChunks hasher chunks).getProof hasher leafIndex.toNat
  segmentRoot := hasher.computeSegmentRoot chunks

end SegmentProof

section Tree

variable {H : SegmentHasher} {chunks : List Bytes}

theorem MerkleTreeBuilder.leaves_ofChunks (H : SegmentHasher) (chunks) :
    (ofChunks H chunks).leaves = chunks.map H.hashLeaf := by
  have hf : ∀ bd : MerkleTreeBuilder,
        (chunks.foldl (fun bd chunk => bd.addLeaf H chunk) bd).leaves =
        bd.leaves ++ chunks.map H.hashLeaf := by
    induction chunks with
    | nil => exact fun bd => (append_nil _).symm
    | cons chunk chunks ih =>
      intro bd
      rw [foldl_cons, ih, addLeaf, append_assoc, map_cons, singleton_append]
  exact hf {}

theorem SegmentHasher.exists_tree (H : SegmentHasher) (hne : chunks ≠ []) :
    ∃ t : HashTree Bytes, t.leaves = chunks ∧ t.LeftFull (Nat.clog 2 chunks.length) ∧
    H.computeSegmentRoot chunks = t.root H.hashing ∧
    ∀ i < chunks.length, (MerkleTreeBuilder.ofChunks H chunks).getProof H i =
    t.path H.hashing i := by
  obtain ⟨t, hr, hl, ht⟩ := reduce_leaves hne (Nat.le_refl _)
  have hb := MerkleTreeBuilder.leaves_ofChunks H chunks
  refine ⟨t, hl, ht, ?_, ?_⟩
  · have hmap : chunks.map H.hashLeaf =
        (chunks.map leaf).map (root H.hashing) := by
      rw [map_map]
      rfl
    have hro : reduce H.hashInternal chunks.length (chunks.map H.hashLeaf) =
        [t.root H.hashing] := by
      rw [hmap, reduce_map (f := node) (fun _ _ => rfl), hr, map_singleton]
    have hle : (chunks.map H.hashLeaf).isEmpty = false := by
      rw [isEmpty_map]
      exact isEmpty_eq_false_iff.mpr hne
    rw [computeSegmentRoot, MerkleTreeBuilder.build, computeMerkleRootFromLeaves, hb, hle,
      length_map, hro]
    rfl
  · intro i hi
    rw [MerkleTreeBuilder.getProof, hb, length_map, if_neg (Nat.not_le.mpr hi)]
    exact siblings_leaves H.hashing (Nat.le_refl _) hr hi

theorem MerkleTreeBuilder.length_getProof (H : SegmentHasher) {i} (hi : i < chunks.length) :
    ((ofChunks H chunks).getProof H i).length = Nat.clog 2 chunks.length ↔
    FullDepth chunks.length i := by
  have hl := (length_siblings H.hashInternal (chunks.map H.hashLeaf) i (Nat.le_refl _)).2
  rw [getProof, leaves_ofChunks, if_neg (by rw [length_map]; exact Nat.not_le.mpr hi)]
  rw [length_map] at hl ⊢
  exact hl

theorem SegmentProof.verify_eq_true_iff {proof : SegmentProof} :
    proof.verify H = .ok true ↔ proof.chunkData.length = proof.chunkLength.toNat ∧
    climb H.hashing (H.hashLeaf proof.chunkData) proof.merklePath
    proof.leafIndex.toNat = proof.segmentRoot := by
  rw [verify]
  split
  case isTrue hne => simp [hne]
  case isFalse heq =>
    simp only [SegmentHasher.verifyMerkleProof, Except.ok.injEq, beq_iff_eq]
    exact (and_iff_right (not_not.mp heq)).symm

end Tree

namespace SegmentHasher

def sample : SegmentHasher where
  hashLeaf data := 2 * Encodable.encode (data.map UInt8.toNat)
  hashInternal left right := 2 * Nat.pair left right + 1

theorem sample_ideal : sample.Ideal where
  leaf_inj := by
    intro a b hab
    have he := Nat.eq_of_mul_eq_mul_left Nat.two_pos hab
    have ht : Function.Injective UInt8.toNat := fun _ _ => UInt8.toNat_inj.mp
    exact ht.list_map (Encodable.encode_injective he)
  node_inj := by
    intro a b c d h
    have hp : Nat.pair a b = Nat.pair c d := by
      have h' : 2 * Nat.pair a b + 1 = 2 * Nat.pair c d + 1 := h
      omega
    exact Nat.pair_eq_pair.mp hp
  leaf_ne_node := by
    intro a b c h
    have h' : 2 * Encodable.encode (a.map UInt8.toNat) = 2 * Nat.pair b c + 1 := h
    omega

end SegmentHasher

namespace SegmentProof

-- A leaf whose way up passes a level without a partner has fewer siblings than bits, and the
-- verifier then turns at the wrong places.
theorem ofChunks_verifies_iff (hasher : SegmentHasher) (segmentId chunkOffset : Nat)
    (chunks : List Bytes) (leafIndex : UInt32) (chunk : Bytes)
    (hchunk : chunks[leafIndex.toNat]? = some chunk) :
    (chunk.length < 2 ^ 32 ∧ FullDepth chunks.length leafIndex.toNat →
      (ofChunks hasher segmentId chunkOffset chunks leafIndex chunk).verify hasher = .ok true) ∧
    (hasher.Ideal → (ofChunks hasher segmentId chunkOffset chunks leafIndex chunk).verify hasher =
      .ok true → chunk.length < 2 ^ 32 ∧ FullDepth chunks.length leafIndex.toNat) := by
  have hi := (List.getElem?_eq_some_iff.mp hchunk).1
  have hne : chunks ≠ [] := ne_nil_of_length_pos (Nat.zero_lt_of_lt hi)
  obtain ⟨t, hl, ht, hr, hp⟩ := hasher.exists_tree hne
  have hd := MerkleTreeBuilder.length_getProof hasher hi
  rw [← hl] at hchunk
  rw [verify_eq_true_iff]
  simp only [ofChunks]
  rw [hp _ hi] at hd ⊢
  rw [hr]
  constructor
  · rintro ⟨hs, hf⟩
    exact ⟨(Nat.mod_eq_of_lt hs).symm, ht.climb_path hchunk (hd.mpr hf)⟩
  · rintro hid ⟨hs, hc⟩
    have hmod : chunk.length % 2 ^ 32 < 2 ^ 32 := Nat.mod_lt _ (Nat.two_pow_pos 32)
    exact ⟨hs ▸ hmod, hd.mp (hid.length_path_of_climb ht hchunk hc)⟩

theorem ofChunks_verifies_pair :
    (ofChunks .sample 0 1 [[1], [2]] 1 [2]).verify .sample = .ok true :=
  (ofChunks_verifies_iff .sample 0 1 [[1], [2]] 1 [2] rfl).1 ⟨by decide, by decide⟩

-- Of three leaves the last one moves up beside the hash of the other two, which the verifier puts
-- on its right.
theorem ofChunks_rejected :
    (ofChunks .sample 0 2 [[1], [2], [3]] 2 [3]).verify .sample = .ok false := by
  decide +kernel

-- What a verified path opens is where its index says when the path has full length.
theorem verified_position_iff (hasher : SegmentHasher) (hideal : hasher.Ideal) (chunks : List Bytes)
    (hne : chunks ≠ []) (proof : SegmentProof)
    (hroot : proof.segmentRoot = hasher.computeSegmentRoot chunks)
    (hverify : proof.verify hasher = .ok true) :
    (proof.leafIndex.toNat < chunks.length ∧ proof.merklePath.length = Nat.clog 2 chunks.length →
      chunks[proof.leafIndex.toNat]? = some proof.chunkData) ∧
    (chunks.Nodup → chunks[proof.leafIndex.toNat]? = some proof.chunkData →
      proof.leafIndex.toNat < chunks.length ∧
      proof.merklePath.length = Nat.clog 2 chunks.length) := by
  obtain ⟨t, hl, ht, htr, -⟩ := hasher.exists_tree hne
  have hc := (verify_eq_true_iff.mp hverify).2
  rw [hroot, htr] at hc
  obtain ⟨i, hd, hpa, hin⟩ := hideal.exists_of_climb ht hc
  rw [hl] at hd
  constructor
  · rintro ⟨hlt, hle⟩
    have hpow := ht.length_leaves_le
    rw [hl] at hpow
    rw [← Nat.mod_eq_of_lt (hlt.trans_le hpow), ← hin hle]
    exact hd
  · intro hn hp
    have hlt := (List.getElem?_eq_some_iff.mp hp).1
    obtain rfl := (getElem?_inj (List.getElem?_eq_some_iff.mp hd).1 hn).mp (hd.trans hp.symm)
    rw [hpa] at hc ⊢
    exact ⟨hlt, hideal.length_path_of_climb ht (hl ▸ hp) hc⟩

-- The second of three chunks, with the first one as a sibling below and the third one above.
def second : SegmentProof := ofChunks .sample 0 1 [[1], [2], [3]] 1 [2]

theorem second_position : second.merklePath.length = 2 ∧ second.verify .sample = .ok true ∧
    [[(1 : UInt8)], [2], [3]][second.leafIndex.toNat]? = some second.chunkData :=
  have hverify : second.verify .sample = .ok true := by decide +kernel
  ⟨by decide +kernel, hverify,
    (verified_position_iff .sample SegmentHasher.sample_ideal [[1], [2], [3]]
    (cons_ne_nil _ _) second rfl hverify).1 ⟨by decide, by decide +kernel⟩⟩

-- The third of three chunks with its one sibling, shown as the second.
def misplaced : SegmentProof := { ofChunks .sample 0 2 [[1], [2], [3]] 2 [3] with leafIndex := 1 }

theorem misplaced_verifies :
    misplaced.segmentRoot = SegmentHasher.sample.computeSegmentRoot [[1], [2], [3]] ∧
    misplaced.verify .sample = .ok true ∧
    [[(1 : UInt8)], [2], [3]][misplaced.leafIndex.toNat]? ≠ some misplaced.chunkData := by
  decide +kernel

end SegmentProof

end Spora
