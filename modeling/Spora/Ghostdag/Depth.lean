import Spora.Ghostdag.Protocol

namespace Spora

open Forest BlockDag

-- What a search for the block at some depth uses. `known` is the depth store.
structure DepthSearch where
  dag : BlockDag
  genesisHash : Hash
  depth : Nat
  known : Hash → Hash
  pruningPoint : Hash

namespace DepthSearch

variable (s : DepthSearch) (data : GhostdagEntry)

def blueScore (hash : Hash) : Nat := (s.dag.store hash).blueScore

def walkFrom (current : Hash) : Hash :=
  let requiredBlueScore := data.blueScore - s.depth
  -- the last block of the chain that is deep enough
  ((s.dag.forwardChain current data.selectedParent).takeWhile
    (s.blueScore · < requiredBlueScore)).getLastD current

def blockAtDepth : Hash :=
  if data.selectedParent = ORIGIN then ORIGIN
  else if data.blueScore < s.depth then s.genesisHash
  else if data.blueScore < s.blueScore s.pruningPoint + s.depth then ORIGIN
  else if ¬ s.dag.isChainAncestorOf s.pruningPoint data.selectedParent then ORIGIN
  else
    let current := s.known data.selectedParent
    s.walkFrom data (if current = ORIGIN then s.pruningPoint else current)

-- The highest of the ancestors on the chain whose blue score is less than `blueScore - depth`.
def highestBelow : Hash :=
  ((s.dag.chain.path data.selectedParent).find? (s.blueScore · < data.blueScore - s.depth)).getD
    s.genesisHash

-- The pruning point has exactly the required blue score, and the selected parent has no point that
-- is known.
def AtBound : Prop :=
  data.blueScore = s.blueScore s.pruningPoint + s.depth ∧
    s.depth ≤ s.blueScore data.selectedParent ∧ s.pruningPoint ≠ s.genesisHash

instance : Decidable (s.AtBound data) := inferInstanceAs (Decidable (_ ∧ _))

structure ChainTo (block : Hash) : Prop where
  genesis : s.dag.chain.parent s.genesisHash = none
  root : ∀ x ∈ s.dag.chain.path block, s.dag.chain.parent x = none →
    x = s.genesisHash ∧ (s.dag.store x).selectedParent = ORIGIN
  origin : ORIGIN ∉ s.dag.chain.path block
  grows : ∀ x ∈ s.dag.chain.path block, ∀ y ∈ s.dag.chain.parent x, s.blueScore y < s.blueScore x

variable {s} {data} {a b block : Hash}

namespace ChainTo

theorem parent (h : s.ChainTo a) (hp : s.dag.chain.parent a = some b) : s.ChainTo b :=
  have hsub := path_subset_of_parent hp
  ⟨h.genesis, fun x hx => h.root x (hsub hx), fun ho => h.origin (hsub ho),
    fun x hx => h.grows x (hsub hx)⟩

theorem genesis_mem (h : s.ChainTo block) : s.genesisHash ∈ s.dag.chain.path block := by
  induction block using s.dag.chain.induct with
  | root a hp => exact (h.root a mem_path_self hp).1 ▸ mem_path_self
  | step a b hp ih => exact path_subset_of_parent hp (ih (h.parent hp))

theorem blueScore_le (h : s.ChainTo block) (ha : a ∈ s.dag.chain.path block)
    (hb : b ∈ s.dag.chain.path a) :
    s.blueScore b ≤ s.blueScore a := by
  induction a using s.dag.chain.induct with
  | root a hp =>
    rw [path_of_root hp, List.mem_singleton] at hb
    rw [hb]
  | step a c hp ih =>
    by_cases hne : a = b
    · rw [hne]
    · have hc := path_subset_of_parent hp mem_path_self
      exact (ih (mem_path_trans ha hc) (mem_path_parent hp hne hb)).trans (h.grows a ha c hp).le

theorem walkFrom_eq (h : s.ChainTo data.selectedParent)
    (ha : a ∈ s.dag.chain.path data.selectedParent)
    (hdeep : s.blueScore a < data.blueScore - s.depth ∨ a = s.genesisHash) :
    s.walkFrom data a = s.highestBelow data := by
  have hd : ∀ x ∈ s.dag.chain.path data.selectedParent, ∀ y ∈ s.dag.chain.path x,
      decide (s.blueScore x < data.blueScore - s.depth) →
          decide (s.blueScore y < data.blueScore - s.depth) := by
    intro x hx y hy hlt
    simp only [decide_eq_true_eq] at hlt ⊢
    exact (h.blueScore_le hx hy).trans_lt hlt
  rw [walkFrom, forwardChain_eq, highestBelow, getLastD_takeWhile_forward hd ha]
  · -- a starting point that is deep enough is found, unless a higher one is
    rcases hdeep with hlt | rfl
    · cases hf : (s.dag.chain.path data.selectedParent).find?
          (s.blueScore · < data.blueScore - s.depth) with
      | none => exact absurd (decide_eq_true hlt) (List.find?_eq_none.mp hf a ha)
      | some x => rfl
    · rfl
  · exact hdeep.imp (by simp) fun heq : a = s.genesisHash => heq ▸ h.genesis

theorem eq_genesis (h : s.ChainTo a) (horigin : (s.dag.store a).selectedParent = ORIGIN) :
    a = s.genesisHash ∧ s.dag.chain.path a = [a] := by
  cases hp : s.dag.chain.parent a with
  | none => exact ⟨(h.root a mem_path_self hp).1, path_of_root hp⟩
  | some b =>
    refine absurd (path_subset_of_parent hp ?_) h.origin
    rw [← horigin, selectedParent_of_chain_parent hp]
    exact mem_path_self

end ChainTo

theorem blockAtDepth_cases (s : DepthSearch) (horigin : data.selectedParent ≠ ORIGIN) :
    data.blueScore < s.depth ∧ s.blockAtDepth data = s.genesisHash ∨
    s.depth ≤ data.blueScore ∧ s.blockAtDepth data = ORIGIN ∨
    s.blueScore s.pruningPoint + s.depth ≤ data.blueScore ∧
      s.pruningPoint ∈ s.dag.chain.path data.selectedParent ∧
      s.blockAtDepth data = s.walkFrom data
        (if s.known data.selectedParent = ORIGIN then s.pruningPoint
        else s.known data.selectedParent) := by
  unfold blockAtDepth
  rw [if_neg horigin]
  by_cases hlow : data.blueScore < s.depth
  · exact .inl ⟨hlow, if_pos hlow⟩
  · rw [if_neg hlow]
    by_cases hn : data.blueScore < s.blueScore s.pruningPoint + s.depth
    · exact .inr (.inl ⟨by omega, if_pos hn⟩)
    · rw [if_neg hn]
      by_cases hmem : s.pruningPoint ∈ s.dag.chain.path data.selectedParent
      · exact .inr (.inr ⟨by omega, hmem, if_neg (by simpa [isChainAncestorOf] using hmem)⟩)
      · exact .inr (.inl ⟨by omega, if_pos (by simpa [isChainAncestorOf] using hmem)⟩)

theorem blockAtDepth_eq_origin (hdepth : s.depth ≤ data.blueScore)
    (hnear : data.blueScore < s.blueScore s.pruningPoint + s.depth) :
    s.blockAtDepth data = ORIGIN := by
  simp [blockAtDepth, hnear, hdepth.not_gt]

section Step

variable (hchain : s.ChainTo data.selectedParent)
  (hknown : s.known data.selectedParent = s.blockAtDepth (s.dag.store data.selectedParent))
  (hgrows : s.blueScore data.selectedParent < data.blueScore)

include hchain hknown hgrows

theorem start_deep (hdeep : s.blueScore s.pruningPoint + s.depth ≤ data.blueScore)
    (hmem : s.pruningPoint ∈ s.dag.chain.path data.selectedParent) (hbound : ¬ s.AtBound data)
    (horigin : s.known data.selectedParent = ORIGIN) :
    s.blueScore s.pruningPoint < data.blueScore - s.depth ∨ s.pruningPoint = s.genesisHash := by
  refine or_iff_not_imp_right.mpr fun hne => ?_
  have hlow : ¬ (data.blueScore = s.blueScore s.pruningPoint + s.depth ∧
      s.depth ≤ s.blueScore data.selectedParent) :=
    fun ⟨hs, hle⟩ => hbound ⟨hs, hle, hne⟩
  by_cases hr : (s.dag.store data.selectedParent).selectedParent = ORIGIN
  · obtain ⟨heq, hpa⟩ := hchain.eq_genesis hr
    rw [hpa, List.mem_singleton] at hmem
    exact absurd (hmem.trans heq) hne
  · rcases s.blockAtDepth_cases hr with
      ⟨-, hp⟩ | ⟨(hle : _ ≤ s.blueScore data.selectedParent), -⟩ |
        ⟨(hle : _ ≤ s.blueScore data.selectedParent), -⟩
    · refine absurd ?_ hchain.origin
      rw [← horigin, hknown, hp]
      exact hchain.genesis_mem
    · omega
    · omega

theorem blockAtDepth_step (hparent : s.known data.selectedParent ≠ ORIGIN →
      s.dag.chain.path (s.dag.store data.selectedParent).selectedParent ⊆ s.dag.chain.path
      data.selectedParent ∧
      s.known data.selectedParent =
      if s.AtBound (s.dag.store data.selectedParent) then s.pruningPoint
        else s.highestBelow (s.dag.store data.selectedParent)) (h : s.blockAtDepth data ≠ ORIGIN) :
    s.blockAtDepth data = if s.AtBound data then s.pruningPoint else s.highestBelow data := by
  have ho : data.selectedParent ≠ ORIGIN := fun heq => hchain.origin (heq ▸ mem_path_self)
  rcases s.blockAtDepth_cases ho with ⟨hlow, heq⟩ | ⟨-, heq⟩ | ⟨hde, hmem, heq⟩
  · have hb : ¬ s.AtBound data := by
      rintro ⟨hs, -⟩
      omega
    have hn : (s.dag.chain.path data.selectedParent).find?
        (fun x => decide (s.blueScore x < data.blueScore - s.depth)) = none := by
      simp [Nat.sub_eq_zero_of_le hlow.le]
    rw [heq, if_neg hb, highestBelow, hn, Option.getD_none]
  · exact absurd heq h
  · rw [heq]
    by_cases hb : s.AtBound data
    · have hn := hknown.trans (blockAtDepth_eq_origin hb.2.1 (hb.1 ▸ hgrows))
      -- the pruning point is not deep enough, and the walk does not leave it
      rw [if_pos hb, if_pos hn]
      simp [walkFrom, forwardChain, hb.1]
    · rw [if_neg hb]
      by_cases hn : s.known data.selectedParent = ORIGIN
      · rw [if_pos hn]
        exact hchain.walkFrom_eq hmem (start_deep hchain hknown hgrows hde hmem hb hn)
      · obtain ⟨hsub, hv⟩ := hparent hn
        rw [if_neg hn, hv]
        split_ifs with hpa
        · have hs : s.blueScore data.selectedParent = _ := hpa.1
          exact hchain.walkFrom_eq hmem (.inl (by omega))
        · unfold highestBelow
          cases hf : (s.dag.chain.path (s.dag.store data.selectedParent).selectedParent).find?
              fun x =>
              s.blueScore x < (s.dag.store data.selectedParent).blueScore - s.depth with
          | none => exact hchain.walkFrom_eq hchain.genesis_mem (.inr rfl)
          | some point =>
            have hp := List.find?_some hf
            have hp : s.blueScore point < s.blueScore data.selectedParent - s.depth :=
              of_decide_eq_true hp
            have hd : s.blueScore point < data.blueScore - s.depth := by omega
            exact hchain.walkFrom_eq (hsub (List.mem_of_find?_eq_some hf)) (.inl hd)

end Step

-- Every block of the chain has the point that was computed for it.
def Computed (s : DepthSearch) (block : Hash) : Prop :=
  ∀ x ∈ s.dag.chain.path block, s.known x = s.blockAtDepth (s.dag.store x)

theorem blockAtDepth_eq (hchain : s.ChainTo data.selectedParent)
    (hknown : s.Computed data.selectedParent)
    (hgrows : s.blueScore data.selectedParent < data.blueScore) (h : s.blockAtDepth data ≠ ORIGIN) :
    s.blockAtDepth data = if s.AtBound data then s.pruningPoint else s.highestBelow data := by
  generalize hpa : data.selectedParent = block at hchain hknown hgrows
  induction block using s.dag.chain.induct generalizing data with
  | root a hp =>
    subst hpa
    have hs := hknown _ mem_path_self
    have hr := (hchain.root _ mem_path_self hp).2
    have ho : s.known data.selectedParent = ORIGIN := by rw [hs, blockAtDepth, if_pos hr]
    exact blockAtDepth_step hchain hs hgrows (absurd ho) h
  | step a b hp ih =>
    subst hpa
    have hs := hknown _ mem_path_self
    have hpa := selectedParent_of_chain_parent hp
    have hsub := path_subset_of_parent hp
    refine blockAtDepth_step hchain hs hgrows (fun hne => ⟨hpa ▸ hsub, hs.trans ?_⟩) h
    exact ih (hs ▸ hne) hpa (hchain.parent hp) (fun x hx => hknown x (hsub hx))
      (hchain.grows _ mem_path_self b hp)

theorem AtBound.ne_highestBelow (h : s.AtBound data) : s.pruningPoint ≠ s.highestBelow data := by
  unfold highestBelow
  cases hf : (s.dag.chain.path data.selectedParent).find? (s.blueScore · < data.blueScore - s.depth)
      with
  | none => exact h.2.2
  | some point =>
    have hp := List.find?_some hf
    rw [decide_eq_true_eq, h.1, Nat.add_sub_cancel] at hp
    exact fun heq : s.pruningPoint = point => absurd hp (heq ▸ Nat.lt_irrefl _)

theorem blockAtDepth_eq_highestBelow_iff (hchain : s.ChainTo data.selectedParent)
    (hknown : s.Computed data.selectedParent)
    (hgrows : s.blueScore data.selectedParent < data.blueScore) (h : s.blockAtDepth data ≠ ORIGIN) :
    s.blockAtDepth data = s.highestBelow data ↔ ¬ s.AtBound data := by
  rw [blockAtDepth_eq hchain hknown hgrows h]
  split_ifs with hb
  · exact iff_of_false hb.ne_highestBelow (not_not_intro hb)
  · exact iff_of_true rfl hb

end DepthSearch

inductive BlockDepthType
  | mergeRoot
  | finality
deriving DecidableEq, Repr

structure DepthStore where
  mergeDepthRoot : Hash → Hash
  finalityPoint : Hash → Hash

structure BlockDepthManager where
  mergeDepth : Nat
  finalityDepth : Nat
  genesisHash : Hash
  dag : BlockDag

namespace BlockDepthManager

variable (self : BlockDepthManager) (depthStore : DepthStore) (depthType : BlockDepthType)

def search (pruningPoint : Hash) : DepthSearch where
  dag := self.dag
  genesisHash := self.genesisHash
  depth := match depthType with
    | .mergeRoot => self.mergeDepth
    | .finality => self.finalityDepth
  known := match depthType with
    | .mergeRoot => depthStore.mergeDepthRoot
    | .finality => depthStore.finalityPoint
  pruningPoint := pruningPoint

def calculateBlockAtDepth (data : GhostdagEntry) (pruningPoint : Hash) : Hash :=
  (self.search depthStore depthType pruningPoint).blockAtDepth data

theorem calculateBlockAtDepth_agree_iff (store₁ store₂ : DepthStore) (p₁ p₂ : Hash)
    (data : GhostdagEntry) (hchain : (self.search store₁ depthType p₁).ChainTo data.selectedParent)
    (hgrows : (self.dag.store data.selectedParent).blueScore < data.blueScore)
    (h₁ : (self.search store₁ depthType p₁).Computed data.selectedParent)
    (h₂ : (self.search store₂ depthType p₂).Computed data.selectedParent)
    (hne₁ : self.calculateBlockAtDepth store₁ depthType data p₁ ≠ ORIGIN)
    (hne₂ : self.calculateBlockAtDepth store₂ depthType data p₂ ≠ ORIGIN) :
    let found₁ := self.calculateBlockAtDepth store₁ depthType data p₁
    let found₂ := self.calculateBlockAtDepth store₂ depthType data p₂
    found₁ = found₂ ∧ found₁ = (self.search store₁ depthType p₁).highestBelow data ↔
      ¬ (self.search store₁ depthType p₁).AtBound data ∧
          ¬ (self.search store₂ depthType p₂).AtBound data := by
  have hc₂ : (self.search store₂ depthType p₂).ChainTo data.selectedParent :=
    ⟨hchain.genesis, hchain.root, hchain.origin, hchain.grows⟩
  have hi₁ := DepthSearch.blockAtDepth_eq_highestBelow_iff hchain h₁ hgrows hne₁
  have hi₂ := DepthSearch.blockAtDepth_eq_highestBelow_iff hc₂ h₂ hgrows hne₂
  constructor
  · rintro ⟨heq, hh⟩
    exact ⟨hi₁.mp hh, hi₂.mp (heq.symm.trans hh)⟩
  · rintro ⟨hb₁, hb₂⟩
    have hh := hi₁.mpr hb₁
    exact ⟨hh.trans (hi₂.mpr hb₂).symm, hh⟩

section Sample

def chainDag : BlockDag where
  nodes := List.range 6
  parents hash := if 0 < hash ∧ hash < 6 then [hash - 1] else []
  rank := id
  store hash := { GhostdagEntry.newWithSelectedParent (if hash = 0 then ORIGIN else hash - 1)
    with blueScore := hash }
  calcWork _ := 1
  mem_nodes h := by
    split_ifs at h with hlt
    · rw [List.mem_singleton.mp h, List.mem_range]
      exact (Nat.sub_le _ _).trans_lt hlt.2
    · contradiction
  rank_lt h := by
    split_ifs at h with hlt
    · rw [List.mem_singleton.mp h]
      exact Nat.pred_lt_of_lt hlt.1
    · contradiction
  blueWork_le _ := le_refl _

def chainManager : BlockDepthManager := ⟨2, 2, 0, chainDag⟩

def archivalStore : DepthStore := ⟨fun x => if x = 0 then ORIGIN else x - 3, fun _ => ORIGIN⟩

def prunedStore : DepthStore := ⟨fun x => if x = 1 then 0 else ORIGIN, fun _ => ORIGIN⟩

-- The pruning point 3 has the blue score that is required of the point of block 5.
theorem points_differ_at_bound : (chainManager.search archivalStore .mergeRoot 0).ChainTo 4 ∧
    (chainManager.search archivalStore .mergeRoot 0).Computed 4 ∧
    (chainManager.search prunedStore .mergeRoot 3).Computed 4 ∧
    chainManager.calculateBlockAtDepth archivalStore .mergeRoot (chainDag.store 5) 0 = 2 ∧
    chainManager.calculateBlockAtDepth prunedStore .mergeRoot (chainDag.store 5) 3 = 3 := by
  refine ⟨⟨by decide +kernel, by decide +kernel, by decide +kernel, by decide +kernel⟩, ?_⟩
  unfold DepthSearch.Computed
  decide +kernel

theorem points_agree :
    chainManager.calculateBlockAtDepth archivalStore .mergeRoot (chainDag.store 5) 0 =
    chainManager.calculateBlockAtDepth ⟨fun x => if x = 1 then 0 else if x < 3 then ORIGIN else 1,
      id⟩ .mergeRoot
      (chainDag.store 5) 1 :=
  ((chainManager.calculateBlockAtDepth_agree_iff .mergeRoot archivalStore
    ⟨fun x => if x = 1 then 0 else if x < 3 then ORIGIN else 1, id⟩ 0 1 (chainDag.store 5)
    ⟨by decide +kernel, by decide +kernel, by decide +kernel, by decide +kernel⟩ (by decide)
    (by unfold DepthSearch.Computed; decide +kernel)
      (by unfold DepthSearch.Computed; decide +kernel)
    (by decide +kernel) (by decide +kernel)).mpr ⟨by decide +kernel, by decide +kernel⟩).1

end Sample

end BlockDepthManager

end Spora
