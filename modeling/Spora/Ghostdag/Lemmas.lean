import Spora.Ghostdag.Depth

namespace Spora

open Std List GhostdagEntry Option

namespace BlockDag

variable {dag : BlockDag} {a b : Hash}

theorem blueWork_le_of_below (h : dag.Below a b) :
    (dag.store a).blueWork ≤ (dag.store b).blueWork := by
  induction h with
  | refl => exact Nat.le_refl _
  | tail _ hs ih => exact (dag.blueWork_le hs).trans ih

theorem foldl_sortable_spec {sink best rest}
    (h : rest.foldl (fun best other => if dag.sortableLe best other then other else best) best =
      sink) :
    sink ∈ best :: rest ∧ ∀ other ∈ best :: rest,
      (dag.store other).blueWork ≤ (dag.store sink).blueWork := by
  induction rest generalizing best with
  | nil =>
    subst h
    simp
  | cons other rest ih =>
    rw [foldl_cons] at h
    split_ifs at h with hle
    · obtain ⟨hmem, hall⟩ := ih h
      have hb : (dag.store best).blueWork ≤ (dag.store other).blueWork := by
        simp only [sortableLe, decide_eq_true_eq] at hle
        omega
      exact ⟨mem_cons_of_mem _ hmem, forall_mem_cons.mpr ⟨hb.trans (hall other (by simp)), hall⟩⟩
    · obtain ⟨hmem, hall⟩ := ih h
      obtain ⟨hb, hr⟩ := forall_mem_cons.mp hall
      have ho : (dag.store other).blueWork ≤ (dag.store best).blueWork := by
        simp only [sortableLe, decide_eq_true_eq] at hle
        omega
      refine ⟨?_, forall_mem_cons.mpr ⟨hb, forall_mem_cons.mpr ⟨ho.trans hb, hr⟩⟩⟩
      exact (mem_cons.mp hmem).elim (fun heq => heq ▸ mem_cons_self) (by simp +contextual)

variable {ps : List Hash}

theorem findSelectedParent_spec (hne : ps ≠ []) :
    ∃ sink, dag.findSelectedParent ps = some sink ∧ sink ∈ ps ∧
    ∀ other ∈ ps, (dag.store other).blueWork ≤ (dag.store sink).blueWork := by
  cases ps with
  | nil => contradiction
  | cons parent rest => exact ⟨_, rfl, foldl_sortable_spec rfl⟩

theorem mem_unorderedMergeset_iff {sink}
    (hparents : ∀ parent ∈ ps, parent ≠ sink → ¬ dag.Below parent sink) :
    a ∈ dag.unorderedMergesetWithoutSelectedParent sink ps ↔
    ¬ dag.Below a sink ∧ ∃ parent ∈ ps, dag.Below a parent := by
  rw [unorderedMergesetWithoutSelectedParent, Dag.mem_descendBefore_iff Dag.pastClosed_below]
  · refine and_congr_right fun ha => ⟨?_, ?_⟩
    · rintro ⟨parent, hp, hb⟩
      exact ⟨parent, mem_of_mem_filter hp, hb⟩
    · rintro ⟨parent, hp, hb⟩
      refine ⟨parent, mem_filter.mpr ⟨hp, ?_⟩, hb⟩
      simp only [decide_eq_true_eq]
      rintro rfl
      exact ha hb
  · intro parent hp
    obtain ⟨hp, hne⟩ := mem_filter.mp hp
    exact hparents parent hp (by simpa using hne)

end BlockDag

-- A candidate has at most k blue blocks in its anticone, and each of them has room for one more.
structure CandidateSizes.Fits (k : Nat) (sizes : CandidateSizes) : Prop where
  candidate : sizes.candidate ≤ k
  blues : ∀ {blue : Hash} {size : Nat}, sizes.blues[blue]? = some size → size < k

structure GhostdagEntry.Clustered (k : Nat) (data : GhostdagEntry) : Prop where
  blues : data.mergesetBlues.length ≤ k + 1
  sizes : ∀ {blue : Hash} {size : Nat}, data.bluesAnticoneSizes[blue]? = some size → size ≤ k

namespace GhostdagManager

variable {mg : GhostdagManager} {parents : List Hash} {data data' : GhostdagEntry}

theorem colorBlock_cases {block} (h : mg.colorBlock data block = some data') :
    (∃ sizes, data' = data.addBlue block sizes) ∨ data' = data.addRed block := by
  obtain ⟨coloring, -, h⟩ := bind_eq_some_iff.mp h
  cases coloring with
  | some sizes => exact .inl ⟨sizes, (some.inj h).symm⟩
  | none => exact .inr (some.inj h).symm

theorem foldlM_colorBlock {bs} (h : bs.foldlM mg.colorBlock data = some data') :
    ∃ blues reds, data'.selectedParent = data.selectedParent ∧
    data'.mergesetBlues = data.mergesetBlues ++ blues ∧
    data'.mergesetReds = data.mergesetReds ++ reds ∧ blues.Sublist bs ∧ reds.Sublist bs ∧
    (blues ++ reds).Perm bs := by
  induction bs generalizing data with
  | nil =>
    cases h
    exact ⟨[], [], by simp⟩
  | cons block bs ih =>
    obtain ⟨next, hn, h⟩ := bind_eq_some_iff.mp h
    obtain ⟨blues, reds, hp, hb, hr, hbl, hred, hpe⟩ := ih h
    rcases colorBlock_cases hn with ⟨sizes, rfl⟩ | rfl
    · refine ⟨block :: blues, reds, hp, ?_, hr, hbl.cons_cons _, hred.cons _, hpe.cons _⟩
      simp [hb, addBlue]
    · refine ⟨blues, block :: reds, hp, hb, ?_, hbl.cons _, hred.cons_cons _,
        perm_middle.trans (hpe.cons _)⟩
      simp [hr, addRed]

-- The selected parent and the mergeset, parted into blue and red blocks.
theorem ghostdag_cases {sink} (hsink : mg.dag.findSelectedParent parents = some sink)
    (h : mg.ghostdag parents = some data) :
    sink = ORIGIN ∧ data = .newWithSelectedParent sink ∨
    ∃ blues, data.selectedParent = sink ∧ data.mergesetBlues = sink :: blues ∧
    blues.Sublist (mg.dag.orderedMergesetWithoutSelectedParent sink parents) ∧
    data.mergesetReds.Sublist (mg.dag.orderedMergesetWithoutSelectedParent sink parents) ∧
    (blues ++ data.mergesetReds).Perm (mg.dag.orderedMergesetWithoutSelectedParent sink parents) ∧
    data.blueScore = (mg.dag.store sink).blueScore + data.mergesetBlues.length ∧
    data.blueWork = (mg.dag.store sink).blueWork +
    (data.mergesetBlues.map mg.dag.calcWork).sum := by
  unfold ghostdag at h
  rw [hsink] at h
  simp only [bind_eq_bind, bind_some] at h
  split_ifs at h with ho
  · exact .inl ⟨ho, (some.inj h).symm⟩
  · obtain ⟨colored, hc, h⟩ := bind_eq_some_iff.mp h
    cases h
    obtain ⟨blues, reds, hp, hb, hr, hbl, hred, hpe⟩ := foldlM_colorBlock hc
    rw [show colored.mergesetReds = reds from hr]
    exact .inr ⟨blues, hp, hb, hbl, hred, hpe, rfl, rfl⟩

section Cluster

variable {candidate : Hash} {sizes sizes' : CandidateSizes}

theorem checkPeers_fits {peers state} (hs : sizes.Fits mg.k)
    (h : mg.checkPeers data candidate peers sizes = some (state, sizes')) :
    state = .red ∨ sizes'.Fits mg.k := by
  induction peers generalizing sizes with
  | nil =>
    cases h
    exact .inr hs
  | cons peer peers ih =>
    unfold checkPeers at h
    split_ifs at h with hpast
    · exact ih hs h
    · obtain ⟨size, -, h⟩ := bind_eq_some_iff.mp h
      dsimp only at h
      split_ifs at h with hk heq
      · exact .inl (congrArg Prod.fst (some.inj h)).symm
      · exact .inl (congrArg Prod.fst (some.inj h)).symm
      · refine ih ⟨Nat.le_of_not_lt hk, fun {blue size'} hb => ?_⟩ h
        rw [TreeMap.getElem?_insert_eq] at hb
        split_ifs at hb
        · cases hb
          omega
        · exact hs.blues hb

theorem checkBlueCandidateFrom_fits {fuel hash} (hs : sizes.Fits mg.k)
    (h : mg.checkBlueCandidateFrom data candidate fuel hash data' sizes = some (some sizes')) :
    sizes'.Fits mg.k := by
  induction fuel generalizing hash data' sizes with
  | zero => contradiction
  | succ fuel ih =>
    obtain ⟨⟨state, next⟩, hc, h⟩ := bind_eq_some_iff.mp h
    have hn : state = .red ∨ next.Fits mg.k := by
      unfold checkBlueCandidateWithChainBlock at hc
      split_ifs at hc
      · cases hc
        exact .inr hs
      · exact checkPeers_fits hs hc
    cases state with
    | blue =>
      cases h
      exact hn.resolve_left nofun
    | red => cases h
    | pending => exact ih (hn.resolve_left nofun) h

theorem clustered_new (k : Nat) (selectedParent) :
    (newWithSelectedParent selectedParent).Clustered k := by
  refine ⟨Nat.succ_le_succ (Nat.zero_le k), fun {blue size} h => ?_⟩
  rw [newWithSelectedParent, TreeMap.getElem?_insert_eq] at h
  split_ifs at h
  · cases h
    exact Nat.zero_le k
  · simp at h

theorem colorBlock_clustered {block} (hd : data.Clustered mg.k)
    (h : mg.colorBlock data block = some data') :
    data'.Clustered mg.k := by
  obtain ⟨coloring, hc, h⟩ := bind_eq_some_iff.mp h
  cases coloring with
  | none =>
    cases h
    exact ⟨hd.blues, hd.sizes⟩
  | some sizes =>
    cases h
    unfold checkBlueCandidate at hc
    split_ifs at hc with hlen
    · cases hc
    have hs := checkBlueCandidateFrom_fits ⟨Nat.zero_le _, by simp⟩ hc
    refine ⟨?_, fun {blue size} hb => ?_⟩
    · have hl := hd.blues
      simp only [addBlue, length_append, length_singleton]
      omega
    · have hget := TreeMap.get_foldl_insert_toList (fun (m : ExtTreeMap Hash Nat) a => m[a]?)
        (· + 1) (fun m p a => TreeMap.getElem?_insert_eq m p.1 a (p.2 + 1)) sizes.blues
        (data.bluesAnticoneSizes.insert block sizes.candidate) blue
      rw [addBlue, hget, or_eq_some_iff, TreeMap.getElem?_insert_eq] at hb
      rcases hb with hb | ⟨-, hb⟩
      · obtain ⟨old, ho, rfl⟩ := map_eq_some_iff.mp hb
        exact hs.blues ho
      · split_ifs at hb
        · cases hb
          exact hs.candidate
        · exact hd.sizes hb

theorem foldlM_clustered {bs : List Hash} (hd : data.Clustered mg.k)
    (h : bs.foldlM mg.colorBlock data = some data') :
    data'.Clustered mg.k := by
  induction bs generalizing data with
  | nil =>
    cases h
    exact hd
  | cons block bs ih =>
    obtain ⟨next, hn, h⟩ := bind_eq_some_iff.mp h
    exact ih (colorBlock_clustered hd hn) h

end Cluster

-- The blue blocks of a mergeset stay a cluster: no anticone size exceeds k, and the mergeset is
-- parted in its order.
theorem ghostdag_clustered (mg : GhostdagManager) (parents : List Hash) :
    match mg.ghostdag parents with
    | some data => data.Clustered mg.k ∧ (data.selectedParent ≠ ORIGIN →
      let ordered := mg.dag.orderedMergesetWithoutSelectedParent data.selectedParent parents
      ∃ blues, data.mergesetBlues = data.selectedParent :: blues ∧ blues.Sublist ordered ∧
        data.mergesetReds.Sublist ordered ∧ (blues ++ data.mergesetReds).Perm ordered)
    | none => True := by
  split
  · rename_i data h
    obtain ⟨sink, hsink, hrest⟩ := bind_eq_some_iff.mp h
    refine ⟨?_, fun hne => ?_⟩
    · split_ifs at hrest
      · cases hrest
        exact clustered_new _ _
      · obtain ⟨colored, hc, hrest⟩ := bind_eq_some_iff.mp hrest
        cases hrest
        have hcolour := foldlM_clustered (clustered_new _ _) hc
        exact ⟨hcolour.blues, hcolour.sizes⟩
    · rcases ghostdag_cases hsink h with ⟨rfl, rfl⟩ | ⟨blues, rfl, hb, hbl, hred, hpe, -, -⟩
      · contradiction
      · exact ⟨blues, hb, hbl, hred, hpe⟩
  · trivial

end GhostdagManager

end Spora
