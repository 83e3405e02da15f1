import Spora.Exec.CellDag
import Mathlib.Data.List.Count
import Mathlib.Data.List.Induction

namespace Spora

open Std Outcome List CellDAG CellTx

namespace CellDAG

section Layers

-- How often a successor was visited is what its degree has lost, and it joins the next layer when
-- nothing is left.
structure Visited (successors : List NodeId) (state state' : LayerState) : Prop where
  size : state'.inDegree.length = state.inDegree.length
  counts : ∀ v, state'.inDegree[v]?.getD 0 + successors.count v = state.inDegree[v]?.getD 0
  next : ∃ joined, state'.nextLayer = state.nextLayer ++ joined ∧ joined.Nodup ∧
    ∀ v, v ∈ joined ↔ v ∈ successors ∧ state'.inDegree[v]?.getD 0 = 0

theorem visitSuccessor_eq_ok {state state' successor}
    (h : visitSuccessor state successor = .ok state') :
    ∃ degree, state.inDegree[successor]? = some (degree + 1) ∧
      state'.inDegree = state.inDegree.set successor degree ∧
      state'.nextLayer = if degree = 0 then
      state.nextLayer ++ [successor] else state.nextLayer := by
  unfold visitSuccessor at h
  split at h
  · contradiction
  · contradiction
  · next degree hd =>
      cases h
      exact ⟨degree, hd, rfl, rfl⟩

theorem visited_of_foldlM {successors state state'}
    (h : successors.foldlM visitSuccessor state = .ok state') :
    Visited successors state state' := by
  induction successors generalizing state with
  | nil =>
    cases h
    exact ⟨rfl, by simp, [], by simp, by simp, by simp⟩
  | cons s successors ih =>
    obtain ⟨mid, hmid, h⟩ := bind_ok h
    obtain ⟨degree, hde, hset, hne⟩ := visitSuccessor_eq_ok hmid
    obtain ⟨hsi, hc, joined, hj, hn, hmem⟩ := ih h
    have hlt := (List.getElem?_eq_some_iff.mp hde).1
    have hmi : mid.inDegree[s]?.getD 0 = degree := by
      rw [hset, getElem?_set_self hlt]
      rfl
    have hm : ∀ v, v ≠ s → mid.inDegree[v]?.getD 0 = state.inDegree[v]?.getD 0 := by
      intro v hv
      rw [hset, getElem?_set_ne (Ne.symm hv)]
    refine ⟨by rw [hsi, hset, length_set], fun v => ?_, ?_⟩
    · have hv := hc v
      by_cases hvs : v = s
      · subst hvs
        rw [count_cons_self, hde, Option.getD_some]
        omega
      · rw [hm v hvs] at hv
        rw [count_cons_of_ne (Ne.symm hvs)]
        exact hv
    · by_cases hz : degree = 0
      · -- the visit takes the last incoming edge
        have hf : state'.inDegree[s]?.getD 0 = 0 ∧ s ∉ successors := by
          have hs := hc s
          refine ⟨by omega, fun hin => ?_⟩
          have := count_pos_iff.mpr hin
          omega
        refine ⟨s :: joined, by rw [hj, hne, if_pos hz]; simp, ?_, fun v => ?_⟩
        · rw [nodup_cons]
          exact ⟨fun hin => hf.2 ((hmem s).mp hin).1, hn⟩
        · rw [mem_cons, mem_cons, hmem]
          constructor
          · rintro (rfl | ⟨hv, hd⟩)
            · exact ⟨.inl rfl, hf.1⟩
            · exact ⟨.inr hv, hd⟩
          · rintro ⟨rfl | hv, hd⟩
            · exact .inl rfl
            · exact .inr ⟨hv, hd⟩
      · refine ⟨joined, by rw [hj, hne, if_neg hz], hn, fun v => ?_⟩
        rw [hmem, mem_cons]
        constructor
        · exact fun ⟨hv, hd⟩ => ⟨.inr hv, hd⟩
        · rintro ⟨rfl | hv, hd⟩
          · refine ⟨?_, hd⟩
            have hs := hc v
            exact count_pos_iff.mp (by omega)
          · exact ⟨hv, hd⟩

-- At the head of the loop: the nodes of the finished layers and of the current one have no incoming
-- edge left, and a degree has lost what the finished layers point at it.
structure LayerInvariant (nodeCount : Nat) (succ : NodeId → List NodeId) (indeg : NodeId → Nat)
    (done current : List NodeId) (inDegree : List Nat) : Prop where
  size : inDegree.length = nodeCount
  counts : ∀ v < nodeCount, inDegree[v]?.getD 0 + (done.flatMap succ).count v = indeg v
  nodup : (done ++ current).Nodup
  bounded : ∀ v ∈ done ++ current, v < nodeCount
  zero : ∀ v ∈ done ++ current, inDegree[v]?.getD 0 = 0

def EdgesCounted (succ : NodeId → List NodeId) (indeg : NodeId → Nat) : Prop :=
  ∀ nodes : List NodeId, nodes.Nodup → ∀ v, (nodes.flatMap succ).count v ≤ indeg v

section Loop

variable {nodeCount : Nat} {succ : NodeId → List NodeId} {indeg : NodeId → Nat}
  {done current : List NodeId} {inDegree : List Nat}

section

variable (h : LayerInvariant nodeCount succ indeg done current inDegree)
include h

theorem LayerInvariant.predecessors_done
    (hcounted : EdgesCounted succ indeg) {u v} (hv : v ∈ current) (huv : v ∈ succ u) :
    u ∈ done := by
  by_contra hu
  have hmem : v ∈ done ++ current := mem_append_right _ hv
  have hn := nodup_cons.mpr ⟨hu, (nodup_append.mp h.nodup).1⟩
  have hle := hcounted (u :: done) hn v
  have hc := h.counts v (h.bounded v hmem)
  have hpos := count_pos_iff.mpr huv
  rw [h.zero v hmem] at hc
  rw [flatMap_cons, count_append] at hle
  omega

theorem LayerInvariant.step {layer} (hlayer : layer.Perm current) {state}
    (hvisit : (layer.flatMap succ).foldlM visitSuccessor ⟨inDegree, []⟩ = .ok state) :
    LayerInvariant nodeCount succ indeg (done ++ layer) state.nextLayer state.inDegree := by
  obtain ⟨hs, hc, joined, hj, hn, hmem⟩ := visited_of_foldlM hvisit
  have hp := hlayer.append_left done
  -- a finished node has no degree left that a visit could take
  have hd : ∀ v ∈ done ++ layer, inDegree[v]?.getD 0 = 0 := fun v hv => h.zero v (hp.mem_iff.mp hv)
  have hvi : ∀ v ∈ layer.flatMap succ, 0 < inDegree[v]?.getD 0 := by
    intro v hv
    have := hc v
    have := count_pos_iff.mpr hv
    dsimp only at *
    omega
  refine ⟨hs.trans h.size, fun v hv => ?_, ?_, fun v hv => ?_, fun v hv => ?_⟩
  · have hl := hc v
    have hbe := h.counts v hv
    rw [flatMap_append, count_append]
    dsimp only at hl
    omega
  · rw [hj, nodup_append]
    refine ⟨hp.nodup_iff.mpr h.nodup, hn, ?_⟩
    intro a ha b hb hab
    subst hab
    have := hd a ha
    have := hvi a ((hmem a).mp hb).1
    omega
  · rcases mem_append.mp hv with hv | hv
    · exact h.bounded v (hp.mem_iff.mp hv)
    · rw [hj] at hv
      have hpos := hvi v ((hmem v).mp hv).1
      by_contra hout
      rw [getElem?_eq_none (by rw [h.size]; exact Nat.le_of_not_lt hout)] at hpos
      simp at hpos
  · rcases mem_append.mp hv with hv | hv
    · have hz := hd v hv
      have hl := hc v
      dsimp only at hl
      omega
    · rw [hj] at hv
      exact ((hmem v).mp hv).2

end

-- The layers list no node twice, and a node comes after all that points at it.
structure Layered (nodeCount : Nat) (succ : NodeId → List NodeId) (done : List NodeId)
    (layers : List (List NodeId)) : Prop where
  nodup : (done ++ layers.flatten).Nodup
  bounded : ∀ v ∈ layers.flatten, v < nodeCount
  forward : ∀ before layer after, layers = before ++ layer :: after → ∀ v ∈ layer, ∀ u, v ∈ succ u →
    u ∈ done ++ before.flatten

theorem layered_of_layersFrom {edges} (hcounted : EdgesCounted (successors edges) indeg)
    {fuel layers} (h : LayerInvariant nodeCount (successors edges) indeg done current inDegree)
    (hrun : layersFrom edges fuel inDegree current = .ok layers) :
    Layered nodeCount (successors edges) done layers := by
  have he : ∀ done, done.Nodup → Layered nodeCount (successors edges) done [] := by
    intro done hn
    exact ⟨by simpa using hn, by simp, by simp⟩
  induction fuel generalizing done current inDegree layers with
  | zero =>
    cases hrun
    exact he done (nodup_append.mp h.nodup).1
  | succ fuel ih =>
    unfold layersFrom at hrun
    split_ifs at hrun with hc
    · cases hrun
      exact he done (nodup_append.mp h.nodup).1
    obtain ⟨state, hvi, hrun⟩ := bind_ok hrun
    obtain ⟨rest, hr, hrun⟩ := bind_ok hrun
    cases hrun
    have hso : (current.insertionSort (· ≤ ·)).Perm current := perm_insertionSort _ _
    obtain ⟨hn, hb, hf⟩ := ih (h.step hso hvi) hr
    refine ⟨by simpa using hn, fun v hv => ?_, ?_⟩
    · rw [flatten_cons, mem_append] at hv
      rcases hv with hv | hv
      · exact h.bounded v (mem_append_right _ (hso.mem_iff.mp hv))
      · exact hb v hv
    · intro before layer after hs v hv u huv
      cases before with
      | nil =>
        obtain ⟨rfl, -⟩ := List.cons.inj hs
        simpa using h.predecessors_done hcounted (hso.mem_iff.mp hv) huv
      | cons first before =>
        obtain ⟨rfl, hr⟩ := List.cons.inj hs
        simpa using hf before layer after hr v hv u huv

end Loop

end Layers

section Edges

theorem getD_pushTo {κ β} [Ord κ] [TransOrd κ] [LawfulEqOrd κ] [DecidableEq κ] (m) (k a : κ)
    (b : β) :
    (pushTo m k b).getD a [] = m.getD a [] ++ if k = a then [b] else [] := by
  simp only [ExtTreeMap.getD_eq_getD_getElem?, pushTo, TreeMap.getElem?_insert_eq]
  split_ifs with hk
  · rw [hk]
    rfl
  · simp

structure Holds (maps : EdgeMaps) (edges : List (NodeId × NodeId × DagEdge)) : Prop where
  forward : ∀ i, maps.edges.getD i [] = (edges.filter fun e => e.1 = i).map Prod.snd
  backward : ∀ j, maps.reverseEdges.getD j [] = (edges.filter fun e => e.2.1 = j).map Prod.fst

variable {producers : ExtTreeMap OutPoint NodeId} {maps : EdgeMaps}
  {edges : List (NodeId × NodeId × DagEdge)}

def referenceEdge (producers : ExtTreeMap OutPoint NodeId) (consumer : NodeId) (kind : DagEdge)
    (o : OutPoint) : List (NodeId × NodeId × DagEdge) :=
  (producers[o]?.map fun producer => (producer, consumer, kind)).toList

-- The edges of one transaction: its inputs first, then its dependencies.
def transactionEdges (producers : ExtTreeMap OutPoint NodeId) (entry : CellTx × NodeId) :
    List (NodeId × NodeId × DagEdge) :=
  entry.1.spends.flatMap (referenceEdge producers entry.2 .dependency) ++
    entry.1.deps.flatMap (referenceEdge producers entry.2 .readDep)

theorem Holds.addDependency (h : Holds maps edges) (con kind o) :
    Holds (addDependency producers con kind maps o)
    (edges ++ referenceEdge producers con kind o) := by
  unfold CellDAG.addDependency referenceEdge
  cases producers[o]? with
  | none => simpa using h
  | some prod =>
    refine ⟨fun i => ?_, fun j => ?_⟩
    · rw [getD_pushTo, h.forward]
      by_cases hi : prod = i <;> simp [hi]
    · rw [getD_pushTo, h.backward]
      by_cases hj : con = j <;> simp [hj]

theorem Holds.addInput (h : Holds maps edges) (con o) :
    Holds (addInput producers con maps o) (edges ++ referenceEdge producers con .dependency o) :=
  ⟨(h.addDependency con .dependency o).forward, (h.addDependency con .dependency o).backward⟩

theorem Holds.foldl {α : Type} {step f}
    (hstep : ∀ maps edges a, Holds maps edges → Holds (step maps a) (edges ++ f a)) {l : List α}
    (h : Holds maps edges) : Holds (l.foldl step maps) (edges ++ l.flatMap f) := by
  induction l generalizing maps edges with
  | nil => simpa using h
  | cons a l ih =>
    have hn := ih (hstep maps edges a h)
    rw [append_assoc] at hn
    exact hn

theorem Holds.addTransaction (h : Holds maps edges) (entry) :
    Holds (addTransaction producers maps entry) (edges ++ transactionEdges producers entry) := by
  unfold CellDAG.addTransaction transactionEdges
  rw [← append_assoc]
  exact Holds.foldl (fun _ _ o hs => hs.addDependency entry.2 .readDep o)
    (Holds.foldl (fun _ _ o hs => hs.addInput entry.2 o) h)

def allEdges (blake3 : Bytes → Hash) (txs : List CellTx) : List (NodeId × NodeId × DagEdge) :=
  txs.zipIdx.flatMap (transactionEdges (CellDAG.producers blake3 txs))

theorem holds_allEdges (blake3 txs) :
    Holds (txs.zipIdx.foldl (addTransaction (CellDAG.producers blake3 txs)) ⟨∅, ∅, ∅⟩)
    (allEdges blake3 txs) := by
  have he : Holds ⟨∅, ∅, ∅⟩ [] := by
    refine ⟨fun i => ?_, fun j => ?_⟩
    · simp
    · simp
  have hall := Holds.foldl (f := transactionEdges (producers blake3 txs)) (l := txs.zipIdx)
    (fun _ _ entry hs => hs.addTransaction entry) he
  exact hall

theorem edgesCounted_of_edges (edges : List (NodeId × NodeId × DagEdge)) :
    EdgesCounted (fun i => ((edges.filter fun e => e.1 = i).map Prod.snd).map Prod.fst)
    fun v => (edges.filter fun e => e.2.1 = v).length := by
  intro nodes hn v
  dsimp only
  induction edges with
  | nil =>
    have hno : nodes.flatMap (fun _ => ([] : List NodeId)) = [] :=
      flatMap_eq_nil_iff.mpr fun _ _ => rfl
    simp [hno]
  | cons e edges ih =>
    -- the new edge adds one to its own producer, which occurs at most once
    have hs : ∀ nodes : List NodeId, (nodes.flatMap fun i =>
        (((e :: edges).filter fun e => e.1 = i).map Prod.snd).map Prod.fst).count v =
        (if e.2.1 = v then nodes.count e.1 else 0) +
          (nodes.flatMap fun i => ((edges.filter fun e => e.1 = i).map Prod.snd).map Prod.fst).count
              v := by
      intro nodes
      induction nodes with
      | nil => simp
      | cons i nodes ihn =>
        rw [flatMap_cons, count_append, ihn]
        by_cases hi : e.1 = i
        · by_cases hv : e.2.1 = v
          · simp [hi, hv]
            omega
          · simp [hi, hv]
        · by_cases hv : e.2.1 = v
          · simp [hi, Ne.symm hi]
            omega
          · simp [hi, hv]
    rw [hs]
    have ho := nodup_iff_count_le_one.mp hn e.1
    by_cases hv : e.2.1 = v
    · simp only [hv, if_true, filter_cons, decide_true, length_cons]
      omega
    · simp only [hv, if_false, filter_cons, decide_false, Bool.false_eq_true]
      omega

end Edges

def Produces (id : CellTx → Hash) (tx : CellTx) (o : OutPoint) : Prop :=
  o.txHash = id tx ∧ o.index < tx.outputs.length

def references (tx : CellTx) : List OutPoint := tx.spends ++ tx.deps

def DependsOn (blake3 : Bytes → Hash) (txs : List CellTx) (i j : NodeId) : Prop :=
  ∃ ti tj, txs[i]? = some ti ∧ txs[j]? = some tj ∧ ∃ o ∈ references tj,
    Produces (CellTx.id blake3) ti o

-- Transaction `j` names an output of transaction `i` by the wtxid, and no later transaction has the
-- same output under its wtxid.
def NamesByWtxid (blake3 : Bytes → Hash) (txs : List CellTx) (i j : NodeId) : Prop :=
  ∃ ti tj, txs[i]? = some ti ∧ txs[j]? = some tj ∧ ∃ o ∈ references tj,
      Produces (CellTx.computeWtxid blake3) ti o ∧ ∀ later t, i < later → txs[later]? = some t →
        ¬ Produces (CellTx.computeWtxid blake3) t o

section Producers

variable {blake3 : Bytes → Hash} {o : OutPoint}

instance (id : CellTx → Hash) (tx : CellTx) (o : OutPoint) : Decidable (Produces id tx o) :=
  inferInstanceAs (Decidable (_ ∧ _))

theorem getElem?_foldl_producers (tx node) (m : ExtTreeMap OutPoint NodeId) :
    (((List.range tx.outputs.length).map fun idx =>
      ((⟨tx.computeWtxid blake3, idx⟩ : OutPoint), node)).foldl
      (fun m entry => m.insert entry.1 entry.2) m)[o]? =
      if Produces (computeWtxid blake3) tx o then some node else m[o]? := by
  have hk : o ∈ (List.range tx.outputs.length).map (OutPoint.mk (tx.computeWtxid blake3)) ↔
      Produces (computeWtxid blake3) tx o := by
    obtain ⟨txHash, index⟩ := o
    simp [Produces, eq_comm, and_comm]
  have hc := TreeMap.getElem?_foldl_insert_const (m := m) (v := node) (a := o)
    (l := (List.range tx.outputs.length).map (OutPoint.mk (tx.computeWtxid blake3)))
  rw [foldl_map] at hc ⊢
  rw [hc]
  simp [hk]

theorem producers_eq_some_iff {txs i} : (producers blake3 txs)[o]? = some i ↔
    ∃ ti, txs[i]? = some ti ∧ Produces (computeWtxid blake3) ti o ∧
    ∀ later t, i < later → txs[later]? = some t → ¬ Produces (computeWtxid blake3) t o := by
  unfold producers producerEntries
  rw [foldl_flatMap]
  have hs : ∀ l : List CellTx, (l.zipIdx.foldl (fun m entry =>
      ((List.range entry.1.outputs.length).map fun idx =>
        ((⟨entry.1.computeWtxid blake3, idx⟩ : OutPoint), entry.2)).foldl
          (fun m entry => m.insert entry.1 entry.2) m) (∅ : ExtTreeMap OutPoint NodeId))[o]? =
            some i ↔
      ∃ ti, l[i]? = some ti ∧ Produces (computeWtxid blake3) ti o ∧
        ∀ later t, i < later → l[later]? = some t → ¬ Produces (computeWtxid blake3) t o := by
    intro l
    induction l using List.reverseRecOn with
    | nil => simp
    | append_singleton l last ih =>
      rw [zipIdx_append, foldl_append]
      simp only [zipIdx_singleton, foldl_cons, foldl_nil, Nat.zero_add]
      rw [getElem?_foldl_producers]
      split_ifs with hla
      · rw [Option.some.injEq]
        constructor
        · rintro rfl
          refine ⟨last, by simp, hla, fun later t hl ht => ?_⟩
          rw [getElem?_eq_none (by simpa using Nat.succ_le_of_lt hl)] at ht
          contradiction
        · rintro ⟨ti, hti, -, hn⟩
          obtain ⟨hlt, -⟩ := List.getElem?_eq_some_iff.mp hti
          rw [length_append] at hlt
          by_contra hne
          exact hn l.length last (Nat.lt_of_le_of_ne (Nat.le_of_lt_succ hlt) (Ne.symm hne))
            (by simp) hla
      · rw [ih]
        constructor
        · rintro ⟨ti, hti, hp, hn⟩
          obtain ⟨hlt, -⟩ := List.getElem?_eq_some_iff.mp hti
          refine ⟨ti, by rw [getElem?_append_left hlt]; exact hti, hp, fun later t hl ht => ?_⟩
          by_cases hin : later < l.length
          · rw [getElem?_append_left hin] at ht
            exact hn later t hl ht
          · rw [getElem?_append_right (Nat.le_of_not_lt hin), getElem?_singleton] at ht
            split_ifs at ht
            rw [← Option.some.inj ht]
            exact hla
        · rintro ⟨ti, hti, hp, hn⟩
          by_cases hin : i < l.length
          · rw [getElem?_append_left hin] at hti
            refine ⟨ti, hti, hp, fun later t hl ht => ?_⟩
            obtain ⟨hlt, -⟩ := List.getElem?_eq_some_iff.mp ht
            exact hn later t hl (by rw [getElem?_append_left hlt]; exact ht)
          · rw [getElem?_append_right (Nat.le_of_not_lt hin), getElem?_singleton] at hti
            split_ifs at hti
            rw [← Option.some.inj hti] at hp
            exact absurd hp hla
  exact hs txs

end Producers

def HasEdge (dag : CellDAG) (i j : NodeId) : Prop := ∃ kind, (j, kind) ∈ dag.edges.getD i []

-- The graph has the data dependencies as its edges, and its layers place every transaction once,
-- behind what it depends on.
structure Exact (blake3 : Bytes → Hash) (txs : List CellTx) (dag : CellDAG) : Prop where
  edges : ∀ i j, dag.HasEdge i j ↔ DependsOn blake3 txs i j
  placed : dag.layers.flatten.Perm (List.range txs.length)
  forward : ∀ i j, dag.HasEdge i j → ∀ (a b : Nat) (la lb : List NodeId), dag.layers[a]? = some la →
    dag.layers[b]? = some lb → i ∈ la → j ∈ lb → a < b

section Build

variable {blake3 : Bytes → Hash} {txs : List CellTx} {dag : CellDAG}

def kindReferences (tx : CellTx) : DagEdge → List OutPoint
  | .dependency => tx.spends
  | .readDep => tx.deps

theorem mem_allEdges_iff {i j kind} : (i, j, kind) ∈ allEdges blake3 txs ↔
    ∃ tj, txs[j]? = some tj ∧ ∃ o ∈ kindReferences tj kind, (producers blake3 txs)[o]? =
    some i := by
  have hone : ∀ tj k, (i, j, kind) ∈ transactionEdges (producers blake3 txs) (tj, k) ↔
      k = j ∧ ∃ o ∈ kindReferences tj kind, (producers blake3 txs)[o]? = some i := by
    intro tj k
    cases kind with
    | dependency =>
      simp only [transactionEdges, referenceEdge, mem_append, mem_flatMap, Option.mem_toList,
        Option.map_eq_some_iff, Prod.mk.injEq, reduceCtorEq, and_false, exists_false,
        or_false, and_true]
      constructor
      · rintro ⟨o, ho, prod, hp, rfl, rfl⟩
        exact ⟨rfl, o, ho, hp⟩
      · rintro ⟨rfl, o, ho, hp⟩
        exact ⟨o, ho, i, hp, rfl, rfl⟩
    | readDep =>
      simp only [transactionEdges, referenceEdge, mem_append, mem_flatMap, Option.mem_toList,
        Option.map_eq_some_iff, Prod.mk.injEq, reduceCtorEq, and_false, exists_false,
        false_or, and_true]
      constructor
      · rintro ⟨o, ho, prod, hp, rfl, rfl⟩
        exact ⟨rfl, o, ho, hp⟩
      · rintro ⟨rfl, o, ho, hp⟩
        exact ⟨o, ho, i, hp, rfl, rfl⟩
  unfold allEdges
  rw [mem_flatMap]
  constructor
  · rintro ⟨⟨tj, k⟩, he, hed⟩
    obtain ⟨rfl, o, ho, hp⟩ := (hone tj k).mp hed
    exact ⟨tj, mem_zipIdx_iff_getElem?.mp he, o, ho, hp⟩
  · rintro ⟨tj, htj, o, ho, hp⟩
    exact ⟨(tj, j), mem_zipIdx_iff_getElem?.mpr htj, (hone tj j).mpr ⟨rfl, o, ho, hp⟩⟩

theorem build_eq_ok (h : build blake3 txs = .ok dag) :
    Holds ⟨dag.edges, dag.reverseEdges, ∅⟩ (allEdges blake3 txs) ∧
    computeLayers txs.length dag.edges dag.reverseEdges = .ok dag.layers := by
  obtain ⟨layers, hl, h⟩ := bind_ok h
  cases h
  have hh := holds_allEdges blake3 txs
  exact ⟨⟨hh.forward, hh.backward⟩, hl⟩

theorem hasEdge_iff (h : build blake3 txs = .ok dag) (i j) :
    dag.HasEdge i j ↔ NamesByWtxid blake3 txs i j := by
  obtain ⟨hh, -⟩ := build_eq_ok h
  have hmem : ∀ kind, (j, kind) ∈ dag.edges.getD i [] ↔ (i, j, kind) ∈ allEdges blake3 txs := by
    intro kind
    rw [show dag.edges.getD i [] = _ from hh.forward i]
    simp only [mem_map, mem_filter, decide_eq_true_eq]
    constructor
    · rintro ⟨⟨i', e⟩, ⟨he, rfl⟩, rfl⟩
      exact he
    · exact fun he => ⟨(i, j, kind), ⟨he, rfl⟩, rfl⟩
  constructor
  · rintro ⟨kind, hk⟩
    obtain ⟨tj, htj, o, ho, hp⟩ := mem_allEdges_iff.mp ((hmem kind).mp hk)
    obtain ⟨ti, hti, hpr, hl⟩ := producers_eq_some_iff.mp hp
    refine ⟨ti, tj, hti, htj, o, ?_, hpr, hl⟩
    cases kind with
    | dependency => exact mem_append_left _ ho
    | readDep => exact mem_append_right _ ho
  · rintro ⟨ti, tj, hti, htj, o, ho, hpr, hl⟩
    have hp := producers_eq_some_iff.mpr ⟨ti, hti, hpr, hl⟩
    rcases mem_append.mp ho with ho | ho
    · exact ⟨.dependency, (hmem _).mpr (mem_allEdges_iff.mpr ⟨tj, htj, o, ho, hp⟩)⟩
    · exact ⟨.readDep, (hmem _).mpr (mem_allEdges_iff.mpr ⟨tj, htj, o, ho, hp⟩)⟩

theorem successors_eq (hholds : Holds ⟨dag.edges, dag.reverseEdges, ∅⟩ (allEdges blake3 txs)) :
    successors dag.edges = fun i =>
    (((allEdges blake3 txs).filter fun e => e.1 = i).map Prod.snd).map Prod.fst := by
  funext i
  exact congrArg (List.map Prod.fst) (hholds.forward i)

theorem layered_of_build (h : build blake3 txs = .ok dag) :
    Layered txs.length (successors dag.edges) [] dag.layers ∧
    dag.layers.flatten.length = txs.length := by
  obtain ⟨hh, hl⟩ := build_eq_ok h
  unfold computeLayers at hl
  split_ifs at hl with he
  · rw [← Except.ok.inj hl, he]
    exact ⟨⟨by simp, by simp, by simp⟩, rfl⟩
  obtain ⟨layers, hrun, hl⟩ := bind_ok hl
  obtain ⟨_, hco, hl⟩ := bind_ok hl
  cases hl
  refine ⟨?_, (ensure_eq_ok_iff.mp hco)⟩
  have hc := edgesCounted_of_edges (allEdges blake3 txs)
  rw [← successors_eq hh] at hc
  have hd : ∀ v, (inDegrees txs.length dag.reverseEdges)[v]?.getD 0 =
      if v < txs.length then ((allEdges blake3 txs).filter fun e => e.2.1 = v).length else 0 := by
    intro v
    rw [inDegrees, getElem?_map]
    by_cases hv : v < txs.length
    · rw [getElem?_range hv, if_pos hv]
      have hb := hh.backward v
      simp [hb]
    · rw [getElem?_eq_none (by simpa using hv), if_neg hv]
      rfl
  refine layered_of_layersFrom hc ⟨by simp [inDegrees], fun v hv => ?_, ?_, fun v hv => ?_,
    fun v hv => ?_⟩ hrun
  · rw [hd, if_pos hv]
    simp
  · rw [nil_append]
    exact nodup_range.filter _
  · rw [nil_append, mem_filter, mem_range] at hv
    exact hv.1
  · rw [nil_append, mem_filter, decide_eq_true_eq] at hv
    rw [hv.2]
    rfl

-- A graph that is built has exactly the data dependencies as its edges if and only if the
-- transactions name each other's outputs by wtxid just where they do by id. Its layers are right in
-- any case.
theorem exact_iff (blake3 : Bytes → Hash) (txs : List CellTx) (dag : CellDAG)
    (h : build blake3 txs = .ok dag) :
    Exact blake3 txs dag ↔ ∀ i j, DependsOn blake3 txs i j ↔ NamesByWtxid blake3 txs i j := by
  obtain ⟨⟨hn, hb, hf⟩, hc⟩ := layered_of_build h
  constructor
  · intro hex i j
    exact (hex.edges i j).symm.trans (hasEdge_iff h i j)
  · intro hsa
    refine ⟨fun i j => (hasEdge_iff h i j).trans (hsa i j).symm, ?_, ?_⟩
    · have hsub : dag.layers.flatten ⊆ List.range txs.length := fun v hv => mem_range.mpr (hb v hv)
      exact (subperm_of_subset (by simpa using hn) hsub).perm_of_length_le (by simp [hc])
    · rintro i j ⟨kind, hk⟩ a b la lb hla hlb hi hj
      have hsu : j ∈ successors dag.edges i := mem_map.mpr ⟨(j, kind), hk, rfl⟩
      obtain ⟨hlt, hget⟩ := List.getElem?_eq_some_iff.mp hlb
      have hs : dag.layers = dag.layers.take b ++ lb :: dag.layers.drop (b + 1) := by
        rw [← hget, cons_getElem_drop_succ, take_append_drop]
      have he := hf _ lb _ hs j hj i hsu
      by_contra hab
      -- otherwise the producer stands in two layers
      have hl : i ∈ (dag.layers.drop b).flatten := by
        refine mem_flatten.mpr ⟨la, ?_, hi⟩
        rw [mem_iff_getElem?]
        exact ⟨a - b, by rw [getElem?_drop, Nat.add_sub_cancel' (Nat.le_of_not_lt hab)]; exact hla⟩
      rw [nil_append, ← take_append_drop b dag.layers, flatten_append, nodup_append] at hn
      exact hn.2.2 i he i hl rfl

end Build

section SampleChain

def sampleBlake3 (bytes : Bytes) : Hash := bytes.foldl (fun acc b => acc * 257 + b.toNat + 1) 0

def chainTx (inputs : List OutPoint) : CellTx :=
  ⟨CELL_TX_VERSION, inputs.map fun o => ⟨o, 0⟩, [], [], [⟨⟨0, 0, []⟩, none, 1000⟩], [[]], []⟩

def chainTxs : List CellTx :=
  [chainTx [⟨7, 0⟩], chainTx [⟨(chainTx [⟨7, 0⟩]).id sampleBlake3, 0⟩]]

-- The second transaction spends an output of the first one under its id, and one under the wtxid.
def doublyNamedTxs : List CellTx :=
  let tx := chainTx [⟨7, 0⟩]
  [tx, chainTx [⟨tx.id sampleBlake3, 0⟩, ⟨tx.computeWtxid sampleBlake3, 0⟩]]

theorem exact_doublyNamed : DependsOn sampleBlake3 doublyNamedTxs 0 1 ∧
    ∃ dag, build sampleBlake3 doublyNamedTxs = .ok dag ∧ Exact sampleBlake3 doublyNamedTxs dag := by
  have hrun : (build sampleBlake3 doublyNamedTxs).toOption.isSome = true := by decide +kernel
  have hn : ∀ p ∈ doublyNamedTxs.zipIdx, ∀ q ∈ doublyNamedTxs.zipIdx,
      (∃ o ∈ references q.1, Produces (id sampleBlake3) p.1 o) ↔ ∃ o ∈ references q.1,
        Produces (computeWtxid sampleBlake3) p.1 o ∧ ∀ r ∈ doublyNamedTxs.zipIdx, p.2 < r.2 →
          ¬ Produces (computeWtxid sampleBlake3) r.1 o := by decide +kernel
  have hz {t i} : (t, i) ∈ doublyNamedTxs.zipIdx ↔ doublyNamedTxs[i]? = some t :=
    mem_zipIdx_iff_getElem?
  obtain ⟨dag, hdag⟩ := Option.isSome_iff_exists.mp hrun
  have hb := mem_toOption_iff.mp hdag
  refine ⟨⟨_, _, rfl, rfl, by decide +kernel⟩, dag, hb,
    (exact_iff sampleBlake3 doublyNamedTxs dag hb).mpr fun i j => ⟨?_, ?_⟩⟩
  · rintro ⟨ti, tj, hti, htj, hd⟩
    obtain ⟨o, ho, hp, hl⟩ := (hn (ti, i) (hz.mpr hti) (tj, j) (hz.mpr htj)).mp hd
    exact ⟨ti, tj, hti, htj, o, ho, hp, fun k t hlt ht => hl (t, k) (hz.mpr ht) hlt⟩
  · rintro ⟨ti, tj, hti, htj, o, ho, hp, hl⟩
    exact ⟨ti, tj, hti, htj, (hn (ti, i) (hz.mpr hti) (tj, j) (hz.mpr htj)).mpr
      ⟨o, ho, hp, fun r hr hlt => hl r.2 r.1 hlt (hz.mp hr)⟩⟩

-- A spend of an earlier output makes no edge.
theorem chain_has_no_edge : ∃ dag, build sampleBlake3 chainTxs = .ok dag ∧
    DependsOn sampleBlake3 chainTxs 0 1 ∧ ¬ dag.HasEdge 0 1 := by
  have hrun : (build sampleBlake3 chainTxs).toOption.any (fun dag => dag.edges.getD 0 [] = []) =
      true := by
    decide +kernel
  obtain ⟨dag, hb, he⟩ := any_toOption_iff.mp hrun
  refine ⟨dag, hb, ⟨_, _, rfl, rfl, ⟨(chainTx [⟨7, 0⟩]).id sampleBlake3, 0⟩, ?_, ?_⟩, ?_⟩
  · simp [references, spends, chainTx]
  · exact ⟨rfl, by simp [chainTx]⟩
  · rintro ⟨kind, hk⟩
    rw [decide_eq_true_eq] at he
    simp [he] at hk

end SampleChain

end CellDAG

end Spora
