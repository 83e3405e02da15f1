import Spora.Index.Lemmas
import Spora.Mpe.CellState.Accepted

namespace Spora

open Std Outcome List VirtualStateProcessor CellIndexer

structure ChainBlock where
  hash : Hash
  daaScore : Nat
  transactions : List CellTx

variable {hasher : Hasher}

-- Replays the retention root and the chain above it into an index that has no live cells. A failed
-- step aborts the node.
def backfillCellindexFromConsensus (ids : WitnessIds hasher) (cellindex : CellIndexer)
    (chain : List ChainBlock) : Except StateError CellIndexer :=
  if !cellindex.isEmpty then .ok cellindex
  else chain.foldlM (fun indexer block => block.transactions.foldlM (fun indexer tx =>
    indexer.indexTransaction ids tx block.daaScore block.hash tx.isCoinbase) indexer) cellindex

def ChainBlock.SpendsOutputs (hasher : Hasher) (block : ChainBlock) : Prop :=
  ∀ tx ∈ block.transactions, ∀ o ∈ tx.spends, ∃ creator, o.txHash = hasher.txid creator

-- A selected chain from genesis on and the cell state of its last block: genesis starts with no
-- cells, and every block accepts its mergeset on the state of its selected parent.
inductive SelectedChain (self : VirtualStateProcessor) :
    List ChainBlock → LiveTree self.hasher → Prop
  | genesis {block : ChainBlock} (hspends : block.SpendsOutputs self.hasher) : SelectedChain self
    [block] .empty
  | extend {chain : List ChainBlock} {parent block : ChainBlock} {tree : LiveTree self.hasher}
      {stores : BlockStores} {gd : GhostdagData} {povDaaScore timestamp : Nat}
      {ctx : CellProcessingContext self.hasher}
      (hchain : SelectedChain self (chain ++ [parent]) tree)
      (hspends : block.SpendsOutputs self.hasher) (hparent : gd.selectedParent = parent.hash)
      (hcalc : self.calculateCellState stores (.new gd tree) povDaaScore block.hash timestamp =
        .ok ctx) :
      SelectedChain self (chain ++ [parent, block]) ctx.cellStateTree

namespace SelectedChain

variable {self : VirtualStateProcessor} {ch : List ChainBlock} {tree : LiveTree self.hasher}

variable (h : SelectedChain self ch tree)
include h

theorem spendsOutputs : ∀ block ∈ ch, block.SpendsOutputs self.hasher := by
  induction h with
  | genesis hs => simpa using hs
  | @extend ch parent last _ _ _ _ _ _ _ hs _ _ ih =>
    intro block hb
    rw [append_cons, mem_append] at hb
    rcases hb with hb | hb
    · exact ih block hb
    · rw [mem_singleton.mp hb]
      exact hs

theorem txHash_eq_txid {o} (ho : (tree.metaAt o).isSome) :
    ∃ tx, o.txHash = self.hasher.txid tx := by
  induction h with
  | genesis => simp [LiveTree.metaAt] at ho
  | extend _ _ _ hca ih =>
    obtain ⟨accepted, hac⟩ := calculateCellState_accepts hca
    obtain ⟨m, hm⟩ := Option.isSome_iff_exists.mp ho
    rw [hac.tree] at hm
    rcases Ledger.mem_of_run_eq_some hm with hb | ⟨ltx, hltx, hc⟩
    · exact ih (by rw [hb]; rfl)
    · obtain ⟨a, ha, rfl⟩ := mem_map.mp hltx
      obtain ⟨block, -, ⟨e, -, rfl⟩ | ⟨coinbase, -, rfl⟩⟩ := hac.source a ha
      · exact ⟨e.1, txHash_of_mem_outputCells hc⟩
      · exact ⟨coinbase, txHash_of_mem_outputCells hc⟩

end SelectedChain

section Replay

variable {ids : WitnessIds hasher} {index index' : CellIndexer} {tx : CellTx} {done : List CellTx}

variable {daa : Nat} {cb : Bool}

theorem mem_cells_indexOutput {txHash bh out o} :
    o ∈ (index.indexOutput txHash tx daa bh hasher cb out).cellDb.cells ↔
    ⟨txHash, out.2⟩ = o ∨ o ∈ index.cellDb.cells := by
  unfold indexOutput persistCellData
  by_cases hd : (tx.outputData out.2).isEmpty
  · simp [hd, CellDB.put]
  · simp [hd, CellDB.put]

-- The replay so far: the index has only cells under ids with witnesses, and all outputs of the
-- transactions done, none of which had an input.
structure Replayed (ids : WitnessIds hasher) (done : List CellTx) (index : CellIndexer) : Prop where
  keyed : ∀ o, o ∈ index.cellDb.cells → ∃ tx, o.txHash = ids.computeWtxid tx
  inputs : ∀ tx ∈ done, tx.inputs = []
  outputs : ∀ tx ∈ done, ∀ i < tx.outputs.length,
    (⟨ids.computeWtxid tx, i⟩ : OutPoint) ∈ index.cellDb.cells

theorem mem_cells_foldl_indexOutput {txHash bh} {outs : List (CellOutput × Nat)} {o} :
    o ∈ (outs.foldl (indexOutput txHash tx daa bh hasher cb) index).cellDb.cells ↔
    (∃ out ∈ outs, ⟨txHash, out.2⟩ = o) ∨ o ∈ index.cellDb.cells := by
  induction outs generalizing index with
  | nil => simp
  | cons out outs ih =>
    rw [foldl_cons, ih, mem_cells_indexOutput]
    simp only [mem_cons, exists_eq_or_imp]
    exact or_left_comm.trans or_assoc.symm

theorem Replayed.step (h : Replayed ids done index)
    (hspends : ∀ o ∈ tx.spends, ∃ cr, o.txHash = hasher.txid cr) {bh}
    (hstep : index.indexTransaction ids tx daa bh cb = .ok index') :
    Replayed ids (done ++ [tx]) index' := by
  have hk : ∀ o, o ∈ (tx.outputs.zipIdx.foldl (indexOutput (ids.computeWtxid tx) tx
      daa bh hasher cb) index).cellDb.cells → ∃ tx, o.txHash = ids.computeWtxid tx := by
    intro o ho
    rcases mem_cells_foldl_indexOutput.mp ho with ⟨output, -, rfl⟩ | ho
    · exact ⟨tx, rfl⟩
    · exact h.keyed o ho
  unfold indexTransaction at hstep
  cases hin : tx.inputs with
  | cons input rest =>
    obtain ⟨cr, hc⟩ := hspends input.previousOutput (by simp [CellTx.spends, hin])
    rw [hin] at hstep
    obtain ⟨mid, hmid, -⟩ := bind_ok hstep
    obtain ⟨db, hdb, -⟩ := bind_ok hmid
    unfold CellDB.spendInBlock at hdb
    split at hdb
    · simp at hdb
    · next cell hce =>
        obtain ⟨other, hot⟩ := hk input.previousOutput (TreeMap.mem_of_getElem? hce)
        exact absurd (hot.symm.trans hc) (ids.wtxid_ne_txid other cr)
  | nil =>
    rw [hin] at hstep
    cases hstep
    refine ⟨hk, fun t ht => ?_, fun t ht i hi => ?_⟩
    · rcases mem_append.mp ht with ht | ht
      · exact h.inputs t ht
      · rw [mem_singleton.mp ht, hin]
    · rw [mem_cells_foldl_indexOutput]
      rcases mem_append.mp ht with ht | ht
      · exact .inr (h.outputs t ht i hi)
      · obtain rfl := mem_singleton.mp ht
        exact .inl ⟨(t.outputs[i], i), mem_zipIdx_iff_getElem?.mpr (by simp), rfl⟩

theorem replayed_of_backfill {chain} (hempty : index.isEmpty)
    (hspends : ∀ block ∈ chain, block.SpendsOutputs hasher)
    (h : backfillCellindexFromConsensus ids index chain = .ok index') :
    Replayed ids (chain.flatMap ChainBlock.transactions) index' := by
  unfold backfillCellindexFromConsensus at h
  rw [hempty] at h
  have hst : Replayed ids [] index := by
    refine ⟨fun o ho => ?_, by simp, by simp⟩
    rw [ExtTreeMap.isEmpty_iff.mp hempty] at ho
    simp at ho
  refine foldlM_inits (I := fun bs index => Replayed ids
    (bs.flatMap ChainBlock.transactions) index) (fun bs block rest s s' hl hs hb => ?_)
    hst h
  have hmem : block ∈ chain := by simp [hl]
  rw [flatMap_append, flatMap_singleton]
  refine foldlM_inits (I := fun txs index => Replayed ids
    (bs.flatMap ChainBlock.transactions ++ txs) index) (fun txs tx rest s s' hl hs htx => ?_)
    (by simpa using hs) hb
  rw [← append_assoc]
  exact hs.step (hspends block hmem tx (by simp [hl])) htx

end Replay

theorem backfill_of_no_cells {ids : WitnessIds hasher} {index chain}
    (h : ∀ block ∈ chain, ∀ tx ∈ block.transactions, tx.inputs = [] ∧ tx.outputs = []) :
    backfillCellindexFromConsensus ids index chain = .ok index := by
  have hbl : ∀ block ∈ chain, ∀ indexer : CellIndexer, block.transactions.foldlM (fun indexer tx =>
        indexer.indexTransaction ids tx block.daaScore block.hash tx.isCoinbase) indexer =
            .ok indexer := by
    intro block hbl indexer
    refine foldlM_eq_self fun tx htx => ?_
    obtain ⟨hin, ho⟩ := h block hbl tx htx
    simp [indexTransaction, hin, ho]
  unfold backfillCellindexFromConsensus
  split_ifs
  · rfl
  · exact foldlM_eq_self fun block hb => hbl block hb index

-- The replay ends with the live cells of the last block's state exactly when there is nothing to
-- replay and nothing live: outputs are indexed under ids that no transaction spends them by.
theorem backfillCellindex_reconstructs_iff {self : VirtualStateProcessor}
    (ids : WitnessIds self.hasher) {index : CellIndexer} (hempty : index.isEmpty)
    {chain : List ChainBlock} {tree : LiveTree self.hasher}
    (hchain : SelectedChain self chain tree) :
    (∃ index', backfillCellindexFromConsensus ids index chain = .ok index' ∧
      ∀ o, index'.liveCell o = (tree.metaAt o).map CellMeta.live) ↔
    (∀ block ∈ chain, ∀ tx ∈ block.transactions, tx.inputs = [] ∧ tx.outputs = []) ∧
    ∀ o, tree.get o = none := by
  have hp : ∀ (indexer : CellIndexer) o, (indexer.liveCell o).isSome ↔ o ∈ indexer.cellDb.cells :=
      fun indexer o => by
    simp [liveCell, getCell]
  constructor
  · rintro ⟨index', hrun, hl⟩
    have hr := replayed_of_backfill hempty hchain.spendsOutputs hrun
    -- No outpoint is live on both sides.
    have ha : ∀ o, o ∉ index'.cellDb.cells := by
      intro o ho
      obtain ⟨tx, htx⟩ := hr.keyed o ho
      have hst : (tree.metaAt o).isSome := by simpa [hl o] using (hp index' o).mpr ho
      obtain ⟨creator, hc⟩ := hchain.txHash_eq_txid hst
      exact ids.wtxid_ne_txid tx creator (htx.symm.trans hc)
    refine ⟨fun block hb tx htx => ?_, fun o => ?_⟩
    · have hmem := mem_flatMap.mpr ⟨block, hb, htx⟩
      refine ⟨hr.inputs tx hmem, eq_nil_of_length_eq_zero (Nat.eq_zero_of_not_pos ?_)⟩
      intro hpos
      exact ha _ (hr.outputs tx hmem 0 hpos)
    · have hn : ¬ (tree.metaAt o).isSome := fun hs =>
        ha o ((hp index' o).mp (by simpa [hl o] using hs))
      simpa [LiveTree.metaAt] using hn
  · rintro ⟨hce, ht⟩
    refine ⟨index, backfill_of_no_cells hce, fun o => ?_⟩
    have hn : ¬ (index.liveCell o).isSome := fun hs => by
      have hmem := (hp index o).mp hs
      rw [ExtTreeMap.isEmpty_iff.mp hempty] at hmem
      simp at hmem
    simp [LiveTree.metaAt, ht o, Option.not_isSome_iff_eq_none.mp hn]

section Line

theorem Hasher.digest_lt (words) : Hasher.digest words < 2305843009213693951 := by
  unfold Hasher.digest
  induction words using List.reverseRecOn with
  | nil => decide
  | append_singleton words word _ =>
    rw [foldl_append, foldl_cons, foldl_nil]
    exact Nat.mod_lt _ (by decide)

def WitnessIds.sample : WitnessIds Hasher.sample where
  computeWtxid tx := 2305843009213693951 + Hasher.digest (Hasher.txWords tx)
  wtxid_ne_txid tx tx' heq := by
    have hlt : Hasher.sample.txid tx' < 2305843009213693951 := Hasher.digest_lt _
    exact absurd heq (Nat.ne_of_gt (Nat.lt_of_lt_of_le hlt (Nat.le_add_right _ _)))

def lineChain : List ChainBlock :=
  [1, 2, 3].map fun hash => ⟨hash, (lineBlock hash).daaScore, (lineBlock hash).txs⟩

theorem backfillCellindex_reconstructs_genesis :
    ∃ index', backfillCellindexFromConsensus .sample .empty [⟨1, 0, []⟩] = .ok index' ∧
    ∀ o, index'.liveCell o =
    ((.empty : LiveTree VirtualStateProcessor.sample.hasher).metaAt o).map CellMeta.live := by
  have hg : SelectedChain sample [⟨1, 0, []⟩] .empty :=
    .genesis (by simp [ChainBlock.SpendsOutputs])
  have he : empty.isEmpty = true := by decide
  have hin := (backfillCellindex_reconstructs_iff WitnessIds.sample he hg).mpr ⟨by simp, by simp⟩
  exact hin

-- A chain with coinbases: the one that its last block accepts is not found by its outpoint.
theorem backfillCellindex_misses_coinbase :
    ∃ tree, SelectedChain VirtualStateProcessor.sample lineChain tree ∧
    ¬ ∃ index', backfillCellindexFromConsensus .sample .empty lineChain = .ok index' ∧
    ∀ o, index'.liveCell o = (tree.metaAt o).map CellMeta.live := by
  have hs : ∀ hash, ChainBlock.SpendsOutputs sample.hasher
      ⟨hash, (lineBlock hash).daaScore, (lineBlock hash).txs⟩ := by
    intro hash tx htx o ho
    simp only [lineBlock] at htx
    split_ifs at htx
    · simp at htx
    · rw [mem_singleton.mp htx] at ho
      simp [CellTx.spends, sampleCoinbase] at ho
  have hse : (sample.calculateCellState lineNetwork.blocks
      (.new ⟨2, 1, [1], []⟩ .empty) 2 2 2).toOption.any (fun ctx => decide
        (ctx.cellStateTree = .empty)) = true := by decide +kernel
  have ht : (sample.calculateCellState lineNetwork.blocks
      (.new ⟨3, 2, [2], []⟩ .empty) 3 3 3).toOption.any (fun ctx =>
        (ctx.cellStateTree.metaAt (coinbaseCell 2 2).outPoint).isSome) = true := by decide +kernel
  have hmi : (backfillCellindexFromConsensus .sample .empty lineChain).toOption.any (fun index' =>
      (index'.liveCell (coinbaseCell 2 2).outPoint).isNone) = true := by decide +kernel
  obtain ⟨second, hca, htr⟩ := any_toOption_iff.mp hse
  obtain ⟨third, hc', hl⟩ := any_toOption_iff.mp ht
  obtain ⟨index', hrun, hn⟩ := any_toOption_iff.mp hmi
  have hc₁ : SelectedChain sample
      ([] ++ [⟨1, (lineBlock 1).daaScore, (lineBlock 1).txs⟩]) .empty := .genesis (hs 1)
  have hc₂ : SelectedChain sample ([⟨1, (lineBlock 1).daaScore, (lineBlock 1).txs⟩] ++
          [⟨2, (lineBlock 2).daaScore, (lineBlock 2).txs⟩]) .empty :=
    of_decide_eq_true htr ▸ hc₁.extend (hs 2) rfl hca
  have hc₃ := hc₂.extend (hs 3) rfl hc'
  refine ⟨third.cellStateTree, hc₃, ?_⟩
  rintro ⟨found, hf, hall⟩
  cases (hrun.symm.trans hf)
  have hc := hall (coinbaseCell 2 2).outPoint
  rw [Option.isNone_iff_eq_none.mp hn] at hc
  obtain ⟨m, hm⟩ := Option.isSome_iff_exists.mp hl
  simp [hm] at hc

end Line

end Spora
