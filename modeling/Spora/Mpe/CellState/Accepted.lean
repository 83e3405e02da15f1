import Spora.Mpe.CellState.Exactness

namespace Spora

open Std Outcome

variable {hasher : Hasher}

-- What a mergeset accepts, transaction by transaction: `B` holds of its blocks, and the accepted
-- transactions lead from the state `base` to the current tree.
structure Accepts (B : BlockData → Prop) (base : LiveTree hasher)
    (ctx : CellProcessingContext hasher) (accepted : List AcceptedTx) : Prop where
  ids : ctx.acceptedTxIds = accepted.map AcceptedTx.id
  tree : ctx.cellStateTree.metaAt = Ledger.run (accepted.map AcceptedTx.tx) base.metaAt
  fit : Ledger.Fit (accepted.map AcceptedTx.tx) base.metaAt
  source : ∀ a ∈ accepted, ∃ block, B block ∧
      ((∃ e ∈ block.txs.zipIdx, a = acceptedTx hasher block e) ∨
      ∃ coinbase, block.txs.head? = some coinbase ∧ a = acceptedCoinbase hasher block coinbase)
  diffs : ∀ diff ∈ ctx.blockCellDiffs, ∃ block, B block ∧ diff.blockHash = block.hash ∧
    diff.blockDaaScore = block.daaScore ∧ ∀ (o : OutPoint) m, diff.cellDiff.add[o]? = some m →
      m.blockDaaScore = diff.blockDaaScore ∧ ∃ a ∈ accepted, (o, m) ∈ a.tx.creates

variable {B : BlockData → Prop} {base : LiveTree hasher} {ctx ctx' : CellProcessingContext hasher}
  {acc : List AcceptedTx} {blk : BlockData} {eff : BlockExecutionEffect}

theorem accepts_new (gd) : Accepts B base (.new gd base) [] :=
  ⟨rfl, rfl, trivial, by simp, by simp [CellProcessingContext.new]⟩

theorem Executes.blockDaaScore_of_mem {new} (h : Executes base blk eff new)
    {a} (ha : a ∈ new) {o m} (hm : (o, m) ∈ a.tx.creates) : m.blockDaaScore = blk.daaScore := by
  rcases h.source a ha with ⟨e, -, rfl⟩ | ⟨coinbase, -, rfl⟩
  · exact (outPoint_of_mem_outputCells hm).2.1
  · exact (outPoint_of_mem_outputCells hm).2.1

section

variable (h : Accepts B base ctx acc)
include h

theorem Accepts.commit {new} (hB : B blk)
    (hexec : Executes ctx.cellStateTree blk eff new) (hkeyed : eff.cellDiff.AddsKeyed)
    (hcommit : CommittedBy ctx eff ctx') : Accepts B base ctx' (acc ++ new) := by
  refine ⟨?_, ?_, ?_, fun a ha => ?_, fun diff hd => ?_⟩
  · rw [hcommit.acceptedTxIds, h.ids, hexec.ids, List.map_append]
  · rw [hcommit.cellStateTree, metaAt_applyCellDiffToTree _ hkeyed, hexec.run, h.tree,
      List.map_append, Ledger.run_append]
  · rw [List.map_append, Ledger.fit_append, ← h.tree]
    exact ⟨h.fit, hexec.fit⟩
  · rcases List.mem_append.mp ha with ha | ha
    · exact h.source a ha
    · exact ⟨blk, hB, hexec.source a ha⟩
  · have hold : diff ∈ ctx.blockCellDiffs ∨
        diff = ⟨eff.blockHash, eff.blockDaaScore, eff.cellDiff⟩ := by
      rw [hcommit.diffs] at hd
      split_ifs at hd
      · exact .inl hd
      · simpa using hd
    rcases hold with hold | rfl
    · obtain ⟨b, hb, hh, hs, had⟩ := h.diffs diff hold
      refine ⟨b, hb, hh, hs, fun o m hm => ?_⟩
      obtain ⟨hm', a, ha, hc⟩ := had o m hm
      exact ⟨hm', a, List.mem_append_left _ ha, hc⟩
    · refine ⟨blk, hB, hexec.blockHash, hexec.blockDaaScore, fun o m hm => ?_⟩
      obtain ⟨a, ha, hc⟩ := hexec.mem_creates hm
      have hs : m.blockDaaScore = eff.blockDaaScore := by
        rw [hexec.blockDaaScore_of_mem ha hc, hexec.blockDaaScore]
      exact ⟨hs, a, List.mem_append_right _ ha, hc⟩

theorem Accepts.commit_empty (hempty : eff.cellDiff = .empty)
    (hids : eff.acceptedTxIds = []) (hcommit : CommittedBy ctx eff ctx') :
    Accepts B base ctx' acc := by
  refine ⟨?_, ?_, h.fit, h.source, ?_⟩
  · rw [hcommit.acceptedTxIds, hids, List.append_nil, h.ids]
  · rw [hcommit.cellStateTree, hempty, applyCellDiffToTree_empty, h.tree]
  · have his : eff.cellDiff.isEmpty = true := by
      rw [hempty]
      rfl
    rw [hcommit.diffs, if_pos his]
    exact h.diffs

theorem Accepts.step (hstep : MergesetStep B ctx ctx') : ∃ acc, Accepts B base ctx' acc := by
  cases hstep with
  | executed hB _ hk hex hc => exact ⟨_, h.commit hB hex hk hc⟩
  | rejected he hids hc => exact ⟨acc, h.commit_empty he hids hc⟩
  | listed => exact ⟨acc, h.ids, h.tree, h.fit, h.source, h.diffs⟩

end

namespace VirtualStateProcessor

theorem calculateCellState_accepts {self : VirtualStateProcessor} {stores gd tree daa ts pov ctx}
    (h : self.calculateCellState stores (.new gd tree) daa pov ts = .ok ctx) :
    ∃ acc, Accepts (OfMergeset stores gd) tree ctx acc := by
  have hrun := calculateCellState_run h
  clear h
  induction hrun with
  | refl => exact ⟨[], accepts_new gd⟩
  | tail _ hs ih => exact ih.elim fun _ ha => ha.step hs

end VirtualStateProcessor

end Spora
