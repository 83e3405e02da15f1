import Spora.Mpe.CellState.Lemmas

namespace Spora

open Std Outcome

variable {hasher : Hasher}

def Leaks (tree : LiveTree hasher) (blockTxs : List CellTx) : Prop :=
  ∃ tx ∈ blockTxs, ∃ o ∈ tx.creates hasher, tree.get o ≠ none

theorem ensureRedBlockOutputsAbsent_eq_ok_iff {tree : LiveTree hasher} {red blockTxs} :
    ensureRedBlockOutputsAbsent tree red blockTxs = .ok () ↔ ¬ Leaks tree blockTxs := by
  simp only [ensureRedBlockOutputsAbsent, forM_eq_ok_iff, ensure_eq_ok_iff, Leaks, not_exists,
    not_and, not_not]

def BlockStores.withReds (stores : BlockStores) (reds : List Hash) (redTxs : Hash → List CellTx) :
    BlockStores :=
  { stores with
    blockTransactions := fun block =>
      if block ∈ reds then some (redTxs block) else stores.blockTransactions block }

namespace BlockStores

variable {st : BlockStores} {reds : List Hash} {redTxs : Hash → List CellTx} {b : Hash}

theorem loadBlock_withReds_of_not_mem (h : b ∉ reds) :
    (st.withReds reds redTxs).loadBlock b = st.loadBlock b := by
  simp [loadBlock, withReds, h]

theorem loadBlock_withReds_of_mem {daa} (h : b ∈ reds) (hdaa : st.daaScores b = some daa) :
    (st.withReds reds redTxs).loadBlock b = .ok ⟨b, redTxs b, daa⟩ := by
  simp [loadBlock, withReds, h, hdaa]

end BlockStores

namespace VirtualStateProcessor

variable {self : VirtualStateProcessor} {stores : BlockStores} {reds : List Hash}
  {redTxs : Hash → List CellTx} {ctx ctx' : CellProcessingContext self.hasher}

def SameForBlues (blues : List Hash) (c d : CellProcessingContext hasher) : Prop :=
  c.cellStateTree = d.cellStateTree ∧ c.acceptedTxIds = d.acceptedTxIds ∧
    c.mergesetAcceptanceData.filter (fun entry => decide (entry.blockHash ∈ blues)) =
      d.mergesetAcceptanceData.filter fun entry => decide (entry.blockHash ∈ blues)

theorem executeRed_eq_ok {red} (h : self.executeRed stores ctx red = .ok ctx') :
    (∃ block, stores.loadBlock red = .ok block ∧ ¬ Leaks ctx.cellStateTree block.txs) ∧
    ctx'.cellStateTree = ctx.cellStateTree ∧ ctx'.acceptedTxIds = ctx.acceptedTxIds ∧
    ctx'.mergesetAcceptanceData = ctx.mergesetAcceptanceData ++ [⟨red, []⟩] := by
  obtain ⟨block, hl, h⟩ := bind_ok h
  obtain ⟨_, hred, h⟩ := bind_ok h
  have hle := ensureRedBlockOutputsAbsent_eq_ok_iff.mp hred
  simp only [commitExecutionEffect, BlockExecutionEffect.empty, List.append_nil] at h
  cases h
  exact ⟨⟨block, hl, hle⟩, rfl, rfl, rfl⟩

theorem executeRed_ok {red block} (hload : stores.loadBlock red = .ok block)
    (hleak : ¬ Leaks ctx.cellStateTree block.txs) :
    ∃ ctx', self.executeRed stores ctx red = .ok ctx' := by
  simp only [executeRed, hload, ok_bind, ensureRedBlockOutputsAbsent_eq_ok_iff.mpr hleak]
  exact ⟨_, rfl⟩

theorem foldlM_executeRed_eq_ok (h : reds.foldlM (self.executeRed stores) ctx = .ok ctx') :
    ctx'.cellStateTree = ctx.cellStateTree ∧ ctx'.acceptedTxIds = ctx.acceptedTxIds ∧
    ctx'.mergesetAcceptanceData = ctx.mergesetAcceptanceData ++ reds.map fun red => ⟨red, []⟩ := by
  induction reds generalizing ctx with
  | nil =>
    cases h
    simp
  | cons red reds ih =>
    obtain ⟨mid, hred, h⟩ := bind_ok h
    obtain ⟨-, ht, hids, hd⟩ := executeRed_eq_ok hred
    obtain ⟨ht', hi', hd'⟩ := ih h
    exact ⟨ht'.trans ht, hi'.trans hids, by simp [hd', hd]⟩

theorem foldlM_executeRed_isOk_iff (bs : Hash → BlockData)
    (hload : ∀ red ∈ reds, stores.loadBlock red = .ok (bs red)) :
    (∃ ctx', reds.foldlM (self.executeRed stores) ctx = .ok ctx') ↔
    ∀ red ∈ reds, ¬ Leaks ctx.cellStateTree (bs red).txs := by
  induction reds generalizing ctx with
  | nil => simp
  | cons red reds ih =>
    have hf := hload red (by simp)
    have hre := fun r hr => hload r (List.mem_cons_of_mem red hr)
    rw [List.forall_mem_cons]
    constructor
    · rintro ⟨ctx', h⟩
      obtain ⟨mid, hred, h⟩ := bind_ok h
      obtain ⟨⟨block, hb, hl⟩, ht, -⟩ := executeRed_eq_ok hred
      cases (hb.symm.trans hf)
      exact ⟨hl, ht ▸ (ih hre).mp ⟨ctx', h⟩⟩
    · rintro ⟨hl, hle⟩
      obtain ⟨mid, hred⟩ := executeRed_ok hf hl
      obtain ⟨-, ht, -⟩ := executeRed_eq_ok hred
      obtain ⟨ctx', h⟩ := (ih hre).mpr (ht ▸ hle)
      exact ⟨ctx', by rw [List.foldlM_cons, hred, ok_bind, h]⟩

theorem executeBlueMergeset_withReds {daa ts pov} (hsp : ctx.ghostdagData.selectedParent ∉ reds)
    (hblues : ∀ blue ∈ ctx.ghostdagData.mergesetBlues, blue ∉ reds) :
    self.executeBlueMergeset (stores.withReds reds redTxs) ctx daa pov ts =
    self.executeBlueMergeset stores ctx daa pov ts := by
  have hl : ctx.ghostdagData.mergesetBlues.mapM (self.loadBlue (stores.withReds reds redTxs)) =
      ctx.ghostdagData.mergesetBlues.mapM (self.loadBlue stores) := by
    apply mapM_congr
    intro blue hb
    simp only [loadBlue, BlockStores.loadBlock_withReds_of_not_mem (hblues blue hb)]
  simp only [executeBlueMergeset, startMergeset, executeSelectedParent, executeBlues, hl,
    BlockStores.loadBlock_withReds_of_not_mem hsp]

-- A red block of the mergeset repeats a transaction with a live output.
def AnyRedLeaks (tree : LiveTree hasher) (reds : List Hash) (redTxs : Hash → List CellTx) : Prop :=
  ∃ red ∈ reds, Leaks tree (redTxs red)

-- The contents of the red blocks do not matter exactly when both of them, or none, repeat a
-- transaction with an output that is live once the blue blocks are executed.
theorem reds_irrelevant_iff (self : VirtualStateProcessor) (stores : BlockStores)
    (ctx : CellProcessingContext self.hasher) (daa : Nat) (pov : Hash) (ts : Nat)
    (redTxs redTxs' : Hash → List CellTx)
    (hheaders : ∀ red ∈ ctx.ghostdagData.mergesetReds, (stores.daaScores red).isSome)
    (hsp : ctx.ghostdagData.selectedParent ∉ ctx.ghostdagData.mergesetReds)
    (hblues : ∀ blue ∈ ctx.ghostdagData.mergesetBlues, blue ∉ ctx.ghostdagData.mergesetReds) :
    Sim (SameForBlues ctx.ghostdagData.mergesetBlues)
    (self.calculateCellState (stores.withReds ctx.ghostdagData.mergesetReds redTxs) ctx
      daa pov ts)
    (self.calculateCellState (stores.withReds ctx.ghostdagData.mergesetReds redTxs') ctx daa
      pov ts) ↔
    ∀ st, self.executeBlueMergeset stores ctx daa pov ts = .ok st →
    (AnyRedLeaks st.ctx.cellStateTree ctx.ghostdagData.mergesetReds redTxs ↔
      AnyRedLeaks st.ctx.cellStateTree ctx.ghostdagData.mergesetReds redTxs') := by
  simp only [calculateCellState, executeBlueMergeset_withReds hsp hblues]
  cases hb : self.executeBlueMergeset stores ctx daa pov ts with
  | error e => simpa using Sim.error e e
  | ok st =>
    -- the outcome of the red step for any contents of the red blocks
    have hok : ∀ txs, (∃ c, ctx.ghostdagData.mergesetReds.foldlM
          (self.executeRed (stores.withReds ctx.ghostdagData.mergesetReds txs)) st.ctx = .ok c) ↔
        ¬ AnyRedLeaks st.ctx.cellStateTree ctx.ghostdagData.mergesetReds txs := by
      intro txs
      rw [foldlM_executeRed_isOk_iff fun red =>
        ⟨red, txs red, (stores.daaScores red).getD 0⟩]
      · simp [AnyRedLeaks]
      · intro red hred
        obtain ⟨daaScore, hdaa⟩ := Option.isSome_iff_exists.mp (hheaders red hred)
        rw [BlockStores.loadBlock_withReds_of_mem hred hdaa, hdaa, Option.getD_some]
    simp only [ok_bind, Except.ok.injEq, forall_eq']
    rw [Sim.iff_isOk, hok, hok, not_iff_not]
    intro c d hc hd
    obtain ⟨ht, hids, hda⟩ := foldlM_executeRed_eq_ok hc
    obtain ⟨ht', hi', hd'⟩ := foldlM_executeRed_eq_ok hd
    exact ⟨ht.trans ht'.symm, hids.trans hi'.symm, by rw [hda, hd']⟩

section RepeatedPayment

-- Accepted by an earlier mergeset: its output is live in the state of the selected parent.
def payment : CellTx :=
  ⟨CELL_TX_VERSION, [⟨⟨3, 0⟩, 0⟩], [], [], [⟨sampleLock, none, 1000⟩], [[]], [[]]⟩

def paidTree : LiveTree sample.hasher :=
  LiveTree.empty.insert ⟨sample.hasher.txid payment, 0⟩ (cellMetaToEntry
    (cellMetaFromOutput sample.hasher 10 false payment 0 ⟨sampleLock, none, 1000⟩))

def redContext : CellProcessingContext sample.hasher := .new ⟨5, 1, [1], [2]⟩ paidTree

def redStores : BlockStores where
  blockTransactions block := if block = 1 then some [sampleCoinbase 500] else none
  daaScores _ := some 20

theorem reds_irrelevant_other_coinbase : Sim (SameForBlues [1])
    (sample.calculateCellState (redStores.withReds [2] fun _ => []) redContext 30 9 0)
    (sample.calculateCellState (redStores.withReds [2] fun _ => [sampleCoinbase 600]) redContext
      30 9 0) := by
  refine (reds_irrelevant_iff sample redStores redContext 30 9 0 (fun _ => [])
    (fun _ => [sampleCoinbase 600]) (by decide) (by decide) (by decide)).mpr fun st hst => ?_
  have hget : ∀ o ∈ (sampleCoinbase 600).creates sample.hasher, st.ctx.cellStateTree.get o =
      none := by
    have hall : (sample.executeBlueMergeset redStores redContext 30 9 0).toOption.all
        (fun st => decide (∀ o ∈ (sampleCoinbase 600).creates sample.hasher,
          st.ctx.cellStateTree.get o = none)) = true := by decide
    rw [hst] at hall
    exact of_decide_eq_true hall
  constructor
  · rintro ⟨red, -, tx, htx, -⟩
    simp at htx
  · rintro ⟨red, -, tx, htx, o, ho, hl⟩
    obtain rfl := List.mem_singleton.mp htx
    exact absurd (hget o ho) hl

-- A red block that repeats the payment makes the mergeset fail.
theorem red_payment_fails : ¬ Sim (SameForBlues [1])
    (sample.calculateCellState (redStores.withReds [2] fun _ => []) redContext 30 9 0)
    (sample.calculateCellState (redStores.withReds [2] fun _ => [payment]) redContext 30 9 0) := by
  have he : (sample.calculateCellState (redStores.withReds [2] fun _ => []) redContext
      30 9 0).isOk = true := by decide
  intro h
  rw [h.isOk_eq] at he
  exact absurd he (by decide)

end RepeatedPayment

end VirtualStateProcessor

end Spora
