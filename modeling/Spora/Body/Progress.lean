import Spora.Body.Answers
import Spora.Body.Replay
import Spora.Store.Storage
import Spora.Virtual.Initial

namespace Spora

open Std Outcome ConsensusCellProvider OverlayCellProvider

namespace ConsensusCellProvider

variable (self : ConsensusCellProvider)

-- The state in which only the `resolved` blocks have been executed; the others wait, without a
-- diff.
def resolvedOnly (resolved : Hash → Bool) : ConsensusCellProvider :=
  { self with
    cellDiffs := fun block => if resolved block then self.cellDiffs block else none
    statuses := fun block => if resolved block then self.statuses block
      else (self.statuses block).map fun _ => .statusCellPendingVerification }

-- The blocks whose diffs a lookup reads, down to the one that decides it.
def visited (outpoint : OutPoint) : List Hash → List Hash
  | [] => []
  | current :: rest =>
    if current = NONE then []
    else current :: match self.cellDiffs current with
      | none => []
      | some diff =>
        if outpoint ∈ diff.remove ∨ outpoint ∈ diff.add then [] else visited outpoint rest

variable {self}

theorem walkDiffs_resolvedOnly_iff {res o path cell} :
    (self.resolvedOnly res).walkDiffs o path = .ok cell ↔
    self.walkDiffs o path = .ok cell ∧ ∀ block ∈ self.visited o path, res block = true := by
  induction path with
  | nil => simp [walkDiffs]
  | cons current rest ih =>
    by_cases hn : current = NONE
    · simp [walkDiffs, visited, hn]
    by_cases hresolved : res current = true
    · have hq : (self.resolvedOnly res).ensureQueryablePov current =
          self.ensureQueryablePov current := by
        simp only [ensureQueryablePov, resolvedOnly, hresolved, if_true]
      have hdi : (self.resolvedOnly res).cellDiffs current = self.cellDiffs current := by
        simp only [resolvedOnly, hresolved, if_true]
      have ha : ∀ m, (self.resolvedOnly res).addedCell current o m = self.addedCell current o m :=
        fun _ => rfl
      simp only [walkDiffs, visited, hn, if_false, hq, hdi, ha, bind_eq_ok_iff,
        List.forall_mem_cons, hresolved]
      cases hd : self.cellDiffs current with
      | none => simp
      | some diff =>
        by_cases hr : o ∈ diff.remove
        · simp [hr]
        · cases hadd : diff.add[o]? with
          | some m =>
            have hmem := TreeMap.mem_of_getElem? hadd
            simp [hmem]
          | none =>
            have hmem := TreeMap.not_mem_of_getElem? hadd
            simp [hr, hmem, ih, and_assoc]
    · have hdi : (self.resolvedOnly res).cellDiffs current = none := by
        simp only [resolvedOnly, hresolved]
        rfl
      simp [walkDiffs, visited, hn, hdi, hresolved, bind_eq_ok_iff]

theorem resolvedOnly_below (res : Hash → Bool) (pov : Hash) :
    (self.resolvedOnly res).toProvider.Below self.toProvider pov where
  cells _ _ hcell := (walkDiffs_resolvedOnly_iff.mp hcell).1
  timestamps := rfl
  headers := rfl

end ConsensusCellProvider

namespace BlockBodyProcessor

variable (processor : BlockBodyProcessor) (consensus : ConsensusCellProvider) (block : Block)

def atProgress (resolved : Hash → Bool) : BlockBodyProcessor :=
  processor.withBase (consensus.resolvedOnly resolved).toProvider

def allResolved : BlockBodyProcessor := processor.withBase consensus.toProvider

-- The blocks whose diffs decide the lookups of a block have all been executed.
def Decided (resolved : Hash → Bool) : Prop :=
  ∀ provider o, (processor.allResolved consensus).Asks block provider o → provider.Defers o →
    ∀ ancestor ∈ consensus.visited o
      (consensus.chain.path (processor.blockGhostdagData block).selectedParent),
      resolved ancestor = true

variable {processor consensus block}

theorem Asks.onBase {prov o} (h : processor.Asks block prov o) :
    SameBase (.new processor.baseProvider block.hash
      (processor.blockGhostdagData block).selectedParent) prov := by
  cases h with
  | own hb _ _ _ => exact buildBodyValidationProvider_sameBase hb
  | merged _ hat _ _ =>
    obtain ⟨start, mid, before, blue, after, hst, -, hmid, hm⟩ := hat.reached
    obtain ⟨_, _, _, _, _, -, -, -, hrun⟩ := hm.reached
    have hk := keptByMerging_sameBase (.new processor.baseProvider block.hash
      (processor.blockGhostdagData block).selectedParent)
    have hst := hk.mergeSelectedParentCoinbase (.refl _) trivial hst
    have hmid := foldlM_invariant (fun _ _ _ _ hs hstep => hk.mergeBlue hs trivial hstep) hst hmid
    exact foldlM_invariant (fun _ _ _ _ hs hstep => hk.mergeTx hs trivial hstep) hmid hrun

-- A block is accepted by a node that has executed only some blocks exactly when it is accepted with
-- all of them executed and its lookups are decided by executed blocks.
theorem validateBodyInContext_atProgress_iff {res mass} :
    (processor.atProgress consensus res).validateBodyInContext block = .ok mass ↔
    (processor.allResolved consensus).validateBodyInContext block = .ok mass ∧
    processor.Decided consensus block res := by
  have hw : (processor.atProgress consensus res).validateBodyInContext block = .ok mass ↔
      (processor.allResolved consensus).validateBodyInContext block = .ok mass ∧
        ∀ provider o, (processor.allResolved consensus).Asks block provider o →
          provider.Answered (consensus.resolvedOnly res).toProvider o :=
    @validateBodyInContext_withBase_iff (consensus.resolvedOnly res).toProvider
      (processor.allResolved consensus) block (resolvedOnly_below res _) mass
  have hf :=
    @validateBodyInContext_withBase_iff consensus.toProvider (processor.allResolved consensus) block
      ⟨fun _ _ h => h, rfl, rfl⟩ mass
  rw [hw]
  refine and_congr_right fun hok => ⟨fun han provider o ha hd => ?_, fun hde provider o ha => ?_⟩
  · obtain ⟨cell, hc⟩ := (answered_iff_of_defers hd).mp (han provider o ha)
    rw [ha.onBase.basePov] at hc
    exact (walkDiffs_resolvedOnly_iff.mp hc).2
  · by_cases hd : provider.Defers o
    · rw [answered_iff_of_defers hd]
      obtain ⟨cell, hc⟩ := (answered_iff_of_defers hd).mp ((hf.mp hok).2 provider o ha)
      rw [ha.onBase.basePov] at hc ⊢
      exact ⟨cell, walkDiffs_resolvedOnly_iff.mpr ⟨hc, hde provider o ha hd⟩⟩
    · exact answered_of_not_defers hd _

-- Two nodes that differ only in which blocks they have executed give a block the same verdict
-- exactly when, unless the block is invalid anyway, both or neither have executed what decides its
-- lookups.
theorem validateBodyInContext_sameVerdict_iff (processor : BlockBodyProcessor)
    (consensus : ConsensusCellProvider) (block : Block) (resolved resolved' : Hash → Bool) :
    ((processor.atProgress consensus resolved).validateBodyInContext block).toOption =
    ((processor.atProgress consensus resolved').validateBodyInContext block).toOption ↔
    (((processor.allResolved consensus).validateBodyInContext block).isOk = true →
      (processor.Decided consensus block resolved ↔
      processor.Decided consensus block resolved')) := by
  have hs : ∀ r mass, ((processor.atProgress consensus r).validateBodyInContext block).toOption =
        some mass ↔ (processor.allResolved consensus).validateBodyInContext block = .ok mass ∧
          processor.Decided consensus block r := fun r mass =>
    mem_toOption_iff.trans validateBodyInContext_atProgress_iff
  constructor
  · intro hsa hok
    obtain ⟨mass, hm⟩ := isOk_iff.mp hok
    have hiff := (hs resolved mass).symm.trans (hsa ▸ hs resolved' mass)
    simpa [hm] using hiff
  · intro hiff
    apply Option.ext
    intro mass
    rw [hs, hs]
    exact and_congr_right fun hm => hiff (isOk_iff.mpr ⟨mass, hm⟩)

end BlockBodyProcessor

structure BodyStores where
  statuses : Hash → Option BlockStatus
  bodies : BlockTransactionsStore

inductive BodyError
  | knownInvalid
  | rule (error : RuleError)
deriving DecidableEq, Repr

-- Errors that condemn a block: not those that another body or missing parents may cure, and not an
-- abort.
def RuleError.marksInvalid : RuleError → Bool
  | .badMerkleRoot _ _ | .missingParents _ | .panicked _ => false
  | _ => true

def BlockBodyProcessor.processBody (self : BlockBodyProcessor) (stores : BodyStores) (block : Block)
    (isTrusted : Bool) : Except BodyError BlockStatus × BodyStores :=
  match stores.statuses block.hash with
  | none => (.error (.rule (.panicked "called unwrap on a missing entry")), stores)
  | some .statusInvalid => (.error .knownInvalid, stores)
  | some .statusHeaderOnly =>
    match self.validateBody block isTrusted with
    | .error e => (.error (.rule e), if e.marksInvalid then
        { stores with statuses := Function.update stores.statuses block.hash (some .statusInvalid) }
      else stores)
    | .ok _ =>
      match stores.bodies.insertBatch self.hasher block.hash block.transactions with
      | .error _ => (.error (.rule (.panicked "called unwrap on an error")), stores)
      | .ok bodies => (.ok .statusCellPendingVerification,
          ⟨Function.update stores.statuses block.hash (some .statusCellPendingVerification),
            bodies⟩)
  | some status => (.ok status, stores)

section Pending

open BlockBodyProcessor

def pendingConsensus : ConsensusCellProvider where
  storage := ⟨Hasher.sample, ⟨(spentDepProcessor []).blockTransactions, fun _ => none⟩,
    fun _ => none, fun _ => [], fun _ => none, fun _ => .error "no segment"⟩
  ghostdag hash := if hash = 1 then some ⟨1, 0, [], []⟩ else none
  cellDiffs hash := if hash = 1 then some (importedCellDiff spentDepTree) else none
  statuses hash := if hash = 1 then some .statusCellValid else none
  rank := id
  rank_lt := by
    intro block data hdata
    split_ifs at hdata with hone
    obtain rfl := Option.some.inj hdata
    simp [hone]

def headerOnlyStores : BodyStores := ⟨fun _ => some .statusHeaderOnly, .empty⟩

-- As long as block 1 waits for the virtual processor, block 2 is rejected and marked invalid; once
-- block 1 is executed, it would be accepted.
theorem pending_parent_condemns :
    (((spentDepProcessor []).atProgress pendingConsensus fun _ => true).validateBodyInContext
      (spentDepBlock [])).toOption.isSome = true ∧
    (((spentDepProcessor []).atProgress pendingConsensus fun _ => true).validateBodyInContext
      (spentDepBlock [])).toOption ≠
    (((spentDepProcessor []).atProgress pendingConsensus (· != 1)).validateBodyInContext
      (spentDepBlock [])).toOption ∧
    (((spentDepProcessor []).atProgress pendingConsensus (· != 1)).processBody headerOnlyStores
      (spentDepBlock []) false).2.statuses 2 = some .statusInvalid := by
  have hr :
      (((spentDepProcessor []).atProgress pendingConsensus fun _ => true).validateBodyInContext
      (spentDepBlock [])).toOption.isSome = true := by decide +kernel
  refine ⟨hr, fun hs => ?_, by decide +kernel⟩
  contradiction

end Pending

end Spora
