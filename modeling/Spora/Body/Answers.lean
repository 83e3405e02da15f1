import Spora.Body.Lemmas
import Spora.Lib.Limited

namespace Spora

open Std Outcome DagCellProvider OverlayCellProvider Limited

-- A provider that answers less: where it answers at all, it answers as the full one.
structure DagCellProvider.Below (weak full : DagCellProvider) (pov : Hash) : Prop where
  cells : ∀ o c, weak.getCellAtPov o pov = .ok c → full.getCellAtPov o pov = .ok c
  timestamps : weak.getBlockTimestamp = full.getBlockTimestamp
  headers : weak.getHeader = full.getHeader

def DagCellProvider.depReads (self : DagCellProvider) (pov : Hash) (tx : CellTx) : List OutPoint :=
  tx.cellDeps.flatMap fun dep => dep.outPoint :: self.groupMembers pov dep

namespace OverlayCellProvider

def rebase (self : OverlayCellProvider) (base : DagCellProvider) : OverlayCellProvider :=
  { self with base := base }

def Answered (self : OverlayCellProvider) (weak : DagCellProvider) (o : OutPoint) : Prop :=
  ∃ cell, (self.rebase weak).getCellMetadata o = .ok cell

theorem getCellAtPov_snapshotPov (self : OverlayCellProvider) (o) :
    self.toProvider.getCellAtPov o self.snapshotPov = self.getCellMetadata o := by
  simp [toProvider, ensureSnapshotPov]

def Defers (self : OverlayCellProvider) (o : OutPoint) : Prop :=
  o ∉ self.removed ∧ o ∉ self.added ∧ o ∉ self.baseOverrides

instance (self : OverlayCellProvider) (o : OutPoint) : Decidable (self.Defers o) :=
  inferInstanceAs (Decidable (_ ∧ _ ∧ _))

section Defers

variable {self : OverlayCellProvider} {o : OutPoint}

theorem getCellMetadata_of_defers (h : self.Defers o) :
    self.getCellMetadata o = self.base.getCellAtPov o self.basePov := by
  obtain ⟨hr, ha, ho⟩ := h
  simp [getCellMetadata, hr, ExtTreeMap.getElem?_eq_none ha, ExtTreeMap.getElem?_eq_none ho]

theorem getCellMetadata_of_not_defers (h : ¬ self.Defers o) :
    (∀ base, (self.rebase base).getCellMetadata o = .ok none) ∨
    ∃ m, (self.added[o]? = some m ∨ self.baseOverrides[o]? = some m) ∧
    ∀ base, (self.rebase base).getCellMetadata o = .ok (some m) := by
  by_cases hr : o ∈ self.removed
  · exact .inl fun base => by simp [getCellMetadata, rebase, hr]
  cases ha : self.added[o]? with
  | some m => exact .inr ⟨m, .inl rfl, fun base => by simp [getCellMetadata, rebase, hr, ha]⟩
  | none =>
    cases ho : self.baseOverrides[o]? with
    | some m =>
      exact .inr ⟨m, .inr rfl, fun base => by
        simp [getCellMetadata, rebase, hr, ha, ho]⟩
    | none =>
      refine absurd ⟨hr, ?_, ?_⟩ h
      · exact TreeMap.not_mem_of_getElem? ha
      · exact TreeMap.not_mem_of_getElem? ho

theorem answered_iff_of_defers (h : self.Defers o) {base} :
    self.Answered base o ↔ ∃ cell, base.getCellAtPov o self.basePov = .ok cell := by
  have hr : (self.rebase base).Defers o := h
  rw [Answered, getCellMetadata_of_defers hr]
  exact Iff.rfl

theorem answered_of_not_defers (h : ¬ self.Defers o) (base) : self.Answered base o := by
  rcases getCellMetadata_of_not_defers h with hs | ⟨m, -, hm⟩
  · exact ⟨none, hs base⟩
  · exact ⟨some m, hm base⟩

end Defers

end OverlayCellProvider

structure Rebased (weak full : DagCellProvider) (basePov snapshotPov : Hash)
    (p q : OverlayCellProvider) : Prop where
  eq : p = q.rebase weak
  base : q.base = full
  basePov : q.basePov = basePov
  snapshotPov : q.snapshotPov = snapshotPov

-- What `A` says of an outpoint makes overlays over the two bases answer it alike.
def AnswersAlike (N : Prop) (A : OverlayCellProvider → OutPoint → Prop)
    (weak full : DagCellProvider) (basePov snapshotPov : Hash) : Prop :=
  ∀ {p q : OverlayCellProvider} {o : OutPoint}, Rebased weak full basePov snapshotPov p q →
    Limited N Eq (A q o) (p.getCellMetadata o) (q.getCellMetadata o)

section Overlay

variable {N : Prop} {A : OverlayCellProvider → OutPoint → Prop} {weak full : DagCellProvider}
  {basePov pov : Hash} {p q : OverlayCellProvider} {o : OutPoint}

theorem answersAlike_of_below (hbelow : weak.Below full basePov) :
    AnswersAlike N (fun q o => q.Answered weak o) weak full basePov pov := by
  intro p q o h
  have heq := h.eq
  subst heq
  refine ⟨fun _ cell hc => ⟨cell, hc⟩, ?_⟩
  rintro ⟨cell, hc⟩
  have hf : q.getCellMetadata o = .ok cell := by
    unfold getCellMetadata rebase at hc
    unfold getCellMetadata
    split_ifs at hc ⊢ with hr
    · exact hc
    · dsimp only at hc ⊢
      split at hc
      · exact hc
      · split at hc
        · exact hc
        · rw [h.basePov] at hc
          rw [h.base, h.basePov]
          exact hbelow.cells o cell hc
  rw [hc, hf]
  exact .ok rfl

section

variable (h : Rebased weak full basePov pov p q)
include h

theorem Rebased.getCellAtPov_full (o) : q.toProvider.getCellAtPov o pov = q.getCellMetadata o := by
  rw [← h.snapshotPov]
  exact q.getCellAtPov_snapshotPov o

theorem Rebased.getCellAtPov_weak (o) : p.toProvider.getCellAtPov o pov = p.getCellMetadata o := by
  have hs : p.snapshotPov = pov := by
    rw [h.eq]
    exact h.snapshotPov
  rw [← hs]
  exact p.getCellAtPov_snapshotPov o

theorem Rebased.spendCell_sim :
    Sim (Rebased weak full basePov pov) (p.spendCell o) (q.spendCell o) := by
  have heq := h.eq
  subst heq
  refine Sim.ite (fun _ => .error _ _) fun _ => Sim.ite (fun _ => ?_) fun _ => ?_
  · exact .ok ⟨rfl, h.base, h.basePov, h.snapshotPov⟩
  · exact .ok ⟨rfl, h.base, h.basePov, h.snapshotPov⟩

theorem Rebased.addCell_sim {m} :
    Sim (Rebased weak full basePov pov) (p.addCell o m) (q.addCell o m) := by
  have heq := h.eq
  subst heq
  refine Sim.ite (fun _ => .error _ _) fun _ => ?_
  exact .ok ⟨rfl, h.base, h.basePov, h.snapshotPov⟩

end

theorem AnswersAlike.ensureDepAvailable_limited (hA : AnswersAlike N A weak full basePov pov)
    (h : Rebased weak full basePov pov p q) :
    Limited N Eq (A q o) (p.ensureDepAvailable o) (q.ensureDepAvailable o) := by
  refine (hA h).bind_sim fun cell cell' _ hc => ?_
  subst hc
  exact Sim.refl

end Overlay

namespace BlockBodyProcessor

variable {N : Prop} {A : OverlayCellProvider → OutPoint → Prop} {weak full : DagCellProvider}
  {basePov pov : Hash} {p q : OverlayCellProvider}

theorem ensureOverlayDep_limited (hA : AnswersAlike N A weak full basePov pov)
    (h : Rebased weak full basePov pov p q) {dep} :
    Limited N Eq (∀ o ∈ dep.outPoint :: q.toProvider.groupMembers q.snapshotPov dep, A q o)
    (ensureOverlayDep p dep) (ensureOverlayDep q dep) := by
  unfold ensureOverlayDep
  cases hdep : dep.depType with
  | code =>
    refine ((hA.ensureDepAvailable_limited h).mapError.bind_sim fun _ _ _ _ => Sim.refl).congr ?_
    simp [groupMembers, hdep]
  | depGroup =>
    have hl := hA h (o := dep.outPoint)
    refine ((hA.ensureDepAvailable_limited h).mapError.bind fun _ _ _ _ =>
      hl.mapError.bind (P := fun _ => ∀ o ∈ q.toProvider.groupMembers q.snapshotPov dep,
        A q o) fun cell cell' hc hsa => ?_).congr ?_
    · subst hsa
      rw [mapError_eq_ok_iff] at hc
      have hm : q.toProvider.groupMembers q.snapshotPov dep =
          cell.elim [] fun m => (parseDepGroupData (m.data.getD [])).toOption.getD [] := by
        unfold groupMembers
        rw [q.getCellAtPov_snapshotPov, hc, hdep]
        cases cell with
        | none => rfl
        | some m => cases hp : parseDepGroupData (m.data.getD []) <;> simp [hp, Except.toOption]
      cases cell with
      | none => exact (of_sim Sim.refl).congr (by simp [hm])
      | some m =>
        cases hd : m.data with
        | none =>
          have hs : parseDepGroupData [] = .error "DepGroup data too short for count header" := rfl
          simp only [Option.bind_some, hd]
          exact (of_sim Sim.refl).congr (by simp [hm, hd, hs, Except.toOption])
        | some data =>
          simp only [Option.bind_some, hd]
          cases hp : parseDepGroupData data with
          | error e =>
            exact (of_sim (.error _ _)).congr (by simp [hm, hd, hp, Except.toOption])
          | ok os =>
            refine (forM fun o _ => (hA.ensureDepAvailable_limited h).mapError).congr ?_
            simp [hm, hd, hp, Except.toOption]
    · -- the members are asked for only if the group itself is found
      rw [List.forall_mem_cons]
      refine and_congr_right fun hse => ⟨fun hr => ?_, fun hm _ _ =>
        ⟨hse, fun _ _ => hm⟩⟩
      rcases hc : q.getCellMetadata dep.outPoint with e | _ | m
      · intro o ho
        simp [groupMembers, q.getCellAtPov_snapshotPov, hc] at ho
      · intro o ho
        simp [groupMembers, q.getCellAtPov_snapshotPov, hc] at ho
      · refine (hr () ?_).2 (some m) (mapError_eq_ok_iff.mpr hc)
        simp [ensureDepAvailable, hc, Except.mapError]

structure RebasedState (weak full : DagCellProvider) (basePov snapshotPov : Hash)
    (st st' : OverlayState) : Prop where
  provider : Rebased weak full basePov snapshotPov st.provider st'.provider
  processed : st.processedTxs = st'.processedTxs

variable {proc : BlockBodyProcessor} {block : Block}

theorem addOverlayOutputs_sim {bh daa cb tx} {outs : List (CellOutput × Nat)}
    (h : Rebased weak full basePov pov p q) :
    Sim (Rebased weak full basePov pov) (outs.foldlM (proc.addOverlayOutput bh daa cb tx) p)
    (outs.foldlM (proc.addOverlayOutput bh daa cb tx) q) :=
  Sim.foldlM (fun _ _ _ _ hpq => hpq.addCell_sim.mapError) h

-- Merging a transaction asks for its dependencies, unless it was merged before.
def MergeAnswered (processor : BlockBodyProcessor) (A : OverlayCellProvider → OutPoint → Prop)
    (st : OverlayState) (tx : CellTx) : Prop :=
  processor.hasher.txid tx ∉ st.processedTxs →
    ∀ o ∈ st.provider.toProvider.depReads st.provider.snapshotPov tx, A st.provider o

theorem mergeTx_limited (hA : AnswersAlike N A weak full basePov pov) {st st'}
    (h : RebasedState weak full basePov pov st st') {blue daa e} :
    Limited N (RebasedState weak full basePov pov) (proc.MergeAnswered A st' e.1)
    (proc.mergeTx blue daa st e) (proc.mergeTx blue daa st' e) := by
  obtain ⟨tx, ti⟩ := e
  unfold mergeTx MergeAnswered
  rw [h.processed]
  by_cases hmem : proc.hasher.txid tx ∈ st'.processedTxs
  · simp only [hmem]
    exact (of_sim (.ok h)).congr (by simp)
  simp only [hmem, not_false_eq_true, true_implies]
  refine ((forM fun dep _ => ensureOverlayDep_limited hA h.provider).bind_sim
    fun _ _ _ _ => ?_).congr ?_
  · refine Sim.bind (Sim.foldlM (fun _ _ _ _ hpq => hpq.spendCell_sim.mapError) h.provider)
      fun p q hs => ?_
    refine Sim.bind (addOverlayOutputs_sim hs) fun p q hc => ?_
    exact .ok ⟨hc, rfl⟩
  · simp only [depReads, List.mem_flatMap, forall_exists_index, and_imp]
    exact ⟨fun hall o dep hdep ho => hall dep hdep o ho,
      fun hall dep hdep o ho => hall o dep hdep ho⟩

structure MergesAt (processor : BlockBodyProcessor) (blueBlock : Hash) (start st : OverlayState)
    (tx : CellTx) : Prop where
  reached : ∃ transactions blueDaaScore before txIndex after,
    processor.blockTransactions blueBlock = some transactions ∧
        processor.daaScores blueBlock = some blueDaaScore ∧
        transactions.zipIdx = before ++ (tx, txIndex) :: after ∧
          before.foldlM (processor.mergeTx blueBlock blueDaaScore) start = .ok st

theorem mergeBlue_limited (hA : AnswersAlike N A weak full basePov pov) {st st'}
    (h : RebasedState weak full basePov pov st st') {blue} :
    Limited N (RebasedState weak full basePov pov)
    (∀ mid tx, proc.MergesAt blue st' mid tx → proc.MergeAnswered A mid tx)
    (proc.mergeBlue st blue) (proc.mergeBlue st' blue) := by
  unfold mergeBlue
  cases htxs : proc.blockTransactions blue with
  | none =>
    refine (of_sim (.error _ _)).congr (iff_of_true trivial fun mid tx hm => ?_)
    obtain ⟨txs, _, _, _, _, hs, -⟩ := hm.reached
    simp [htxs] at hs
  | some txs =>
    cases hdaa : proc.daaScores blue with
    | none =>
      refine (of_sim (.error _ _)).congr (iff_of_true trivial fun mid tx hm => ?_)
      obtain ⟨_, _, _, _, _, _, hs, -⟩ := hm.reached
      simp [hdaa] at hs
    | some daa =>
      refine (foldlM (Q := fun mid (e : CellTx × Nat) => proc.MergeAnswered A mid e.1)
        (fun e _ st st' hst => mergeTx_limited hA hst) h).congr ?_
      constructor
      · rintro hall mid tx ⟨txs', daa', before, ti, after, ht', hd', hsp, hrun⟩
        rw [htxs, Option.some.injEq] at ht'
        rw [hdaa, Option.some.injEq] at hd'
        subst ht' hd'
        exact hall before (tx, ti) after mid hsp hrun
      · intro hall before e after mid hsp hrun
        exact hall mid e.1 ⟨txs, daa, before, e.2, after, htxs, hdaa, hsp, hrun⟩

structure OverlayAt (processor : BlockBodyProcessor) (block : Block) (st : OverlayState)
    (tx : CellTx) : Prop where
  reached : ∃ start mid before blueBlock after,
    processor.mergeSelectedParentCoinbase (processor.blockGhostdagData block).selectedParent
      (.new processor.baseProvider block.hash (processor.blockGhostdagData block).selectedParent) =
        .ok start ∧
      (processor.blockGhostdagData block).mergesetBlues = before ++ blueBlock :: after ∧
        before.foldlM processor.mergeBlue start = .ok mid ∧ processor.MergesAt blueBlock mid st tx

def withBase (processor : BlockBodyProcessor) (base : DagCellProvider) : BlockBodyProcessor :=
  { processor with baseProvider := base }

theorem mergeSelectedParentCoinbase_sim {selectedParent} (h : Rebased weak full basePov pov p q) :
    Sim (RebasedState weak full basePov pov) (proc.mergeSelectedParentCoinbase selectedParent p)
    (proc.mergeSelectedParentCoinbase selectedParent q) := by
  refine Sim.bind Sim.refl fun txs _ htxs => Sim.bind Sim.refl fun daa _ hdaa => ?_
  subst htxs hdaa
  cases txs with
  | nil => exact .ok ⟨h, rfl⟩
  | cons coinbase rest =>
    exact Sim.bind (addOverlayOutputs_sim h) fun p q hc => .ok ⟨hc, rfl⟩

theorem buildBodyValidationProvider_limited (hA : AnswersAlike N A weak proc.baseProvider
      (proc.blockGhostdagData block).selectedParent block.hash) :
    Limited N (Rebased weak proc.baseProvider (proc.blockGhostdagData block).selectedParent
      block.hash)
    (∀ st tx, proc.OverlayAt block st tx → proc.MergeAnswered A st tx)
    ((proc.withBase weak).buildBodyValidationProvider block)
    (proc.buildBodyValidationProvider block) := by
  have hnew : Rebased weak proc.baseProvider (proc.blockGhostdagData block).selectedParent
      block.hash (.new weak block.hash (proc.blockGhostdagData block).selectedParent)
      (.new proc.baseProvider block.hash (proc.blockGhostdagData block).selectedParent) :=
    ⟨rfl, rfl, rfl, rfl⟩
  have hs : Sim (RebasedState weak proc.baseProvider
        (proc.blockGhostdagData block).selectedParent block.hash)
      (proc.mergeSelectedParentCoinbase (proc.blockGhostdagData block).selectedParent
        (.new weak block.hash (proc.blockGhostdagData block).selectedParent))
      (proc.mergeSelectedParentCoinbase (proc.blockGhostdagData block).selectedParent
        (.new proc.baseProvider block.hash (proc.blockGhostdagData block).selectedParent)) :=
    mergeSelectedParentCoinbase_sim hnew
  refine ((bind_of_sim hs fun st st' _ hst => (foldlM
    (Q := fun st' blue => ∀ mid tx, proc.MergesAt blue st' mid tx → proc.MergeAnswered A mid tx)
    (fun _ _ _ _ hst => mergeBlue_limited hA hst) hst).bind_sim
      fun _ _ _ hst => .ok hst.provider)).congr ?_
  constructor
  · rintro hall st tx ⟨start, mid, before, blue, after, hs, hb, hmid, hm⟩
    exact hall start hs before blue after mid hb hmid st tx hm
  · intro hall start hs before blue after mid hb hmid st tx hm
    exact hall st tx ⟨start, mid, before, blue, after, hs, hb, hmid, hm⟩

section Transactions

variable {tx : CellTx}

theorem validateInDagWithScripts_sim
    (hsame : SameAnswers p.toProvider q.toProvider block.hash block.hash tx) :
    Sim Eq (proc.validateInDagWithScripts block p tx)
    (proc.validateInDagWithScripts block q tx) := by
  exact Sim.bind (hsame.validateInDag_sim _ _ _) fun _ _ _ => hsame.verifyScriptsWithCycles_sim _ _

theorem storageMass_sim (hcells : ∀ o ∈ p.toProvider.reads block.hash tx,
      p.toProvider.getCellAtPov o block.hash = q.toProvider.getCellAtPov o block.hash) :
    Sim Eq (proc.storageMass block p tx) (proc.storageMass block q tx) := by
  have hin : resolveCellTxInputsFromProvider block p tx =
      resolveCellTxInputsFromProvider block q tx :=
    mapM_congr fun input hinput => by rw [hcells _ (mem_reads_of_input hinput)]
  unfold storageMass
  rw [hin]
  exact Sim.refl

theorem validateBodyTx_sim {proc' : BlockBodyProcessor}
    (hcalculator : proc.massCalculator = proc'.massCalculator)
    (hvalid : Sim Eq (proc.validateInDagWithScripts block p tx)
      (proc'.validateInDagWithScripts block q tx))
    (hmass : Sim Eq (proc.storageMass block p tx) (proc'.storageMass block q tx)) :
    Sim Eq (proc.validateBodyTx block p tx) (proc'.validateBodyTx block q tx) := by
  refine Sim.bind hvalid.mapError fun n n' hn => Sim.bind hmass fun mass mass' hmass => ?_
  subst hn hmass
  rw [hcalculator]
  exact .ok rfl

theorem validateBodyTx_withBase_sim
    (hsame : SameAnswers p.toProvider q.toProvider block.hash block.hash tx)
    (hcells : ∀ o ∈ p.toProvider.reads block.hash tx,
      p.toProvider.getCellAtPov o block.hash = q.toProvider.getCellAtPov o block.hash) :
    Sim Eq ((proc.withBase weak).validateBodyTx block p tx) (proc.validateBodyTx block q tx) := by
  have hv : Sim Eq (proc.validateInDagWithScripts block p tx)
      (proc.validateInDagWithScripts block q tx) := validateInDagWithScripts_sim hsame
  have hm : Sim Eq (proc.storageMass block p tx) (proc.storageMass block q tx) :=
    storageMass_sim hcells
  exact validateBodyTx_sim rfl hv hm

def TxAnswered (q : OverlayCellProvider) (weak : DagCellProvider) (tx : CellTx) : Prop :=
  ∀ o ∈ q.toProvider.reads q.snapshotPov tx, q.Answered weak o

theorem Rebased.getCellAtPov_eq (hbelow : weak.Below full basePov)
    (h : Rebased weak full basePov pov p q) {o cell} (hcell : p.getCellMetadata o = .ok cell) :
    p.toProvider.getCellAtPov o pov = q.toProvider.getCellAtPov o pov := by
  have hl : Limited True Eq (q.Answered weak o) (p.getCellMetadata o) (q.getCellMetadata o) :=
    answersAlike_of_below hbelow h
  obtain ⟨_, hf, rfl⟩ := hl.exists_eq_ok trivial hcell
  rw [h.getCellAtPov_weak, h.getCellAtPov_full, hcell, hf]

theorem Rebased.getCellAtPov_eq_of_reads (h : Rebased weak full basePov pov p q)
    (hsame : ∀ o ∈ q.toProvider.reads q.snapshotPov tx, p.getCellMetadata o = q.getCellMetadata o) :
    ∀ o ∈ p.toProvider.reads pov tx, p.toProvider.getCellAtPov o pov =
    q.toProvider.getCellAtPov o pov := by
  have ha : ∀ o ∈ q.toProvider.reads pov tx, q.toProvider.getCellAtPov o pov =
      p.toProvider.getCellAtPov o pov := by
    intro o ho
    rw [h.getCellAtPov_weak, h.getCellAtPov_full, hsame o (by rw [h.snapshotPov]; exact ho)]
  intro o ho
  rw [reads_congr ha] at ho
  exact (ha o ho).symm

variable (hbelow : weak.Below full basePov)
include hbelow

theorem TxAnswered.getCellAtPov_eq
    (h : Rebased weak full basePov pov p q) (hQ : TxAnswered q weak tx) :
    ∀ o ∈ p.toProvider.reads pov tx, p.toProvider.getCellAtPov o pov =
    q.toProvider.getCellAtPov o pov := by
  refine Rebased.getCellAtPov_eq_of_reads h fun o ho => ?_
  obtain ⟨cell, hc⟩ := hQ o ho
  rw [← h.eq] at hc
  have heq := Rebased.getCellAtPov_eq hbelow h hc
  rwa [h.getCellAtPov_weak, h.getCellAtPov_full] at heq

theorem Rebased.sameAnswers (h : Rebased weak full basePov pov p q) (hQ : TxAnswered q weak tx) :
    SameAnswers p.toProvider q.toProvider pov pov tx := by
  have heq := h.eq
  have hb : p.base = weak := by rw [heq]; rfl
  refine .of_eq (hQ.getCellAtPov_eq hbelow h) ?_ ?_
  · simp only [toProvider, hb, h.base, hbelow.timestamps]
  · simp only [toProvider, hb, h.base, hbelow.headers]

theorem txAnswered_of_validateInDagWithScripts (h : Rebased weak full basePov block.hash p q) {n}
    (hn : proc.validateInDagWithScripts block p tx = .ok n) : TxAnswered q weak tx := by
  obtain ⟨_, hdag, -⟩ := bind_ok hn
  obtain ⟨_, he, -⟩ := bind_ok hdag
  have hf : ∀ o ∈ p.toProvider.reads block.hash tx, ∃ m, p.getCellMetadata o = .ok (some m) := by
    intro o ho
    obtain ⟨m, hm⟩ := available_of_validateCellExistence he o ho
    exact ⟨m, h.getCellAtPov_weak o ▸ hm⟩
  have ha : ∀ o ∈ p.toProvider.reads block.hash tx, p.toProvider.getCellAtPov o block.hash =
      q.toProvider.getCellAtPov o block.hash := by
    intro o ho
    obtain ⟨m, hm⟩ := hf o ho
    exact Rebased.getCellAtPov_eq hbelow h hm
  intro o ho
  rw [h.snapshotPov, reads_congr ha] at ho
  obtain ⟨m, hm⟩ := hf o ho
  exact ⟨some m, by rw [← h.eq]; exact hm⟩

theorem validateBodyTx_limited (h : Rebased weak full basePov block.hash p q) :
    Limited N Eq (TxAnswered q weak tx) ((proc.withBase weak).validateBodyTx block p tx)
    (proc.validateBodyTx block q tx) := by
  constructor
  · intro _ r hr
    obtain ⟨n, hn, -⟩ := bind_ok hr
    have hv := mapError_eq_ok_iff.mp hn
    exact txAnswered_of_validateInDagWithScripts hbelow h hv
  · exact fun hQ =>
      validateBodyTx_withBase_sim (Rebased.sameAnswers hbelow h hQ) (hQ.getCellAtPov_eq hbelow h)

end Transactions

theorem checkBlockTransactionsInContext_limited_of (hA : AnswersAlike N A weak proc.baseProvider
      (proc.blockGhostdagData block).selectedParent block.hash)
    {T : OverlayCellProvider → CellTx → Prop}
    (hT : ∀ {p q} {tx}, Rebased weak proc.baseProvider
      (proc.blockGhostdagData block).selectedParent block.hash p q →
      Limited N Eq (T q tx) ((proc.withBase weak).validateBodyTx block p tx)
      (proc.validateBodyTx block q tx)) :
    Limited N Eq (block.transactions.all CellTx.isCoinbase = false →
      (∀ st tx, proc.OverlayAt block st tx → proc.MergeAnswered A st tx) ∧
      ∀ provider, proc.buildBodyValidationProvider block = .ok provider →
      ∀ tx ∈ block.transactions, tx.isCoinbase = false → T provider tx)
    ((proc.withBase weak).checkBlockTransactionsInContext block)
    (proc.checkBlockTransactionsInContext block) := by
  unfold checkBlockTransactionsInContext
  by_cases hall : block.transactions.all CellTx.isCoinbase = true
  · simp only [hall]
    exact (of_sim Sim.refl).congr (by simp)
  · simp only [hall]
    refine ((buildBodyValidationProvider_limited hA).bind
      (P := fun provider => ∀ e ∈ block.transactions.zipIdx.filter fun e => !e.1.isCoinbase,
        T provider e.1) fun p q _ hpq => ?_).congr ?_
    · refine (foldlM_uniform (fun e _ accum accum' ha => ?_) rfl).bind_sim
        fun _ _ _ ha => .ok (by rw [ha])
      subst ha
      refine (hT hpq).bind_sim fun r result' _ hr => ?_
      subst hr
      exact Sim.refl
    · simp only [true_implies]
      refine and_congr_right fun _ => forall₂_congr fun provider _ => ?_
      constructor
      · intro hown tx htx hc
        have hmem : tx ∈ block.transactions.filter fun tx => !tx.isCoinbase := by simp [htx, hc]
        rw [← map_fst_filter_zipIdx] at hmem
        obtain ⟨e, he, rfl⟩ := List.mem_map.mp hmem
        exact hown e he
      · intro hown e he
        obtain ⟨hmem, hc⟩ := List.mem_filter.mp he
        exact hown e.1 (List.fst_mem_of_mem_zipIdx hmem) (by simpa using hc)

-- The cells that body validation of a block asks for, with the overlay that it asks: the
-- dependencies of the transactions it merges, and all that its own transactions read.
inductive Asks (processor : BlockBodyProcessor) (block : Block) :
    OverlayCellProvider → OutPoint → Prop
  | merged {st : OverlayState} {tx : CellTx} {o : OutPoint}
      (hbody : block.transactions.all CellTx.isCoinbase = false)
      (hat : processor.OverlayAt block st tx) (hnew : processor.hasher.txid tx ∉ st.processedTxs)
      (ho : o ∈ st.provider.toProvider.depReads st.provider.snapshotPov tx) :
      Asks processor block st.provider o
  | own {provider : OverlayCellProvider} {tx : CellTx} {o : OutPoint}
      (hbuilt : processor.buildBodyValidationProvider block = .ok provider)
      (htx : tx ∈ block.transactions) (hcoinbase : tx.isCoinbase = false)
      (ho : o ∈ provider.toProvider.reads provider.snapshotPov tx) : Asks processor block provider o

variable (hbelow : weak.Below proc.baseProvider (proc.blockGhostdagData block).selectedParent)
include hbelow

theorem checkBlockTransactionsInContext_limited :
    Limited N Eq (∀ prov o, proc.Asks block prov o → prov.Answered weak o)
    ((proc.withBase weak).checkBlockTransactionsInContext block)
    (proc.checkBlockTransactionsInContext block) := by
  refine (checkBlockTransactionsInContext_limited_of (answersAlike_of_below hbelow)
    fun hpq => validateBodyTx_limited hbelow hpq).congr ?_
  constructor
  · intro hall prov o ha
    cases ha with
    | merged hb hat hnew ho => exact (hall hb).1 _ _ hat hnew o ho
    | own hbu htx hc ho =>
      have hb : block.transactions.all CellTx.isCoinbase = false := by
        rw [List.all_eq_false]
        exact ⟨_, htx, by simp [hc]⟩
      exact (hall hb).2 prov hbu _ htx hc o ho
  · intro ha hb
    refine ⟨fun st tx hat hnew o ho => ha _ _ (.merged hb hat hnew ho),
      fun prov hbu tx htx hc o ho => ?_⟩
    exact ha prov o (.own hbu htx hc ho)

theorem validateBodyInContext_withBase_iff
    (mass : Mass) : (proc.withBase weak).validateBodyInContext block = .ok mass ↔
    proc.validateBodyInContext block = .ok mass ∧
    ∀ provider o, proc.Asks block provider o → provider.Answered weak o := by
  have hc := (checkBlockTransactionsInContext_limited hbelow).eq_ok_iff trivial mass
  unfold validateBodyInContext
  simp only [bind_eq_ok_iff, hc]
  constructor
  · rintro ⟨_, hpa, _, hl, _, hp, htxs, ha⟩
    exact ⟨⟨_, hpa, _, hl, _, hp, htxs⟩, ha⟩
  · rintro ⟨⟨_, hpa, _, hl, _, hp, htxs⟩, ha⟩
    exact ⟨_, hpa, _, hl, _, hp, htxs, ha⟩

end BlockBodyProcessor

end Spora
