import Spora.Validation.Scripts

namespace Spora

open Std Outcome CellMetadata List DagCellProvider PreparedVmDataProvider

namespace DagCellProvider

-- The members a dependency brings in: the cells listed in the data of a `DepGroup` cell.
def groupMembers (self : DagCellProvider) (pov : Hash) (dep : CellDep) : List OutPoint :=
  match dep.depType, self.getCellAtPov dep.outPoint pov with
  | .depGroup, .ok (some cell) =>
    match (cell.data.getD [] |> parseDepGroupData) with
    | .ok outpoints => outpoints
    | .error _ => []
  | _, _ => []

-- The outpoints that validation of a transaction asks the provider for.
def reads (self : DagCellProvider) (pov : Hash) (tx : CellTx) : List OutPoint :=
  tx.spends ++ tx.cellDeps.flatMap fun dep => dep.outPoint :: self.groupMembers pov dep

end DagCellProvider

-- Two answers that describe one cell, possibly with another containing block.
inductive SameCell :
    Except String (Option CellMetadata) → Except String (Option CellMetadata) → Prop
  | error (e : String) : SameCell (.error e) (.error e)
  | missing : SameCell (.ok none) (.ok none)
  | cell (m : CellMetadata) (block : Hash) : SameCell (.ok (some m))
      (.ok (some { m with blockHash := block }))

theorem SameCell.refl (x) : SameCell x x := by
  cases x with
  | error e => exact .error e
  | ok o =>
    cases o with
    | none => exact .missing
    | some m => exact .cell m m.blockHash

theorem SameCell.cases_eq {x y : Except String (Option CellMetadata)} (h : SameCell x y) :
    (∃ e, x = .error e ∧ y = .error e) ∨ (x = .ok none ∧ y = .ok none) ∨
      ∃ m block, x = .ok (some m) ∧ y = .ok (some { m with blockHash := block }) := by
  cases h with
  | error e => exact .inl ⟨e, rfl, rfl⟩
  | missing => exact .inr (.inl ⟨rfl, rfl⟩)
  | cell m block => exact .inr (.inr ⟨m, block, rfl, rfl⟩)

instance (x y : Except String (Option CellMetadata)) : Decidable (SameCell x y) :=
  match x, y with
  | .error e, .error e' =>
    if h : e = e' then .isTrue (h ▸ .error e) else .isFalse (by rintro ⟨⟩; exact h rfl)
  | .ok none, .ok none => .isTrue .missing
  | .ok (some m), .ok (some m') =>
    if h : m' = { m with blockHash := m'.blockHash } then .isTrue (by rw [h]; exact .cell m _)
    else .isFalse (by rintro ⟨⟩; exact h rfl)
  | .error _, .ok _ | .ok _, .error _ | .ok none, .ok (some _) | .ok (some _), .ok none =>
    .isFalse (by rintro ⟨⟩)

def CellMetadata.forgetBlock (m : CellMetadata) : CellMetadata := { m with blockHash := 0 }

-- Two providers answer alike for a transaction: the cells it reads are the same up to the block
-- that holds them, and that block matters neither to a relative timestamp lock nor to a script.
structure SameAnswers (p q : DagCellProvider) (pov pov' : Hash) (tx : CellTx) : Prop where
  cells : ∀ o ∈ p.reads pov tx, SameCell (p.getCellAtPov o pov) (q.getCellAtPov o pov')
  timestamps : ∀ input ∈ tx.inputs, input.since ≠ 0 → sinceIsRelative input.since = true →
    sinceIsDaa input.since = false → ∀ m m',
    p.getCellAtPov input.previousOutput pov = .ok (some m) →
    q.getCellAtPov input.previousOutput pov' = .ok (some m') →
    p.getBlockTimestamp m.blockHash = q.getBlockTimestamp m'.blockHash
  headers : ∀ h ∈ tx.headerDeps, p.getHeader h = q.getHeader h
  blocks : tx.headerDeps = [] ∨ ∀ o ∈ p.reads pov tx, p.getCellAtPov o pov = q.getCellAtPov o pov'

section Agreement

variable {p q : DagCellProvider} {pov pov' : Hash} {tx : CellTx}

theorem mem_reads_of_input {input} (h : input ∈ tx.inputs) :
    input.previousOutput ∈ p.reads pov tx :=
  mem_append_left _ (mem_map_of_mem h)

variable {dep : CellDep}

theorem mem_reads_of_dep (h : dep ∈ tx.cellDeps) : dep.outPoint ∈ p.reads pov tx :=
  mem_append_right _ (mem_flatMap.mpr ⟨dep, h, by simp⟩)

variable {o : OutPoint} {m m' : CellMetadata} {engine : ScriptEngine} {rs rs' : List CellMetadata}

theorem mem_reads_of_member (h : dep ∈ tx.cellDeps) (ho : o ∈ p.groupMembers pov dep) :
    o ∈ p.reads pov tx :=
  mem_append_right _ (mem_flatMap.mpr ⟨dep, h, by simp [ho]⟩)

theorem groupMembers_eq {cell os}
    (hdep : dep.depType = .depGroup) (hcell : p.getCellAtPov dep.outPoint pov = .ok (some cell))
    (hparse : parseDepGroupData (cell.data.getD []) = .ok os) : p.groupMembers pov dep = os := by
  simp only [groupMembers, hdep, hcell, hparse]

theorem ensureAvailable_eq_ok_iff {e u} :
    ensureAvailable p pov o e = .ok u ↔ ∃ m, p.getCellAtPov o pov = .ok (some m) := by
  unfold ensureAvailable isCellAvailable
  cases p.getCellAtPov o pov with
  | error err => simp [Except.mapError]
  | ok cell => cases cell <;> simp [Except.mapError]

theorem available_of_validateCellExistence (h : validateCellExistence p pov tx = .ok ()) :
    ∀ o ∈ p.reads pov tx, ∃ m, p.getCellAtPov o pov = .ok (some m) := by
  obtain ⟨_, hin, hd⟩ := bind_ok h
  rw [forM_eq_ok_iff] at hin hd
  intro o ho
  rcases mem_append.mp ho with ho | ho
  · obtain ⟨input, hinput, rfl⟩ := mem_map.mp ho
    exact ensureAvailable_eq_ok_iff.mp (hin input hinput)
  · obtain ⟨dep, hdep, ho⟩ := mem_flatMap.mp ho
    have he := hd dep hdep
    obtain ⟨_, hown, he⟩ := bind_ok he
    have hs := ensureAvailable_eq_ok_iff.mp hown
    rcases mem_cons.mp ho with rfl | ho
    · exact hs
    obtain ⟨cell, hc⟩ := hs
    cases ht : dep.depType with
    | code => simp [groupMembers, ht] at ho
    | depGroup =>
      simp only [ht, resolveCell, hc, bind_eq_ok_iff, mapError_eq_ok_iff, okOr_eq_ok_iff,
        Except.ok.injEq, exists_eq_left', Option.some.injEq] at he
      obtain ⟨data, hda, os, hp, hm⟩ := he
      rw [groupMembers_eq ht hc (by rw [hda]; exact hp)] at ho
      rw [forM_eq_ok_iff] at hm
      exact ensureAvailable_eq_ok_iff.mp (hm o ho)

theorem reads_congr (h : ∀ o ∈ p.reads pov tx, p.getCellAtPov o pov = q.getCellAtPov o pov') :
    q.reads pov' tx = p.reads pov tx := by
  have hm : ∀ dep ∈ tx.cellDeps, (dep.outPoint :: q.groupMembers pov' dep) =
      dep.outPoint :: p.groupMembers pov dep := by
    intro dep hdep
    rw [groupMembers, groupMembers, h _ (mem_reads_of_dep hdep)]
  rw [reads, reads, flatMap_congr hm]

theorem SameAnswers.of_eq
    (hcells : ∀ o ∈ p.reads pov tx, p.getCellAtPov o pov = q.getCellAtPov o pov')
    (htime : p.getBlockTimestamp = q.getBlockTimestamp) (hheader : p.getHeader = q.getHeader) :
    SameAnswers p q pov pov' tx := by
  refine ⟨fun o ho => hcells o ho ▸ SameCell.refl _, ?_, fun h _ => by rw [hheader], .inr hcells⟩
  intro input hin _ _ _ m m' hm hm'
  rw [hcells _ (mem_reads_of_input hin), hm', Except.ok.injEq, Option.some.injEq] at hm
  rw [htime, hm]

-- A transaction without dependencies and time locks only reads the cells it spends.
theorem SameAnswers.of_plain (hdeps : tx.cellDeps = []) (hheaders : tx.headerDeps = [])
    (hsince : ∀ input ∈ tx.inputs, input.since = 0)
    (hcells : ∀ o ∈ tx.spends, SameCell (p.getCellAtPov o pov) (q.getCellAtPov o pov')) :
    SameAnswers p q pov pov' tx := by
  refine ⟨fun o ho => hcells o (by simpa [reads, hdeps] using ho), ?_, by simp [hheaders],
    .inl hheaders⟩
  exact fun input hin hne => absurd (hsince input hin) hne

theorem SameCell.bind_eq {α} {x y} (h : SameCell x y) {f : Option CellMetadata → Except String α}
    (hf : ∀ m block, f (some m) = f (some { m with blockHash := block })) :
    x >>= f = y >>= f := by
  cases h with
  | error e => rfl
  | missing => rfl
  | cell m block => exact hf m block

section Cell

variable {o : OutPoint} (h : SameCell (p.getCellAtPov o pov) (q.getCellAtPov o pov'))
include h

theorem SameCell.isCellAvailable_eq : p.isCellAvailable o pov = q.isCellAvailable o pov' :=
  h.bind_eq fun _ _ => rfl

theorem SameCell.getCellCapacity_eq : p.getCellCapacity o pov = q.getCellCapacity o pov' :=
  h.bind_eq fun _ _ => rfl

theorem SameCell.getCellData_eq : p.getCellData o pov = q.getCellData o pov' :=
  h.bind_eq fun _ _ => rfl

theorem SameCell.ensureAvailable_eq (e) :
    ensureAvailable p pov o e = ensureAvailable q pov' o e := by
  simp only [ensureAvailable, h.isCellAvailable_eq]

theorem SameCell.resolveCell_sim (e) :
    Sim (fun m m' => p.getCellAtPov o pov = .ok (some m) ∧ q.getCellAtPov o pov' = .ok (some m') ∧
      m.forgetBlock = m'.forgetBlock) (resolveCell p pov o e) (resolveCell q pov' o e) := by
  unfold resolveCell
  generalize p.getCellAtPov o pov = x at *
  generalize q.getCellAtPov o pov' = y at *
  cases h with
  | error err => exact .error _ _
  | missing => exact .error _ _
  | cell m block => exact .ok ⟨rfl, rfl, rfl⟩

end Cell

theorem forgetBlock_eq_iff :
    m.forgetBlock = m'.forgetBlock ↔ m' = { m with blockHash := m'.blockHash } := by
  cases m'
  simp [forgetBlock, eq_comm]

variable (h : SameAnswers p q pov pov' tx)
include h

theorem SameAnswers.validateCellDepExistence_sim (hdep : dep ∈ tx.cellDeps) :
    Sim Eq (validateCellDepExistence p pov dep) (validateCellDepExistence q pov' dep) := by
  have hc := h.cells dep.outPoint (mem_reads_of_dep hdep)
  simp only [validateCellDepExistence, hc.ensureAvailable_eq]
  refine Sim.bind Sim.refl fun _ _ _ => ?_
  cases hty : dep.depType with
  | code => exact Sim.refl
  | depGroup =>
    refine Sim.bind (hc.resolveCell_sim _) fun m m' hm => ?_
    obtain ⟨hp, -, hmm⟩ := hm
    rw [forgetBlock_eq_iff] at hmm
    rw [hmm]
    cases hd : m.data with
    | none => exact .error _ _
    | some data =>
      simp only [okOr_some, ok_bind]
      cases hpa : parseDepGroupData data with
      | error e => exact .error _ _
      | ok os =>
        have hme := groupMembers_eq hty hp (by rw [hd]; exact hpa)
        refine Sim.forM fun o ho => ?_
        rw [(h.cells o (mem_reads_of_member hdep (hme ▸ ho))).ensureAvailable_eq]
        exact Sim.refl

theorem SameAnswers.validateCellExistence_sim :
    Sim Eq (validateCellExistence p pov tx) (validateCellExistence q pov' tx) := by
  refine Sim.bind (Sim.forM fun input hin => ?_) fun _ _ _ => ?_
  · rw [(h.cells _ (mem_reads_of_input hin)).ensureAvailable_eq]
    exact Sim.refl
  · exact Sim.forM fun dep hdep => h.validateCellDepExistence_sim hdep

theorem SameAnswers.validateCellTxInContext_sim :
    Sim Eq (p.toCellStateProvider.validateCellTxInContext pov tx)
    (q.toCellStateProvider.validateCellTxInContext pov' tx) := by
  refine Sim.bind (Sim.forM fun input hin => ?_) fun _ _ _ => ?_
  · have havailable := (h.cells _ (mem_reads_of_input hin)).isCellAvailable_eq
    simp only [CellStateProvider.checkAvailable, toCellStateProvider, havailable]
    exact Sim.refl
  · refine Sim.bind (Sim.foldlM (fun input hin a b hab => ?_) rfl) fun a b hab => hab ▸ Sim.refl
    have hcapacity := (h.cells _ (mem_reads_of_input hin)).getCellCapacity_eq
    simp only [CellStateProvider.addInputCapacity, toCellStateProvider, hab, hcapacity]
    exact Sim.refl

theorem SameAnswers.validateTimeLocks_sim (daa ts : Nat) :
    Sim Eq (validateTimeLocks p pov tx daa ts) (validateTimeLocks q pov' tx daa ts) := by
  refine Sim.forM fun input hin => ?_
  by_cases hz : input.since = 0
  · simp only [validateTimeLock, hz]
    exact Sim.refl
  simp only [validateTimeLock, if_neg hz]
  refine Sim.bind ((h.cells _ (mem_reads_of_input hin)).resolveCell_sim _) fun m m' hm => ?_
  obtain ⟨hp, hq, hmm⟩ := hm
  have hb : sinceRequired p input.since m = sinceRequired q input.since m' := by
    unfold sinceRequired sinceBase
    split_ifs with hrel hdaa
    · rw [forgetBlock_eq_iff.mp hmm]
    · rw [h.timestamps input hin hz hrel (by simpa using hdaa) m m' hp hq]
    · rfl
  rw [hb]
  exact Sim.refl

theorem SameAnswers.validateCellbaseMaturity_sim (daa maturity : Nat) :
    Sim Eq (validateCellbaseMaturity p pov tx daa maturity)
    (validateCellbaseMaturity q pov' tx daa maturity) := by
  refine Sim.forM fun input hin => ?_
  refine Sim.bind ((h.cells _ (mem_reads_of_input hin)).resolveCell_sim _) fun m m' hm => ?_
  rw [forgetBlock_eq_iff.mp hm.2.2]
  exact Sim.refl

omit h in
theorem planFor_eq {params : CellConsensusParams}
    (hrs : rs.map CellMetadata.forgetBlock = rs'.map CellMetadata.forgetBlock) :
    planFor engine params tx rs' = { planFor engine params tx rs with resolvedInputs := rs' } := by
  have hl : rs.length = rs'.length := by simpa using congrArg List.length hrs
  have hc : engine.isNativeStandard ∘ CellMetadata.forgetBlock = engine.isNativeStandard := rfl
  have hall : rs.all engine.isNativeStandard = rs'.all engine.isNativeStandard := by
    have := congrArg (fun l => l.all engine.isNativeStandard) hrs
    simpa only [List.all_map, hc] using this
  have hany : rs.any (fun m => m.typeScript.isSome) = rs'.any fun m => m.typeScript.isSome := by
    have := congrArg (fun l => l.any fun m => m.typeScript.isSome) hrs
    simpa only [List.any_map, Function.comp_def, CellMetadata.forgetBlock] using this
  have hin : (rs.zipIdx.filter fun e => engine.isNativeStandard e.1).map Prod.snd =
      (rs'.zipIdx.filter fun e => engine.isNativeStandard e.1).map Prod.snd := by
    have hkey : ∀ l : List CellMetadata,
          (l.zipIdx.filter fun e => engine.isNativeStandard e.1).map Prod.snd =
          (((l.map CellMetadata.forgetBlock).zipIdx).filter
            fun e => engine.isNativeStandard e.1).map Prod.snd := by
      intro l
      rw [List.zipIdx_map, List.filter_map, List.map_map]
      rfl
    rw [hkey rs, hkey rs', hrs]
  simp only [planFor, collectNativeStandardInputIndices, hl, hall, hany, hin]

omit h in
theorem map_toCellMeta_eq
    (hrs : rs.map CellMetadata.forgetBlock = rs'.map CellMetadata.forgetBlock) :
    rs.map CellMetadata.toCellMeta = rs'.map CellMetadata.toCellMeta := by
  have hc : CellMetadata.toCellMeta ∘ CellMetadata.forgetBlock = CellMetadata.toCellMeta := rfl
  have := congrArg (List.map CellMetadata.toCellMeta) hrs
  simpa only [List.map_map, hc] using this

section Plan

variable {engine : ScriptEngine} {plan : ScriptVerificationPlan} {rs : List CellMetadata}

omit h in
theorem verifyNativeStandardLocks_eq
    (hrs : plan.resolvedInputs.map CellMetadata.forgetBlock = rs.map CellMetadata.forgetBlock) :
    verifyNativeStandardLocks engine tx { plan with resolvedInputs := rs } =
      verifyNativeStandardLocks engine tx plan := by
  have hs : verifyNativeStandardLock engine tx { plan with resolvedInputs := rs } =
      verifyNativeStandardLock engine tx plan := by
    funext cycles index
    simp only [verifyNativeStandardLock, map_toCellMeta_eq hrs]
  simp only [verifyNativeStandardLocks, hs]

omit h in
theorem skippedLockHashes_eq
    (hrs : plan.resolvedInputs.map CellMetadata.forgetBlock = rs.map CellMetadata.forgetBlock) :
    skippedLockHashes engine { plan with resolvedInputs := rs } =
      skippedLockHashes engine plan := by
  unfold skippedLockHashes
  congr 1
  funext index
  have hget := congrArg (fun l => (l[index]?).bind CellMeta.lockScript) (map_toCellMeta_eq hrs)
  have hl : ∀ m : CellMetadata, m.toCellMeta.lockScript = m.lockScript := fun _ => rfl
  simp only [List.getElem?_map, Option.bind_map, Function.comp_def, hl] at hget
  exact congrArg (Option.map engine.scriptHasher.sporaHash) hget.symm

end Plan

-- Two prepared providers that a script cannot tell apart. The blocks of the cells are compared
-- only where the transaction has header dependencies.
structure SamePrepared (tx : CellTx) (P Q : PreparedVmDataProvider) : Prop where
  scripts : P.scripts = Q.scripts
  cells : P.cells = Q.cells
  headers : P.headers = Q.headers
  noHeaders : tx.headerDeps = [] → P.headers = ∅
  cellHeaders : tx.headerDeps ≠ [] → P.cellHeaders = Q.cellHeaders

section Prepared

variable {engine : ScriptEngine} {P Q : PreparedVmDataProvider} {o : OutPoint} {cell : ResolvedCell}
  {b b' : Hash}

omit h in
theorem SamePrepared.insertCell (hPQ : SamePrepared tx P Q) (hb : tx.headerDeps ≠ [] → b = b') :
    SamePrepared tx (P.insertCell o cell b) (Q.insertCell o cell b') where
  scripts := hPQ.scripts
  cells := by simp only [PreparedVmDataProvider.insertCell, hPQ.cells]
  headers := hPQ.headers
  noHeaders := hPQ.noHeaders
  cellHeaders hne := by
    simp only [PreparedVmDataProvider.insertCell, hPQ.cellHeaders hne, hb hne]

omit h in
theorem SamePrepared.insertDep (hPQ : SamePrepared tx P Q) (hb : tx.headerDeps ≠ [] → b = b') :
    SamePrepared tx (P.insertDep engine o cell b) (Q.insertDep engine o cell b') := by
  apply SamePrepared.insertCell _ hb
  exact ⟨by simp only [hPQ.scripts], hPQ.cells, hPQ.headers, hPQ.noHeaders, hPQ.cellHeaders⟩

omit h in
theorem SamePrepared.insertHeader (hPQ : SamePrepared tx P Q) (hne : tx.headerDeps ≠ [])
    (hd : ResolvedHeader) : SamePrepared tx (P.insertHeader hd) (Q.insertHeader hd) where
  scripts := hPQ.scripts
  cells := hPQ.cells
  headers := by simp only [PreparedVmDataProvider.insertHeader, hPQ.headers]
  noHeaders hnil := absurd hnil hne
  cellHeaders := hPQ.cellHeaders

omit h in
theorem SamePrepared.view_eq (hPQ : SamePrepared tx P Q) : P.view engine tx = Q.view engine tx := by
  by_cases hd : tx.headerDeps = []
  · have hP := hPQ.noHeaders hd
    have hQ : Q.headers = ∅ := hPQ.headers ▸ hP
    ext1
    · simp only [view, hPQ.scripts]
    · simp only [view, hPQ.cells]
    · simp only [view, hPQ.headers]
    · funext o
      simp [view, hP, hQ]
    · funext o
      simp [view, hd]
  · unfold view
    rw [hPQ.scripts, hPQ.cells, hPQ.headers, hPQ.cellHeaders hd]

end Prepared

theorem SameAnswers.blockHash_eq (ho : o ∈ p.reads pov tx)
    (hm : p.getCellAtPov o pov = .ok (some m)) (hm' : q.getCellAtPov o pov' = .ok (some m'))
    (hne : tx.headerDeps ≠ []) : m.blockHash = m'.blockHash := by
  have heq := h.blocks.resolve_left hne o ho
  rw [hm, hm', Except.ok.injEq, Option.some.injEq] at heq
  rw [heq]

theorem SameAnswers.loadDep_sim (ho : o ∈ p.reads pov tx) (missing) :
    Sim (fun x y => x.1 = y.1 ∧ (tx.headerDeps ≠ [] → x.2 = y.2) ∧
      ∃ m, p.getCellAtPov o pov = .ok (some m) ∧ x.1.data.getD [] = m.data.getD [])
    (loadDep p pov o missing) (loadDep q pov' o missing) := by
  rcases (h.cells o ho).cases_eq with ⟨e, hp, hq⟩ | ⟨hp, hq⟩ | ⟨m, block, hp, hq⟩
  · simp only [loadDep, resolveCell, hp, hq]
    exact .error _ _
  · simp only [loadDep, resolveCell, hp, hq]
    exact .error _ _
  · have hb := fun hne => h.blockHash_eq ho hp hq hne
    simp only [loadDep, resolveCell, hp, hq, Except.mapError, ok_bind, getCellData,
      Option.bind_some]
    cases hd : m.data with
    | none => exact .error _ _
    | some data =>
      simp only [okOr_some, ok_bind, metadataToResolvedCell]
      cases hl : m.lockScript with
      | none => exact .error _ _
      | some lock => exact .ok ⟨rfl, hb, m, rfl, by simp [hd]⟩

theorem SameAnswers.prepareDep_sim (hdep : dep ∈ tx.cellDeps) {P Q} (hPQ : SamePrepared tx P Q) :
    Sim (SamePrepared tx) (prepareDep engine p pov P dep) (prepareDep engine q pov' Q dep) := by
  refine Sim.bind (h.loadDep_sim (mem_reads_of_dep hdep) _) fun x y hxy => ?_
  obtain ⟨cell, b⟩ := x
  obtain ⟨cell', b'⟩ := y
  obtain ⟨rfl, hb, m, hm, hd⟩ := hxy
  cases hty : dep.depType with
  | code => exact .ok (hPQ.insertDep hb)
  | depGroup =>
    simp only
    cases hp : parseDepGroupData (cell.data.getD []) with
    | error e => exact .error _ _
    | ok os =>
      have hme := groupMembers_eq hty hm (hd ▸ hp)
      refine Sim.foldlM (fun o ho P Q hPQ => ?_) (hPQ.insertCell hb)
      have hr := mem_reads_of_member hdep (hme ▸ ho)
      refine Sim.bind (h.loadDep_sim hr _) fun x y hxy => ?_
      obtain ⟨cell, b⟩ := x
      obtain ⟨rfl, hb, -⟩ := hxy
      exact .ok (hPQ.insertDep hb)

omit h in
theorem forall₂_zip {α β γ : Type} {R : β → γ → Prop} {bs : List β} {cs : List γ}
    (hbc : List.Forall₂ R bs cs) (as : List α) :
    List.Forall₂ (fun e e' => e.1 = e'.1 ∧ R e.2 e'.2) (as.zip bs) (as.zip cs) := by
  induction hbc generalizing as with
  | nil => simp
  | @cons b c bs cs hr _ ih =>
    cases as with
    | nil => simp
    | cons a as => exact .cons ⟨rfl, hr⟩ (ih as)

-- Resolved inputs are the same cells, and equal where blocks can be seen.
def SameInput (tx : CellTx) (m m' : CellMetadata) : Prop :=
  m.forgetBlock = m'.forgetBlock ∧ (tx.headerDeps ≠ [] → m = m')

theorem SameAnswers.resolveInputMetadata_sim :
    Sim (List.Forall₂ (SameInput tx)) (resolveInputMetadata p pov tx)
    (resolveInputMetadata q pov' tx) := by
  refine Sim.mapM fun input hin => ?_
  have hr : input.previousOutput ∈ p.reads pov tx := mem_reads_of_input hin
  refine ((h.cells _ hr).resolveCell_sim _).mono fun m m' hm => ⟨hm.2.2, fun hne => ?_⟩
  have heq := h.blocks.resolve_left hne _ hr
  rwa [hm.1, hm.2.1, Except.ok.injEq, Option.some.injEq] at heq

theorem SameAnswers.prepareInput_sim {input} (hinput : input ∈ tx.inputs) (hm : SameInput tx m m')
    {P Q} (hPQ : SamePrepared tx P Q) :
    Sim (SamePrepared tx) (prepareInput p pov P (input, m))
    (prepareInput q pov' Q (input, m')) := by
  have hda := (h.cells _ (mem_reads_of_input hinput)).getCellData_eq
  simp only [prepareInput, hda]
  refine Sim.bind Sim.refl fun data data' hd => ?_
  subst hd
  rw [forgetBlock_eq_iff.mp hm.1]
  refine Sim.bind Sim.refl fun cell cell' hc => ?_
  subst hc
  exact .ok (hPQ.insertCell fun hne => by rw [hm.2 hne])

theorem SameAnswers.prepare_sim (hrs : List.Forall₂ (SameInput tx) rs rs') :
    Sim (SamePrepared tx) (prepareVmDataProviderWithResolvedInputs engine p pov tx rs)
    (prepareVmDataProviderWithResolvedInputs engine q pov' tx rs') := by
  refine Sim.bind (R := SamePrepared tx) (Sim.foldlM (fun dep hdep P Q hPQ => ?_) ?_)
    fun P Q hPQ => ?_
  · exact h.prepareDep_sim hdep hPQ
  · exact ⟨rfl, rfl, rfl, fun _ => rfl, fun _ => rfl⟩
  refine Sim.bind (Sim.foldlM_forall₂ (forall₂_zip hrs tx.inputs)
    (fun e e' he hee' P Q hPQ => ?_) hPQ) fun P Q hPQ => ?_
  · obtain ⟨input, m⟩ := e
    obtain ⟨rfl, hm⟩ := hee'
    exact h.prepareInput_sim (of_mem_zip he).1 hm hPQ
  · refine Sim.foldlM (fun hash hh P Q hPQ => ?_) hPQ
    unfold prepareHeader
    rw [h.headers hash hh]
    refine Sim.bind Sim.refl fun x y hxy => ?_
    subst hxy
    refine Sim.bind Sim.refl fun x y hxy => ?_
    subst hxy
    exact .ok (hPQ.insertHeader (ne_nil_of_mem hh) x)

theorem SameAnswers.validateInDag_sim (params) (daa ts : Nat) :
    Sim Eq (validateInDag p pov params tx daa ts) (validateInDag q pov' params tx daa ts) := by
  refine Sim.bind h.validateCellExistence_sim fun _ _ _ => ?_
  refine Sim.bind h.validateCellTxInContext_sim fun _ _ _ => ?_
  refine Sim.bind (h.validateTimeLocks_sim _ _) fun _ _ _ => ?_
  exact h.validateCellbaseMaturity_sim _ _

theorem SameAnswers.verifyScriptsWithCycles_sim (engine params) :
    Sim Eq (verifyScriptsWithCycles engine params p pov tx)
    (verifyScriptsWithCycles engine params q pov' tx) := by
  unfold verifyScriptsWithCycles prepareScriptVerificationPlan
  simp only [bind_assoc, pure_bind]
  refine Sim.bind h.resolveInputMetadata_sim fun rs rs' hrs => ?_
  have hf : rs.map forgetBlock = rs'.map forgetBlock := by
    rw [← forall₂_eq_eq_eq, forall₂_map_left_iff, forall₂_map_right_iff]
    exact hrs.imp fun _ _ hm => hm.1
  have hn : verifyNativeStandardLocks engine tx
      { planFor engine params tx rs with resolvedInputs := rs' } =
        verifyNativeStandardLocks engine tx (planFor engine params tx rs) :=
    verifyNativeStandardLocks_eq hf
  have hs : skippedLockHashes engine { planFor engine params tx rs with resolvedInputs := rs' } =
        skippedLockHashes engine (planFor engine params tx rs) := skippedLockHashes_eq hf
  rw [planFor_eq hf, hn]
  refine Sim.bind Sim.refl fun cycles cycles' hc => ?_
  subst hc
  refine Sim.ite (fun _ => Sim.refl) fun _ => ?_
  refine Sim.bind (R := Eq) ?_ fun vm vm' hvm => ?_
  · unfold verifyVmScripts
    refine Sim.bind (h.prepare_sim hrs) fun P Q hPQ => ?_
    simp only [vmVerifier, hs, hPQ.view_eq]
    exact Sim.refl
  · subst hvm
    exact Sim.refl

end Agreement

-- A transaction is judged by the cells it reads, whatever is answered for any other outpoint.
theorem verdict_of_reads (p : DagCellProvider) (pov : Hash) (tx : CellTx)
    (elsewhere : OutPoint → Hash → Except String (Option CellMetadata)) (engine : ScriptEngine)
    (params : CellConsensusParams) (daa ts : Nat) :
    let q : DagCellProvider := { p with
      getCellAtPov := fun o pov' => if o ∈ p.reads pov tx then
        p.getCellAtPov o pov' else elsewhere o pov' }
    (∀ r, validateInDag q pov params tx daa ts = .ok r ↔
      validateInDag p pov params tx daa ts = .ok r) ∧
      ∀ cycles, verifyScriptsWithCycles engine params q pov tx = .ok cycles ↔
        verifyScriptsWithCycles engine params p pov tx = .ok cycles := by
  intro q
  have h : SameAnswers p q pov pov tx := .of_eq (fun o ho => (if_pos ho).symm) rfl rfl
  exact ⟨fun r => ((h.validateInDag_sim params daa ts).eq_ok_iff r).symm,
    fun cycles => ((h.verifyScriptsWithCycles_sim engine params).eq_ok_iff cycles).symm⟩

end Spora
