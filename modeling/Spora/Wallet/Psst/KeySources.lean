import Spora.Wallet.Psst

namespace Spora.Psst

open Std Outcome Combine KeySource Option

namespace KeySource

variable {ours theirs : KeySource}

-- The conflicts that the comment of the merge asks to report.
abbrev Inconsistent (ours theirs : KeySource) : Prop :=
  let derivation1 := theirs.derivationPath
  let derivation2 := ours.derivationPath
  (derivation1 = derivation2 ∧ theirs.keyFingerprint ≠ ours.keyFingerprint) ∨
    (derivation1 ≠ derivation2 ∧ derivation1.length = derivation2.length) ∨
    (derivation1.length < derivation2.length ∧ ¬ derivation1 <:+ derivation2) ∨
    (derivation2.length < derivation1.length ∧ ¬ derivation2 <:+ derivation1)

abbrev Panics (ours theirs : KeySource) : Prop :=
  theirs.derivationPath.length < ours.derivationPath.length ∧
    ¬ theirs.derivationPath <:+ ours.derivationPath

abbrev Refused (ours theirs : KeySource) : Prop :=
  ours.derivationPath.length ≤ theirs.derivationPath.length ∧
    ¬ ours.derivationPath <:+ theirs.derivationPath

def longer (ours theirs : KeySource) : KeySource :=
  if theirs.derivationPath.length < ours.derivationPath.length then ours else theirs

theorem inconsistent_of_refused (h : ours.Refused theirs) : ours.Inconsistent theirs := by
  rcases h.1.lt_or_eq with hlt | heq
  · exact .inr (.inr (.inr ⟨hlt, h.2⟩))
  · exact .inr (.inl ⟨fun hp => h.2 (hp ▸ List.suffix_rfl), heq.symm⟩)

theorem longer_comm (h : ¬ ours.Inconsistent theirs) : ours.longer theirs = theirs.longer ours := by
  unfold longer
  rcases Nat.lt_trichotomy ours.derivationPath.length theirs.derivationPath.length with hlt |
    heq | hgt
  · rw [if_neg hlt.not_gt, if_pos hlt]
  · have hp : theirs.derivationPath = ours.derivationPath := by
      by_contra hne
      exact h (.inr (.inl ⟨hne, heq.symm⟩))
    have hf : theirs.keyFingerprint = ours.keyFingerprint := by
      by_contra hne
      exact h (.inl ⟨hp, hne⟩)
    rw [if_neg heq.not_gt, if_neg heq.not_lt]
    cases ours
    cases theirs
    simp_all
  · rw [if_pos hgt, if_neg hgt.not_gt]

end KeySource

namespace Global

def clash (xpub : Xpub) (ours theirs : KeySource) : Option CombineError :=
  if ours.Panics theirs then some .panicked
  else if ours.Refused theirs then some (.inconsistentKeySources xpub)
  else none

theorem clash_eq_none_iff {xpub ours theirs} :
    clash xpub ours theirs = none ↔ ¬ ours.Panics theirs ∧ ¬ ours.Refused theirs := by
  unfold clash
  split_ifs <;> simp_all

theorem mergesEntry_addXpub : MergesEntry addXpub clash longer := by
  intro xpubs xpub theirs
  unfold addXpub clash longer
  cases ho : xpubs[xpub]? with
  | none => simp [ho]
  | some ours =>
    have hk : xpubs.insert xpub ours = xpubs := by
      rw [← TreeMap.insert_erase_self ho, TreeMap.insert_insert_self]
    simp only [ho, bind_some, elim_some, ← List.suffix_iff_eq_drop, Panics,
      Refused]
    by_cases hlt : theirs.derivationPath.length < ours.derivationPath.length
    · have hne : theirs.derivationPath ≠ ours.derivationPath := fun h => hlt.ne (congrArg _ h)
      by_cases hs : theirs.derivationPath <:+ ours.derivationPath
      · simp [hlt, hlt.not_ge, hs, hk]
      · simp [hlt, hne, hs]
    · by_cases hsa : theirs.derivationPath = ours.derivationPath ∧
        theirs.keyFingerprint = ours.keyFingerprint
      · obtain rfl : theirs = ours := by
          cases theirs
          cases ours
          simp_all
        simp [hk]
      · by_cases hs : ours.derivationPath <:+ theirs.derivationPath
        · simp [hlt, hsa, hs]
        · simp [hlt, hsa, hs, Nat.not_lt.mp hlt]

variable {a b c : Global} {e : CombineError}

def CombineError.OfXpubs : CombineError → Prop
  | .panicked => True
  | .inconsistentKeySources _ => True
  | _ => False

theorem add_eq_ok (h : a.add b = .ok c) (xpub : Xpub) :
    c.xpubs[xpub]? = merge longer a.xpubs[xpub]? b.xpubs[xpub]? := by
  obtain ⟨_, _, h⟩ := bind_ok h
  obtain ⟨_, _, h⟩ := bind_ok h
  obtain ⟨xpubs, hx, h⟩ := bind_ok h
  obtain ⟨_, _, h⟩ := bind_ok h
  obtain ⟨_, _, h⟩ := bind_ok h
  obtain ⟨_, _, h⟩ := bind_ok h
  obtain ⟨_, _, h⟩ := bind_ok h
  obtain ⟨_, _, h⟩ := bind_ok h
  cases h
  exact (merge_spec mergesEntry_addXpub _ _).2 xpubs hx xpub

-- The outcome for the keys as the comment of the merge has it.
structure Documented (a b : Global) : Prop where
  panics : a.add b ≠ .error .panicked
  reports : (∃ xpub, a.add b = .error (.inconsistentKeySources xpub)) ↔ ∃ p ∈ b.xpubs.toList,
    ∃ ours ∈ a.xpubs[p.1]?, ours.Inconsistent p.2
  combined : ∀ c, a.add b = .ok c → ∀ xpub : Xpub,
    c.xpubs[xpub]? = merge longer a.xpubs[xpub]? b.xpubs[xpub]?

def SameXpubs (a b : Global) : Prop := ∀ c d, a.add b = .ok c → b.add a = .ok d → c.xpubs = d.xpubs

-- The first entry of `b` whose path and that of `a` are not one the end of the other has a path as
-- long as that of `a` or longer.
def FirstRefused (a b : Global) : Prop :=
  ∃ before p after, b.xpubs.toList = before ++ p :: after ∧
    (∃ ours ∈ a.xpubs[p.1]?, ours.Refused p.2) ∧ ∀ q ∈ before, ∀ ours ∈ a.xpubs[q.1]?,
      ¬ ours.Panics q.2 ∧ ¬ ours.Refused q.2

def Detectable (a b : Global) : Prop :=
  (∀ p ∈ b.xpubs.toList, ∀ ours ∈ a.xpubs[p.1]?, ¬ ours.Inconsistent p.2) ∨ FirstRefused a b

section

variable (hversion : a.version = b.version) (htx : a.txVersion = b.txVersion)

include hversion htx

theorem add_eq_error_iff (he : e.OfXpubs) : a.add b = .error e ↔
    b.xpubs.toList.findSome? (fun p => a.xpubs[p.1]?.bind (clash p.1 · p.2)) = some e := by
  rw [← (merge_spec mergesEntry_addXpub _ _).1]
  unfold add
  rw [ensure, if_pos hversion, ok_bind, ensure, if_pos htx, ok_bind]
  cases b.xpubs.toList.foldlM addXpub a.xpubs with
  | error e' => simp
  | ok xpubs =>
    simp only [ok_bind, reduceCtorEq, iff_false]
    refine Fails.ne (F := fun e => ¬ e.OfXpubs) ?_ (not_not_intro he)
    refine .bind (fails_keepOne fun _ _ h => h) fun _ => .bind (.mapError fun _ h => h) fun _ => ?_
    refine .bind (.mapError fun _ h => h) fun _ => .bind (.ite .ofOk (.ofError fun h => h)) fun _ =>
      ?_
    exact .bind (fails_keepOne fun _ _ h => h) fun _ => .ofOk

theorem reports_iff :
    (∃ xpub, a.add b = .error (.inconsistentKeySources xpub)) ↔ FirstRefused a b := by
  constructor
  · rintro ⟨xpub, hadd⟩
    rw [add_eq_error_iff (e := .inconsistentKeySources xpub) hversion htx trivial,
      List.findSome?_eq_some_iff] at hadd
    obtain ⟨before, p, after, hl, hp, hb⟩ := hadd
    obtain ⟨ours, ho, hc⟩ := bind_eq_some_iff.mp hp
    refine ⟨before, p, after, hl, ⟨ours, ho, ?_⟩, fun q hq ours ho => ?_⟩
    · unfold clash at hc
      split_ifs at hc with _ hr
      · cases hc
      · exact hr
    · exact clash_eq_none_iff.mp (bind_eq_none_iff.mp (hb q hq) ours ho)
  · rintro ⟨before, p, after, hl, ⟨ours, ho, hr⟩, hb⟩
    refine ⟨p.1, (add_eq_error_iff (e := .inconsistentKeySources p.1) hversion htx trivial).mpr ?_⟩
    rw [List.findSome?_eq_some_iff]
    refine ⟨before, p, after, hl, ?_, fun q hq => ?_⟩
    · rw [ho, bind_some, clash, if_neg fun h => h.1.not_ge hr.1, if_pos hr]
    · rw [bind_eq_none_iff]
      exact fun ours ho => clash_eq_none_iff.mpr (hb q hq ours ho)

theorem documented_iff : Documented a b ↔ Detectable a b := by
  constructor
  · intro h
    by_cases hs : ∃ p ∈ b.xpubs.toList, ∃ ours ∈ a.xpubs[p.1]?, ours.Inconsistent p.2
    · exact .inr ((reports_iff hversion htx).mp (h.reports.mpr hs))
    · exact .inl fun p hp ours ho h => hs ⟨p, hp, ours, ho, h⟩
  · rintro (hn | hf)
    · have her : ∀ e : CombineError, e.OfXpubs → a.add b ≠ .error e := by
        intro e he hadd
        rw [add_eq_error_iff hversion htx he] at hadd
        obtain ⟨p, hp, hcl⟩ := List.exists_of_findSome?_eq_some hadd
        obtain ⟨ours, ho, hcl⟩ := bind_eq_some_iff.mp hcl
        refine hn p hp ours ho ?_
        unfold clash at hcl
        split_ifs at hcl with hpa hr
        · exact .inr (.inr (.inl hpa))
        · exact inconsistent_of_refused hr
      refine ⟨her .panicked trivial, ?_, fun c hc => add_eq_ok hc⟩
      exact iff_of_false (fun ⟨x, hx⟩ => her (.inconsistentKeySources x) trivial hx)
        fun ⟨p, hp, ours, ho, h⟩ => hn p hp ours ho h
    · obtain ⟨xpub, hadd⟩ := (reports_iff hversion htx).mpr hf
      obtain ⟨before, p, after, hl, ⟨ours, ho, hr⟩, -⟩ := hf
      refine ⟨by simp [hadd], iff_of_true ⟨xpub, hadd⟩ ?_, fun c hc => add_eq_ok hc⟩
      exact ⟨p, by simp [hl], ours, ho, inconsistent_of_refused hr⟩

theorem keySources_documented_iff :
    (Documented a b ∧ Documented b a ∧ SameXpubs a b) ↔ Detectable a b ∧ Detectable b a := by
  rw [← documented_iff hversion htx, ← documented_iff hversion.symm htx.symm]
  refine ⟨fun h => ⟨h.1, h.2.1⟩, fun ⟨hab, hba⟩ => ⟨hab, hba, fun c d hc hd => ?_⟩⟩
  apply ExtTreeMap.ext_getElem?
  intro xpub
  rw [hab.combined c hc, hba.combined d hd]
  cases ho : a.xpubs[xpub]? with
  | none => cases b.xpubs[xpub]? <;> rfl
  | some ours =>
    cases ht : b.xpubs[xpub]? with
    | none => rfl
    | some theirs =>
      refine congrArg some (longer_comm fun h => ?_)
      have hmem := ExtTreeMap.mem_toList_iff_getElem?_eq_some.mpr ht
      obtain ⟨x, hx⟩ := hab.reports.mpr ⟨_, hmem, ours, ho, h⟩
      rw [hc] at hx
      cases hx

end

def withKey (source : KeySource) : Global :=
  ⟨.zero, 0, true, true, 0, 0, (∅ : ExtTreeMap Xpub KeySource).insert 7 source, none, ∅, ∅, none⟩

theorem keySources_documented_of_nested : Documented (withKey ⟨1, [4, 2]⟩) (withKey ⟨1, [2]⟩) ∧
    Documented (withKey ⟨1, [2]⟩) (withKey ⟨1, [4, 2]⟩) ∧
    SameXpubs (withKey ⟨1, [4, 2]⟩) (withKey ⟨1, [2]⟩) := by
  apply (keySources_documented_iff (by rfl) (by rfl)).mpr
  exact ⟨.inl (by decide +kernel), .inl (by decide +kernel)⟩

-- A shorter path that is not the end of the other one panics, one path with two fingerprints
-- passes.
theorem keySources_undetected : (withKey ⟨1, [1, 2]⟩).add (withKey ⟨1, [3]⟩) = .error .panicked ∧
    ((withKey ⟨1, [1]⟩).add (withKey ⟨2, [1]⟩)).isOk = true := ⟨rfl, by decide +kernel⟩

end Global

end Spora.Psst
