import Mathlib.Algebra.Order.BigOperators.Group.List
import Mathlib.Algebra.Order.Ring.Nat
import Mathlib.Data.List.Nodup

-- Bulk updates of ordered maps, described pointwise by what a lookup returns afterwards.
namespace TreeMap

open Std ExtTreeMap List

variable {κ ν : Type*} {cmp : κ → κ → Ordering} [TransCmp cmp] [LawfulEqCmp cmp]

theorem getElem?_insert_eq [DecidableEq κ] (m : ExtTreeMap κ ν cmp) (k a : κ) (v : ν) :
    (m.insert k v)[a]? = if k = a then some v else m[a]? := by
  rw [ExtTreeMap.getElem?_insert]
  simp [LawfulEqCmp.compare_eq_iff_eq]

theorem getElem?_erase_eq [DecidableEq κ] (m : ExtTreeMap κ ν cmp) (k a : κ) :
    (m.erase k)[a]? = if k = a then none else m[a]? := by
  rw [getElem?_erase]
  simp [LawfulEqCmp.compare_eq_iff_eq]

theorem getElem?_modify_eq [DecidableEq κ] (m : ExtTreeMap κ ν cmp) (k a : κ) (f : ν → ν) :
    (m.modify k f)[a]? = if k = a then m[a]?.map f else m[a]? := by
  rw [ExtTreeMap.getElem?_modify]
  simp only [LawfulEqCmp.compare_eq_iff_eq]
  split_ifs with h
  · rw [h]
  · rfl

variable {m : ExtTreeMap κ ν cmp}

theorem mem_insert {k a v} : a ∈ m.insert k v ↔ k = a ∨ a ∈ m := by
  rw [ExtTreeMap.mem_insert, LawfulEqCmp.compare_eq_iff_eq]

section Membership

omit [LawfulEqCmp cmp]

variable {k : κ}

theorem mem_of_getElem? {v} (h : m[k]? = some v) : k ∈ m := by
  rw [mem_iff_isSome_getElem?, h]
  rfl

theorem not_mem_of_getElem? (h : m[k]? = none) : k ∉ m := by
  rw [mem_iff_isSome_getElem?, h]
  exact Bool.false_ne_true

theorem exists_of_mem (h : k ∈ m) : ∃ v, m[k]? = some v :=
  Option.isSome_iff_exists.mp (mem_iff_isSome_getElem?.mp h)

end Membership

theorem insert_erase_self [DecidableEq κ] {k v} (h : m[k]? = some v) :
    (m.erase k).insert k v = m := by
  apply ExtTreeMap.ext_getElem?
  intro a
  rw [getElem?_insert_eq, getElem?_erase_eq]
  by_cases hk : k = a
  · rw [if_pos hk, ← hk, h]
  · rw [if_neg hk, if_neg hk]

theorem insert_insert_self [DecidableEq κ] {k v w} : (m.insert k v).insert k w = m.insert k w := by
  apply ExtTreeMap.ext_getElem?
  intro a
  rw [getElem?_insert_eq, getElem?_insert_eq, getElem?_insert_eq]
  by_cases hk : k = a
  · rw [if_pos hk, if_pos hk]
  · rw [if_neg hk, if_neg hk, if_neg hk]

theorem getElem?_foldl_modify [DecidableEq κ] {l : List κ} {f}
    (h : l.Nodup ∨ ∀ v, f (f v) = f v) (a : κ) :
    (l.foldl (fun m k => m.modify k f) m)[a]? = if a ∈ l then m[a]?.map f else m[a]? := by
  induction l generalizing m with
  | nil => simp
  | cons k l ih =>
    rw [foldl_cons, ih (h.imp_left Nodup.of_cons), getElem?_modify_eq]
    by_cases hk : k = a
    · subst hk
      rcases h with hl | hf
      · simp [(nodup_cons.mp hl).1]
      · cases m[k]? <;> simp [hf]
    · simp [hk, Ne.symm hk]

theorem erase_eq_self [DecidableEq κ] {k} (h : k ∉ m) : m.erase k = m := by
  apply ExtTreeMap.ext_getElem?
  intro a
  rw [getElem?_erase_eq]
  by_cases hk : k = a
  · subst hk
    simp [getElem?_eq_none h]
  · simp [hk]

theorem getElem?_foldl_insert_of_not_mem [DecidableEq κ] {l : List (κ × ν)} {a}
    (ha : a ∉ l.map Prod.fst) :
    (l.foldl (fun m p => m.insert p.1 p.2) m)[a]? = m[a]? := by
  induction l generalizing m with
  | nil => rfl
  | cons p l ih =>
    rw [map_cons, mem_cons, not_or] at ha
    rw [foldl_cons, ih ha.2, getElem?_insert_eq, if_neg (Ne.symm ha.1)]

theorem getElem?_foldl_insert_empty [DecidableEq κ] {l : List (κ × ν)} {get : κ → Option ν}
    (h : ∀ k v, (k, v) ∈ l ↔ get k = some v) (a : κ) :
    (l.foldl (fun m p => m.insert p.1 p.2) (∅ : ExtTreeMap κ ν cmp))[a]? = get a := by
  have hf : ∀ (l' : List (κ × ν)) (m : ExtTreeMap κ ν cmp), (∀ p ∈ l', get p.1 = some p.2) →
      (m[a]? = get a ∨ a ∈ l'.map Prod.fst) →
      (l'.foldl (fun m p => m.insert p.1 p.2) m)[a]? = get a := by
    intro l'
    induction l' with
    | nil => exact fun m _ hm => hm.resolve_right (by simp)
    | cons p l' ih =>
      intro m hl hm
      refine ih _ (fun q hq => hl q (mem_cons_of_mem _ hq)) ?_
      rw [getElem?_insert_eq]
      by_cases hp : p.1 = a
      · exact .inl (by rw [if_pos hp, ← hp, hl p mem_cons_self])
      · rw [if_neg hp]
        rcases hm with hm | hm
        · exact .inl hm
        · rw [map_cons, mem_cons] at hm
          exact .inr (hm.resolve_left (Ne.symm hp))
  refine hf l ∅ (fun p hp => (h p.1 p.2).mp hp) ?_
  cases hget : get a with
  | none => exact .inl (by simp)
  | some v => exact .inr (mem_map_of_mem ((h a v).mpr hget))

theorem getElem?_foldl_insert_const [DecidableEq κ] {l : List κ} {v a} :
    (l.foldl (fun m k => m.insert k v) m)[a]? = if a ∈ l then some v else m[a]? := by
  induction l generalizing m with
  | nil => simp
  | cons k l ih =>
    rw [foldl_cons, ih, getElem?_insert_eq]
    by_cases hl : a ∈ l
    · simp [hl]
    · by_cases hk : k = a
      · simp [hk]
      · simp [hk, Ne.symm hk]

theorem mem_foldl_insert [DecidableEq κ] {s : ExtTreeSet κ cmp} {l : List κ} {a} :
    a ∈ l.foldl (fun s k => s.insert k) s ↔ a ∈ s ∨ a ∈ l := by
  induction l generalizing s with
  | nil => simp
  | cons k l ih =>
    rw [foldl_cons, ih, ExtTreeSet.mem_insert, mem_cons, LawfulEqCmp.compare_eq_iff_eq]
    tauto

theorem getElem?_foldl_erase [DecidableEq κ] {l : List κ} (a : κ) :
    (l.foldl ExtTreeMap.erase m)[a]? = if a ∈ l then none else m[a]? := by
  induction l generalizing m with
  | nil => simp
  | cons k l ih =>
    rw [foldl_cons, ih, getElem?_erase_eq]
    by_cases hl : a ∈ l
    · simp [hl]
    · by_cases hk : k = a
      · simp [hk]
      · simp [hk, Ne.symm hk]

theorem nodup_keys (m : ExtTreeMap κ ν cmp) : m.keys.Nodup := by
  have h := distinct_keys (t := m)
  exact h.imp fun hne heq => hne (LawfulEqCmp.compare_eq_iff_eq.mpr heq)

theorem nodup_map_fst_toList (m : ExtTreeMap κ ν cmp) : (m.toList.map Prod.fst).Nodup := by
  rw [map_fst_toList_eq_keys]
  exact nodup_keys m

theorem lookup_eq_none_of_not_mem [DecidableEq κ] {l : List (κ × ν)} {k}
    (h : k ∉ l.map Prod.fst) : l.lookup k = none := by
  rw [lookup_eq_none_iff]
  intro q hq
  have hne : q.1 ≠ k := fun hk => h (hk ▸ mem_map_of_mem hq)
  simpa using Ne.symm hne

theorem lookup_cons_eq [DecidableEq κ] (k a : κ) (v : ν) (l) :
    ((a, v) :: l).lookup k = if a = k then some v else l.lookup k := by
  by_cases hk : a = k
  · simp [hk]
  · have hne : (k == a) = false := by simpa using Ne.symm hk
    simp [lookup_cons, hne, hk]

theorem lookup_toList [DecidableEq κ] (m : ExtTreeMap κ ν cmp) (k : κ) :
    m.toList.lookup k = m[k]? := by
  have hlo : ∀ l : List (κ × ν), (l.map Prod.fst).Nodup → ∀ v, l.lookup k = some v ↔
      (k, v) ∈ l := by
    intro l hl v
    induction l with
    | nil => simp
    | cons p l ih =>
      obtain ⟨a, w⟩ := p
      simp only [map_cons, nodup_cons] at hl
      by_cases hk : a = k
      · subst hk
        have hnot : (a, v) ∉ l := fun hx => hl.1 (mem_map_of_mem hx)
        simp [hnot, eq_comm]
      · simp [lookup_cons_eq, hk, Ne.symm hk, ih hl.2]
  apply Option.ext
  intro v
  rw [hlo _ (nodup_map_fst_toList m), mem_toList_iff_getElem?_eq_some]

theorem filter_values_eq_singleton [DecidableEq κ] (m : ExtTreeMap κ ν cmp) {k : κ} {v}
    (hk : m[k]? = some v) (p) (hp : ∀ a w, m[a]? = some w → (p w ↔ a = k)) :
    (m.toList.map Prod.snd).filter p = [v] := by
  have hl : ∀ l : List (κ × ν), (l.map Prod.fst).Nodup → (k, v) ∈ l →
      (∀ q ∈ l, (p q.2 ↔ q.1 = k)) → (l.map Prod.snd).filter p = [v] := by
    intro l
    induction l with
    | nil => simp
    | cons q l ih =>
      obtain ⟨a, w⟩ := q
      intro hn hmem hpl
      simp only [map_cons, nodup_cons] at hn
      have hq := hpl (a, w) (by simp)
      by_cases ha : a = k
      · subst ha
        have hw : w = v := by
          rcases mem_cons.mp hmem with heq | hin
          · exact (Prod.mk.inj heq).2.symm
          · exact absurd (mem_map_of_mem hin) hn.1
        have hr : (l.map Prod.snd).filter p = [] := by
          rw [filter_eq_nil_iff]
          intro x hx hpx
          obtain ⟨⟨b, y⟩, hby, rfl⟩ := mem_map.mp hx
          have hb : b = a := (hpl (b, y) (by simp [hby])).mp hpx
          exact hn.1 (hb ▸ mem_map_of_mem hby)
        have hpw : p w = true := hq.mpr rfl
        simp [hr, hw, hw ▸ hpw]
      · have hpw : p w = false := by simpa using fun hpw => ha (hq.mp hpw)
        have hm' : (k, v) ∈ l := by
          rcases mem_cons.mp hmem with heq | hin
          · exact absurd (Prod.mk.inj heq).1.symm ha
          · exact hin
        simp only [map_cons, filter_cons, hpw]
        exact ih hn.2 hm' fun q hq => hpl q (by simp [hq])
  refine hl _ (nodup_map_fst_toList m) (mem_toList_iff_getElem?_eq_some.mpr hk) ?_
  intro q hq
  exact hp q.1 q.2 (mem_toList_iff_getElem?_eq_some.mp hq)

theorem nodup_toList (m : ExtTreeMap κ ν cmp) : m.toList.Nodup := (nodup_map_fst_toList m).of_map

def total (f : ν → Nat) (m : ExtTreeMap κ ν cmp) : Nat := (m.toList.map fun p => f p.2).sum

omit [LawfulEqCmp cmp] in
@[simp] theorem total_empty {f : ν → Nat} : total f (∅ : ExtTreeMap κ ν cmp) = 0 := by
  rw [total, ExtTreeMap.toList_eq_nil_iff.mpr rfl, List.map_nil, List.sum_nil]

section Total

variable [DecidableEq κ]

theorem toList_perm_of_getElem? {m : ExtTreeMap κ ν cmp} {k v} (h : m[k]? = some v) :
    m.toList.Perm ((k, v) :: (m.erase k).toList) := by
  have hnot : (k, v) ∉ (m.erase k).toList := by
    rw [mem_toList_iff_getElem?_eq_some, getElem?_erase_eq, if_pos rfl]
    exact nofun
  rw [perm_ext_iff_of_nodup (nodup_toList m) (nodup_cons.mpr ⟨hnot, nodup_toList _⟩)]
  rintro ⟨a, w⟩
  rw [mem_cons, mem_toList_iff_getElem?_eq_some, mem_toList_iff_getElem?_eq_some, getElem?_erase_eq]
  by_cases hk : k = a
  · subst hk
    simp [h, eq_comm]
  · simp [hk, Ne.symm hk]

variable {f : ν → Nat} {m : ExtTreeMap κ ν cmp} {k : κ} {v w : ν}

theorem total_of_getElem? (h : m[k]? = some v) : total f m = f v + total f (m.erase k) := by
  unfold total
  rw [((toList_perm_of_getElem? h).map _).sum_eq, map_cons, sum_cons]

theorem total_insert (h : m[k]? = none) : total f (m.insert k v) = f v + total f m := by
  have hs : (m.insert k v).erase k = m := by
    apply ExtTreeMap.ext_getElem?
    intro a
    rw [getElem?_erase_eq, getElem?_insert_eq]
    by_cases hk : k = a
    · subst hk
      simp [h]
    · simp [hk]
  rw [total_of_getElem? (by rw [getElem?_insert_eq, if_pos rfl]), hs]

theorem le_total (h : m[k]? = some v) : f v ≤ total f m := by
  rw [total_of_getElem? h]
  exact Nat.le_add_right _ _

theorem total_replace (h : m[k]? = some v) : f v + total f (m.insert k w) = f w + total f m := by
  have hs : (m.insert k w).erase k = m.erase k := by
    apply ExtTreeMap.ext_getElem?
    intro a
    rw [getElem?_erase_eq, getElem?_erase_eq, getElem?_insert_eq]
    by_cases hk : k = a <;> simp [hk]
  rw [total_of_getElem? (by rw [getElem?_insert_eq, if_pos rfl]), hs, total_of_getElem? h]
  omega

end Total

omit [TransCmp cmp] [LawfulEqCmp cmp] in
theorem sum_map_le_of_subperm {α : Type*} {l l' : List α} (h : l.Subperm l') (f : α → Nat) :
    (l.map f).sum ≤ (l'.map f).sum := by
  obtain ⟨m, hp, hs⟩ := h
  rw [← (hp.map f).sum_eq]
  exact (hs.map f).sum_le_sum fun _ _ => Nat.zero_le _

section Bulk

variable [DecidableEq κ] {σ μ : Type*} (get : σ → κ → Option μ)

theorem get_foldl_erase {erase}
    (herase : ∀ s k a, get (erase s k) a = if k = a then none else get s a)
    (ks : List κ) (s : σ) (a : κ) :
    get (ks.foldl erase s) a = if a ∈ ks then none else get s a := by
  induction ks generalizing s with
  | nil => simp
  | cons k ks ih =>
    rw [foldl_cons, ih, herase]
    by_cases hks : a ∈ ks
    · simp [hks]
    · by_cases hk : k = a
      · simp [hk]
      · simp [hk, Ne.symm hk]

theorem get_foldl_insert_toList {insert} (view : ν → μ)
    (hinsert : ∀ s p a, get (insert s p) a = if p.1 = a then some (view p.2) else get s a)
    (m : ExtTreeMap κ ν cmp) (s : σ) (a : κ) :
    get (m.toList.foldl insert s) a = (m[a]?.map view).or (get s a) := by
  have hf : ∀ (l : List (κ × ν)) s, (l.map Prod.fst).Nodup →
      get (l.foldl insert s) a = ((l.lookup a).map view).or (get s a) := by
    intro l
    induction l with
    | nil => simp
    | cons p l ih =>
      intro s hl
      obtain ⟨k, v⟩ := p
      simp only [map_cons, nodup_cons] at hl
      rw [foldl_cons, ih _ hl.2, hinsert, lookup_cons_eq]
      by_cases hk : k = a
      · subst hk
        simp [lookup_eq_none_of_not_mem hl.1]
      · simp [hk]
  rw [hf _ _ (nodup_map_fst_toList m), lookup_toList]

end Bulk

end TreeMap
