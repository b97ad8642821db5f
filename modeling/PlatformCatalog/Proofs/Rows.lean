import Mathlib.Data.String.Basic
import PlatformCatalog.Store.Ordered

/-!
# The laws of ordered rows

Insertion and erasure keep rows in ascending order and change the membership
of one element only. Rows in ascending order are determined by their
elements, so two ways of building them agree as soon as they put in the same.
-/

set_option autoImplicit false

namespace PlatformCatalog.Ordered

variable {α : Type} {before : α → α → Bool}

def Ascending (before : α → α → Bool) (rows : List α) : Prop :=
  rows.Pairwise fun x y => before x y = true

theorem ascending_nil : Ascending before [] := List.Pairwise.nil

theorem ascending_cons {x : α} {rows : List α} :
    Ascending before (x :: rows) ↔ (∀ y ∈ rows, before x y = true) ∧ Ascending before rows :=
  List.pairwise_cons

theorem Strict.asymm (h : Strict before) {x y : α} (hxy : before x y = true) :
    before y x = false := by
  by_contra hyx
  have hxx := h.trans hxy (by simpa using hyx)
  simp [h.irrefl] at hxx

theorem Strict.ne (h : Strict before) {x y : α} (hxy : before x y = true) : x ≠ y := by
  rintro rfl
  simp [h.irrefl] at hxy

theorem mem_insertAll (h : Strict before) (xs rows : List α) (z : α) :
    z ∈ insertAll before xs rows ↔ z ∈ xs ∨ z ∈ rows := by
  induction xs generalizing rows with
  | nil => simp [insertAll]
  | cons x xs ih =>
    rw [insertAll, List.foldl_cons, ← insertAll, ih, mem_insert h, List.mem_cons]
    tauto

theorem mem_ofList (h : Strict before) (xs : List α) (z : α) :
    z ∈ ofList before xs ↔ z ∈ xs := by
  simp [ofList, mem_insertAll h]

theorem mem_erase (h : Strict before) (x : α) {rows : List α} (hr : Ascending before rows)
    (z : α) : z ∈ erase before x rows ↔ z ≠ x ∧ z ∈ rows := by
  induction rows with
  | nil => simp [erase]
  | cons y rest ih =>
    obtain ⟨hy, hrest⟩ := ascending_cons.mp hr
    rw [erase]
    split
    · next hxy =>
      -- The element would have to stand before the first row.
      have hx : x ∉ y :: rest := by
        intro hx
        rcases List.mem_cons.mp hx with rfl | hx
        · simp [h.irrefl] at hxy
        · exact absurd hxy (by simp [h.asymm (hy x hx)])
      constructor
      · intro hz
        exact ⟨fun hzx => hx (hzx ▸ hz), hz⟩
      · exact fun hz => hz.2
    · next hxy =>
      split
      · next hyx =>
        have hne : y ≠ x := h.ne hyx
        rw [List.mem_cons, List.mem_cons, ih hrest]
        constructor
        · rintro (rfl | hz)
          · exact ⟨hne, Or.inl rfl⟩
          · exact ⟨hz.1, Or.inr hz.2⟩
        · rintro ⟨hzx, rfl | hz⟩
          · exact Or.inl rfl
          · exact Or.inr ⟨hzx, hz⟩
      · next hyx =>
        have hx : x = y := h.eq_of_not_before (by simpa using hxy) (by simpa using hyx)
        subst hx
        rw [List.mem_cons]
        constructor
        · intro hz
          exact ⟨(h.ne (hy z hz)).symm, Or.inr hz⟩
        · rintro ⟨hzx, hz⟩
          exact hz.resolve_left hzx

theorem ascending_insert (h : Strict before) (x : α) {rows : List α}
    (hr : Ascending before rows) : Ascending before (insert before x rows) := by
  induction rows with
  | nil => simp [insert, Ascending]
  | cons y rest ih =>
    obtain ⟨hy, hrest⟩ := ascending_cons.mp hr
    rw [insert]
    split
    · next hxy =>
      refine ascending_cons.mpr ⟨?_, hr⟩
      intro z hz
      rcases List.mem_cons.mp hz with rfl | hz
      · exact hxy
      · exact h.trans hxy (hy z hz)
    · split
      · next hyx =>
        refine ascending_cons.mpr ⟨?_, ih hrest⟩
        intro z hz
        rcases (mem_insert h x z rest).mp hz with rfl | hz
        · exact hyx
        · exact hy z hz
      · exact hr

theorem ascending_insertAll (h : Strict before) (xs : List α) {rows : List α}
    (hr : Ascending before rows) : Ascending before (insertAll before xs rows) := by
  induction xs generalizing rows with
  | nil => exact hr
  | cons x xs ih => exact ih (ascending_insert h x hr)

theorem ascending_ofList (h : Strict before) (xs : List α) : Ascending before (ofList before xs) :=
  ascending_insertAll h xs ascending_nil

theorem erase_sublist (x : α) (rows : List α) : (erase before x rows).Sublist rows := by
  induction rows with
  | nil => exact List.Sublist.refl _
  | cons y rest ih =>
    rw [erase]
    split
    · exact List.Sublist.refl _
    · split
      · exact ih.cons_cons y
      · exact List.sublist_cons_self y rest

theorem ascending_erase (x : α) {rows : List α} (hr : Ascending before rows) :
    Ascending before (erase before x rows) :=
  List.Pairwise.sublist (erase_sublist x rows) hr

theorem ascending_eraseAll (xs : List α) {rows : List α} (hr : Ascending before rows) :
    Ascending before (eraseAll before xs rows) := by
  induction xs generalizing rows with
  | nil => exact hr
  | cons x xs ih => exact ih (ascending_erase x hr)

theorem mem_eraseAll (h : Strict before) (xs : List α) {rows : List α}
    (hr : Ascending before rows) (z : α) :
    z ∈ eraseAll before xs rows ↔ z ∉ xs ∧ z ∈ rows := by
  induction xs generalizing rows with
  | nil => simp [eraseAll]
  | cons x xs ih =>
    rw [eraseAll, List.foldl_cons, ← eraseAll, ih (ascending_erase x hr), mem_erase h x hr,
      List.mem_cons]
    tauto

theorem Ascending.nodup (h : Strict before) {rows : List α} (hr : Ascending before rows) :
    rows.Nodup :=
  hr.imp fun hxy => h.ne hxy

theorem Ascending.before_of_notMem_take {rows : List α} {n : Nat} {x y : α}
    (h : Ascending before rows) (hy : y ∈ rows) (hout : y ∉ rows.take n)
    (hx : x ∈ rows.take n) : before x y = true := by
  rw [Ascending, ← List.take_append_drop n rows, List.pairwise_append] at h
  rw [← List.take_append_drop n rows, List.mem_append] at hy
  exact h.2.2 x hx y (hy.resolve_left hout)

theorem Ascending.ext (h : Strict before) {xs ys : List α} (hx : Ascending before xs)
    (hy : Ascending before ys) (hm : ∀ z, z ∈ xs ↔ z ∈ ys) : xs = ys := by
  have hp : xs.Perm ys := (List.perm_ext_iff_of_nodup (hx.nodup h) (hy.nodup h)).mpr hm
  refine hp.eq_of_pairwise ?_ hx hy
  intro a b _ _ hab hba
  exact absurd hba (by simp [h.asymm hab])

theorem ofList_of_ascending (h : Strict before) {rows : List α} (hr : Ascending before rows) :
    ofList before rows = rows :=
  (ascending_ofList h rows).ext h hr (mem_ofList h rows)

theorem ofList_congr (h : Strict before) {xs ys : List α} (hm : ∀ z, z ∈ xs ↔ z ∈ ys) :
    ofList before xs = ofList before ys := by
  refine (ascending_ofList h xs).ext h (ascending_ofList h ys) fun z => ?_
  rw [mem_ofList h, mem_ofList h, hm]

section Keys

variable {κ υ : Type} {keyBefore : κ → κ → Bool}

theorem put_of_forall_before (h : Strict keyBefore) (k : κ) (v : υ) {rows : List (κ × υ)}
    (hk : ∀ row ∈ rows, keyBefore row.1 k = true) : put keyBefore k v rows = rows ++ [(k, v)] := by
  induction rows with
  | nil => rfl
  | cons row rest ih =>
    obtain ⟨l, w⟩ := row
    have hl : keyBefore l k = true := hk (l, w) (by simp)
    rw [put, if_neg (by simp [h.asymm hl]), if_pos hl, ih fun r hr => hk r (by simp [hr])]
    rfl

theorem get?_put [DecidableEq κ] (h : Strict keyBefore) (k l : κ) (v : υ)
    (rows : List (κ × υ)) :
    get? l (put keyBefore k v rows) = if l = k then some v else get? l rows := by
  induction rows with
  | nil => simp [put, get?]
  | cons row rest ih =>
    obtain ⟨m, w⟩ := row
    rw [put]
    split
    · simp [get?]
    · next hkm =>
      split
      · next hmk =>
        have hne : m ≠ k := h.ne hmk
        by_cases hlm : l = m
        · subst hlm
          simp [get?, hne]
        · simp [get?, hlm, ih]
      · next hmk =>
        have hk : k = m := h.eq_of_not_before (by simpa using hkm) (by simpa using hmk)
        subst hk
        by_cases hlk : l = k <;> simp [get?, hlk]

def AscendingKeys (keyBefore : κ → κ → Bool) (rows : List (κ × υ)) : Prop :=
  Ascending (fun x y => keyBefore x.1 y.1) rows

theorem map_fst_put (h : Strict keyBefore) (k : κ) (v : υ) (rows : List (κ × υ)) :
    (put keyBefore k v rows).map (·.1) = insert keyBefore k (rows.map (·.1)) := by
  induction rows with
  | nil => rfl
  | cons row rest ih =>
    obtain ⟨l, w⟩ := row
    rw [put, List.map_cons, insert]
    by_cases hkl : keyBefore k l = true
    · rw [if_pos hkl, if_pos hkl]
      rfl
    · by_cases hlk : keyBefore l k = true
      · rw [if_neg hkl, if_neg hkl, if_pos hlk, if_pos hlk, List.map_cons, ih]
      · have hk : k = l := h.eq_of_not_before (by simpa using hkl) (by simpa using hlk)
        rw [if_neg hkl, if_neg hkl, if_neg hlk, if_neg hlk, hk]
        rfl

theorem ascendingKeys_put (h : Strict keyBefore) (k : κ) (v : υ) {rows : List (κ × υ)}
    (hr : AscendingKeys keyBefore rows) : AscendingKeys keyBefore (put keyBefore k v rows) := by
  have hkeys : Ascending keyBefore (rows.map (·.1)) := List.pairwise_map.mpr hr
  have hput : Ascending keyBefore ((put keyBefore k v rows).map (·.1)) := by
    rw [map_fst_put h]
    exact ascending_insert h k hkeys
  exact List.pairwise_map.mp hput

theorem eq_or_mem_of_mem_put {k : κ} {v : υ} {rows : List (κ × υ)} {row : κ × υ}
    (h : row ∈ put keyBefore k v rows) : row = (k, v) ∨ row ∈ rows := by
  induction rows with
  | nil => exact Or.inl (List.mem_singleton.mp h)
  | cons first rest ih =>
    obtain ⟨l, w⟩ := first
    rw [put] at h
    split_ifs at h with hkl hlk
    · exact List.mem_cons.mp h
    · rcases List.mem_cons.mp h with rfl | h
      · exact Or.inr List.mem_cons_self
      · exact (ih h).imp_right (List.mem_cons_of_mem _)
    · exact (List.mem_cons.mp h).imp_right (List.mem_cons_of_mem _)

theorem mem_iff_get?_eq [DecidableEq κ] (h : Strict keyBefore) {k : κ} {v : υ}
    {rows : List (κ × υ)} (hr : AscendingKeys keyBefore rows) :
    (k, v) ∈ rows ↔ get? k rows = some v := by
  induction rows with
  | nil => simp [get?]
  | cons row rest ih =>
    obtain ⟨l, w⟩ := row
    obtain ⟨hl, hrest⟩ := ascending_cons.mp hr
    rw [get?, List.mem_cons, Prod.mk.injEq]
    by_cases hk : k = l
    · subst hk
      have hnew : (k, v) ∉ rest := fun hmem => h.ne (hl (k, v) hmem) rfl
      simp [hnew, eq_comm]
    · simp [hk, ih hrest]

/-- Rows in ascending order of their keys are determined by the value under each key. -/
theorem AscendingKeys.ext [DecidableEq κ] (h : Strict keyBefore) {xs ys : List (κ × υ)}
    (hx : AscendingKeys keyBefore xs) (hy : AscendingKeys keyBefore ys)
    (hvalues : ∀ k, get? k xs = get? k ys) : xs = ys := by
  have hnodup : ∀ {rows : List (κ × υ)}, AscendingKeys keyBefore rows → rows.Nodup := fun hr =>
    List.Pairwise.imp (fun hbefore heq => h.ne hbefore (congrArg Prod.fst heq)) hr
  have hperm : xs.Perm ys := by
    refine (List.perm_ext_iff_of_nodup (hnodup hx) (hnodup hy)).mpr ?_
    rintro ⟨k, v⟩
    rw [mem_iff_get?_eq h hx, mem_iff_get?_eq h hy, hvalues]
  refine hperm.eq_of_pairwise ?_ hx hy
  intro a b _ _ hab hba
  exact absurd hba (by simp [h.asymm hab])

end Keys

theorem textBefore_strict : Strict textBefore where
  irrefl s := by simp [textBefore]
  trans h₁ h₂ := by
    simp only [textBefore, decide_eq_true_eq] at h₁ h₂ ⊢
    exact lt_trans h₁ h₂
  eq_of_not_before h₁ h₂ := by
    simp only [textBefore, decide_eq_false_iff_not, not_lt] at h₁ h₂
    exact le_antisymm h₂ h₁

theorem pairBefore_iff {a b : String × String} :
    pairBefore a b = true ↔ a.1 < b.1 ∨ a.1 = b.1 ∧ a.2 < b.2 := by
  simp [pairBefore]

theorem pairBefore_strict : Strict pairBefore where
  irrefl a := by simp [pairBefore]
  trans h₁ h₂ := by
    rw [pairBefore_iff] at h₁ h₂ ⊢
    rcases h₁ with h₁ | ⟨e₁, h₁⟩ <;> rcases h₂ with h₂ | ⟨e₂, h₂⟩
    · exact Or.inl (lt_trans h₁ h₂)
    · exact Or.inl (e₂ ▸ h₁)
    · exact Or.inl (e₁ ▸ h₂)
    · exact Or.inr ⟨e₁.trans e₂, lt_trans h₁ h₂⟩
  eq_of_not_before {a b} h₁ h₂ := by
    rw [← Bool.not_eq_true, pairBefore_iff, not_or, not_and] at h₁ h₂
    have hfst : a.1 = b.1 := le_antisymm (not_lt.mp h₂.1) (not_lt.mp h₁.1)
    have hsnd : a.2 = b.2 :=
      le_antisymm (not_lt.mp (h₂.2 hfst.symm)) (not_lt.mp (h₁.2 hfst))
    exact Prod.ext hfst hsnd

theorem Strict.comap {β : Type} (h : Strict before) (f : β → α)
    (hf : ∀ {a b}, f a = f b → a = b) : Strict fun a b => before (f a) (f b) where
  irrefl a := h.irrefl (f a)
  trans := h.trans
  eq_of_not_before h₁ h₂ := hf (h.eq_of_not_before h₁ h₂)

end PlatformCatalog.Ordered
