import PlatformCatalog.Proofs.JsonRoundTrip
import PlatformCatalog.Proofs.Rows
import PlatformCatalog.Store.Manifest

/-!
# The laws of manifests

A manifest is a set of items, whatever the order of the changes that led to
it. A manifest in order is read back from its document, and every document
that is read as a manifest yields one in order.
-/

set_option autoImplicit false

namespace PlatformCatalog

theorem Family.rank_injective {f g : Family} (h : f.rank = g.rank) : f = g := by
  cases f <;> cases g <;> first | rfl | exact absurd h (by decide)

theorem Family.before_strict : Ordered.Strict Family.before where
  irrefl f := by simp [Family.before]
  trans h₁ h₂ := by
    simp only [Family.before, decide_eq_true_eq] at h₁ h₂ ⊢
    omega
  eq_of_not_before h₁ h₂ := by
    simp only [Family.before, decide_eq_false_iff_not] at h₁ h₂
    exact Family.rank_injective (by omega)

theorem Item.before_strict : Ordered.Strict Item.before :=
  Ordered.pairBefore_strict.comap (fun i : Item => (i.group, i.member)) fun {i j} h => by
    cases i; cases j; simpa using h

namespace Manifest

structure InOrder (m : Manifest) : Prop where
  families : Ordered.Ascending (fun a b : Family × List Item => a.1.before b.1) m.families
  items : ∀ row ∈ m.families, Ordered.Ascending Item.before row.2

theorem inOrder_empty : InOrder empty := ⟨Ordered.ascending_nil, by simp [empty]⟩

theorem mem_items {m : Manifest} {f : Family} {i : Item} :
    (f, i) ∈ m.items ↔ ∃ is, (f, is) ∈ m.families ∧ i ∈ is := by
  simp only [items, List.mem_flatMap, List.mem_map, Prod.mk.injEq, Prod.exists]
  constructor
  · rintro ⟨g, is, hm, j, hj, rfl, rfl⟩
    exact ⟨is, hm, hj⟩
  · rintro ⟨is, hm, hi⟩
    exact ⟨f, is, hm, i, hi, rfl, rfl⟩

theorem contains_iff {m : Manifest} {f : Family} {i : Item} :
    m.contains f i = true ↔ (f, i) ∈ m.items := by
  simp [contains]

theorem items_empty : empty.items = [] := rfl

theorem mem_items_insertIn (f g : Family) (i j : Item) (rows : List (Family × List Item)) :
    (g, j) ∈ (⟨insertIn f i rows⟩ : Manifest).items ↔
      (g, j) = (f, i) ∨ (g, j) ∈ (⟨rows⟩ : Manifest).items := by
  induction rows with
  | nil => simp [insertIn, items]
  | cons row rest ih =>
    obtain ⟨h, is⟩ := row
    simp only [items, List.flatMap_cons, List.mem_append] at ih ⊢
    rw [insertIn]
    split_ifs with hfh hbefore
    · subst hfh
      simp only [List.flatMap_cons, List.mem_append, List.mem_map,
        Ordered.mem_insert Item.before_strict]
      constructor
      · rintro (⟨k, rfl | hk, he⟩ | hr)
        · exact Or.inl he.symm
        · exact Or.inr (Or.inl ⟨k, hk, he⟩)
        · exact Or.inr (Or.inr hr)
      · rintro (he | ⟨k, hk, he⟩ | hr)
        · exact Or.inl ⟨i, Or.inl rfl, he.symm⟩
        · exact Or.inl ⟨k, Or.inr hk, he⟩
        · exact Or.inr hr
    · simp
    · simp only [List.flatMap_cons, List.mem_append, ih]
      tauto

theorem mem_items_insert (m : Manifest) (f : Family) (i : Item) (e : Family × Item) :
    e ∈ (m.insert f i).items ↔ e = (f, i) ∨ e ∈ m.items :=
  mem_items_insertIn f e.1 i e.2 m.families

theorem mem_items_insertAll (m : Manifest) (entries : List (Family × Item)) (e : Family × Item) :
    e ∈ (m.insertAll entries).items ↔ e ∈ entries ∨ e ∈ m.items := by
  induction entries generalizing m with
  | nil => simp [insertAll]
  | cons x entries ih =>
    obtain ⟨f, i⟩ := x
    rw [insertAll, List.foldl_cons, ← insertAll, ih, mem_items_insert, List.mem_cons]
    tauto

theorem mem_items_ofItems (entries : List (Family × Item)) (e : Family × Item) :
    e ∈ (ofItems entries).items ↔ e ∈ entries := by
  simp [ofItems, mem_items_insertAll, items_empty]

theorem mem_items_merge (m other : Manifest) (e : Family × Item) :
    e ∈ (m.merge other).items ↔ e ∈ other.items ∨ e ∈ m.items :=
  mem_items_insertAll m other.items e

theorem mem_items_difference (m other : Manifest) (e : Family × Item) :
    e ∈ (m.difference other).items ↔ e ∈ m.items ∧ e ∉ other.items := by
  obtain ⟨f, i⟩ := e
  rw [difference, mem_items_ofItems, List.mem_filter]
  simp [← contains_iff]

theorem key_mem_insertIn (f : Family) (i : Item) {rows : List (Family × List Item)}
    {row : Family × List Item} (h : row ∈ insertIn f i rows) :
    row.1 = f ∨ ∃ is, (row.1, is) ∈ rows := by
  induction rows with
  | nil =>
    simp only [insertIn, List.mem_singleton] at h
    exact Or.inl (by simp [h])
  | cons x rest ih =>
    obtain ⟨g, is⟩ := x
    rw [insertIn] at h
    split_ifs at h with hfg hbefore
    · rcases List.mem_cons.mp h with rfl | h
      · exact Or.inl hfg.symm
      · exact Or.inr ⟨row.2, by simp [h]⟩
    · rcases List.mem_cons.mp h with rfl | h
      · exact Or.inl rfl
      · exact Or.inr ⟨row.2, h⟩
    · rcases List.mem_cons.mp h with rfl | h
      · exact Or.inr ⟨is, by simp⟩
      · rcases ih h with hf | ⟨js, hjs⟩
        · exact Or.inl hf
        · exact Or.inr ⟨js, by simp [hjs]⟩

theorem inOrder_insertIn (f : Family) (i : Item) {rows : List (Family × List Item)}
    (hr : InOrder ⟨rows⟩) : InOrder ⟨insertIn f i rows⟩ := by
  induction rows with
  | nil => exact ⟨by simp [insertIn, Ordered.Ascending], by simp [insertIn, Ordered.Ascending]⟩
  | cons x rest ih =>
    obtain ⟨g, is⟩ := x
    obtain ⟨hg, hrest⟩ := Ordered.ascending_cons.mp hr.families
    have hhead : Ordered.Ascending Item.before is := hr.items (g, is) (by simp)
    have htail : InOrder ⟨rest⟩ := ⟨hrest, fun row h => hr.items row (by simp [h])⟩
    rw [insertIn]
    split_ifs with hfg hbefore
    · refine ⟨Ordered.ascending_cons.mpr ⟨hg, hrest⟩, ?_⟩
      intro row h
      rcases List.mem_cons.mp h with rfl | h
      · exact Ordered.ascending_insert Item.before_strict i hhead
      · exact htail.items row h
    · refine ⟨Ordered.ascending_cons.mpr ⟨?_, hr.families⟩, ?_⟩
      · intro row h
        rcases List.mem_cons.mp h with rfl | h
        · exact hbefore
        · exact Family.before_strict.trans hbefore (hg row h)
      · intro row h
        rcases List.mem_cons.mp h with rfl | h
        · simp [Ordered.Ascending]
        · exact hr.items row h
    · have hgf : g.before f = true := by
        by_contra hgf
        exact hfg (Family.before_strict.eq_of_not_before (by simpa using hbefore)
          (by simpa using hgf))
      refine ⟨Ordered.ascending_cons.mpr ⟨?_, (ih htail).families⟩, ?_⟩
      · intro row h
        rcases key_mem_insertIn f i h with hf | ⟨js, hjs⟩
        · exact hf ▸ hgf
        · exact hg (row.1, js) hjs
      · intro row h
        rcases List.mem_cons.mp h with rfl | h
        · exact hhead
        · exact (ih htail).items row h

theorem inOrder_insertAll {m : Manifest} (hm : m.InOrder) (entries : List (Family × Item)) :
    (m.insertAll entries).InOrder := by
  induction entries generalizing m with
  | nil => exact hm
  | cons x entries ih => exact ih (inOrder_insertIn x.1 x.2 hm)

theorem inOrder_ofItems (entries : List (Family × Item)) : (ofItems entries).InOrder :=
  inOrder_insertAll inOrder_empty entries

theorem key_mem_eraseIn (f : Family) (i : Item) {rows : List (Family × List Item)}
    {row : Family × List Item} (h : row ∈ eraseIn f i rows) : ∃ is, (row.1, is) ∈ rows := by
  induction rows with
  | nil => simp [eraseIn] at h
  | cons x rest ih =>
    obtain ⟨g, is⟩ := x
    rw [eraseIn] at h
    split at h
    · split at h
      · exact ⟨row.2, by simp [h]⟩
      · rcases List.mem_cons.mp h with rfl | h
        · exact ⟨is, by simp⟩
        · exact ⟨row.2, by simp [h]⟩
    · rcases List.mem_cons.mp h with rfl | h
      · exact ⟨is, by simp⟩
      · obtain ⟨js, hjs⟩ := ih h
        exact ⟨js, by simp [hjs]⟩

theorem inOrder_eraseIn (f : Family) (i : Item) {rows : List (Family × List Item)}
    (hr : InOrder ⟨rows⟩) : InOrder ⟨eraseIn f i rows⟩ := by
  induction rows with
  | nil => exact hr
  | cons x rest ih =>
    obtain ⟨g, is⟩ := x
    obtain ⟨hg, hrest⟩ := Ordered.ascending_cons.mp hr.families
    have hhead : Ordered.Ascending Item.before is := hr.items (g, is) (by simp)
    have htail : InOrder ⟨rest⟩ := ⟨hrest, fun row h => hr.items row (by simp [h])⟩
    rw [eraseIn]
    split
    · have hleft := Ordered.ascending_erase i hhead
      split
      · exact htail
      · refine ⟨Ordered.ascending_cons.mpr ⟨hg, hrest⟩, ?_⟩
        intro row h
        rcases List.mem_cons.mp h with rfl | h
        · exact hleft
        · exact htail.items row h
    · refine ⟨Ordered.ascending_cons.mpr ⟨?_, (ih htail).families⟩, ?_⟩
      · intro row h
        obtain ⟨js, hjs⟩ := key_mem_eraseIn f i h
        exact hg (row.1, js) hjs
      · intro row h
        rcases List.mem_cons.mp h with rfl | h
        · exact hhead
        · exact (ih htail).items row h

theorem mem_items_cons (g : Family) (is : List Item) (rest : List (Family × List Item))
    (e : Family × Item) :
    e ∈ (⟨(g, is) :: rest⟩ : Manifest).items ↔
      (e.1 = g ∧ e.2 ∈ is) ∨ e ∈ (⟨rest⟩ : Manifest).items := by
  obtain ⟨f, i⟩ := e
  simp only [items, List.flatMap_cons, List.mem_append, List.mem_map, Prod.mk.injEq]
  constructor
  · rintro (⟨j, hj, rfl, rfl⟩ | h)
    · exact Or.inl ⟨rfl, hj⟩
    · exact Or.inr h
  · rintro (⟨rfl, hi⟩ | h)
    · exact Or.inl ⟨i, hi, rfl, rfl⟩
    · exact Or.inr h

theorem mem_items_eraseIn (f : Family) (i : Item) {rows : List (Family × List Item)}
    (hr : InOrder ⟨rows⟩) (e : Family × Item) :
    e ∈ (⟨eraseIn f i rows⟩ : Manifest).items ↔ e ≠ (f, i) ∧ e ∈ (⟨rows⟩ : Manifest).items := by
  induction rows with
  | nil => simp [eraseIn, items]
  | cons x rest ih =>
    obtain ⟨g, is⟩ := x
    obtain ⟨hg, hrest⟩ := Ordered.ascending_cons.mp hr.families
    have hhead : Ordered.Ascending Item.before is := hr.items (g, is) (by simp)
    have htail : InOrder ⟨rest⟩ := ⟨hrest, fun row h => hr.items row (by simp [h])⟩
    rw [eraseIn, mem_items_cons]
    split
    · next hfg =>
      subst hfg
      -- A family has one row, so the item cannot occur further on.
      have hfurther : e ∈ (⟨rest⟩ : Manifest).items → e ≠ (f, i) := by
        intro he hei
        rw [hei, mem_items] at he
        obtain ⟨js, hjs, _⟩ := he
        exact Family.before_strict.ne (hg (f, js) hjs) rfl
      have herased := Ordered.mem_erase Item.before_strict i hhead e.2
      have hsplit : e ≠ (f, i) ↔ ¬(e.1 = f ∧ e.2 = i) := by
        rw [ne_eq, Prod.ext_iff]
      split
      · next hnone =>
        rw [hnone] at herased
        simp only [List.not_mem_nil, false_iff, not_and] at herased
        tauto
      · next hsome =>
        rw [mem_items_cons, herased]
        tauto
    · next hfg =>
      rw [mem_items_cons, ih htail]
      have hother : e.1 = g → e ≠ (f, i) := by
        rintro hg' rfl
        exact hfg hg'
      tauto

theorem mem_items_eraseAll {m : Manifest} (hm : m.InOrder) (entries : List (Family × Item))
    (e : Family × Item) : e ∈ (m.eraseAll entries).items ↔ e ∉ entries ∧ e ∈ m.items := by
  induction entries generalizing m with
  | nil => simp [eraseAll]
  | cons x entries ih =>
    obtain ⟨f, i⟩ := x
    have hstep : m.eraseAll ((f, i) :: entries) = eraseAll ⟨eraseIn f i m.families⟩ entries := rfl
    rw [hstep, ih (inOrder_eraseIn f i hm), mem_items_eraseIn f i hm, List.mem_cons]
    tauto

end Manifest

end PlatformCatalog
