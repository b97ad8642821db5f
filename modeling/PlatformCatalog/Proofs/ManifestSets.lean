import Mathlib.Data.Finset.Card
import Mathlib.Data.Finset.SDiff
import PlatformCatalog.Proofs.Commits

/-!
# Manifests as sets

A manifest that comes from the empty one by insertions, erasures, merges and
differences stands for a finite set of items, on which these operations are
the usual ones. No family stays behind without items, so a set has one form
only, and it is the form that is read back from the manifest's text.
-/

set_option autoImplicit false

namespace PlatformCatalog

namespace Manifest

variable {m n : Manifest} {s t : Finset (Family × Item)}

def IsFilled (m : Manifest) : Prop := ∀ row ∈ m.families, row.2 ≠ []

theorem isFilled_empty : empty.IsFilled := by simp [IsFilled, empty]

theorem isFilled_insertIn (f : Family) (i : Item) {rows : List (Family × List Item)}
    (hr : IsFilled ⟨rows⟩) : IsFilled ⟨insertIn f i rows⟩ := by
  induction rows with
  | nil => simp [IsFilled, insertIn]
  | cons x rest ih =>
    obtain ⟨g, is⟩ := x
    obtain ⟨his, hrest⟩ := List.forall_mem_cons.mp hr
    rw [insertIn]
    split_ifs
    · have hi : i ∈ Ordered.insert Item.before i is :=
        (Ordered.mem_insert Item.before_strict i i is).mpr (Or.inl rfl)
      exact List.forall_mem_cons.mpr ⟨List.ne_nil_of_mem hi, hrest⟩
    · exact List.forall_mem_cons.mpr ⟨List.cons_ne_nil i [], hr⟩
    · exact List.forall_mem_cons.mpr ⟨his, ih hrest⟩

theorem isFilled_insertAll (hm : m.IsFilled) (entries : List (Family × Item)) :
    (m.insertAll entries).IsFilled := by
  induction entries generalizing m with
  | nil => exact hm
  | cons x entries ih => exact ih (isFilled_insertIn x.1 x.2 hm)

theorem isFilled_eraseIn (f : Family) (i : Item) {rows : List (Family × List Item)}
    (hr : IsFilled ⟨rows⟩) : IsFilled ⟨eraseIn f i rows⟩ := by
  induction rows with
  | nil => exact hr
  | cons x rest ih =>
    obtain ⟨g, is⟩ := x
    obtain ⟨his, hrest⟩ := List.forall_mem_cons.mp hr
    rw [eraseIn]
    split
    · split
      · exact hrest
      · next hleft => exact List.forall_mem_cons.mpr ⟨hleft, hrest⟩
    · exact List.forall_mem_cons.mpr ⟨his, ih hrest⟩

/-- The manifest holds the items of the set, in order and without an empty family. -/
structure Represents (m : Manifest) (s : Finset (Family × Item)) : Prop where
  inOrder : m.InOrder
  isFilled : m.IsFilled
  mem_iff : ∀ e, e ∈ m.items ↔ e ∈ s

theorem represents_empty : empty.Represents ∅ where
  inOrder := inOrder_empty
  isFilled := isFilled_empty
  mem_iff e := by simp [items_empty]

theorem Represents.insert (hm : m.Represents s) (f : Family) (i : Item) :
    (m.insert f i).Represents (Insert.insert (f, i) s) where
  inOrder := inOrder_insertIn f i hm.inOrder
  isFilled := isFilled_insertIn f i hm.isFilled
  mem_iff e := by rw [mem_items_insert, hm.mem_iff, Finset.mem_insert]

theorem Represents.erase (hm : m.Represents s) (f : Family) (i : Item) :
    (m.erase f i).Represents (s.erase (f, i)) where
  inOrder := inOrder_eraseIn f i hm.inOrder
  isFilled := isFilled_eraseIn f i hm.isFilled
  mem_iff e := by
    rw [Manifest.erase, mem_items_eraseIn f i hm.inOrder, hm.mem_iff, Finset.mem_erase]

theorem Represents.merge (hm : m.Represents s) (hn : n.Represents t) :
    (m.merge n).Represents (s ∪ t) where
  inOrder := inOrder_insertAll hm.inOrder n.items
  isFilled := isFilled_insertAll hm.isFilled n.items
  mem_iff e := by
    rw [mem_items_merge, hm.mem_iff, hn.mem_iff, Finset.mem_union, or_comm]

theorem Represents.difference (hm : m.Represents s) (hn : n.Represents t) :
    (m.difference n).Represents (s \ t) where
  inOrder := inOrder_ofItems _
  isFilled := isFilled_insertAll isFilled_empty _
  mem_iff e := by
    rw [mem_items_difference, hm.mem_iff, hn.mem_iff, Finset.mem_sdiff]

theorem Represents.contains_iff (hm : m.Represents s) (f : Family) (i : Item) :
    m.contains f i = true ↔ (f, i) ∈ s := by
  rw [Manifest.contains_iff, hm.mem_iff]

theorem InOrder.mem_items_iff_get? (hm : m.InOrder) {f : Family} {i : Item} :
    (f, i) ∈ m.items ↔ ∃ is, Ordered.get? f m.families = some is ∧ i ∈ is := by
  rw [mem_items]
  exact exists_congr fun is =>
    and_congr_left fun _ => Ordered.mem_iff_get?_eq Family.before_strict hm.families

theorem Represents.mem_iff_get? (hm : m.Represents s) {f : Family} {i : Item} :
    (f, i) ∈ s ↔ ∃ is, Ordered.get? f m.families = some is ∧ i ∈ is := by
  rw [← hm.mem_iff, hm.inOrder.mem_items_iff_get?]

theorem Represents.of_get?_eq_some (hm : m.Represents s) {f : Family} {is : List Item}
    (h : Ordered.get? f m.families = some is) :
    is ≠ [] ∧ Ordered.Ascending Item.before is ∧ ∀ i, i ∈ is ↔ (f, i) ∈ s := by
  have hrow : (f, is) ∈ m.families :=
    (Ordered.mem_iff_get?_eq Family.before_strict hm.inOrder.families).mpr h
  exact ⟨hm.isFilled _ hrow, hm.inOrder.items _ hrow, fun i => by simp [hm.mem_iff_get?, h]⟩

theorem Represents.get?_eq_some_iff (hm : m.Represents s) {f : Family} {is : List Item} :
    Ordered.get? f m.families = some is ↔
      is ≠ [] ∧ Ordered.Ascending Item.before is ∧ ∀ i, i ∈ is ↔ (f, i) ∈ s := by
  constructor
  · exact hm.of_get?_eq_some
  · rintro ⟨hne, hascending, hitems⟩
    obtain ⟨i, hi⟩ := List.exists_mem_of_ne_nil is hne
    -- The family has a row since the set has an item of it, and this row has the same items.
    obtain ⟨js, hjs, _⟩ := hm.mem_iff_get?.mp ((hitems i).mp hi)
    obtain ⟨_, hjsAscending, hjsItems⟩ := hm.of_get?_eq_some hjs
    have heq : js = is := hjsAscending.ext Item.before_strict hascending fun j => by
      rw [hjsItems, hitems]
    rw [hjs, heq]

theorem Represents.ext (hm : m.Represents s) (hn : n.Represents s) : m = n := by
  have hfamilies : m.families = n.families :=
    Ordered.AscendingKeys.ext Family.before_strict hm.inOrder.families hn.inOrder.families
      fun f => Option.ext fun is => by rw [hm.get?_eq_some_iff, hn.get?_eq_some_iff]
  cases m
  cases n
  exact congrArg Manifest.mk hfamilies

theorem Represents.eq_iff (hm : m.Represents s) (hn : n.Represents t) : m = n ↔ s = t := by
  constructor
  · rintro rfl
    exact Finset.ext fun e => by rw [← hm.mem_iff, hn.mem_iff]
  · rintro rfl
    exact hm.ext hn

theorem InOrder.nodup_items (hm : m.InOrder) : m.items.Nodup := by
  rw [Manifest.items, List.nodup_flatMap]
  constructor
  · rintro ⟨f, is⟩ hrow
    exact ((hm.items _ hrow).nodup Item.before_strict).map fun _ _ h => (Prod.mk.inj h).2
  · refine hm.families.imp fun {x y} hxy => List.disjoint_left.mpr ?_
    intro e hx hy
    obtain ⟨i, _, rfl⟩ := List.mem_map.mp hx
    obtain ⟨j, _, h⟩ := List.mem_map.mp hy
    exact Family.before_strict.ne hxy (Prod.mk.inj h).1.symm

theorem Represents.size_eq (hm : m.Represents s) : m.size = s.card := by
  have hs : m.items.toFinset = s := Finset.ext fun e => by rw [List.mem_toFinset, hm.mem_iff]
  rw [size, ← hs, List.toFinset_card_of_nodup hm.inOrder.nodup_items]

theorem Represents.isEmpty_iff (hm : m.Represents s) : m.isEmpty = true ↔ s = ∅ := by
  rw [isEmpty, List.isEmpty_iff, Finset.eq_empty_iff_forall_notMem]
  constructor
  · intro h e he
    rw [← hm.mem_iff, items, h] at he
    cases he
  · intro h
    refine List.eq_nil_iff_forall_not_mem.mpr fun row hrow => ?_
    obtain ⟨i, hi⟩ := List.exists_mem_of_ne_nil row.2 (hm.isFilled row hrow)
    exact h (row.1, i) ((hm.mem_iff _).mp (mem_items.mpr ⟨row.2, hrow, hi⟩))

/-- How a manifest came about. So did what was merged into it or taken from it. -/
inductive Origin where
  | empty
  | insert (p : Origin) (f : Family) (i : Item)
  | erase (p : Origin) (f : Family) (i : Item)
  | merge (p q : Origin)
  | difference (p q : Origin)

namespace Origin

def manifest : Origin → Manifest
  | .empty => .empty
  | .insert p f i => p.manifest.insert f i
  | .erase p f i => p.manifest.erase f i
  | .merge p q => p.manifest.merge q.manifest
  | .difference p q => p.manifest.difference q.manifest

def items : Origin → Finset (Family × Item)
  | .empty => ∅
  | .insert p f i => Insert.insert (f, i) p.items
  | .erase p f i => p.items.erase (f, i)
  | .merge p q => p.items ∪ q.items
  | .difference p q => p.items \ q.items

theorem represents (p : Origin) : p.manifest.Represents p.items := by
  induction p with
  | empty => exact represents_empty
  | insert p f i ih => exact ih.insert f i
  | erase p f i ih => exact ih.erase f i
  | merge p q ihp ihq => exact ihp.merge ihq
  | difference p q ihp ihq => exact ihp.difference ihq

end Origin

/-- Manifests that come from the empty one contain what the same operations on sets lead to. Two of
them are equal exactly if they contain the same, and one is empty exactly if its size is zero, which
is the number of its items. Each is read back from its text, and out of a store that it was
recorded in. -/
theorem manifests_as_sets (p q : Origin) :
    (∀ f i, p.manifest.contains f i = true ↔ (f, i) ∈ p.items) ∧
      (p.manifest = q.manifest ↔
        ∀ f i, p.manifest.contains f i = true ↔ q.manifest.contains f i = true) ∧
      (p.manifest.isEmpty = true ↔ p.manifest.size = 0) ∧
      p.manifest.size = p.items.card ∧
      (Json.parse p.manifest.toJson.compact).bind ofJson = some p.manifest ∧
      ∀ (s : KeyValueStore) (source : Source),
        (s.commit (.record source p.manifest)).manifest source = .ok p.manifest := by
  have hp := p.represents
  have hq := q.represents
  refine ⟨hp.contains_iff, ?_, ?_, hp.size_eq, ofJson_parse_compact hp.inOrder, ?_⟩
  · rw [hp.eq_iff hq, Finset.ext_iff, Prod.forall]
    simp only [hp.contains_iff, hq.contains_iff]
  · rw [hp.isEmpty_iff, hp.size_eq, Finset.card_eq_zero]
  · intro s source
    rw [KeyValueStore.manifest_record s hp.inOrder, if_pos rfl]

/-- Neither the order of the insertions nor a family that was emptied again shows. -/
example :
    (Origin.empty.insert .activeUris ⟨"", "b"⟩ |>.insert .urisByTitle ⟨"t", "b"⟩
      |>.erase .urisByTitle ⟨"t", "b"⟩ |>.insert .activeUris ⟨"", "a"⟩).manifest =
    (Origin.empty.insert .activeUris ⟨"", "a"⟩ |>.insert .activeUris ⟨"", "b"⟩).manifest := by
  decide

end Manifest

end PlatformCatalog
