import PlatformCatalog.Proofs.Manifest

/-!
# Manifests as documents

What is stored for a manifest is its document. It is read back as the same
manifest, and whatever is read as a manifest is in order.
-/

set_option autoImplicit false

namespace PlatformCatalog

open Json

theorem Family.ofName?_name (f : Family) : Family.ofName? f.name = some f := by
  cases f <;> rfl

namespace Item

theorem ofJson_toJson (i : Item) : Item.ofJson i.toJson = some i := by
  obtain ⟨group, member⟩ := i
  by_cases hg : group = ""
  · subst hg
    rfl
  · simp only [toJson, hg, if_false, List.cons_append, List.nil_append, Json.record]
    rfl

theorem isTextual_toJson (i : Item) : i.toJson.IsTextual := by
  by_cases hg : i.group = "" <;>
    simp [toJson, hg, Json.record, Json.text, IsTextual, AreTextualMembers]

end Item

namespace Manifest

theorem isTextual_toJson (m : Manifest) : m.toJson.IsTextual := by
  simp only [toJson, Json.record, IsTextual, areTextualMembers_iff, List.mem_map]
  rintro member ⟨named, ⟨row, _, rfl⟩, rfl⟩
  refine ⟨rfl, ?_⟩
  simp only [IsTextual, areTextual_iff, List.mem_map]
  rintro v ⟨i, _, rfl⟩
  exact i.isTextual_toJson

def members (rows : List (Family × List Item)) : List (Option String × Json) :=
  (rows.map fun (f, is) => (f.name, Json.list (is.map Item.toJson))).map fun m => (some m.1, m.2)

theorem loadFamilies_members (done rows : List (Family × List Item))
    (hr : InOrder ⟨done ++ rows⟩) : loadFamilies (members rows) done = some (done ++ rows) := by
  induction rows generalizing done with
  | nil => simp [members, loadFamilies]
  | cons row rest ih =>
    obtain ⟨f, is⟩ := row
    have his : Ordered.Ascending Item.before is := hr.items (f, is) (by simp)
    have hbehind : ∀ r ∈ done, r.1.before f = true := by
      intro r hrd
      exact (List.pairwise_append.mp hr.families).2.2 r hrd (f, is) (by simp)
    have hput : Ordered.put Family.before f is done = done ++ [(f, is)] :=
      Ordered.put_of_forall_before Family.before_strict f is hbehind
    have hrest := ih (done ++ [(f, is)]) (by simpa using hr)
    rw [List.append_assoc, List.singleton_append] at hrest
    rw [← hrest, ← hput, ← Ordered.ofList_of_ascending Item.before_strict his]
    simp only [members, List.map_cons, loadFamilies, Family.ofName?_name,
      listOf?_map Item.ofJson_toJson, Option.bind_eq_bind, Option.bind_some,
      Ordered.ofList_of_ascending Item.before_strict his]

theorem ofJson_toJson {m : Manifest} (hm : m.InOrder) : ofJson m.toJson = some m := by
  have h := loadFamilies_members [] m.families hm
  rw [List.nil_append] at h
  rw [toJson, Json.record, ofJson, ← members, h]
  rfl

theorem ofJson_parse_compact {m : Manifest} (hm : m.InOrder) :
    (Json.parse m.toJson.compact).bind ofJson = some m := by
  rw [Json.parse_compact m.toJson m.isTextual_toJson]
  exact ofJson_toJson hm

theorem inOrder_put (f : Family) {is : List Item} (his : Ordered.Ascending Item.before is)
    {rows : List (Family × List Item)} (hr : InOrder ⟨rows⟩) :
    InOrder ⟨Ordered.put Family.before f is rows⟩ where
  families := Ordered.ascendingKeys_put Family.before_strict f is hr.families
  items := by
    intro row h
    rcases Ordered.eq_or_mem_of_mem_put h with rfl | h
    · exact his
    · exact hr.items row h

theorem inOrder_loadFamilies (ms : List (Option String × Json)) (done : List (Family × List Item))
    (hd : InOrder ⟨done⟩) {rows : List (Family × List Item)}
    (h : loadFamilies ms done = some rows) : InOrder ⟨rows⟩ := by
  induction ms generalizing done with
  | nil =>
    rw [loadFamilies, Option.some.injEq] at h
    exact h ▸ hd
  | cons m ms ih =>
    obtain ⟨name, v⟩ := m
    cases name with
    | none => simp [loadFamilies] at h
    | some name =>
      simp only [loadFamilies, Option.bind_eq_bind, Option.bind_eq_some_iff] at h
      obtain ⟨f, _, is, _, h⟩ := h
      exact ih _ (inOrder_put f (Ordered.ascending_ofList Item.before_strict is) hd) h

theorem inOrder_of_ofJson {v : Json} {m : Manifest} (h : ofJson v = some m) : m.InOrder := by
  cases v with
  | object ms =>
    simp only [ofJson, Option.map_eq_some_iff] at h
    obtain ⟨rows, hrows, rfl⟩ := h
    exact inOrder_loadFamilies ms [] inOrder_empty hrows
  | _ => simp [ofJson] at h

end Manifest

end PlatformCatalog
