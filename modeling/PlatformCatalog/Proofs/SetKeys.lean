import Mathlib.Data.List.Infix
import PlatformCatalog.Store.Index

/-!
# The keys of the sets

No two families share a set. What a record contributes is told by its row
alone, so the rows of the store stand for items.
-/

set_option autoImplicit false

namespace PlatformCatalog

namespace Family

/-- The keys of a family never begin like the keys of another one. -/
theorem keyStart_of_isPrefix {f g : Family} (h : f.keyStart.toList <+: g.keyStart.toList) :
    f = g := by
  cases f <;> cases g <;> first | rfl | exact absurd h (by decide)

def keyRest (f : Family) (group : String) : List Char :=
  if f.isGrouped then group.toList else []

theorem toList_setKey (f : Family) (group : String) :
    (f.setKey group).toList = f.keyStart.toList ++ f.keyRest group := by
  by_cases hf : f.isGrouped <;> simp [setKey, keyRest, hf]

theorem setKey_inj_family {f g : Family} {a b : String} (h : f.setKey a = g.setKey b) : f = g := by
  have hl := congrArg String.toList h
  rw [toList_setKey, toList_setKey] at hl
  have hf : f.keyStart.toList <+: g.keyStart.toList ++ g.keyRest b := ⟨_, hl⟩
  have hg : g.keyStart.toList <+: g.keyStart.toList ++ g.keyRest b := List.prefix_append _ _
  rcases List.prefix_or_prefix_of_prefix hf hg with hfg | hgf
  · exact keyStart_of_isPrefix hfg
  · exact (keyStart_of_isPrefix hgf).symm

theorem setKey_inj_group {f : Family} (hf : f.isGrouped = true) {a b : String}
    (h : f.setKey a = f.setKey b) : a = b := by
  have hl := congrArg String.toList h
  rw [toList_setKey, toList_setKey, keyRest, keyRest, if_pos hf, if_pos hf] at hl
  exact String.toList_inj.mp (List.append_cancel_left hl)

end Family

def IsRegular (e : Family × Item) : Prop := e.1.isGrouped = false → e.2.group = ""

theorem Record.isRegular_of_mem_items {r : Record} {e : Family × Item} (h : e ∈ r.items) :
    IsRegular e := by
  intro hf
  simp only [items, List.mem_append, List.mem_cons, List.not_mem_nil, or_false] at h
  rcases h with h | rfl | rfl | rfl
  · split at h
    · rcases List.mem_cons.mp h with rfl | h
      · rfl
      · rw [List.mem_singleton.mp h]
    · rcases List.mem_cons.mp h with rfl | h
      · rfl
      · rw [List.mem_singleton.mp h]
  · simp [Family.isGrouped] at hf
  · simp [Family.isGrouped] at hf
  · simp [Family.isGrouped] at hf

theorem setRow_injective {d e : Family × Item} (hd : IsRegular d) (he : IsRegular e)
    (h : setRow d = setRow e) : d = e := by
  obtain ⟨f, group, member⟩ := d
  obtain ⟨g, group', member'⟩ := e
  simp only [setRow, Prod.mk.injEq] at h
  obtain ⟨hkey, rfl⟩ := h
  obtain rfl := Family.setKey_inj_family hkey
  have hgroup : group = group' := by
    cases hf : f.isGrouped with
    | true => exact Family.setKey_inj_group hf hkey
    | false => exact (hd hf).trans (he hf).symm
  rw [hgroup]

theorem setRow_mem_map {d : Family × Item} (hd : IsRegular d) {entries : List (Family × Item)}
    (he : ∀ e ∈ entries, IsRegular e) : setRow d ∈ entries.map setRow ↔ d ∈ entries := by
  rw [List.mem_map]
  constructor
  · rintro ⟨e, hm, h⟩
    exact setRow_injective (he e hm) hd h ▸ hm
  · exact fun h => ⟨d, h, rfl⟩

end PlatformCatalog
