import PlatformCatalog.Proofs.Rows
import PlatformCatalog.Store.KeyValue

/-!
# Scans

The rows of a set, and those of all sets whose keys begin alike, lie
together. A scan that starts at the first of them and stops behind the last
one therefore finds all of them.
-/

set_option autoImplicit false

namespace PlatformCatalog

section

variable {α : Type} {p : α → Bool} {rows : List α}

theorem takeWhile_eq_filter (h : rows.Pairwise fun x y => p y = true → p x = true) :
    rows.takeWhile p = rows.filter p := by
  induction rows with
  | nil => rfl
  | cons x rest ih =>
    obtain ⟨hx, hrest⟩ := List.pairwise_cons.mp h
    by_cases hp : p x = true
    · rw [List.takeWhile_cons_of_pos hp, List.filter_cons_of_pos hp, ih hrest]
    · have hnone : ∀ y ∈ rest, ¬p y = true := fun y hy hpy => hp (hx y hy hpy)
      rw [List.takeWhile_cons_of_neg hp, List.filter_cons_of_neg hp,
        List.filter_eq_nil_iff.mpr hnone]

theorem dropWhile_eq_filter (h : rows.Pairwise fun x y => p y = true → p x = true) :
    rows.dropWhile p = rows.filter fun x => !p x := by
  induction rows with
  | nil => rfl
  | cons x rest ih =>
    obtain ⟨hx, hrest⟩ := List.pairwise_cons.mp h
    by_cases hp : p x = true
    · rw [List.dropWhile_cons_of_pos hp, List.filter_cons_of_neg (by simp [hp]), ih hrest]
    · have hall : ∀ y ∈ x :: rest, (!p y) = true := by
        intro y hy
        rcases List.mem_cons.mp hy with rfl | hy
        · simpa using hp
        · have hpy : ¬p y = true := fun hpy => hp (hx y hy hpy)
          simpa using hpy
      rw [List.dropWhile_cons_of_neg hp, List.filter_eq_self.mpr hall]

end

/-- What stands between a text and a longer one that begins with it begins with it, too. -/
theorem isPrefix_of_not_lt {start cs rest : List Char} (hge : ¬cs < start)
    (hle : ¬start ++ rest < cs) : start <+: cs := by
  induction start generalizing cs with
  | nil => exact List.nil_prefix
  | cons c start ih =>
    cases cs with
    | nil => exact absurd (List.nil_lt_cons c start) hge
    | cons d cs =>
      rw [List.cons_lt_cons_iff, not_or, not_and] at hge
      rw [List.cons_append, List.cons_lt_cons_iff, not_or, not_and] at hle
      have hcd : c = d := le_antisymm (not_lt.mp hge.1) (not_lt.mp hle.1)
      exact List.cons_prefix_cons.mpr ⟨hcd, ih (hge.2 hcd.symm) (hle.2 hcd)⟩

namespace KeyValueStore

variable {s : KeyValueStore}

theorem after?_eq_some_iff {start t g : String} : after? start t = some g ↔ t = start ++ g := by
  rw [after?, Option.map_eq_some_iff]
  constructor
  · rintro ⟨rest, hrest, rfl⟩
    rw [List.isPrefixOf?_eq_some_iff_append_eq] at hrest
    rw [← String.toList_inj, String.toList_append, String.toList_ofList, hrest]
  · rintro rfl
    refine ⟨g.toList, ?_, String.ofList_toList⟩
    rw [List.isPrefixOf?_eq_some_iff_append_eq, String.toList_append]

theorem isSome_after?_iff {start t : String} :
    (after? start t).isSome = true ↔ start.toList <+: t.toList := by
  rw [after?, Option.isSome_map, Option.isSome_iff_exists]
  constructor
  · rintro ⟨rest, hrest⟩
    exact ⟨rest, List.isPrefixOf?_eq_some_iff_append_eq.mp hrest⟩
  · rintro ⟨rest, hrest⟩
    exact ⟨rest, List.isPrefixOf?_eq_some_iff_append_eq.mpr hrest⟩

section

variable (hs : Ordered.Ascending Ordered.pairBefore s.sets)

theorem pairBefore_start_iff {row : String × String} {key : String} :
    Ordered.pairBefore row (key, "") = true ↔ row.1 < key := by
  rw [Ordered.pairBefore_iff]
  have hmember : ¬row.2 < "" := List.not_lt_nil row.2.toList
  tauto

include hs in
theorem rowsFrom_eq (key : String) :
    s.rowsFrom key = s.sets.filter fun row => !Ordered.pairBefore row (key, "") :=
  dropWhile_eq_filter (hs.imp fun hxy hy => Ordered.pairBefore_strict.trans hxy hy)

include hs in
theorem mem_rowsFrom {key : String} {row : String × String} :
    row ∈ s.rowsFrom key ↔ row ∈ s.sets ∧ key ≤ row.1 := by
  rw [rowsFrom_eq hs, List.mem_filter, Bool.not_eq_true', ← Bool.not_eq_true,
    pairBefore_start_iff, not_lt]

include hs in
theorem ascending_rowsFrom (key : String) :
    Ordered.Ascending Ordered.pairBefore (s.rowsFrom key) := by
  rw [rowsFrom_eq hs]
  exact hs.filter _

theorem fst_le_of_pairBefore {x y : String × String} (h : Ordered.pairBefore x y = true) :
    x.1 ≤ y.1 := by
  rcases Ordered.pairBefore_iff.mp h with hlt | ⟨heq, _⟩
  · exact hlt.le
  · exact heq.le

include hs in
theorem members_eq (key : String) :
    s.members key = ((s.rowsFrom key).filter fun row => row.1 == key).map (·.2) := by
  rw [members, takeWhile_eq_filter]
  refine (ascending_rowsFrom hs key).imp_of_mem ?_
  intro x y hx _ hxy hy
  have hkey : y.1 = key := by simpa using hy
  have hle : x.1 ≤ key := hkey ▸ fst_le_of_pairBefore hxy
  have hge := ((mem_rowsFrom hs).mp hx).2
  simpa using le_antisymm hle hge

include hs in
theorem mem_members {key member : String} : member ∈ s.members key ↔ (key, member) ∈ s.sets := by
  rw [members_eq hs, List.mem_map]
  constructor
  · rintro ⟨row, hrow, rfl⟩
    obtain ⟨hmem, hkey⟩ := List.mem_filter.mp hrow
    have hkey : row.1 = key := by simpa using hkey
    rw [← hkey]
    exact ((mem_rowsFrom hs).mp hmem).1
  · intro hrow
    refine ⟨(key, member), List.mem_filter.mpr ⟨?_, by simp⟩, rfl⟩
    exact (mem_rowsFrom hs).mpr ⟨hrow, le_refl key⟩

include hs in
theorem ascending_members (key : String) :
    Ordered.Ascending Ordered.textBefore (s.members key) := by
  rw [members_eq hs, Ordered.Ascending, List.pairwise_map]
  refine ((ascending_rowsFrom hs key).filter _).imp_of_mem ?_
  intro x y hx hy hxy
  have hxkey : x.1 = key := by simpa using (List.mem_filter.mp hx).2
  have hykey : y.1 = key := by simpa using (List.mem_filter.mp hy).2
  rcases Ordered.pairBefore_iff.mp hxy with hlt | ⟨_, hlt⟩
  · rw [hxkey, hykey] at hlt
    exact absurd hlt (lt_irrefl key)
  · simpa [Ordered.textBefore] using hlt

include hs in
theorem mem_groups {start group : String} :
    group ∈ s.groups start ↔ ∃ member, (start ++ group, member) ∈ s.sets := by
  have hscan : (s.rowsFrom start).takeWhile (fun row => (after? start row.1).isSome) =
      (s.rowsFrom start).filter fun row => (after? start row.1).isSome := by
    refine takeWhile_eq_filter ((ascending_rowsFrom hs start).imp_of_mem ?_)
    intro x y hx _ hxy hy
    rw [isSome_after?_iff] at hy ⊢
    obtain ⟨rest, hrest⟩ := hy
    have hge : ¬x.1 < start := not_lt.mpr ((mem_rowsFrom hs).mp hx).2
    have hle : ¬y.1 < x.1 := not_lt.mpr (fst_le_of_pairBefore hxy)
    rw [String.lt_iff_toList_lt] at hge hle
    rw [← hrest] at hle
    exact isPrefix_of_not_lt hge hle
  rw [groups, hscan, Ordered.mem_ofList Ordered.textBefore_strict, List.mem_filterMap]
  constructor
  · rintro ⟨⟨key, member⟩, hrow, hafter⟩
    obtain rfl := after?_eq_some_iff.mp hafter
    exact ⟨member, ((mem_rowsFrom hs).mp (List.mem_filter.mp hrow).1).1⟩
  · rintro ⟨member, hrow⟩
    have hafter : after? start (start ++ group) = some group := after?_eq_some_iff.mpr rfl
    refine ⟨(start ++ group, member), List.mem_filter.mpr ⟨?_, by simp [hafter]⟩, hafter⟩
    refine (mem_rowsFrom hs).mpr ⟨hrow, not_lt.mp fun hlt => ?_⟩
    rw [String.lt_iff_toList_lt, String.toList_append] at hlt
    exact List.le_append_left hlt

end

theorem contains_iff {key member : String} :
    s.contains key member = true ↔ (key, member) ∈ s.sets :=
  List.contains_iff_mem

end KeyValueStore

end PlatformCatalog
