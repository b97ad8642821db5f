import Mathlib.Data.List.Induction
import Mathlib.Data.List.Nodup
import PlatformCatalog.Fetch.Annotation
import PlatformCatalog.Proofs.TextBytes

/-!
# Annotations by title

The entries of an annotation list are put together one after the other. So
each title has one entry, which stands where the title comes first and lists
its identifiers in the order of their first occurrences. A list that is put
together already stays as it is.
-/

set_option autoImplicit false

namespace PlatformCatalog

namespace Entry

theorem ofJson_toJson (e : Entry) : Entry.ofJson e.toJson = some e := by
  have htext : ∀ s : String, Json.text? (.text s) = some s := fun _ => rfl
  have hidentifiers : Json.listOf? Json.text? (.texts e.identifiers) = some e.identifiers :=
    Json.listOf?_map htext e.identifiers
  have hfields : Json.fields? layout e.toJson =
      some [some (.text e.title), some (.texts e.identifiers)] := rfl
  rw [ofJson, hfields]
  simp [Json.required?, Json.optional?, hidentifiers]
  rfl

theorem isTextual_toJson (e : Entry) : e.toJson.IsTextual := by
  simp [toJson, Json.record, Json.text, Json.texts, Json.IsTextual, Json.AreTextualMembers,
    Json.areTextual_iff]

end Entry

namespace Annotation

section

variable {α : Type} [DecidableEq α]

theorem eraseDups_concat (xs : List α) (x : α) :
    (xs ++ [x]).eraseDups = if x ∈ xs then xs.eraseDups else xs.eraseDups ++ [x] := by
  rw [List.eraseDups_append]
  split
  · next h => simp [List.removeAll, h]
  · next h => simp [List.removeAll, h, List.eraseDups_cons]

theorem pairwise_idxOf_eraseDups (xs : List α) :
    xs.eraseDups.Pairwise fun s t => xs.idxOf s < xs.idxOf t := by
  induction xs using List.reverseRecOn with
  | nil => exact .nil
  | append_singleton xs x ih =>
    have hkept : xs.eraseDups.Pairwise fun s t => (xs ++ [x]).idxOf s < (xs ++ [x]).idxOf t := by
      refine List.Pairwise.imp_of_mem ?_ ih
      intro s t hs ht hlt
      rw [List.mem_eraseDups] at hs ht
      rwa [List.idxOf_append_of_mem hs, List.idxOf_append_of_mem ht]
    rw [eraseDups_concat]
    split
    · exact hkept
    · next hx =>
      refine List.pairwise_append.mpr ⟨hkept, List.pairwise_singleton _ _, ?_⟩
      intro s hs t ht
      rw [List.mem_eraseDups] at hs
      rw [List.mem_singleton.mp ht, List.idxOf_append_of_mem hs, List.idxOf_append_of_notMem hx]
      exact Nat.lt_add_right _ (List.idxOf_lt_length_iff.mpr hs)

theorem nodup_eraseDups (xs : List α) : xs.eraseDups.Nodup := by
  apply (pairwise_idxOf_eraseDups xs).imp
  rintro s _ hlt rfl
  exact Nat.lt_irrefl _ hlt

theorem eraseDups_of_nodup {xs : List α} (h : xs.Nodup) : xs.eraseDups = xs := by
  induction xs using List.reverseRecOn with
  | nil => rfl
  | append_singleton xs x ih =>
    obtain ⟨hxs, -, hx⟩ := List.nodup_append.mp h
    rw [eraseDups_concat, ih hxs, if_neg fun hmem => hx x hmem x List.mem_cons_self rfl]

theorem eraseDups_ne_nil_iff {xs : List α} : xs.eraseDups ≠ [] ↔ xs ≠ [] := by
  simp only [ne_eq, List.eq_nil_iff_forall_not_mem, List.mem_eraseDups]

end

theorem addNew_eraseDups (xs ys : List String) :
    addNew xs.eraseDups ys = (xs ++ ys).eraseDups := by
  induction ys generalizing xs with
  | nil => rw [addNew, List.append_nil]
  | cons y ys ih =>
    have hstep : addNew xs.eraseDups (y :: ys) = addNew (xs ++ [y]).eraseDups ys := by
      rw [addNew, eraseDups_concat]
      simp only [List.mem_eraseDups]
      split <;> rfl
    rw [hstep, ih, List.append_assoc, List.singleton_append]

def listed (entries : List Entry) (title : String) : List String :=
  (entries.filter fun e => e.title = title).flatMap Entry.identifiers

theorem mem_listed {entries : List Entry} {title s : String} :
    s ∈ listed entries title ↔ ∃ e ∈ entries, e.title = title ∧ s ∈ e.identifiers := by
  simp [listed, and_assoc]

theorem listed_append (es fs : List Entry) (title : String) :
    listed (es ++ fs) title = listed es title ++ listed fs title := by
  rw [listed, List.filter_append, List.flatMap_append]
  rfl

theorem listed_singleton (e : Entry) (title : String) :
    listed [e] title = if e.title = title then e.identifiers else [] := by
  by_cases h : e.title = title <;> simp [listed, h]

theorem listed_eq_nil {entries : List Entry} {title : String}
    (h : title ∉ entries.map Entry.title) : listed entries title = [] := by
  rw [List.eq_nil_iff_forall_not_mem]
  intro s hs
  obtain ⟨e, he, rfl, -⟩ := mem_listed.mp hs
  exact h (List.mem_map_of_mem he)

def merged (entries : List Entry) : List Entry :=
  (entries.map Entry.title).eraseDups.map fun title => ⟨title, (listed entries title).eraseDups⟩

theorem addEntry_map (e : Entry) {titles : List String} (htitles : titles.Nodup)
    {f : String → List String} (hf : e.title ∉ titles → f e.title = []) :
    addEntry e (titles.map fun title => ⟨title, f title⟩) =
      (if e.title ∈ titles then titles else titles ++ [e.title]).map fun title =>
        ⟨title, if title = e.title then addNew (f title) e.identifiers else f title⟩ := by
  induction titles with
  | nil => simp [addEntry, hf List.not_mem_nil]
  | cons t ts ih =>
    obtain ⟨ht, hts⟩ := List.nodup_cons.mp htitles
    rw [List.map_cons, addEntry]
    by_cases hte : t = e.title
    · -- No later entry has the title, so that the others are left as they are.
      have hrest : ts.map (fun title => (⟨title, f title⟩ : Entry)) = ts.map fun title =>
          ⟨title, if title = e.title then addNew (f title) e.identifiers else f title⟩ := by
        apply List.map_congr_left
        intro title htitle
        rw [if_neg]
        rintro rfl
        exact ht (hte ▸ htitle)
      rw [if_pos hte, hrest, if_pos (hte ▸ List.mem_cons_self), List.map_cons, if_pos hte]
    · have hmem : e.title ∈ t :: ts ↔ e.title ∈ ts :=
        List.mem_cons.trans (or_iff_right (Ne.symm hte))
      rw [if_neg hte, ih hts fun h => hf (mt hmem.mp h)]
      simp only [hmem]
      split <;> simp [hte]

theorem addEntry_merged (entries : List Entry) (e : Entry) :
    addEntry e (merged entries) = merged (entries ++ [e]) := by
  have hnone : e.title ∉ (entries.map Entry.title).eraseDups →
      (listed entries e.title).eraseDups = [] := by
    intro h
    rw [listed_eq_nil (mt List.mem_eraseDups.mpr h)]
    rfl
  rw [merged, addEntry_map e (nodup_eraseDups _) hnone, merged, List.map_append, List.map_singleton,
    eraseDups_concat]
  simp only [List.mem_eraseDups]
  apply List.map_congr_left
  intro title _
  rw [addNew_eraseDups, listed_append, listed_singleton]
  by_cases h : title = e.title
  · rw [if_pos h, if_pos h.symm]
  · rw [if_neg h, if_neg (Ne.symm h), List.append_nil]

theorem foldl_addEntry_eq (entries : List Entry) :
    entries.foldl (fun grouped e => addEntry e grouped) [] = merged entries := by
  induction entries using List.reverseRecOn with
  | nil => rfl
  | append_singleton entries e ih =>
    rw [List.foldl_append, List.foldl_cons, List.foldl_nil, ih, addEntry_merged]

theorem group_eq (entries : List Entry) :
    group entries = (merged entries).filter fun e => !e.identifiers.isEmpty := by
  rw [group, foldl_addEntry_eq]

theorem mem_group_iff {entries : List Entry} {e : Entry} :
    e ∈ group entries ↔
      e.identifiers = (listed entries e.title).eraseDups ∧ listed entries e.title ≠ [] := by
  rw [group_eq, List.mem_filter, merged, List.mem_map, Bool.not_eq_true', List.isEmpty_eq_false_iff]
  constructor
  · rintro ⟨⟨title, -, rfl⟩, hsome⟩
    exact ⟨rfl, eraseDups_ne_nil_iff.mp hsome⟩
  · rintro ⟨hidentifiers, hsome⟩
    have htitle : e.title ∈ (entries.map Entry.title).eraseDups := by
      rw [List.mem_eraseDups]
      exact Decidable.byContradiction fun h => hsome (listed_eq_nil h)
    refine ⟨⟨e.title, htitle, by rw [← hidentifiers]⟩, ?_⟩
    rw [hidentifiers]
    exact eraseDups_ne_nil_iff.mpr hsome

/-- The entries are put together by title. -/
structure IsGrouping (entries grouped : List Entry) : Prop where
  distinct : grouped.Pairwise fun d e => d.title ≠ e.title
  ordered : grouped.Pairwise fun d e =>
    (entries.map Entry.title).idxOf d.title < (entries.map Entry.title).idxOf e.title
  identifiers : ∀ e ∈ grouped, e.identifiers = (listed entries e.title).eraseDups
  titles : ∀ title, (∃ e ∈ grouped, e.title = title) ↔
    ∃ e ∈ entries, e.title = title ∧ e.identifiers ≠ []
  pairs : ∀ title s, (∃ e ∈ grouped, e.title = title ∧ s ∈ e.identifiers) ↔
    ∃ e ∈ entries, e.title = title ∧ s ∈ e.identifiers

theorem listed_ne_nil_iff {entries : List Entry} {title : String} :
    listed entries title ≠ [] ↔ ∃ e ∈ entries, e.title = title ∧ e.identifiers ≠ [] := by
  constructor
  · intro h
    obtain ⟨s, hs⟩ := List.exists_mem_of_ne_nil _ h
    obtain ⟨e, he, htitle, hes⟩ := mem_listed.mp hs
    exact ⟨e, he, htitle, List.ne_nil_of_mem hes⟩
  · rintro ⟨e, he, htitle, h⟩
    obtain ⟨s, hs⟩ := List.exists_mem_of_ne_nil _ h
    exact List.ne_nil_of_mem (mem_listed.mpr ⟨e, he, htitle, hs⟩)

theorem pairwise_group (entries : List Entry) : (group entries).Pairwise fun d e =>
    (entries.map Entry.title).idxOf d.title < (entries.map Entry.title).idxOf e.title := by
  rw [group_eq, merged]
  apply List.Pairwise.filter
  rw [List.pairwise_map]
  exact pairwise_idxOf_eraseDups _

theorem isGrouping_group (entries : List Entry) : IsGrouping entries (group entries) := by
  constructor
  · apply (pairwise_group entries).imp
    intro d e hlt heq
    rw [heq] at hlt
    exact Nat.lt_irrefl _ hlt
  · exact pairwise_group entries
  · exact fun e he => (mem_group_iff.mp he).1
  · intro title
    rw [← listed_ne_nil_iff]
    constructor
    · rintro ⟨e, he, rfl⟩
      exact (mem_group_iff.mp he).2
    · intro h
      exact ⟨⟨title, (listed entries title).eraseDups⟩, mem_group_iff.mpr ⟨rfl, h⟩, rfl⟩
  · intro title s
    have hlisted := @mem_listed entries title s
    rw [← hlisted]
    constructor
    · rintro ⟨e, he, rfl, hs⟩
      rwa [(mem_group_iff.mp he).1, List.mem_eraseDups] at hs
    · intro h
      exact ⟨⟨title, (listed entries title).eraseDups⟩,
        mem_group_iff.mpr ⟨rfl, List.ne_nil_of_mem h⟩, rfl, List.mem_eraseDups.mpr h⟩

theorem listed_title {es : List Entry} (h : (es.map Entry.title).Nodup) {e : Entry} (he : e ∈ es) :
    listed es e.title = e.identifiers := by
  obtain ⟨before, after, rfl⟩ := List.append_of_mem he
  rw [List.map_append, List.map_cons, List.nodup_middle, List.nodup_cons, List.mem_append,
    not_or] at h
  rw [← List.singleton_append, listed_append, listed_append, listed_eq_nil h.1.1,
    listed_eq_nil h.1.2, listed_singleton, if_pos rfl, List.nil_append, List.append_nil]

/-- Entries of different titles, each with some identifiers and none twice, stay as they are. -/
theorem group_eq_self {es : List Entry} (htitles : (es.map Entry.title).Nodup)
    (hidentifiers : ∀ e ∈ es, e.identifiers.Nodup ∧ e.identifiers ≠ []) : group es = es := by
  have hmerged : merged es = es := by
    rw [merged, eraseDups_of_nodup htitles, List.map_map]
    refine (List.map_congr_left fun e he => ?_).trans (List.map_id es)
    rw [Function.comp_apply, listed_title htitles he, eraseDups_of_nodup (hidentifiers e he).1]
    rfl
  rw [group_eq, hmerged]
  refine List.filter_eq_self.mpr fun e he => ?_
  rw [Bool.not_eq_true', List.isEmpty_eq_false_iff]
  exact (hidentifiers e he).2

theorem group_group (entries : List Entry) : group (group entries) = group entries := by
  have hgrouping := isGrouping_group entries
  refine group_eq_self (List.pairwise_map.mpr hgrouping.distinct) fun e he => ?_
  obtain ⟨hidentifiers, hsome⟩ := mem_group_iff.mp he
  constructor
  · rw [hidentifiers]
    exact nodup_eraseDups _
  · rw [hidentifiers]
    exact eraseDups_ne_nil_iff.mpr hsome

def entries? (bytes : List UInt8) : Option (List Entry) :=
  (Json.parseBytes bytes).bind (Json.listOf? Entry.ofJson)

theorem parse_eq (bytes : List UInt8) :
    parse bytes = (entries? bytes).map fun entries => { active := group entries } := by
  rw [parse, entries?]
  cases Json.parseBytes bytes with
  | none => rfl
  | some v => cases h : Json.listOf? Entry.ofJson v <;> simp [h]

def listing (entries : List Entry) : List UInt8 :=
  (Json.list (entries.map Entry.toJson)).compact.toUTF8.data.toList

theorem entries?_listing (entries : List Entry) : entries? (listing entries) = some entries := by
  have htextual : (Json.list (entries.map Entry.toJson)).IsTextual := by
    rw [Json.IsTextual, Json.areTextual_iff]
    exact List.forall_mem_map.mpr fun e _ => e.isTextual_toJson
  rw [entries?, listing, Json.parseBytes_compact htextual, Option.bind_some]
  exact Json.listOf?_map Entry.ofJson_toJson entries

/-- Every list of entries, however a document gives it, is put together by title, and a document of
what this brings gives the same again. -/
theorem annotations_grouped (entries : List Entry) :
    ∃ grouped, IsGrouping entries grouped ∧
      parse (listing entries) = some { active := grouped } ∧
      parse (listing grouped) = some { active := grouped } ∧
      ∀ bytes, entries? bytes = some entries ∨ entries? bytes = some grouped →
        parse bytes = some { active := grouped } := by
  have hparse : ∀ bytes, entries? bytes = some entries ∨ entries? bytes = some (group entries) →
      parse bytes = some { active := group entries } := by
    rintro bytes (h | h)
    · rw [parse_eq, h, Option.map_some]
    · rw [parse_eq, h, Option.map_some, group_group]
  refine ⟨group entries, isGrouping_group entries, ?_, ?_, hparse⟩
  · exact hparse _ (Or.inl (entries?_listing entries))
  · exact hparse _ (Or.inr (entries?_listing (group entries)))

example : group [⟨"b", []⟩, ⟨"a", ["x", "y"]⟩, ⟨"c", []⟩, ⟨"b", ["x"]⟩, ⟨"a", ["y", "z", "z"]⟩] =
    [⟨"b", ["x"]⟩, ⟨"a", ["x", "y", "z"]⟩] := by decide

end Annotation

end PlatformCatalog
