import PlatformCatalog.Proofs.EqualRecords
import PlatformCatalog.Proofs.HeldTitles

/-!
# Names that the dictionary has retired

The dictionary and the match criteria are united by the spelling of a name,
records by its URI. So a name that the dictionary has retired stays retired
against a criterion of the same spelling, and is active again by one of
another spelling.
-/

set_option autoImplicit false

namespace PlatformCatalog

namespace Dictionary

def HasUri (uri s : String) : Prop := ∃ n, Formatted.read s = .ok n ∧ Uri.write n = uri

theorem HasUri.isName {uri s : String} (h : HasUri uri s) : IsName s := by
  obtain ⟨n, hn, _⟩ := h
  exact ⟨n, hn⟩

theorem parse_of_read {s : String} {n : Name} (h : Formatted.read s = .ok n) :
    Name.parse s = .ok n := by
  have hmark : (dropBeginning Formatted.mark.toList s.toList).isSome = true := by
    rw [Formatted.read] at h
    cases hdrop : dropBeginning Formatted.mark.toList s.toList with
    | none =>
      rw [hdrop] at h
      cases h
    | some rest => rfl
  rw [Name.parse, if_pos hmark, h]

theorem isSome_get?_iff {name : String} {rows : List (String × String)} :
    (Ordered.get? name rows).isSome = true ↔ ∃ title, (name, title) ∈ rows := by
  induction rows with
  | nil => simp [Ordered.get?]
  | cons row rest ih =>
    obtain ⟨other, title⟩ := row
    rw [Ordered.get?]
    by_cases h : name = other
    · simp [h]
    · simp [h, ih]

theorem exists_record_iff {source : Source} {rows : List (String × String)} {deprecated : Bool}
    (hrows : ∀ name, (Ordered.get? name rows).isSome = true → IsName name) (uri : String) :
    (∃ a ∈ convert source (Holdings.entries rows) deprecated, a.uri = uri) ↔
      ∃ name, (Ordered.get? name rows).isSome = true ∧ HasUri uri name := by
  constructor
  · rintro ⟨a, ha, rfl⟩
    obtain ⟨e, he, ha⟩ := List.mem_flatMap.mp ha
    obtain ⟨⟨name, title⟩, hrow, rfl⟩ := List.mem_map.mp he
    obtain ⟨identifier, hidentifier, ha⟩ := List.mem_filterMap.mp ha
    obtain rfl := List.mem_singleton.mp hidentifier
    have hheld := isSome_get?_iff.mpr ⟨title, hrow⟩
    obtain ⟨n, hn⟩ := hrows _ hheld
    have hrecord := toOption_eq_some_iff.mp ha
    rw [Record.ofIdentifier_of_parse (parse_of_read hn)] at hrecord
    exact ⟨_, hheld, n, hn, congrArg Record.uri (Except.ok.inj hrecord)⟩
  · rintro ⟨name, hheld, n, hn, rfl⟩
    obtain ⟨title, hrow⟩ := isSome_get?_iff.mp hheld
    refine ⟨Record.ofName source title n deprecated, ?_, rfl⟩
    refine List.mem_flatMap.mpr ⟨⟨title, [name]⟩, List.mem_map_of_mem hrow, ?_⟩
    refine List.mem_filterMap.mpr ⟨name, List.mem_singleton_self name, ?_⟩
    exact toOption_eq_some_iff.mpr (Record.ofIdentifier_of_parse (parse_of_read hn) ..)

/-- A name that the dictionary has retired has one record, which is deprecated unless an active
item of the dictionary has its URI, or a match criterion that is spelled like no item has. -/
theorem deprecated_iff_of_retired {dictionary found : List (List UInt8)} {i : Item} {n : Name}
    (hi : i ∈ items dictionary) (hretired : i.deprecated = true)
    (hn : Formatted.read i.name = .ok n) :
    ∃ r ∈ normalize .nvd (build dictionary found), r.uri = Uri.write n ∧
      (∀ q ∈ normalize .nvd (build dictionary found), q.uri = Uri.write n → q = r) ∧
      (r.deprecated = true ↔
        (∀ j ∈ items dictionary, j.deprecated = false → ¬HasUri (Uri.write n) j.name) ∧
        ∀ c ∈ criteria found, HasUri (Uri.write n) c → ∃ j ∈ items dictionary, j.name = c) := by
  have hnames : ∀ (flag : Bool) (name : String),
      (Holdings.built dictionary found).Lists flag name → IsName name :=
    fun _ _ => Holdings.isName_of_lists
  have hheld : (Holdings.built dictionary found).Lists true i.name :=
    (Holdings.lists_built_true i.name).mpr ⟨i, hi, ⟨n, hn⟩, hretired, rfl⟩
  obtain ⟨a, ha, huri⟩ : ∃ a ∈ convert .nvd (build dictionary found).deprecated true,
      a.uri = Uri.write n :=
    (exists_record_iff (hnames true) _).mpr ⟨i.name, hheld, n, hn, rfl⟩
  obtain ⟨r, hr, hra⟩ := exists_mem_keepFirst (List.mem_append_right
    (convert .nvd (build dictionary found).active false) ha) List.not_mem_nil
  have hactive : r.deprecated = false ↔
      ∃ name, (Holdings.built dictionary found).Lists false name ∧ HasUri (Uri.write n) name := by
    rw [active_iff_of_mem_normalize hr, hra, huri]
    exact exists_record_iff (hnames false) _
  refine ⟨r, hr, hra.trans huri, fun q hq hqn => ?_, ?_⟩
  · exact eq_of_mem_normalize hq hr (hqn.trans (hra.trans huri).symm)
  · rw [← Bool.not_eq_false, hactive]
    simp only [Holdings.lists_built_false]
    constructor
    · intro h
      constructor
      · intro j hj hflag hj'
        exact h ⟨j.name, Or.inl ⟨j, hj, hj'.isName, hflag, rfl⟩, hj'⟩
      · intro c hc hc'
        by_contra hnone
        exact h ⟨c, Or.inr ⟨hc, hc'.isName, fun j hj hsame => hnone ⟨j, hj, hsame⟩⟩, hc'⟩
    · rintro ⟨hitems, hcriteria⟩ ⟨name, ⟨j, hj, _, hflag, rfl⟩ | ⟨hc, _, hnew⟩, hname⟩
      · exact hitems j hj hflag hname
      · obtain ⟨j, hj, hsame⟩ := hcriteria name hc hname
        exact hnew j hj hsame

def retiredItem : Item := ⟨true, "cpe:2.3:a:acme:foo-bar:1.0:*:*:*:*:*:*:*", [⟨"Foo", "en"⟩]⟩

def retiredDocument : List UInt8 :=
  ("\x7b\"deprecated\":true,\"cpeName\":\"cpe:2.3:a:acme:foo-bar:1.0:*:*:*:*:*:*:*\"," ++
    "\"titles\":[\x7b\"title\":\"Foo\",\"lang\":\"en\"\x7d]\x7d").toList.map
      fun c => c.toNat.toUInt8

def retiredName : Name where
  part := .text "a"
  vendor := .text "acme"
  product := .text "foo\\-bar"
  version := .text "1\\.0"

def criterionDocument (product : String) : List UInt8 :=
  ("\x7b\"criteria\":\"cpe:2.3:a:acme:" ++ product ++ ":1.0:*:*:*:*:*:*:*\"\x7d").toList.map
    fun c => c.toNat.toUInt8

theorem items_retiredDocument : items [retiredDocument] = [retiredItem] := by decide +kernel

theorem read_retiredItem : Formatted.read retiredItem.name = .ok retiredName :=
  toOption_eq_some_iff.mp (by decide)

theorem deprecated_iff_of_retired_same_spelling :
    ∃ r ∈ normalize .nvd (build [retiredDocument] [criterionDocument "foo-bar"]),
      r.uri = Uri.write retiredName ∧ r.deprecated = true := by
  have hcriteria : criteria [criterionDocument "foo-bar"] = [retiredItem.name] := by
    decide +kernel
  obtain ⟨r, hr, huri, -, hretired⟩ := deprecated_iff_of_retired
    (items_retiredDocument ▸ List.mem_singleton_self retiredItem) rfl read_retiredItem
  refine ⟨r, hr, huri, hretired.mpr ?_⟩
  rw [items_retiredDocument, hcriteria]
  simp [retiredItem]

/-- A criterion of another spelling makes the name active again. -/
theorem not_deprecated_of_retired :
    ¬∀ (dictionary found : List (List UInt8)) (i : Item) (n : Name), i ∈ items dictionary →
      i.deprecated = true → Formatted.read i.name = .ok n →
      (∀ j ∈ items dictionary, j.deprecated = false → Formatted.read j.name ≠ .ok n) →
      ∀ r ∈ normalize .nvd (build dictionary found), r.uri = Uri.write n →
        r.deprecated = true := by
  intro h
  have hcriteria : criteria [criterionDocument "foo\\\\-bar"] =
      ["cpe:2.3:a:acme:foo\\-bar:1.0:*:*:*:*:*:*:*"] := by decide +kernel
  have hrecord : ((normalize .nvd (build [retiredDocument]
      [criterionDocument "foo\\\\-bar"])).map fun r => (r.uri, r.deprecated)) =
      [(Uri.write retiredName, false)] := by
    rw [Holdings.build_eq, Holdings.built, items_retiredDocument, hcriteria]
    decide +kernel
  obtain ⟨r, hr, hpair⟩ := List.mem_map.mp (hrecord ▸ List.mem_singleton_self _)
  obtain ⟨huri, hactive⟩ := Prod.mk.inj hpair
  have hretired := h [retiredDocument] [criterionDocument "foo\\\\-bar"] retiredItem retiredName
    (items_retiredDocument ▸ List.mem_singleton_self retiredItem) rfl read_retiredItem
    (by simp [items_retiredDocument, retiredItem]) r hr huri
  cases hactive.symm.trans hretired

end Dictionary

end PlatformCatalog
