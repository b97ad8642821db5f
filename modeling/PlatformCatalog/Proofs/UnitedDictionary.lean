import PlatformCatalog.Fetch.Fetcher
import PlatformCatalog.Proofs.FetchedBatches
import PlatformCatalog.Proofs.HeldTitles

/-!
# The dictionary united with its criteria

Two archives that can be read bring a batch with one entry for each name. The
names of the dictionary go under its flags and titles. The criteria add the
names that it does not have, whatever the order in which they come.
-/

set_option autoImplicit false

namespace PlatformCatalog.Dictionary

def titled : List Attribute :=
  [.vendor, .product, .version, .update, .edition, .language, .softwareEdition, .targetSoftware,
    .targetHardware, .other]

/-- The title is the words of the name's attributes from the vendor on, without those that may be
anything. -/
def IsMadeOf (n : Name) (title : String) : Prop :=
  title = " ".intercalate ((titled.filter fun a => n.get a ≠ .any).map n.word)

theorem titled_eq : titled = Attribute.all.filter fun a => a ≠ .part := by decide

theorem madeTitle?_eq_some_iff {name title : String} :
    madeTitle? name = some title ↔ ∃ n, Formatted.read name = .ok n ∧ IsMadeOf n title := by
  have htitle : ∀ n, Holdings.titleOf n =
      " ".intercalate ((titled.filter fun a => n.get a ≠ .any).map n.word) := by
    intro n
    simp only [Holdings.titleOf, titled_eq, List.filter_filter, Bool.decide_and, Bool.and_comm]
  rw [madeTitle?]
  cases Formatted.read name with
  | error e => simp [Except.toOption]
  | ok n => simp [Except.toOption, IsMadeOf, htitle, eq_comm]

/-- What the items of a dictionary and its criteria are united to. -/
structure Unites (is : List Item) (cs : List String) (b : Batch) : Prop where
  deprecated : ∀ e, e ∈ b.deprecated ↔
    ∃ name, e.identifiers = [name] ∧ lastTitle? is true name = some e.title
  active : ∀ e, e ∈ b.active ↔ ∃ name, e.identifiers = [name] ∧
    (lastTitle? is false name = some e.title ∨
      name ∈ cs ∧ (∀ i ∈ is, IsName i.name → i.name ≠ name) ∧
        ∃ n, Formatted.read name = .ok n ∧ IsMadeOf n e.title)
  deprecatedNames : ∀ name, (∃ e ∈ b.deprecated, name ∈ e.identifiers) ↔
    ∃ i ∈ is, IsName i.name ∧ i.deprecated = true ∧ i.name = name
  activeNames : ∀ name, (∃ e ∈ b.active, name ∈ e.identifiers) ↔
    (∃ i ∈ is, IsName i.name ∧ i.deprecated = false ∧ i.name = name) ∨
      name ∈ cs ∧ IsName name ∧ ∀ i ∈ is, IsName i.name → i.name ≠ name
  ascending : ∀ es ∈ [b.active, b.deprecated],
    es.Pairwise fun d e => ∀ s ∈ d.identifiers, ∀ t ∈ e.identifiers, s < t

theorem mem_entries {rows : List (String × String)} {e : Entry} :
    e ∈ Holdings.entries rows ↔ ∃ name, e.identifiers = [name] ∧ (name, e.title) ∈ rows := by
  rw [Holdings.entries, List.mem_map]
  constructor
  · rintro ⟨⟨name, title⟩, hrow, rfl⟩
    exact ⟨name, rfl, hrow⟩
  · obtain ⟨title, identifiers⟩ := e
    rintro ⟨name, rfl, hrow⟩
    exact ⟨(name, title), hrow, rfl⟩

theorem pairwise_entries {rows : List (String × String)}
    (h : Ordered.AscendingKeys Ordered.textBefore rows) :
    (Holdings.entries rows).Pairwise
      fun d e => ∀ s ∈ d.identifiers, ∀ t ∈ e.identifiers, s < t := by
  rw [Holdings.entries, List.pairwise_map]
  refine List.Pairwise.imp ?_ h
  intro row other hbefore s hs t ht
  rw [List.mem_singleton.mp hs, List.mem_singleton.mp ht]
  exact of_decide_eq_true hbefore

namespace Holdings

variable {h : Holdings} {flag : Bool}

theorem InOrder.mem_rows_iff (horder : h.InOrder) {name title : String} :
    (name, title) ∈ h.rows flag ↔ h.title? flag name = some title :=
  Ordered.mem_iff_get?_eq Ordered.textBefore_strict (horder flag)

theorem InOrder.ext {k : Holdings} (hh : h.InOrder) (hk : k.InOrder)
    (htitles : ∀ flag name, h.title? flag name = k.title? flag name) : h = k := by
  have hrows : ∀ flag, h.rows flag = k.rows flag := fun flag =>
    (hh flag).ext Ordered.textBefore_strict (hk flag) (htitles flag)
  obtain ⟨active, deprecated⟩ := h
  obtain ⟨active', deprecated'⟩ := k
  rw [show active = active' from hrows false, show deprecated = deprecated' from hrows true]

theorem InOrder.exists_entry_iff (horder : h.InOrder) {name : String} :
    (∃ e ∈ entries (h.rows flag), name ∈ e.identifiers) ↔ h.Lists flag name := by
  rw [Lists, Option.isSome_iff_exists]
  constructor
  · rintro ⟨e, he, hname⟩
    obtain ⟨other, hother, hrow⟩ := mem_entries.mp he
    rw [hother, List.mem_singleton] at hname
    exact ⟨e.title, horder.mem_rows_iff.mp (hname ▸ hrow)⟩
  · rintro ⟨title, htitle⟩
    refine ⟨⟨title, [name]⟩, mem_entries.mpr ⟨name, rfl, ?_⟩, List.mem_singleton_self name⟩
    exact horder.mem_rows_iff.mpr htitle

end Holdings

theorem unites_build (dictionary found : List (List UInt8)) :
    Unites (items dictionary) (criteria found) (build dictionary found) := by
  have horder := Holdings.inOrder_built dictionary found
  constructor
  · intro e
    simp only [← @Holdings.title?_built_true dictionary found, ← horder.mem_rows_iff]
    exact mem_entries
  · intro e
    simp only [← madeTitle?_eq_some_iff, ← Holdings.title?_built_false_eq_some_iff,
      ← horder.mem_rows_iff]
    exact mem_entries
  · intro name
    rw [← @Holdings.lists_built_true dictionary found, ← horder.exists_entry_iff]
    rfl
  · intro name
    rw [and_congr_right forall_ne_iff, ← Holdings.lists_built_false, ← horder.exists_entry_iff]
    rfl
  · have hactive := pairwise_entries (horder false)
    have hdeprecated := pairwise_entries (horder true)
    exact List.forall_mem_cons.mpr ⟨hactive, List.forall_mem_singleton.mpr hdeprecated⟩

theorem build_congr (dictionary : List (List UInt8)) {found others : List (List UInt8)}
    (h : ∀ d, d ∈ others ↔ d ∈ found) : build dictionary others = build dictionary found := by
  have hcriteria : ∀ name, name ∈ criteria others ↔ name ∈ criteria found := by
    intro name
    simp only [criteria, List.mem_filterMap, h]
  have hbuilt : Holdings.built dictionary others = Holdings.built dictionary found := by
    have horder := Holdings.inOrder_built dictionary
    refine (horder others).ext (horder found) ?_
    intro flag name
    cases flag with
    | true => rw [Holdings.title?_built_true, Holdings.title?_built_true]
    | false => simp only [Holdings.title?_built_false, hcriteria]
  rw [Holdings.build_eq, Holdings.build_eq, hbuilt]

/-- Two archives that can be read bring the union of the dictionary and its criteria. Neither the
order nor the repetition of the members of the second one counts. -/
theorem archives_united {dictionary matched : Archive} {entries found : List (List UInt8)}
    (hentries : dictionary.documents? = some entries) (hfound : matched.documents? = some found) :
    ∃ b, Fetcher.ofArchives [.archive dictionary, .archive matched] = .ok b ∧
      Unites (items entries) (criteria found) b ∧
      ∀ (other : Archive) (others : List (List UInt8)), other.documents? = some others →
        (∀ d, d ∈ others ↔ d ∈ found) →
        Fetcher.ofArchives [.archive dictionary, .archive other] = .ok b := by
  have hread : ∀ (other : Archive) (others : List (List UInt8)),
      other.documents? = some others →
      Fetcher.ofArchives [.archive dictionary, .archive other] = .ok (build entries others) := by
    intro other others hothers
    exact Fetcher.ofArchives_eq_ok_iff.mpr
      ⟨dictionary, other, entries, others, rfl, hentries, hothers, rfl⟩
  refine ⟨build entries found, hread matched found hfound, unites_build entries found, ?_⟩
  intro other others hothers hsame
  rw [hread other others hothers, build_congr entries hsame]

def toolDocument (title : String) : List UInt8 :=
  ("\x7b\"cpeName\":\"cpe:2.3:a:acme:tool:1.0:*:*:*:*:*:*:*\",\"titles\":[\x7b\"title\":\"" ++
    title ++ "\",\"lang\":\"en\"\x7d]\x7d").toList.map fun c => c.toNat.toUInt8

def matchDocument (product : String) : List UInt8 :=
  ("\x7b\"criteria\":\"cpe:2.3:a:acme:" ++ product ++ ":1.0:*:*:*:*:*:*:*\"\x7d").toList.map
    fun c => c.toNat.toUInt8

def toolArchive : Archive where
  members := [⟨"d/1.json", toolDocument "Tool", true⟩, ⟨"README.md", [], true⟩,
    ⟨"d/2.json", toolDocument "Acme Tool", true⟩]

def matchArchive (products : List String) : Archive where
  members := products.map fun product => ⟨"m/1.json", matchDocument product, true⟩

theorem archives_united_reordered :
    ∃ b, Fetcher.ofArchives [.archive toolArchive, .archive (matchArchive ["tool", "lamp"])] =
        .ok b ∧
      ⟨"Acme Tool", ["cpe:2.3:a:acme:tool:1.0:*:*:*:*:*:*:*"]⟩ ∈ b.active ∧
      ⟨"acme lamp 1\\.0", ["cpe:2.3:a:acme:lamp:1.0:*:*:*:*:*:*:*"]⟩ ∈ b.active ∧
      Fetcher.ofArchives [.archive toolArchive,
        .archive (matchArchive ["lamp", "tool", "lamp"])] = .ok b := by
  have hitems : items [toolDocument "Tool", toolDocument "Acme Tool"] =
      [⟨false, "cpe:2.3:a:acme:tool:1.0:*:*:*:*:*:*:*", [⟨"Tool", "en"⟩]⟩,
        ⟨false, "cpe:2.3:a:acme:tool:1.0:*:*:*:*:*:*:*", [⟨"Acme Tool", "en"⟩]⟩] := by
    decide +kernel
  have hcriteria : criteria [matchDocument "tool", matchDocument "lamp"] =
      ["cpe:2.3:a:acme:tool:1.0:*:*:*:*:*:*:*", "cpe:2.3:a:acme:lamp:1.0:*:*:*:*:*:*:*"] := by
    decide +kernel
  have hread : (Formatted.read "cpe:2.3:a:acme:lamp:1.0:*:*:*:*:*:*:*").toOption =
      some { part := .text "a", vendor := .text "acme", product := .text "lamp",
             version := .text "1\\.0" } := by decide +kernel
  obtain ⟨b, hb, hunites, hothers⟩ := @archives_united toolArchive (matchArchive ["tool", "lamp"])
    [toolDocument "Tool", toolDocument "Acme Tool"] [matchDocument "tool", matchDocument "lamp"]
    rfl rfl
  rw [hitems, hcriteria] at hunites
  refine ⟨b, hb, ?_, ?_, ?_⟩
  · refine (hunites.active _).mpr ⟨_, rfl, Or.inl ?_⟩
    decide +kernel
  · refine (hunites.active _).mpr ⟨_, rfl, Or.inr ⟨by decide, by decide, _,
      toOption_eq_some_iff.mp hread, ?_⟩⟩
    rw [IsMadeOf]
    decide +kernel
  · exact hothers _ [matchDocument "lamp", matchDocument "tool", matchDocument "lamp"] rfl
      (by simp [or_comm])

end PlatformCatalog.Dictionary
