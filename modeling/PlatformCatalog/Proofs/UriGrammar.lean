import PlatformCatalog.Proofs.FormattedGrammar
import PlatformCatalog.Proofs.UriComponents
import PlatformCatalog.Proofs.UriRoundTrip

/-!
# The grammar of URIs

The URIs that are read are the mark, in either case, and at most seven
components between colons. A component holds one attribute, but an edition
that starts with a tilde holds five. An attribute that has no component counts
as empty.
-/

set_option autoImplicit false

namespace PlatformCatalog

theorem fillWith_append {read : List Char → Except NameError Value} {as bs : List Attribute}
    {cs ds : List (List Char)} (hlength : as.length = cs.length) (n : Name) :
    fillWith read (as ++ bs) (cs ++ ds) n = fillWith read as cs n >>= fillWith read bs ds := by
  induction as generalizing cs n with
  | nil =>
    obtain rfl : cs = [] := List.length_eq_zero_iff.mp hlength.symm
    rfl
  | cons a as ih =>
    obtain ⟨c, cs, rfl⟩ := List.exists_cons_of_length_eq_add_one hlength.symm
    simp only [List.cons_append, fillWith, bind_assoc, ih (Nat.succ.inj hlength)]

namespace Uri

open Text Formatted
open PlatformCatalog.Symbol (toChars)

/-- A text is the mark, in either case, and components between colons. -/
def ConsistsOf (s : String) (components : List (List Char)) : Prop :=
  ∃ beginning rest, s.toList = beginning ++ rest ∧
    beginning.map Char.toLower = mark.toList ∧ rest.splitOn ':' = components

def isPacked (components : List (List Char)) : Bool :=
  (components.getD 5 []).head? == some '~'

def editionParts (components : List (List Char)) : List (List Char) :=
  if isPacked components then ((components.getD 5 []).drop 1).splitOn '~'
  else [components.getD 5 []]

def textOf (components : List (List Char)) : Attribute → List Char
  | .part => components.getD 0 []
  | .vendor => components.getD 1 []
  | .product => components.getD 2 []
  | .version => components.getD 3 []
  | .update => components.getD 4 []
  | .language => components.getD 6 []
  | .edition => (editionParts components).getD 0 []
  | .softwareEdition => (editionParts components).getD 1 []
  | .targetSoftware => (editionParts components).getD 2 []
  | .targetHardware => (editionParts components).getD 3 []
  | .other => (editionParts components).getD 4 []

/-- The rules that part and language have for texts. -/
def Accepts (a : Attribute) : Value → Prop
  | .text s => (a = .part → s = "a" ∨ s = "o" ∨ s = "h") ∧
      (a = .language → hasWildcard s.toList = false → IsLanguage s.toList)
  | _ => True

/-- A text stands for a value that the attribute accepts. -/
def Takes (a : Attribute) (text : List Char) : Prop :=
  ∃ v, StandsFor text v ∧ Accepts a v

theorem map_quoted_of_fit {symbols : List Symbol} (h : Fit symbols) :
    symbols.map Symbol.quoted = symbols := by
  refine (List.map_congr_left fun x hx => ?_).trans (List.map_id symbols)
  cases x with
  | bare c => exact if_pos (by simpa [Symbol.Fits, or_assoc] using h _ hx)
  | escaped c => rfl

theorem checkValue_eq_ok_iff {a : Attribute} {text : List Char} {v : Value}
    (h : StandsFor text v) : checkValue a v = .ok () ↔ Accepts a v := by
  cases h with
  | any => exact iff_of_true rfl trivial
  | na => exact iff_of_true rfl trivial
  | @text row _ hspells hframed =>
    have hfit := fit_map_symbol row
    have hrow := (Wildcards.passes_iff_isFramed.mpr hframed).2
    have hne : toChars (row.map Token.symbol) ≠ [] := fun hnil =>
      hrow (List.map_eq_nil_iff.mp (Symbol.toChars_eq_nil hnil))
    have hletter : ∀ c, String.ofList (toChars (row.map Token.symbol)) = String.ofList [c] ↔
        toChars (row.map Token.symbol) = [c] := fun c => String.ofList_inj
    have hcheck := @checkText_quoted_iff a _ (plain_of_fit hfit)
    rw [map_quoted_of_fit hfit, and_iff_right hne, ← hletter, ← hletter, ← hletter] at hcheck
    rw [Accepts, String.toList_ofList]
    exact hcheck

theorem takes_iff {a : Attribute} {text : List Char} :
    (∃ v, readValue text = .ok v ∧ checkValue a v = .ok ()) ↔ Takes a text := by
  simp only [readValue_eq_ok_iff, Takes]
  exact exists_congr fun v => and_congr_right checkValue_eq_ok_iff

def componentOf (components : List (List Char)) (a : Attribute) : List Char :=
  components.getD (attributes.idxOf a) []

/-- The attributes that the component of an attribute holds. -/
def held (components : List (List Char)) (a : Attribute) : List Attribute :=
  if a = .edition ∧ isPacked components = true then packed else [a]

theorem readComponents_range (as : List Attribute) (cs : List (List Char)) (n : Name) :
    readComponents as cs n =
      readComponents as ((List.range as.length).map (cs.getD · [])) n := by
  induction as generalizing cs n with
  | nil => rfl
  | cons a as ih =>
    have hhead : cs.headD [] = cs.getD 0 [] := by cases cs <;> rfl
    have htail : ∀ i, cs.tail.getD i [] = cs.getD (i + 1) [] := fun i => by cases cs <;> simp
    rw [List.length_cons, List.range_succ_eq_map, List.map_cons, List.map_map]
    simp only [readComponents, List.headD_cons, List.tail_cons, hhead, ih cs.tail, htail]
    rfl

theorem readComponents_attributes (components : List (List Char)) (n : Name) :
    readComponents attributes components n =
      readComponents attributes (attributes.map (componentOf components)) n :=
  readComponents_range attributes components n

theorem componentOf_eq_textOf {components : List (List Char)} {a : Attribute}
    (ha : a ∈ attributes) (hpacked : ¬(a = .edition ∧ isPacked components = true)) :
    componentOf components a = textOf components a := by
  by_cases hedition : a = .edition
  · subst hedition
    rw [textOf, editionParts, if_neg fun h => hpacked ⟨rfl, h⟩]
    rfl
  · cases a <;> simp [attributes] at ha hedition <;> rfl

theorem map_textOf_packed {components : List (List Char)}
    (h : (editionParts components).length = 5) :
    packed.map (textOf components) = editionParts components := by
  have hparts : packed.map (textOf components) =
      (List.range 5).map ((editionParts components).getD · []) := rfl
  rw [hparts, ← h]
  exact List.ext_getElem (by simp) fun i _ hi => by simp [hi]

theorem isPacked_iff {components : List (List Char)} :
    isPacked components = true ↔ (componentOf components .edition).head? = some '~' :=
  beq_iff_eq

variable {components : List (List Char)} {n m : Name}

def fillTexts (components : List (List Char)) (as : List Attribute) (n : Name) :
    Except NameError Name :=
  fillWith readValue as (as.map (textOf components)) n

theorem fillTexts_append (as bs : List Attribute) :
    fillTexts components (as ++ bs) n = fillTexts components as n >>= fillTexts components bs := by
  rw [fillTexts, List.map_append, fillWith_append (List.length_map _).symm]
  rfl

theorem readComponent_packed (h : isPacked components = true) :
    readComponent .edition (componentOf components .edition) n = .ok m ↔
      (editionParts components).length = 5 ∧ fillTexts components packed n = .ok m := by
  have hparts : splitAtEach '~' ((componentOf components .edition).drop 1) =
      editionParts components := by
    rw [splitAtEach_eq_splitOn, editionParts, if_pos h]
    rfl
  have hfive : packed.length = 5 := rfl
  rw [readComponent, if_pos ⟨rfl, isPacked_iff.mp h⟩, unpack]
  simp only [hparts, fill_eq, hfive]
  by_cases hlength : (editionParts components).length = 5
  · rw [if_pos hlength, fillTexts, map_textOf_packed hlength, and_iff_right hlength]
  · rw [if_neg hlength]
    exact iff_of_false (by simp) fun h => hlength h.1

theorem readComponent_eq_ok_iff {a : Attribute} (ha : a ∈ attributes) :
    readComponent a (componentOf components a) n = .ok m ↔
      (a = .edition → isPacked components = true → (editionParts components).length = 5) ∧
        fillTexts components (held components a) n = .ok m := by
  by_cases h : a = .edition ∧ isPacked components = true
  · obtain ⟨rfl, hpacked⟩ := h
    have hheld : held components .edition = packed := if_pos ⟨rfl, hpacked⟩
    rw [readComponent_packed hpacked, hheld]
    simp only [hpacked, forall_const]
  · have hhead : ¬(a = .edition ∧ (componentOf components a).head? = some '~') := by
      rintro ⟨rfl, hhead⟩
      exact h ⟨rfl, isPacked_iff.mpr hhead⟩
    rw [readComponent, if_neg hhead, fill_eq, componentOf_eq_textOf ha h, held, if_neg h]
    exact (and_iff_right fun hedition hpacked => absurd ⟨hedition, hpacked⟩ h).symm

theorem readComponents_eq_ok_iff {as : List Attribute} (has : ∀ a ∈ as, a ∈ attributes) :
    readComponents as (as.map (componentOf components)) n = .ok m ↔
      (.edition ∈ as → isPacked components = true → (editionParts components).length = 5) ∧
        fillTexts components (as.flatMap (held components)) n = .ok m := by
  induction as generalizing n with
  | nil => simp [readComponents, fillTexts, fillWith]
  | cons a as ih =>
    obtain ⟨ha, has⟩ := List.forall_mem_cons.mp has
    rw [List.flatMap_cons, fillTexts_append, bind_eq_ok_iff]
    refine bind_eq_ok_iff.trans ?_
    simp only [List.map_cons, List.headD_cons, List.tail_cons, readComponent_eq_ok_iff ha, ih has,
      List.mem_cons]
    constructor
    · rintro ⟨next, ⟨hfirst, hnext⟩, hlater, h⟩
      exact ⟨fun hmem => hmem.elim (fun ha => hfirst ha.symm) hlater, next, hnext, h⟩
    · rintro ⟨hmem, next, hnext, h⟩
      exact ⟨next, ⟨fun ha => hmem (Or.inl ha.symm), hnext⟩, fun has => hmem (Or.inr has), h⟩

def allHeld (components : List (List Char)) : List Attribute := attributes.flatMap (held components)

theorem readComponents_attributes_eq_ok_iff :
    readComponents attributes components n = .ok m ↔
      (isPacked components = true → (editionParts components).length = 5) ∧
        fillTexts components (allHeld components) n = .ok m := by
  have hedition : Attribute.edition ∈ attributes := by decide
  rw [readComponents_attributes, readComponents_eq_ok_iff fun _ => id]
  simp only [hedition, forall_const, allHeld]

theorem allHeld_eq (components : List (List Char)) :
    allHeld components = if isPacked components = true then
      [.part, .vendor, .product, .version, .update] ++ packed ++ [.language] else attributes := by
  by_cases h : isPacked components = true
  · simp [allHeld, held, attributes, h]
  · simp [allHeld, held, attributes, h]

theorem nodup_allHeld (components : List (List Char)) : (allHeld components).Nodup := by
  rw [allHeld_eq]
  split <;> decide

theorem textOf_of_notMem {a : Attribute} (h : a ∉ allHeld components) :
    textOf components a = [] := by
  rw [allHeld_eq] at h
  split at h
  · cases a <;> simp [packed, Attribute.extended] at h
  · next hpacked =>
    have hparts : editionParts components = [components.getD 5 []] := if_neg hpacked
    cases a with
    | softwareEdition | targetSoftware | targetHardware | other => simp [textOf, hparts]
    | _ => exact absurd (by decide) h

theorem takes_nil (a : Attribute) : Takes a [] := ⟨.any, .any rfl, trivial⟩

theorem exists_fillTexts_iff :
    (∃ n, fillTexts components (allHeld components) {} = .ok n) ↔
      ∀ a, Takes a (textOf components a) := by
  refine (exists_fillWith_iff (List.length_map _).symm {}).trans ?_
  rw [List.forall₂_map_right_iff, List.forall₂_same]
  simp only [takes_iff]
  constructor
  · intro h a
    by_cases ha : a ∈ allHeld components
    · exact h a ha
    · rw [textOf_of_notMem ha]
      exact takes_nil a
  · exact fun h a _ => h a

theorem standsFor_of_fillTexts (h : fillTexts components (allHeld components) {} = .ok n)
    (a : Attribute) : StandsFor (textOf components a) (n.get a) := by
  by_cases ha : a ∈ allHeld components
  · have hread := read_get_fillWith (nodup_allHeld components) (List.length_map _).symm h
    rw [List.forall₂_map_right_iff, List.forall₂_same] at hread
    exact readValue_eq_ok_iff.mp (hread a ha)
  · have hany : ({} : Name).get a = .any := by cases a <;> rfl
    rw [get_fillWith_of_notMem h ha, textOf_of_notMem ha, hany]
    exact .any rfl

theorem consistsOf_iff {s : String} :
    ConsistsOf s components ↔ ∃ rest, dropBeginning mark.toList s.toList = some rest ∧
      splitAtEach ':' rest = components := by
  simp only [splitAtEach_eq_splitOn]
  exact exists_beginning_iff (by decide)

theorem read_eq_ok_iff {s : String} :
    read s = .ok n ↔ ∃ components, ConsistsOf s components ∧ components.length ≤ 7 ∧
      (isPacked components = true → (editionParts components).length = 5) ∧
      fillTexts components (allHeld components) {} = .ok n := by
  have hseven : attributes.length = 7 := rfl
  rw [read]
  simp only [consistsOf_iff]
  cases dropBeginning mark.toList s.toList with
  | none => simp
  | some rest =>
    by_cases hlength : (splitAtEach ':' rest).length ≤ 7
    · simp [hlength, hseven, readComponents_attributes_eq_ok_iff]
    · simp [hlength, hseven]

/-- A URI is read exactly if it is the mark and at most seven components whose texts the attributes
take, a packed edition having five parts. Each attribute of the name then holds what its text
stands for. -/
theorem uri_grammar (s : String) :
    ((∃ n, read s = .ok n) ↔ ∃ components, ConsistsOf s components ∧ components.length ≤ 7 ∧
      (isPacked components = true → (editionParts components).length = 5) ∧
      ∀ a, Takes a (textOf components a)) ∧
    ∀ n components, read s = .ok n → ConsistsOf s components → ∀ a,
      StandsFor (textOf components a) (n.get a) ∧
      ∀ t, n.get a = .text t →
        unquote t = String.ofList (decoded (lowerChars (textOf components a))) := by
  constructor
  · constructor
    · rintro ⟨n, h⟩
      obtain ⟨components, hs, hlength, hpacked, hfill⟩ := read_eq_ok_iff.mp h
      exact ⟨components, hs, hlength, hpacked, exists_fillTexts_iff.mp ⟨n, hfill⟩⟩
    · rintro ⟨components, hs, hlength, hpacked, htakes⟩
      obtain ⟨n, hfill⟩ := exists_fillTexts_iff.mpr htakes
      exact ⟨n, read_eq_ok_iff.mpr ⟨components, hs, hlength, hpacked, hfill⟩⟩
  · intro n components h hs a
    obtain ⟨found, hfound, _, _, hfill⟩ := read_eq_ok_iff.mp h
    obtain ⟨rest, hrest, rfl⟩ := consistsOf_iff.mp hs
    obtain ⟨other, hother, rfl⟩ := consistsOf_iff.mp hfound
    obtain rfl : rest = other := Option.some.inj (hrest.symm.trans hother)
    have hstands := standsFor_of_fillTexts hfill a
    exact ⟨hstands, fun t ht => (ht ▸ hstands).unquote_eq⟩

def codedText : String := "CPE:/A:Acme%2B:%02Tool%01%01:1.0::~x~-~%02Win%21~~:EN-us"

def codedName : Name where
  part := .text "a"
  vendor := .text "acme\\+"
  product := .text "*tool??"
  version := .text "1\\.0"
  edition := .text "x"
  language := .text "en\\-us"
  softwareEdition := .na
  targetSoftware := .text "*win\\!"

def codedComponents : List (List Char) := (codedText.toList.drop 5).splitOn ':'

theorem uri_grammar_coded :
    read codedText = .ok codedName ∧
      StandsFor (textOf codedComponents .targetSoftware) (.text "*win\\!") ∧
      unquote "*win\\!" =
        String.ofList (decoded (lowerChars (textOf codedComponents .targetSoftware))) := by
  have hread : read codedText = .ok codedName := toOption_eq_some_iff.mp (by decide +kernel)
  have hcomponents : ConsistsOf codedText codedComponents :=
    consistsOf_iff.mpr ⟨codedText.toList.drop 5, by decide +kernel, splitAtEach_eq_splitOn _ _⟩
  obtain ⟨hstands, hunquote⟩ :=
    (uri_grammar codedText).2 codedName codedComponents hread hcomponents .targetSoftware
  exact ⟨hread, hstands, hunquote _ rfl⟩

end Uri

end PlatformCatalog
