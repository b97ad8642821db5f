import Mathlib.Data.List.Forall2
import PlatformCatalog.Proofs.ComponentGrammar
import PlatformCatalog.Proofs.FormattedRoundTrip

/-!
# The grammar of formatted strings

The formatted strings that are read are the mark, in either case, and eleven
components between colons, each of which its attribute takes. The grammar
says so without a reader, and what a name holds is told from the components.
-/

set_option autoImplicit false

namespace PlatformCatalog.Formatted

open PlatformCatalog.Symbol (toChars)

def IsPiece (cs : List Char) : Prop :=
  ∃ symbols : List Symbol, (∀ x ∈ symbols, x ≠ .bare '\\' ∧ x ≠ .bare ':') ∧ cs = toChars symbols

/-- A text and its pieces between the colons that no backslash escapes. Only the last piece can
end in a backslash that escapes nothing. -/
inductive Cut : List Char → List (List Char) → Prop
  | last {piece : List Char} : IsPiece piece → Cut piece [piece]
  | dangling {piece : List Char} : IsPiece piece → Cut (piece ++ ['\\']) [piece ++ ['\\']]
  | colon {piece rest : List Char} {pieces : List (List Char)} :
      IsPiece piece → Cut rest pieces → Cut (piece ++ ':' :: rest) (piece :: pieces)

theorem isPiece_nil : IsPiece [] := ⟨[], by simp, rfl⟩

theorem IsPiece.cons {x : Symbol} (hx : x ≠ .bare '\\' ∧ x ≠ .bare ':') {piece : List Char}
    (h : IsPiece piece) : IsPiece (toChars [x] ++ piece) := by
  obtain ⟨symbols, hsymbols, rfl⟩ := h
  exact ⟨x :: symbols, List.forall_mem_cons.mpr ⟨hx, hsymbols⟩, (toChars_cons x symbols).symm⟩

theorem IsPiece.whole {piece : List Char} (h : IsPiece piece) : Whole piece := by
  obtain ⟨symbols, hsymbols, rfl⟩ := h
  induction symbols with
  | nil => exact whole_nil
  | cons x symbols ih =>
    obtain ⟨⟨hescape, hcolon⟩, hsymbols⟩ := List.forall_mem_cons.mp hsymbols
    rw [toChars_cons]
    refine Whole.append (fun rest => ?_) (ih hsymbols)
    cases x with
    | bare c => exact split_bare (by simpa using hcolon) (by simpa using hescape) rest
    | escaped c => exact split_escape c rest

theorem Cut.split_eq {cs : List Char} {pieces : List (List Char)} (h : Cut cs pieces) :
    split cs = pieces := by
  induction h with
  | @last piece hpiece => simpa [split] using hpiece.whole []
  | @dangling piece hpiece => simpa [split] using hpiece.whole ['\\']
  | @colon piece rest pieces hpiece _ ih =>
    rw [hpiece.whole, split_colon, ih, List.modifyHead_cons, List.append_nil]

theorem Cut.cons {x : Symbol} (hx : x ≠ .bare '\\' ∧ x ≠ .bare ':') {cs : List Char}
    {pieces : List (List Char)} (h : Cut cs pieces) :
    Cut (toChars [x] ++ cs) (pieces.modifyHead (toChars [x] ++ ·)) := by
  cases h with
  | last hpiece => exact .last (hpiece.cons hx)
  | dangling hpiece =>
    rw [List.modifyHead_cons, ← List.append_assoc]
    exact .dangling (hpiece.cons hx)
  | colon hpiece hrest =>
    rw [List.modifyHead_cons, ← List.append_assoc]
    exact .colon (hpiece.cons hx) hrest

theorem cut_split (cs : List Char) : Cut cs (split cs) := by
  have symbol : ∀ (x : Symbol) (rest : List Char), x ≠ .bare '\\' ∧ x ≠ .bare ':' →
      Cut rest (split rest) → Cut (toChars [x] ++ rest) (split (toChars [x] ++ rest)) := by
    intro x rest hx hrest
    have hpiece := isPiece_nil.cons hx
    rw [List.append_nil] at hpiece
    rw [hpiece.whole rest]
    exact hrest.cons hx
  induction cs using symbol_induction with
  | nil => exact .last isPiece_nil
  | dangling => exact .dangling isPiece_nil
  | asterisk rest ih => exact symbol (.bare '*') rest (by simp) ih
  | questionMark rest ih => exact symbol (.bare '?') rest (by simp) ih
  | symbol x rest hx ih =>
    by_cases hcolon : x = .bare ':'
    · subst hcolon
      have hcut := Cut.colon isPiece_nil ih
      rwa [← split_colon] at hcut
    · refine symbol x rest ⟨?_, hcolon⟩ ih
      rintro rfl
      exact hx.2.2 rfl

theorem cut_iff_split_eq {cs : List Char} {pieces : List (List Char)} :
    Cut cs pieces ↔ split cs = pieces :=
  ⟨Cut.split_eq, fun h => h ▸ cut_split cs⟩

def IsLogical (component : List Char) : Prop := component = ['*'] ∨ component = ['-']

def IsLanguageCode (cs : List Char) : Prop :=
  (cs.length = 2 ∨ cs.length = 3) ∧ ∀ c ∈ cs, isAsciiLetter c = true

inductive IsLanguage : List Char → Prop
  | code {letters : List Char} : IsLanguageCode letters → IsLanguage letters
  | region {letters hyphen region : List Char} :
      IsLanguageCode letters → hyphen = ['-'] ∨ hyphen = ['\\', '-'] → isRegion region = true →
      IsLanguage (letters ++ hyphen ++ region)

/-- An attribute takes a component of the grammar. Part and language have rules of their own. -/
structure Takes (a : Attribute) (component : List Char) : Prop where
  wellFormed : IsComponent component
  part : a = .part → ¬IsLogical component →
    component = ['a'] ∨ component = ['o'] ∨ component = ['h']
  language : a = .language → ¬IsLogical component → hasWildcard component = false →
    IsLanguage component

/-- A text whose characters are quoted, but for word characters and wildcards, and that unquoted
is the component without the backslashes that escape a character. -/
structure Quotes (component : List Char) (s : String) : Prop where
  fit : ∃ symbols, Fit symbols ∧ s.toList = toChars symbols
  unquote_eq : ∃ symbols, Symbol.Plain symbols ∧ component = toChars symbols ∧
    unquote s = String.ofList (symbols.map Symbol.char)

/-- The value that a component stands for. -/
inductive StandsFor (component : List Char) : Value → Prop
  | any : component = ['*'] → StandsFor component .any
  | na : component = ['-'] → StandsFor component .na
  | text {s : String} : ¬IsLogical component → Quotes component s → StandsFor component (.text s)

theorem readValue_eq_ok_iff {component : List Char} {v : Value} :
    readValue component = .ok v ↔ (component = ['*'] ∧ v = .any) ∨ (component = ['-'] ∧ v = .na) ∨
      (¬IsLogical component ∧ ∃ symbols, quoteFrom false none component = .ok symbols ∧
        v = .text (String.ofList (toChars symbols))) := by
  by_cases hany : component = ['*']
  · subst hany
    simp [readValue, IsLogical, eq_comm]
  · by_cases hna : component = ['-']
    · subst hna
      simp [readValue, IsLogical, eq_comm]
    · rw [readValue, if_neg hany, if_neg hna, quote]
      cases quoteFrom false none component with
      | error fault => simp [hany, hna, Functor.map, Except.map]
      | ok symbols => simp [hany, hna, IsLogical, Functor.map, Except.map, eq_comm]

theorem ofChars_bare {cs : List Char} (h : ∀ c ∈ cs, c ≠ '\\') :
    Symbol.ofChars cs = cs.map .bare := by
  have hread := Symbol.ofChars_bare_append h []
  rwa [List.append_nil, Symbol.ofChars, List.append_nil] at hread

theorem IsLanguageCode.ne {letters : List Char} (h : IsLanguageCode letters) :
    ∀ c ∈ letters, c ≠ '\\' :=
  fun c hc => isAsciiLetter_ne (h.2 c hc) (by decide)

theorem isWordChar_region {region : List Char} (h : isRegion region = true) :
    ∀ c ∈ region, isWordChar c = true := by
  simp only [isRegion, Bool.or_eq_true, Bool.and_eq_true, List.all_eq_true] at h
  rcases h with ⟨_, hletters⟩ | ⟨_, hdigits⟩
  · exact fun c hc => by simp [isWordChar, hletters c hc]
  · exact fun c hc => by simp [isWordChar, hdigits c hc]

theorem map_quoted_bare {cs : List Char} (h : ∀ c ∈ cs, isWordChar c = true) :
    (cs.map Symbol.bare).map Symbol.quoted = cs.map .bare := by
  rw [List.map_map]
  exact List.map_congr_left fun c hc => by simp [Symbol.quoted, h c hc]

theorem IsLanguageCode.map_quoted {letters : List Char} (h : IsLanguageCode letters) :
    (letters.map Symbol.bare).map Symbol.quoted = letters.map .bare :=
  map_quoted_bare fun c hc => by simp [isWordChar, h.2 c hc]

theorem quoted_eq_hyphen {x : Symbol} (h : x.quoted = .escaped '-') :
    toChars [x] = ['-'] ∨ toChars [x] = ['\\', '-'] := by
  have hchar : x.char = '-' := by
    rw [← char_quoted, h]
    rfl
  cases x with
  | bare c => exact Or.inl (by rw [← hchar]; rfl)
  | escaped c => exact Or.inr (by rw [← hchar]; rfl)

theorem isLanguage_of_isLanguageTag {symbols : List Symbol}
    (h : isLanguageTag (toChars (symbols.map Symbol.quoted)) = true) :
    IsLanguage (toChars symbols) := by
  obtain ⟨letters, rest, hchars, htag⟩ := isTag_of_isLanguageTag h
  have hcode : IsLanguageCode letters := ⟨htag.length, htag.letters⟩
  have hrow : symbols.map Symbol.quoted = letters.map .bare ++ Symbol.ofChars rest := by
    rw [← Symbol.ofChars_bare_append hcode.ne, ← hchars,
      Symbol.ofChars_toChars (plain_of_fit (fit_map_quoted symbols))]
  rcases htag.rest with rfl | ⟨region, hregion, rfl⟩
  · rw [Symbol.ofChars, List.append_nil] at hrow
    rw [map_quoted_eq_map_bare hrow, Symbol.toChars_map_bare]
    exact .code hcode
  · rw [Symbol.ofChars, if_pos rfl, ofChars_bare (isRegion_ne hregion)] at hrow
    obtain ⟨front, back, rfl, hfront, hback⟩ := List.map_eq_append_iff.mp hrow
    obtain ⟨x, more, rfl, hx, hmore⟩ := List.map_eq_cons_iff.mp hback
    rw [map_quoted_eq_map_bare hfront, map_quoted_eq_map_bare hmore, Symbol.toChars_append,
      toChars_cons, Symbol.toChars_map_bare, Symbol.toChars_map_bare, ← List.append_assoc]
    exact .region hcode (quoted_eq_hyphen hx) hregion

theorem IsLanguage.isLanguageTag {symbols : List Symbol} (hplain : Symbol.Plain symbols)
    (h : IsLanguage (toChars symbols)) :
    isLanguageTag (toChars (symbols.map Symbol.quoted)) = true := by
  have hrow : symbols = Symbol.ofChars (toChars symbols) := (Symbol.ofChars_toChars hplain).symm
  generalize toChars symbols = component at h hrow
  subst hrow
  cases h with
  | code hcode =>
    rw [ofChars_bare hcode.ne, hcode.map_quoted, Symbol.toChars_map_bare,
      ← List.append_nil component]
    exact IsTag.isLanguageTag ⟨hcode.1, hcode.2, Or.inl rfl⟩
  | @region letters hyphen region hcode hhyphen hregion =>
    have hread : (Symbol.ofChars (hyphen ++ region)).map Symbol.quoted =
        .escaped '-' :: region.map .bare := by
      have hregionRow := ofChars_bare (isRegion_ne hregion)
      rcases hhyphen with rfl | rfl
      · rw [Symbol.ofChars_bare_append (by simp), hregionRow, List.map_append,
          map_quoted_bare (isWordChar_region hregion)]
        rfl
      · rw [List.cons_append, List.cons_append, List.nil_append, Symbol.ofChars, if_pos rfl,
          hregionRow, List.map_cons, map_quoted_bare (isWordChar_region hregion)]
        rfl
    rw [List.append_assoc, Symbol.ofChars_bare_append hcode.ne, List.map_append,
      hcode.map_quoted, hread, Symbol.toChars_append, Symbol.toChars_map_bare, Symbol.toChars,
      Symbol.toChars_map_bare]
    exact IsTag.isLanguageTag ⟨hcode.1, hcode.2, Or.inr ⟨region, hregion, rfl⟩⟩

theorem hasWildcard_quoted {symbols : List Symbol} (h : Symbol.Plain symbols) :
    hasWildcard (toChars (symbols.map Symbol.quoted)) = hasWildcard (toChars symbols) := by
  rw [hasWildcard, hasWildcard, Symbol.ofChars_toChars (plain_of_fit (fit_map_quoted symbols)),
    Symbol.ofChars_toChars h, List.any_map]
  exact congrArg symbols.any (funext isWildcard_quoted)

theorem quoted_eq_iff_of_part {symbols : List Symbol} {c : Char} (hplain : Symbol.Plain symbols)
    (hc : c = 'a' ∨ c = 'o' ∨ c = 'h') :
    toChars (symbols.map Symbol.quoted) = [c] ↔ toChars symbols = [c] := by
  have hword : isWordChar c = true ∧ c ≠ '\\' := by rcases hc with rfl | rfl | rfl <;> decide
  have hbare : Symbol.ofChars [c] = [.bare c] := ofChars_bare (by simpa using hword.2)
  constructor
  · intro h
    have hrow := Symbol.ofChars_toChars (plain_of_fit (fit_map_quoted symbols))
    rw [h, hbare] at hrow
    have hread : symbols = [c].map .bare := map_quoted_eq_map_bare hrow.symm
    rw [hread]
    rfl
  · intro h
    have hrow := Symbol.ofChars_toChars hplain
    rw [h, hbare] at hrow
    rw [← hrow]
    simp [Symbol.quoted, hword.1, toChars]

theorem checkText_quoted_iff {a : Attribute} {symbols : List Symbol}
    (hplain : Symbol.Plain symbols) :
    checkText a (String.ofList (toChars (symbols.map Symbol.quoted))) = .ok () ↔
      toChars symbols ≠ [] ∧
      (a = .part → toChars symbols = ['a'] ∨ toChars symbols = ['o'] ∨ toChars symbols = ['h']) ∧
      (a = .language → hasWildcard (toChars symbols) = false → IsLanguage (toChars symbols)) := by
  have hempty :
      String.ofList (toChars (symbols.map Symbol.quoted)) = "" ↔ toChars symbols = [] := by
    rw [String.ofList_eq_empty_iff]
    constructor
    · intro h
      rw [List.map_eq_nil_iff.mp (Symbol.toChars_eq_nil h)]
      rfl
    · intro h
      rw [Symbol.toChars_eq_nil h]
      rfl
  have hpart : ∀ c, c = 'a' ∨ c = 'o' ∨ c = 'h' →
      (String.ofList (toChars (symbols.map Symbol.quoted)) = String.ofList [c] ↔
        toChars symbols = [c]) := fun c hc =>
    String.ofList_inj.trans (quoted_eq_iff_of_part hplain hc)
  have hlanguage : isLanguageTag (toChars (symbols.map Symbol.quoted)) = true ↔
      IsLanguage (toChars symbols) := ⟨isLanguage_of_isLanguageTag, IsLanguage.isLanguageTag hplain⟩
  rw [checkText_eq_ok_iff, String.toList_ofList, hasWildcard_quoted hplain, hlanguage, ne_eq,
    hempty, ← hpart 'a' (by simp), ← hpart 'o' (by simp), ← hpart 'h' (by simp)]
  simp only [← Bool.not_eq_true, Classical.or_iff_not_imp_left]

theorem takes_iff {a : Attribute} {component : List Char} :
    (∃ v, readValue component = .ok v ∧ checkValue a v = .ok ()) ↔ Takes a component := by
  constructor
  · rintro ⟨v, hv, hcheck⟩
    rcases readValue_eq_ok_iff.mp hv with ⟨rfl, rfl⟩ | ⟨rfl, rfl⟩ | ⟨htext, symbols, hs, rfl⟩
    · exact ⟨.any, fun _ h => absurd (Or.inl rfl) h, fun _ h => absurd (Or.inl rfl) h⟩
    · exact ⟨.na, fun _ h => absurd (Or.inr rfl) h, fun _ h => absurd (Or.inr rfl) h⟩
    · obtain ⟨read, hplain, rfl, rfl⟩ := quoteFrom_eq_map hs
      obtain ⟨hne, hpart, hlanguage⟩ := (checkText_quoted_iff hplain).mp hcheck
      exact ⟨isTaken_iff_isComponent.mp ⟨⟨_, hs⟩, hne⟩, fun ha _ => hpart ha,
        fun ha _ => hlanguage ha⟩
  · intro h
    by_cases hlogical : IsLogical component
    · rcases hlogical with rfl | rfl
      · exact ⟨.any, rfl, rfl⟩
      · exact ⟨.na, rfl, rfl⟩
    · obtain ⟨⟨symbols, hs⟩, hne⟩ := isTaken_iff_isComponent.mpr h.wellFormed
      refine ⟨_, readValue_eq_ok_iff.mpr (Or.inr (Or.inr ⟨hlogical, symbols, hs, rfl⟩)), ?_⟩
      obtain ⟨read, hplain, rfl, rfl⟩ := quoteFrom_eq_map hs
      exact (checkText_quoted_iff hplain).mpr
        ⟨hne, fun ha => h.part ha hlogical, fun ha => h.language ha hlogical⟩

theorem standsFor_of_readValue {component : List Char} {v : Value}
    (h : readValue component = .ok v) : StandsFor component v := by
  rcases readValue_eq_ok_iff.mp h with ⟨hc, rfl⟩ | ⟨hc, rfl⟩ | ⟨htext, symbols, hs, rfl⟩
  · exact .any hc
  · exact .na hc
  · obtain ⟨read, hplain, rfl, rfl⟩ := quoteFrom_eq_map hs
    have hfit := fit_map_quoted read
    refine .text htext ⟨⟨_, hfit, String.toList_ofList⟩, read, hplain, rfl, ?_⟩
    rw [unquote, String.toList_ofList, Symbol.ofChars_toChars (plain_of_fit hfit), List.map_map]
    exact congrArg String.ofList (List.map_congr_left fun x _ => char_quoted x)

theorem exists_fillWith_iff {read : List Char → Except NameError Value} {as : List Attribute}
    {cs : List (List Char)} (hlength : as.length = cs.length) (n : Name) :
    (∃ m, fillWith read as cs n = .ok m) ↔
      List.Forall₂ (fun a c => ∃ v, read c = .ok v ∧ checkValue a v = .ok ()) as cs := by
  induction as generalizing cs n with
  | nil =>
    obtain rfl : cs = [] := List.length_eq_zero_iff.mp hlength.symm
    exact iff_of_true ⟨n, rfl⟩ .nil
  | cons a as ih =>
    obtain ⟨c, cs, rfl⟩ := List.exists_cons_of_length_eq_add_one hlength.symm
    have hrest := ih (Nat.succ.inj hlength)
    rw [List.forall₂_cons]
    constructor
    · rintro ⟨m, h⟩
      obtain ⟨v, hv, h⟩ := bind_eq_ok_iff.mp h
      obtain ⟨next, hnext, h⟩ := bind_eq_ok_iff.mp h
      exact ⟨⟨v, hv, (Name.set_eq_ok_iff.mp hnext).1⟩, (hrest next).mp ⟨m, h⟩⟩
    · rintro ⟨⟨v, hv, hcheck⟩, hmore⟩
      obtain ⟨m, hm⟩ := (hrest (n.put a v)).mpr hmore
      exact ⟨m, bind_eq_ok_iff.mpr ⟨v, hv,
        bind_eq_ok_iff.mpr ⟨_, Name.set_eq_ok_iff.mpr ⟨hcheck, rfl⟩, hm⟩⟩⟩

theorem get_fillWith_of_notMem {read : List Char → Except NameError Value} {as : List Attribute}
    {cs : List (List Char)} {n m : Name} (h : fillWith read as cs n = .ok m) {a : Attribute}
    (ha : a ∉ as) : m.get a = n.get a := by
  induction as generalizing cs n with
  | nil =>
    cases h
    rfl
  | cons b as ih =>
    cases cs with
    | nil =>
      cases h
      rfl
    | cons c cs =>
      obtain ⟨v, _, h⟩ := bind_eq_ok_iff.mp h
      obtain ⟨next, hnext, h⟩ := bind_eq_ok_iff.mp h
      obtain ⟨_, rfl⟩ := Name.set_eq_ok_iff.mp hnext
      obtain ⟨hne, has⟩ := not_or.mp (mt List.mem_cons.mpr ha)
      rw [ih h has, Name.get_put, if_neg hne]

theorem read_get_fillWith {read : List Char → Except NameError Value} {as : List Attribute}
    (hnodup : as.Nodup) {cs : List (List Char)} (hlength : as.length = cs.length) {n m : Name}
    (h : fillWith read as cs n = .ok m) :
    List.Forall₂ (fun a c => read c = .ok (m.get a)) as cs := by
  induction as generalizing cs n with
  | nil =>
    obtain rfl : cs = [] := List.length_eq_zero_iff.mp hlength.symm
    exact .nil
  | cons a as ih =>
    obtain ⟨c, cs, rfl⟩ := List.exists_cons_of_length_eq_add_one hlength.symm
    obtain ⟨hfresh, hnodup⟩ := List.nodup_cons.mp hnodup
    obtain ⟨v, hv, h⟩ := bind_eq_ok_iff.mp h
    obtain ⟨next, hnext, h⟩ := bind_eq_ok_iff.mp h
    obtain ⟨_, rfl⟩ := Name.set_eq_ok_iff.mp hnext
    refine .cons ?_ (ih hnodup (Nat.succ.inj hlength) h)
    rw [hv, get_fillWith_of_notMem h hfresh, Name.get_put, if_pos rfl]

theorem dropBeginning_eq_some_iff {bs cs rest : List Char} :
    dropBeginning bs cs = some rest ↔
      ∃ beginning, cs = beginning ++ rest ∧ beginning.map Char.toLower = bs.map Char.toLower := by
  induction bs generalizing cs with
  | nil => simp [dropBeginning, eq_comm]
  | cons b bs ih =>
    cases cs with
    | nil => simp [dropBeginning]
    | cons c cs =>
      rw [dropBeginning]
      by_cases hc : b.toLower = c.toLower
      · rw [if_pos hc, ih]
        constructor
        · rintro ⟨beginning, rfl, hbeginning⟩
          exact ⟨c :: beginning, rfl, by simp [hc, hbeginning]⟩
        · rintro ⟨beginning, hcs, hbeginning⟩
          cases beginning with
          | nil => simp at hbeginning
          | cons d beginning =>
            obtain ⟨rfl, rfl⟩ := List.cons.inj hcs
            exact ⟨beginning, rfl, by simpa [hc] using hbeginning⟩
      · rw [if_neg hc]
        refine iff_of_false (by simp) ?_
        rintro ⟨beginning, hcs, hbeginning⟩
        cases beginning with
        | nil => simp at hbeginning
        | cons d beginning =>
          obtain ⟨rfl, rfl⟩ := List.cons.inj hcs
          exact hc (List.cons.inj hbeginning).1.symm

theorem exists_beginning_iff {bs : List Char} (hlower : bs.map Char.toLower = bs) {cs : List Char}
    {P : List Char → Prop} :
    (∃ beginning rest, cs = beginning ++ rest ∧ beginning.map Char.toLower = bs ∧ P rest) ↔
      ∃ rest, dropBeginning bs cs = some rest ∧ P rest := by
  simp only [dropBeginning_eq_some_iff, hlower]
  rw [exists_comm]
  simp only [← and_assoc, exists_and_right]

/-- A text is the mark, in either case, and components between colons. -/
def ConsistsOf (s : String) (components : List (List Char)) : Prop :=
  ∃ beginning rest, s.toList = beginning ++ rest ∧
    beginning.map Char.toLower = mark.toList ∧ Cut rest components

theorem consistsOf_iff {s : String} {components : List (List Char)} :
    ConsistsOf s components ↔
      ∃ rest, dropBeginning mark.toList s.toList = some rest ∧ split rest = components := by
  simp only [← cut_iff_split_eq]
  exact exists_beginning_iff (by decide)

theorem read_eq_ok_iff {s : String} {n : Name} :
    read s = .ok n ↔ ∃ components, ConsistsOf s components ∧
      components.length = Attribute.all.length ∧
      fillWith readValue Attribute.all components {} = .ok n := by
  rw [read]
  simp only [consistsOf_iff]
  cases dropBeginning mark.toList s.toList with
  | none => simp
  | some rest =>
    by_cases hlength : (split rest).length = Attribute.all.length
    · simp [hlength, fill_eq]
    · simp [hlength]

/-- A formatted string is read exactly if it is the mark and eleven components that the attributes
take. Each attribute of the name then holds what its component stands for. -/
theorem read_grammar (s : String) :
    ((∃ n, read s = .ok n) ↔ ∃ components, ConsistsOf s components ∧ components.length = 11 ∧
      List.Forall₂ Takes Attribute.all components) ∧
    ∀ n components, read s = .ok n → ConsistsOf s components →
      List.Forall₂ (fun a component => StandsFor component (n.get a)) Attribute.all components := by
  constructor
  · constructor
    · rintro ⟨n, h⟩
      obtain ⟨components, hs, hlength, hfill⟩ := read_eq_ok_iff.mp h
      refine ⟨components, hs, hlength, ?_⟩
      exact ((exists_fillWith_iff hlength.symm {}).mp ⟨n, hfill⟩).imp fun _ _ => takes_iff.mp
    · rintro ⟨components, hs, hlength, htakes⟩
      obtain ⟨n, hfill⟩ := (exists_fillWith_iff htakes.length_eq {}).mpr
        (htakes.imp fun _ _ => takes_iff.mpr)
      exact ⟨n, read_eq_ok_iff.mpr ⟨components, hs, hlength, hfill⟩⟩
  · intro n components h hs
    obtain ⟨found, hfound, hlength, hfill⟩ := read_eq_ok_iff.mp h
    obtain ⟨rest, hrest, rfl⟩ := consistsOf_iff.mp hs
    obtain ⟨other, hother, rfl⟩ := consistsOf_iff.mp hfound
    obtain rfl : rest = other := Option.some.inj (hrest.symm.trans hother)
    exact (read_get_fillWith (by decide) hlength.symm hfill).imp fun _ _ => standsFor_of_readValue

def taggedText : String := "CPE:2.3:a:foo\\:bar:b-z:4.??:*:-:en-US:*:?*:*:*"

def taggedName : Name where
  part := .text "a"
  vendor := .text "foo\\:bar"
  product := .text "b\\-z"
  version := .text "4\\.??"
  edition := .na
  language := .text "en\\-US"
  targetSoftware := .text "?*"

theorem read_grammar_tagged :
    read taggedText = .ok taggedName ∧
      List.Forall₂ (fun a component => StandsFor component (taggedName.get a)) Attribute.all
        (split (taggedText.toList.drop 8)) := by
  have hread : read taggedText = .ok taggedName := toOption_eq_some_iff.mp (by decide +kernel)
  exact ⟨hread, (read_grammar taggedText).2 _ _ hread
    (consistsOf_iff.mpr ⟨_, by decide +kernel, rfl⟩)⟩

end PlatformCatalog.Formatted
