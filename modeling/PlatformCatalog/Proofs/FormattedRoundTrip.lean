import PlatformCatalog.Proofs.AttributeChecks
import PlatformCatalog.Proofs.QuotedValues

/-!
# Formatted strings that are read back

The formatted string of a name tells less than the name: an underscore loses
its backslash, and a lone hyphen or asterisk reads as a logical value. The
name that is read back is the canonical one, and its formatted string is the
same.
-/

set_option autoImplicit false

namespace PlatformCatalog

/-- The value with underscores bare and with logical values for a lone hyphen or asterisk. -/
def Value.canonical : Value → Value
  | .text s =>
    if s = "\\-" then .na
    else if s = "*" then .any
    else .text (mapSymbols Symbol.bareUnderscore s)
  | v => v

def Name.canonical (n : Name) : Name := n.map Value.canonical

namespace Formatted

theorem split_ne_nil (cs : List Char) : split cs ≠ [] := by
  fun_induction split cs <;> simp_all

theorem split_colon (rest : List Char) : split (':' :: rest) = [] :: split rest := by
  cases rest with
  | nil => rfl
  | cons d rest => rw [split, if_pos rfl]

theorem split_escape (c : Char) (rest : List Char) :
    split ('\\' :: c :: rest) = (split rest).modifyHead ('\\' :: c :: ·) := by
  rw [split, if_neg (by decide), if_pos rfl]
  cases hsplit : split rest with
  | nil => exact absurd hsplit (split_ne_nil rest)
  | cons p ps => rfl

theorem split_bare {c : Char} (hcolon : c ≠ ':') (hescape : c ≠ '\\') (rest : List Char) :
    split (c :: rest) = (split rest).modifyHead (c :: ·) := by
  cases rest with
  | nil => simp [split, hcolon]
  | cons d rest =>
    rw [split, if_neg hcolon, if_neg hescape]
    cases hsplit : split (d :: rest) with
    | nil => exact absurd hsplit (split_ne_nil _)
    | cons p ps => rfl

def Whole (t : List Char) : Prop := ∀ rest, split (t ++ rest) = (split rest).modifyHead (t ++ ·)

theorem whole_nil : Whole [] := by
  intro rest
  obtain ⟨p, ps, hsplit⟩ := List.exists_cons_of_ne_nil (split_ne_nil rest)
  rw [List.nil_append, hsplit]
  rfl

theorem Whole.append {t u : List Char} (ht : Whole t) (hu : Whole u) : Whole (t ++ u) := by
  intro rest
  rw [List.append_assoc, ht, hu, List.modifyHead_modifyHead]
  simp only [Function.comp_def, List.append_assoc]

theorem whole_symbolText {x : Symbol} (hx : x.Fits) : Whole (symbolText x) := by
  intro rest
  cases x with
  | bare c =>
    have hcolon : c ≠ ':' := by rintro rfl; rcases hx with h | h | h <;> revert h <;> decide
    exact split_bare hcolon hx.ne.1 rest
  | escaped c =>
    rw [symbolText]
    split
    · next hc =>
      refine split_bare ?_ ?_ rest <;> rintro rfl <;> revert hc <;> decide
    · exact split_escape c rest

theorem whole_flatMap {symbols : List Symbol} (h : Fit symbols) :
    Whole (symbols.flatMap symbolText) := by
  induction symbols with
  | nil => exact whole_nil
  | cons x symbols ih =>
    obtain ⟨hx, hsymbols⟩ := List.forall_mem_cons.mp h
    rw [List.flatMap_cons]
    exact (whole_symbolText hx).append (ih hsymbols)

theorem split_joinBy {ts : List (List Char)} (hts : ts ≠ []) (h : ∀ t ∈ ts, Whole t) :
    split (joinBy ':' ts) = ts := by
  induction ts with
  | nil => exact absurd rfl hts
  | cons t rest ih =>
    obtain ⟨ht, hrest⟩ := List.forall_mem_cons.mp h
    cases rest with
    | nil =>
      have hend := ht []
      rw [List.append_nil] at hend
      simpa [joinBy, split] using hend
    | cons u rest =>
      rw [joinBy, ht, split_colon, ih (by simp) hrest]
      simp

theorem exists_valueText {v : Value} (h : v.IsPlaced) :
    ∃ symbols, Placed false none symbols ∧ valueText v = symbols.flatMap symbolText := by
  cases v with
  | any => exact ⟨[.bare '*'], .asterisk (Or.inl rfl) .nil, rfl⟩
  | na => exact ⟨[.escaped '-'], .escaped .nil, rfl⟩
  | text s =>
    obtain ⟨symbols, hplaced, hs⟩ := h
    exact ⟨symbols, hplaced, by rw [valueText, hplaced.ofChars_eq hs]⟩

theorem symbolText_ne_nil (x : Symbol) : symbolText x ≠ [] := by
  cases x with
  | bare c => simp [symbolText]
  | escaped c =>
    rw [symbolText]
    split <;> simp

theorem eq_singleton_of_flatMap {symbols : List Symbol} {c : Char}
    (h : symbols.flatMap symbolText = [c]) : ∃ x, symbols = [x] ∧ symbolText x = [c] := by
  cases symbols with
  | nil => cases h
  | cons x rest =>
    rw [List.flatMap_cons] at h
    rcases List.append_eq_singleton_iff.mp h with ⟨hx, _⟩ | ⟨hx, hrest⟩
    · exact absurd hx (symbolText_ne_nil x)
    · cases rest with
      | nil => exact ⟨x, rfl, hx⟩
      | cons y rest =>
        rw [List.flatMap_cons] at hrest
        exact absurd (List.append_eq_nil_iff.mp hrest).1 (symbolText_ne_nil y)

theorem text_eq_of_valueText {s : String} (h : (Value.text s).IsPlaced) {c : Char}
    (hc : c = '*' ∨ c = '-') (htext : valueText (.text s) = [c]) : s = "*" ∨ s = "\\-" := by
  obtain ⟨symbols, hplaced, hs⟩ := h
  rw [valueText, hplaced.ofChars_eq hs] at htext
  obtain ⟨x, rfl, hx⟩ := eq_singleton_of_flatMap htext
  have hfits := hplaced.fit x (by simp)
  have hchar : x = .bare '*' ∨ x = .escaped '-' := by
    cases x with
    | bare d =>
      obtain rfl : d = c := by simpa [symbolText] using hx
      rcases hc with rfl | rfl
      · exact Or.inl rfl
      · exact absurd hfits (by simp [Symbol.Fits]; decide)
    | escaped d =>
      rw [symbolText] at hx
      split at hx
      · obtain rfl : d = c := by simpa using hx
        rcases hc with rfl | rfl
        · next hbare => exact absurd hbare (by decide)
        · exact Or.inr rfl
      · simp at hx
  rcases hchar with rfl | rfl
  · exact Or.inl (String.toList_inj.mp hs)
  · exact Or.inr (String.toList_inj.mp hs)

theorem quote_flatMap {symbols : List Symbol} (h : Placed false none symbols) :
    quote (symbols.flatMap symbolText) =
      .ok (String.ofList (Symbol.toChars (symbols.map Symbol.bareUnderscore))) := by
  rw [quote, quoteFrom_flatMap h (.none false)]

theorem readValue_valueText {v : Value} (h : v.IsPlaced) :
    readValue (valueText v) = .ok v.canonical := by
  cases v with
  | any => rfl
  | na => rfl
  | text s =>
    rw [Value.canonical]
    split
    · next hs =>
      subst hs
      rfl
    · next hhyphen =>
      split
      · next hs =>
        subst hs
        rfl
      · next hasterisk =>
        have hword : ¬(s = "*" ∨ s = "\\-") := by simp [hhyphen, hasterisk]
        rw [readValue, if_neg fun hc => hword (text_eq_of_valueText h (Or.inl rfl) hc),
          if_neg fun hc => hword (text_eq_of_valueText h (Or.inr rfl) hc)]
        obtain ⟨symbols, hplaced, hs⟩ := h
        rw [valueText, hplaced.ofChars_eq hs, quote_flatMap hplaced,
          mapSymbols_eq hplaced.plain hs]
        rfl

theorem harmless_bareUnderscore : Harmless id Symbol.bareUnderscore where
  bare c := rfl
  letter c hc := hc
  digit c hc := hc
  part c _ := rfl
  hyphen := rfl
  wildcard x := by
    cases x with
    | bare c => rfl
    | escaped c =>
      rw [Symbol.bareUnderscore]
      split <;> rfl
  plain x hx := by
    cases x with
    | bare c => exact hx
    | escaped c =>
      rw [Symbol.bareUnderscore]
      split <;> simp

theorem checkValue_canonical {a : Attribute} {v : Value} (h : v.IsPlaced)
    (hcheck : checkValue a v = .ok ()) : checkValue a v.canonical = .ok () := by
  cases v with
  | any => rfl
  | na => rfl
  | text s =>
    rw [Value.canonical]
    split
    · rfl
    · split
      · rfl
      · obtain ⟨symbols, hplaced, hs⟩ := h
        exact harmless_bareUnderscore.checkText hplaced.plain hs hcheck

theorem symbolText_bareUnderscore (x : Symbol) : symbolText x.bareUnderscore = symbolText x := by
  cases x with
  | bare c => rfl
  | escaped c =>
    rw [Symbol.bareUnderscore]
    split
    · next hc =>
      subst hc
      rfl
    · rfl

theorem valueText_canonical {v : Value} (h : v.IsPlaced) : valueText v.canonical = valueText v := by
  cases v with
  | any => rfl
  | na => rfl
  | text s =>
    rw [Value.canonical]
    split
    · next hs =>
      subst hs
      rfl
    · split
      · next hs =>
        subst hs
        rfl
      · obtain ⟨symbols, hplaced, hs⟩ := h
        have hplain := harmless_bareUnderscore.plain_map hplaced.plain
        rw [valueText, valueText, ofChars_mapSymbols hplaced.plain hs hplain,
          hplaced.ofChars_eq hs, List.flatMap_map]
        exact congrArg (symbols.flatMap ·) (funext symbolText_bareUnderscore)

theorem dropBeginning_append (bs cs : List Char) : dropBeginning bs (bs ++ cs) = some cs := by
  induction bs with
  | nil => rfl
  | cons b bs ih => rw [List.cons_append, dropBeginning, if_pos rfl, ih]

theorem read_write {n : Name} (h : n.Each Value.IsPlaced) :
    read (write n) = .ok n.canonical := by
  have hwhole : ∀ t ∈ Attribute.all.map fun a => valueText (n.get a), Whole t := by
    intro t ht
    obtain ⟨a, _, rfl⟩ := List.mem_map.mp ht
    obtain ⟨symbols, hplaced, htext⟩ := exists_valueText (h a).1
    rw [htext]
    exact whole_flatMap hplaced.fit
  have hread : ∀ a ∈ Attribute.all, readValue (valueText (n.get a)) = .ok (n.get a).canonical ∧
      checkValue a (n.get a).canonical = .ok () := fun a _ =>
    ⟨readValue_valueText (h a).1, checkValue_canonical (h a).1 (h a).2⟩
  rw [read, write, String.toList_ofList, dropBeginning_append]
  simp only
  rw [split_joinBy (by simp [Attribute.all]) hwhole, if_pos (by simp), fill_eq, fillWith_map hread]
  rfl

theorem write_canonical {n : Name} (h : n.Each Value.IsPlaced) : write n.canonical = write n := by
  have htext : ∀ a, valueText (n.canonical.get a) = valueText (n.get a) := by
    intro a
    rw [Name.canonical, Name.get_map, valueText_canonical (h a).1]
  simp only [write, htext]

end Formatted

/-- The formatted string of a name is read back as the canonical name, whose formatted string is
the same. So once a name has been written, reading and writing it again changes nothing. -/
theorem formatted_round_trip {s : String} {n : Name} (h : Name.parse s = .ok n) :
    Formatted.read (Formatted.write n) = .ok n.canonical ∧
      Formatted.write n.canonical = Formatted.write n ∧
      ∃ m, Formatted.read (Formatted.write n) = .ok m ∧ Formatted.write m = Formatted.write n := by
  have hplaced := Name.isPlaced_parse h
  have hread := Formatted.read_write hplaced
  have hwrite := Formatted.write_canonical hplaced
  exact ⟨hread, hwrite, n.canonical, hread, hwrite⟩

def codedUri : String := "cpe:/a:%5f:%2d:%02"

def codedName : Name where
  part := .text "a"
  vendor := .text "\\_"
  product := .text "\\-"
  version := .text "*"

theorem parse_codedUri : Name.parse codedUri = .ok codedName :=
  toOption_eq_some_iff.mp (by decide +kernel)

theorem formatted_round_trip_coded :
    Name.parse codedUri = .ok codedName ∧ Formatted.read (Formatted.write codedName) =
      .ok { part := .text "a", vendor := .text "_", product := .na } :=
  ⟨parse_codedUri, (formatted_round_trip parse_codedUri).1⟩

end PlatformCatalog
