import PlatformCatalog.Proofs.ReadNames

/-!
# Where wildcards stand

Both readers let wildcards stand at the ends of a value only. They keep track
of different things, a character read or a symbol read, and yet they yield
the same rows of symbols.
-/

set_option autoImplicit false

namespace PlatformCatalog

open Formatted

def QuestionMarkFits (embedded : Bool) (previous : Option Symbol) (rest : List Symbol) : Prop :=
  previous = none ∨ rest = [] ∨ (embedded = false ∧ previous = some (.bare '?')) ∨
    (embedded = true ∧ rest.head? = some (.bare '?'))

/-- The rows of symbols that a reader yields. As with the readers, `embedded` says that something
other than a wildcard has been read, and `previous` is the symbol just read. -/
inductive Placed : Bool → Option Symbol → List Symbol → Prop
  | nil {embedded : Bool} {previous : Option Symbol} : Placed embedded previous []
  | asterisk {embedded : Bool} {previous : Option Symbol} {rest : List Symbol} :
      previous = none ∨ rest = [] → Placed embedded (some (.bare '*')) rest →
      Placed embedded previous (.bare '*' :: rest)
  | questionMark {embedded : Bool} {previous : Option Symbol} {rest : List Symbol} :
      QuestionMarkFits embedded previous rest → Placed embedded (some (.bare '?')) rest →
      Placed embedded previous (.bare '?' :: rest)
  | word {embedded : Bool} {previous : Option Symbol} {rest : List Symbol} {c : Char} :
      isWordChar c = true → Placed true (some (.bare c)) rest →
      Placed embedded previous (.bare c :: rest)
  | escaped {embedded : Bool} {previous : Option Symbol} {rest : List Symbol} {c : Char} :
      Placed true (some (.escaped c)) rest → Placed embedded previous (.escaped c :: rest)

def Symbol.bareUnderscore : Symbol → Symbol
  | .escaped c => if c = '_' then .bare '_' else .escaped c
  | .bare c => .bare c

theorem isWordChar_ne {c d : Char} (hc : isWordChar c = true) (hd : isWordChar d = false) :
    c ≠ d := by
  rintro rfl
  rw [hc] at hd
  cases hd

theorem map_cons_eq_ok_iff {ε : Type} {x : Symbol} {result : Except ε (List Symbol)}
    {symbols : List Symbol} :
    (x :: ·) <$> result = .ok symbols ↔ ∃ rest, result = .ok rest ∧ x :: rest = symbols := by
  cases result with
  | error e => simp [Functor.map, Except.map]
  | ok rest => simp [Functor.map, Except.map]

namespace Formatted

/-- What the reader recalls of the characters agrees with the symbols before. -/
structure Recalls (embedded : Bool) (previous : Option Char) (symbol : Option Symbol) : Prop where
  first : previous = none ↔ symbol = none
  questionMark : embedded = false → (previous = some '?' ↔ symbol = some (.bare '?'))

theorem Recalls.none (embedded : Bool) : Recalls embedded none none := by
  constructor <;> simp

theorem Recalls.bare (embedded : Bool) (c : Char) :
    Recalls embedded (some c) (some (.bare c)) := by
  constructor <;> simp

theorem Recalls.embedded (c : Char) (x : Symbol) : Recalls true (some c) (some x) := by
  constructor <;> simp

theorem head_quoteFrom {embedded : Bool} {previous : Option Char} {rest : List Char}
    {symbols : List Symbol} (h : quoteFrom embedded previous ('?' :: rest) = .ok symbols) :
    symbols.head? = some (.bare '?') := by
  cases rest with
  | nil =>
    cases h
    rfl
  | cons d rest =>
    rw [quoteFrom, if_neg (by decide), if_neg (by decide), if_neg (by decide), if_pos rfl] at h
    split at h
    · obtain ⟨_, _, rfl⟩ := map_cons_eq_ok_iff.mp h
      rfl
    · cases h

theorem placed_quoteFrom {embedded : Bool} {previous : Option Char} {cs : List Char}
    {symbols : List Symbol} {before : Option Symbol} (hb : Recalls embedded previous before)
    (h : quoteFrom embedded previous cs = .ok symbols) : Placed embedded before symbols := by
  fun_induction quoteFrom embedded previous cs generalizing symbols before with
  | case1 =>
    cases h
    exact .nil
  | case2 => cases h
  | case3 _ _ c _ hc =>
    cases h
    simp only [Bool.or_eq_true, beq_iff_eq] at hc
    rcases hc with (hc | rfl) | rfl
    · exact .word hc .nil
    · exact .asterisk (Or.inr rfl) .nil
    · exact .questionMark (Or.inr (Or.inl rfl)) .nil
  | case4 =>
    cases h
    exact .escaped .nil
  | case5 _ _ d rest ih =>
    obtain ⟨_, hrest, rfl⟩ := map_cons_eq_ok_iff.mp h
    exact .escaped (ih (.embedded d _) hrest)
  | case6 _ _ c d rest _ hc ih =>
    obtain ⟨_, hrest, rfl⟩ := map_cons_eq_ok_iff.mp h
    exact .word hc (ih (.bare true c) hrest)
  | case7 embedded previous d rest hfirst _ _ ih =>
    obtain ⟨_, hrest, rfl⟩ := map_cons_eq_ok_iff.mp h
    exact .asterisk (Or.inl (hb.first.mp (by simpa using hfirst))) (ih (.bare embedded '*') hrest)
  | case8 => cases h
  | case9 embedded previous d rest hfits _ _ _ ih =>
    obtain ⟨_, hrest, rfl⟩ := map_cons_eq_ok_iff.mp h
    refine .questionMark ?_ (ih (.bare embedded '?') hrest)
    simp only [questionMarkFits, List.isEmpty_cons, Bool.or_false, List.head?_cons,
      Option.some_beq_some, Bool.or_eq_true, Option.isNone_iff_eq_none, Bool.and_eq_true,
      Bool.not_eq_eq_eq_not, Bool.not_true, beq_iff_eq] at hfits
    rcases hfits with (hfirst | ⟨hembedded, hrun⟩) | ⟨hembedded, hrun⟩
    · exact Or.inl (hb.first.mp hfirst)
    · exact Or.inr (Or.inr (Or.inl ⟨hembedded, (hb.questionMark hembedded).mp hrun⟩))
    · subst hrun
      exact Or.inr (Or.inr (Or.inr ⟨hembedded, head_quoteFrom hrest⟩))
  | case10 => cases h
  | case11 _ _ c d rest _ _ _ _ ih =>
    obtain ⟨_, hrest, rfl⟩ := map_cons_eq_ok_iff.mp h
    exact .escaped (ih (.embedded c _) hrest)

theorem quoteFrom_word {embedded : Bool} {previous : Option Char} {c : Char} (rest : List Char)
    (hc : isWordChar c = true) :
    quoteFrom embedded previous (c :: rest) = (.bare c :: ·) <$> quoteFrom true (some c) rest := by
  have hescape : c ≠ '\\' := isWordChar_ne hc (by decide)
  cases rest with
  | nil => simp [quoteFrom, hescape, hc, Functor.map, Except.map]
  | cons d rest => rw [quoteFrom, if_neg hescape, if_pos hc]

theorem quoteFrom_asterisk {embedded : Bool} {previous : Option Char} {rest : List Char}
    (h : previous = none ∨ rest = []) :
    quoteFrom embedded previous ('*' :: rest) =
      (.bare '*' :: ·) <$> quoteFrom embedded (some '*') rest := by
  cases rest with
  | nil => rfl
  | cons d rest =>
    have hfirst : previous = none := by simpa using h
    rw [quoteFrom, if_neg (by decide), if_neg (by decide), if_pos rfl, if_pos (by simp [hfirst])]

theorem quoteFrom_questionMark {embedded : Bool} {previous : Option Char} {rest : List Char}
    (h : questionMarkFits embedded previous rest = true) :
    quoteFrom embedded previous ('?' :: rest) =
      (.bare '?' :: ·) <$> quoteFrom embedded (some '?') rest := by
  cases rest with
  | nil => rfl
  | cons d rest =>
    rw [quoteFrom, if_neg (by decide), if_neg (by decide), if_neg (by decide), if_pos rfl,
      if_pos h]

theorem quoteFrom_bare {embedded : Bool} {previous : Option Char} {c : Char} (rest : List Char)
    (hc : c = '.' ∨ c = '-') :
    quoteFrom embedded previous (c :: rest) =
      (.escaped c :: ·) <$> quoteFrom true (some c) rest := by
  cases rest with
  | nil => rcases hc with rfl | rfl <;> rfl
  | cons d rest => rcases hc with rfl | rfl <;> rfl

theorem head_flatMap_symbolText {symbols : List Symbol}
    (h : symbols.head? = some (.bare '?')) :
    (symbols.flatMap symbolText).head? = some '?' := by
  cases symbols with
  | nil => cases h
  | cons x rest =>
    cases h
    rfl

theorem Recalls.questionMarkFits {embedded : Bool} {previous : Option Char}
    {before : Option Symbol} (hb : Recalls embedded previous before) {rest : List Symbol}
    (h : QuestionMarkFits embedded before rest) :
    questionMarkFits embedded previous (rest.flatMap symbolText) = true := by
  rw [Formatted.questionMarkFits]
  rcases h with hfirst | rfl | ⟨hembedded, hrun⟩ | ⟨hembedded, hrun⟩
  · simp [hb.first.mpr hfirst]
  · simp
  · simp [hembedded, (hb.questionMark hembedded).mpr hrun]
  · simp [hembedded, head_flatMap_symbolText hrun]

theorem quoteFrom_flatMap {embedded : Bool} {previous : Option Char} {before : Option Symbol}
    {symbols : List Symbol} (h : Placed embedded before symbols)
    (hb : Recalls embedded previous before) :
    quoteFrom embedded previous (symbols.flatMap symbolText) =
      .ok (symbols.map Symbol.bareUnderscore) := by
  induction h generalizing previous with
  | nil => rfl
  | @asterisk embedded _ rest hends _ ih =>
    have hfits : previous = none ∨ rest.flatMap symbolText = [] := by
      rcases hends with hfirst | rfl
      · exact Or.inl (hb.first.mpr hfirst)
      · exact Or.inr rfl
    rw [List.flatMap_cons, symbolText, List.singleton_append, quoteFrom_asterisk hfits,
      ih (.bare embedded '*')]
    rfl
  | @questionMark embedded _ rest hfits _ ih =>
    rw [List.flatMap_cons, symbolText, List.singleton_append,
      quoteFrom_questionMark (hb.questionMarkFits hfits), ih (.bare embedded '?')]
    rfl
  | @word _ _ rest c hc _ ih =>
    rw [List.flatMap_cons, symbolText, List.singleton_append, quoteFrom_word _ hc,
      ih (.bare true c)]
    rfl
  | @escaped _ _ rest c _ ih =>
    have ih := ih (.embedded c (.escaped c))
    rw [List.flatMap_cons, symbolText]
    by_cases hunderscore : c = '_'
    · subst hunderscore
      rw [if_pos (by decide), List.singleton_append, quoteFrom_word _ (by decide), ih]
      rfl
    · have hkept : (Symbol.escaped c).bareUnderscore = .escaped c := if_neg hunderscore
      rw [List.map_cons, hkept]
      by_cases hbare : c = '.' ∨ c = '-'
      · rw [if_pos (hbare.imp_right Or.inl), List.singleton_append, quoteFrom_bare _ hbare, ih]
        rfl
      · have hquoted : ¬(c = '.' ∨ c = '-' ∨ c = '_') := by simpa [hunderscore] using hbare
        rw [if_neg hquoted, List.cons_append, List.singleton_append, quoteFrom, if_pos rfl, ih]
        rfl

end Formatted

def Symbol.IsCoded : Symbol → Prop
  | .bare _ => True
  | .escaped c => Uri.isAsciiPunctuation c = true

namespace Uri

theorem head_decodeFrom {embedded : Bool} {previous : Option Symbol} {rest : List Char}
    {symbols : List Symbol} (hstart : startsWithQuestionMark rest = true)
    (h : decodeFrom embedded previous rest = .ok symbols) :
    symbols.head? = some (.bare '?') := by
  match rest, hstart with
  | [], hstart | [_], hstart | [_, _], hstart => simp [startsWithQuestionMark] at hstart
  | a :: b :: c :: rest, hstart =>
    simp only [startsWithQuestionMark, List.take_succ_cons, List.take_zero, beq_iff_eq,
      List.cons.injEq, and_true] at hstart
    obtain ⟨rfl, rfl, rfl⟩ := hstart
    rw [decodeFrom, if_neg (by decide), if_pos rfl, if_pos ⟨rfl, rfl⟩] at h
    split at h
    · obtain ⟨_, _, rfl⟩ := map_cons_eq_ok_iff.mp h
      rfl
    · cases h

theorem placed_decodeFrom {embedded : Bool} {previous : Option Symbol} {cs : List Char}
    {symbols : List Symbol} (h : decodeFrom embedded previous cs = .ok symbols) :
    Placed embedded previous symbols := by
  fun_induction decodeFrom embedded previous cs generalizing symbols with
  | case1 =>
    cases h
    exact .nil
  | case2 _ _ c rest _ ih =>
    obtain ⟨_, hrest, rfl⟩ := map_cons_eq_ok_iff.mp h
    exact .escaped (ih hrest)
  | case3 embedded previous _ _ rest _ hfits _ ih =>
    obtain ⟨_, hrest, rfl⟩ := map_cons_eq_ok_iff.mp h
    refine .questionMark ?_ (ih hrest)
    simp only [Uri.questionMarkFits, Bool.or_eq_true, Option.isNone_iff_eq_none, List.isEmpty_iff,
      Bool.and_eq_true, Bool.not_eq_eq_eq_not, Bool.not_true, beq_iff_eq] at hfits
    rcases hfits with ((hfirst | hends) | ⟨hembedded, hrun⟩) | ⟨hembedded, hrun⟩
    · exact Or.inl hfirst
    · subst hends
      cases hrest
      exact Or.inr (Or.inl rfl)
    · exact Or.inr (Or.inr (Or.inl ⟨hembedded, hrun⟩))
    · exact Or.inr (Or.inr (Or.inr ⟨hembedded, head_decodeFrom hrun hrest⟩))
  | case4 => cases h
  | case5 embedded previous _ _ rest _ _ hends _ ih =>
    obtain ⟨_, hrest, rfl⟩ := map_cons_eq_ok_iff.mp h
    refine .asterisk ?_ (ih hrest)
    simp only [Bool.or_eq_true, Option.isNone_iff_eq_none, List.isEmpty_iff] at hends
    rcases hends with hfirst | hends
    · exact Or.inl hfirst
    · subst hends
      cases hrest
      exact Or.inr rfl
  | case6 => cases h
  | case7 _ _ _ _ rest _ _ p _ _ ih =>
    obtain ⟨_, hrest, rfl⟩ := map_cons_eq_ok_iff.mp h
    exact .escaped (ih hrest)
  | case8 => cases h
  | case9 => cases h
  | case10 _ _ c rest _ _ hc ih =>
    obtain ⟨_, hrest, rfl⟩ := map_cons_eq_ok_iff.mp h
    exact .word hc (ih hrest)
  | case11 => cases h

theorem isCoded_of_punctuation? {high low p : Char} (h : punctuation? high low = some p) :
    (Symbol.escaped p).IsCoded := by
  rw [punctuation?] at h
  split at h
  · split at h
    · next hp => exact Option.some.inj h ▸ hp
    · cases h
  · cases h

theorem isCoded_decodeFrom {embedded : Bool} {previous : Option Symbol} {cs : List Char}
    {symbols : List Symbol} (h : decodeFrom embedded previous cs = .ok symbols) :
    ∀ x ∈ symbols, x.IsCoded := by
  fun_induction decodeFrom embedded previous cs generalizing symbols with
  | case1 =>
    cases h
    exact fun x hx => absurd hx List.not_mem_nil
  | case2 _ _ c rest hc ih =>
    obtain ⟨_, hrest, rfl⟩ := map_cons_eq_ok_iff.mp h
    refine List.forall_mem_cons.mpr ⟨?_, ih hrest⟩
    rcases hc with rfl | rfl | rfl <;> exact rfl
  | case3 _ _ _ _ _ _ _ _ ih | case5 _ _ _ _ _ _ _ _ _ ih | case10 _ _ _ _ _ _ _ ih =>
    obtain ⟨_, hrest, rfl⟩ := map_cons_eq_ok_iff.mp h
    exact List.forall_mem_cons.mpr ⟨trivial, ih hrest⟩
  | case7 _ _ _ _ rest _ _ p hp _ ih =>
    obtain ⟨_, hrest, rfl⟩ := map_cons_eq_ok_iff.mp h
    exact List.forall_mem_cons.mpr ⟨isCoded_of_punctuation? hp, ih hrest⟩
  | case4 | case6 | case8 | case9 | case11 => cases h

end Uri

theorem Placed.plain {embedded : Bool} {previous : Option Symbol} {symbols : List Symbol}
    (h : Placed embedded previous symbols) : Symbol.Plain symbols := by
  induction h with
  | nil => exact List.not_mem_nil
  | word hc _ ih =>
    have hne := isWordChar_ne hc (d := '\\') (by decide)
    simpa [Symbol.Plain, Ne.symm hne] using ih
  | asterisk _ _ ih | questionMark _ _ ih | escaped _ ih => simpa [Symbol.Plain] using ih

def Value.IsPlaced : Value → Prop
  | .text s => ∃ symbols, Placed false none symbols ∧ s.toList = Symbol.toChars symbols
  | _ => True

theorem Placed.ofChars_eq {symbols : List Symbol} (h : Placed false none symbols) {s : String}
    (hs : s.toList = Symbol.toChars symbols) : Symbol.ofChars s.toList = symbols := by
  rw [hs, Symbol.ofChars_toChars h.plain]

theorem Formatted.isPlaced_readValue (component : List Char) (v : Value)
    (h : Formatted.readValue component = .ok v) : v.IsPlaced := by
  rw [Formatted.readValue] at h
  split at h
  · cases h
    trivial
  · split at h
    · cases h
      trivial
    · rw [quote] at h
      cases hq : quoteFrom false none component with
      | error fault =>
        rw [hq] at h
        cases h
      | ok symbols =>
        rw [hq] at h
        cases h
        exact ⟨symbols, placed_quoteFrom (.none false) hq, String.toList_ofList⟩

theorem Uri.readValue_eq_text {component : List Char} {s : String}
    (h : Uri.readValue component = .ok (.text s)) :
    ∃ symbols, decodeFrom false none (Text.lowerChars component) = .ok symbols ∧
      s.toList = Symbol.toChars symbols := by
  rw [Uri.readValue] at h
  split at h
  · cases h
  · split at h
    · cases h
    · split at h
      · next symbols hsymbols =>
        cases h
        exact ⟨symbols, hsymbols, String.toList_ofList⟩
      · cases h

theorem Uri.isPlaced_readValue (component : List Char) (v : Value)
    (h : Uri.readValue component = .ok v) : v.IsPlaced := by
  cases v with
  | any => trivial
  | na => trivial
  | text s =>
    obtain ⟨symbols, hsymbols, hs⟩ := readValue_eq_text h
    exact ⟨symbols, placed_decodeFrom hsymbols, hs⟩

theorem Name.isPlaced_parse {s : String} {n : Name} (h : Name.parse s = .ok n) :
    n.Each Value.IsPlaced :=
  Name.each_parse trivial Formatted.isPlaced_readValue Uri.isPlaced_readValue h

end PlatformCatalog
