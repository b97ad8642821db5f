import PlatformCatalog.Proofs.AttributeChecks
import PlatformCatalog.Proofs.QuotedValues
import PlatformCatalog.Proofs.WildcardFrames

/-!
# The grammar of a component

The reader of formatted strings takes a component character by character and
looks back and ahead at each wildcard. The components that it takes are those
of a small grammar: symbols between wildcards at either end, or wildcards
alone.
-/

set_option autoImplicit false

namespace PlatformCatalog

open Formatted
open PlatformCatalog.Symbol (toChars)

/-- A symbol of a component that is no wildcard: a backslash with any character, or one other
character. -/
def Symbol.IsBody : Symbol → Prop
  | .bare c => c ≠ '*' ∧ c ≠ '?' ∧ c ≠ '\\'
  | .escaped _ => True

def Symbol.wildcards : Wildcards Symbol where
  asterisk := .bare '*'
  questionMark := .bare '?'
  differ := by simp

def Symbol.quoted : Symbol → Symbol
  | .bare c => if isWordChar c || c == '*' || c == '?' then .bare c else .escaped c
  | .escaped c => .escaped c

namespace Formatted

def IsBody (cs : List Char) : Prop :=
  ∃ symbols : List Symbol, symbols ≠ [] ∧ (∀ x ∈ symbols, x.IsBody) ∧ cs = toChars symbols

/-- What stands at either end of a body. -/
inductive IsEnd : List Char → Prop
  | nothing : IsEnd []
  | asterisk : IsEnd ['*']
  | questionMarks (n : Nat) : IsEnd (List.replicate (n + 1) '?')

/-- Wildcards without a body. -/
inductive IsWild : List Char → Prop
  | asterisks : IsWild ['*', '*']
  | asteriskFirst : IsWild ['*', '?']
  | questionMarks (n : Nat) : IsWild (List.replicate (n + 1) '?')
  | asteriskLast (n : Nat) : IsWild (List.replicate (n + 1) '?' ++ ['*'])

/-- The components of formatted strings. -/
inductive IsComponent : List Char → Prop
  | any : IsComponent ['*']
  | na : IsComponent ['-']
  | framed {left body right : List Char} :
      IsEnd left → IsBody body → IsEnd right → IsComponent (left ++ body ++ right)
  | wild {cs : List Char} : IsWild cs → IsComponent cs

def IsTaken (embedded : Bool) (previous : Option Char) (cs : List Char) : Prop :=
  ∃ symbols, quoteFrom embedded previous cs = .ok symbols

section

variable {embedded : Bool} {previous : Option Char} {rest : List Char}

theorem isTaken_nil : IsTaken embedded previous [] := ⟨[], rfl⟩

theorem isTaken_of_map {x : Symbol} {cs : List Char} {nowEmbedded : Bool} {now : Option Char}
    (h : quoteFrom embedded previous cs = (x :: ·) <$> quoteFrom nowEmbedded now rest) :
    IsTaken embedded previous cs ↔ IsTaken nowEmbedded now rest := by
  constructor
  · rintro ⟨symbols, hs⟩
    obtain ⟨more, hmore, _⟩ := map_cons_eq_ok_iff.mp (h.symm.trans hs)
    exact ⟨more, hmore⟩
  · rintro ⟨more, hmore⟩
    exact ⟨x :: more, h.trans (map_cons_eq_ok_iff.mpr ⟨more, hmore, rfl⟩)⟩

theorem isTaken_asterisk :
    IsTaken embedded previous ('*' :: rest) ↔
      (previous = none ∨ rest = []) ∧ IsTaken embedded (some '*') rest := by
  by_cases hends : previous = none ∨ rest = []
  · rw [isTaken_of_map (quoteFrom_asterisk hends)]
    simp [hends]
  · obtain ⟨hfirst, hrest⟩ := not_or.mp hends
    obtain ⟨d, rest, rfl⟩ := List.exists_cons_of_ne_nil hrest
    refine iff_of_false ?_ fun h => hends h.1
    rintro ⟨symbols, hs⟩
    rw [quoteFrom, if_neg (by decide), if_neg (by decide), if_pos rfl,
      if_neg (by simpa using hfirst)] at hs
    cases hs

theorem isTaken_questionMark :
    IsTaken embedded previous ('?' :: rest) ↔
      questionMarkFits embedded previous rest = true ∧ IsTaken embedded (some '?') rest := by
  by_cases hfits : questionMarkFits embedded previous rest = true
  · rw [isTaken_of_map (quoteFrom_questionMark hfits)]
    simp [hfits]
  · have hrest : rest ≠ [] := by
      rintro rfl
      exact hfits (by simp [questionMarkFits])
    obtain ⟨d, rest, rfl⟩ := List.exists_cons_of_ne_nil hrest
    refine iff_of_false ?_ fun h => hfits h.1
    rintro ⟨symbols, hs⟩
    rw [quoteFrom, if_neg (by decide), if_neg (by decide), if_neg (by decide), if_pos rfl,
      if_neg hfits] at hs
    cases hs

theorem quoteFrom_symbol {x : Symbol} (hx : x.IsBody) :
    quoteFrom embedded previous (toChars [x] ++ rest) =
      (x.quoted :: ·) <$> quoteFrom true (some x.char) rest := by
  cases x with
  | escaped c => simp [toChars, quoteFrom, Symbol.quoted, Symbol.char]
  | bare c =>
    obtain ⟨hasterisk, hmark, hescape⟩ := hx
    by_cases hword : isWordChar c = true
    · rw [Symbol.quoted, if_pos (by simp [hword])]
      exact quoteFrom_word rest hword
    · rw [Symbol.quoted, if_neg (by simp [hword, hasterisk, hmark])]
      cases rest with
      | nil => simp [toChars, quoteFrom, hescape, hword, hasterisk, hmark, Functor.map, Except.map]
      | cons d rest =>
        simp [toChars, quoteFrom, hescape, hword, hasterisk, hmark, Symbol.char]

theorem isTaken_symbol {x : Symbol} (hx : x.IsBody) :
    IsTaken embedded previous (toChars [x] ++ rest) ↔ IsTaken true (some x.char) rest :=
  isTaken_of_map (quoteFrom_symbol hx)

end

@[elab_as_elim]
theorem symbol_induction {motive : List Char → Prop} (nil : motive [])
    (dangling : motive ['\\']) (asterisk : ∀ rest, motive rest → motive ('*' :: rest))
    (questionMark : ∀ rest, motive rest → motive ('?' :: rest))
    (symbol : ∀ (x : Symbol) rest, x.IsBody → motive rest → motive (toChars [x] ++ rest))
    (cs : List Char) : motive cs := by
  have bare : ∀ c rest, c ≠ '\\' → motive rest → motive (c :: rest) := by
    intro c rest hescape hrest
    by_cases hasterisk : c = '*'
    · exact hasterisk ▸ asterisk rest hrest
    · by_cases hmark : c = '?'
      · exact hmark ▸ questionMark rest hrest
      · exact symbol (.bare c) rest ⟨hasterisk, hmark, hescape⟩ hrest
  fun_induction Symbol.ofChars cs with
  | case1 => exact nil
  | case2 => exact dangling
  | case3 c hescape => exact bare c [] hescape nil
  | case4 d rest ih => exact symbol (.escaped d) rest trivial ih
  | case5 c d rest hescape ih => exact bare c (d :: rest) hescape ih

theorem toChars_cons (x : Symbol) (symbols : List Symbol) :
    toChars (x :: symbols) = toChars [x] ++ toChars symbols :=
  Symbol.toChars_append [x] symbols

theorem quoteFrom_eq_map {embedded : Bool} {previous : Option Char} {cs : List Char}
    {symbols : List Symbol} (h : quoteFrom embedded previous cs = .ok symbols) :
    ∃ read, Symbol.Plain read ∧ cs = toChars read ∧ symbols = read.map Symbol.quoted := by
  induction cs using symbol_induction generalizing embedded previous symbols with
  | nil =>
    cases h
    exact ⟨[], List.not_mem_nil, rfl, rfl⟩
  | dangling => cases h
  | asterisk rest ih =>
    have hends := (isTaken_asterisk.mp ⟨symbols, h⟩).1
    obtain ⟨more, hmore, rfl⟩ := map_cons_eq_ok_iff.mp ((quoteFrom_asterisk hends).symm.trans h)
    obtain ⟨read, hplain, rfl, rfl⟩ := ih hmore
    exact ⟨.bare '*' :: read, by simpa [Symbol.Plain] using hplain, rfl, rfl⟩
  | questionMark rest ih =>
    have hfits := (isTaken_questionMark.mp ⟨symbols, h⟩).1
    obtain ⟨more, hmore, rfl⟩ := map_cons_eq_ok_iff.mp ((quoteFrom_questionMark hfits).symm.trans h)
    obtain ⟨read, hplain, rfl, rfl⟩ := ih hmore
    exact ⟨.bare '?' :: read, by simpa [Symbol.Plain] using hplain, rfl, rfl⟩
  | symbol x rest hx ih =>
    obtain ⟨more, hmore, rfl⟩ := map_cons_eq_ok_iff.mp ((quoteFrom_symbol hx).symm.trans h)
    obtain ⟨read, hplain, rfl, rfl⟩ := ih hmore
    have hbare : x ≠ .bare '\\' := by
      rintro rfl
      exact hx.2.2 rfl
    exact ⟨x :: read, by simpa [Symbol.Plain, Ne.symm hbare] using hplain,
      (toChars_cons x read).symm, rfl⟩

theorem isBody_iff {x : Symbol} : x.IsBody ↔ Symbol.wildcards.IsBody x ∧ x ≠ .bare '\\' := by
  cases x <;> simp [Symbol.IsBody, Wildcards.IsBody, Symbol.wildcards, and_assoc]

theorem toChars_eq_nil_iff {row : List Symbol} : toChars row = [] ↔ row = [] :=
  ⟨Symbol.toChars_eq_nil, fun h => h ▸ rfl⟩

theorem head_toChars_iff {row : List Symbol} :
    (toChars row).head? = some '?' ↔ row.head? = some (.bare '?') := by
  cases row with
  | nil => simp [toChars]
  | cons x row => cases x <;> simp [toChars]

theorem questionMarkFits_toChars_iff {embedded : Bool} {before : Option Char}
    {previous : Option Symbol} (hnone : before = none ↔ previous = none)
    (hmark : embedded = false → (before = some '?' ↔ previous = some (.bare '?')))
    {row : List Symbol} :
    questionMarkFits embedded before (toChars row) = true ↔
      Symbol.wildcards.QuestionMarkFits embedded previous row := by
  simp only [questionMarkFits, Wildcards.QuestionMarkFits, Bool.or_eq_true, Bool.and_eq_true,
    Option.isNone_iff_eq_none, List.isEmpty_iff, beq_iff_eq, Bool.not_eq_true', hnone,
    toChars_eq_nil_iff, head_toChars_iff, or_assoc, and_congr_right_iff.mpr hmark]
  rfl

/-- The reader looks back at a character where the grammar looks back at a symbol. After a body
an escaped question mark may stand behind the character, but then the reader does not ask. -/
theorem isTaken_toChars_iff {embedded : Bool} {before : Option Char} {previous : Option Symbol}
    (hnone : before = none ↔ previous = none)
    (hmark : embedded = false → (before = some '?' ↔ previous = some (.bare '?')))
    {row : List Symbol} (hplain : Symbol.Plain row) :
    IsTaken embedded before (toChars row) ↔ Symbol.wildcards.Passes embedded previous row := by
  induction row using Symbol.wildcards.unit_induction generalizing embedded before previous with
  | nil => exact iff_of_true isTaken_nil .nil
  | asterisk rest ih =>
    have hrest : Symbol.Plain rest := List.not_mem_of_not_mem_cons hplain
    refine isTaken_asterisk.trans (Iff.trans ?_ Wildcards.passes_asterisk.symm)
    rw [hnone, toChars_eq_nil_iff]
    exact and_congr_right fun _ => @ih _ (some '*') (some (.bare '*')) (by simp) (by simp) hrest
  | questionMark rest ih =>
    have hrest : Symbol.Plain rest := List.not_mem_of_not_mem_cons hplain
    refine isTaken_questionMark.trans (Iff.trans ?_ Wildcards.passes_questionMark.symm)
    rw [questionMarkFits_toChars_iff hnone hmark]
    exact and_congr_right fun _ => @ih _ (some '?') (some (.bare '?')) (by simp) (by simp) hrest
  | body x rest hx ih =>
    have hbody := isBody_iff.mpr ⟨hx, (List.ne_of_not_mem_cons hplain).symm⟩
    have hrest : Symbol.Plain rest := List.not_mem_of_not_mem_cons hplain
    rw [toChars_cons, isTaken_symbol hbody, Wildcards.passes_body hx]
    exact ih (by simp) (by simp) hrest

theorem toChars_replicate (n : Nat) :
    toChars (List.replicate n (.bare '?')) = List.replicate n '?' := by
  rw [← List.map_replicate, Symbol.toChars_map_bare]

theorem isEnd_toChars {row : List Symbol} (h : Symbol.wildcards.IsEnd row) :
    IsEnd (toChars row) := by
  cases h with
  | nothing => exact .nothing
  | asterisk => exact .asterisk
  | questionMarks n => exact (toChars_replicate (n + 1)).symm ▸ .questionMarks n

theorem isComponent_toChars {row : List Symbol} (hplain : Symbol.Plain row)
    (h : Symbol.wildcards.IsFramed row) : IsComponent (toChars row) := by
  cases h with
  | @framed left body right hleft hne hbody hright =>
    rw [Symbol.toChars_append, Symbol.toChars_append]
    refine .framed (isEnd_toChars hleft) ⟨body, hne, fun x hx => ?_, rfl⟩ (isEnd_toChars hright)
    refine isBody_iff.mpr ⟨hbody x hx, ?_⟩
    rintro rfl
    exact hplain (by simp [hx])
  | wild hwild =>
    cases hwild with
    | asterisk => exact .any
    | asterisks => exact .wild .asterisks
    | asteriskFirst => exact .wild .asteriskFirst
    | questionMarks n => exact (toChars_replicate (n + 1)).symm ▸ .wild (.questionMarks n)
    | asteriskLast n =>
      rw [Symbol.toChars_append]
      exact (toChars_replicate (n + 1)).symm ▸ .wild (.asteriskLast n)

theorem plain_replicate (n : Nat) : Symbol.Plain (List.replicate n (.bare '?')) := by
  simp [Symbol.Plain]

theorem plain_append {xs ys : List Symbol} (hxs : Symbol.Plain xs) (hys : Symbol.Plain ys) :
    Symbol.Plain (xs ++ ys) :=
  fun h => (List.mem_append.mp h).elim hxs hys

theorem IsEnd.exists_row {cs : List Char} (h : IsEnd cs) :
    ∃ row, Symbol.Plain row ∧ Symbol.wildcards.IsEnd row ∧ cs = toChars row := by
  cases h with
  | nothing => exact ⟨[], List.not_mem_nil, .nothing, rfl⟩
  | asterisk => exact ⟨[.bare '*'], by simp [Symbol.Plain], .asterisk, rfl⟩
  | questionMarks n =>
    exact ⟨_, plain_replicate (n + 1), .questionMarks n, (toChars_replicate (n + 1)).symm⟩

theorem IsWild.exists_row {cs : List Char} (h : IsWild cs) :
    ∃ row, Symbol.Plain row ∧ Symbol.wildcards.IsWild row ∧ cs = toChars row := by
  cases h with
  | asterisks => exact ⟨[.bare '*', .bare '*'], by simp [Symbol.Plain], .asterisks, rfl⟩
  | asteriskFirst => exact ⟨[.bare '*', .bare '?'], by simp [Symbol.Plain], .asteriskFirst, rfl⟩
  | questionMarks n =>
    exact ⟨_, plain_replicate (n + 1), .questionMarks n, (toChars_replicate (n + 1)).symm⟩
  | asteriskLast n =>
    have hlast : Symbol.Plain [.bare '*'] := by simp [Symbol.Plain]
    refine ⟨_, plain_append (plain_replicate (n + 1)) hlast, .asteriskLast n, ?_⟩
    rw [Symbol.toChars_append, toChars_replicate]
    rfl

theorem IsComponent.exists_row {cs : List Char} (h : IsComponent cs) :
    ∃ row, Symbol.Plain row ∧ Symbol.wildcards.IsFramed row ∧ cs = toChars row := by
  cases h with
  | any => exact ⟨[.bare '*'], by simp [Symbol.Plain], .wild .asterisk, rfl⟩
  | na =>
    have hbody : ∀ x ∈ [Symbol.bare '-'], Symbol.wildcards.IsBody x := by
      simp [Wildcards.IsBody, Symbol.wildcards]
    exact ⟨[.bare '-'], by simp [Symbol.Plain], .framed .nothing (by simp) hbody .nothing, rfl⟩
  | framed hleft hbody hright =>
    obtain ⟨left, hleftPlain, hleftEnd, rfl⟩ := hleft.exists_row
    obtain ⟨right, hrightPlain, hrightEnd, rfl⟩ := hright.exists_row
    obtain ⟨body, hne, hbody, rfl⟩ := hbody
    have hbodyPlain : Symbol.Plain body := fun h => (isBody_iff.mp (hbody _ h)).2 rfl
    refine ⟨left ++ body ++ right, plain_append (plain_append hleftPlain hbodyPlain) hrightPlain,
      .framed hleftEnd hne (fun x hx => (isBody_iff.mp (hbody x hx)).1) hrightEnd, ?_⟩
    rw [Symbol.toChars_append, Symbol.toChars_append]
  | wild hwild =>
    obtain ⟨row, hplain, hrow, rfl⟩ := hwild.exists_row
    exact ⟨row, hplain, .wild hrow, rfl⟩

/-- The reader takes the components of the grammar, and no others. -/
theorem isTaken_iff_isComponent {cs : List Char} :
    IsTaken false none cs ∧ cs ≠ [] ↔ IsComponent cs := by
  have hpasses {row : List Symbol} (hplain : Symbol.Plain row) :
      IsTaken false none (toChars row) ↔ Symbol.wildcards.Passes false none row :=
    isTaken_toChars_iff (by simp) (by simp) hplain
  constructor
  · rintro ⟨⟨symbols, hsymbols⟩, hne⟩
    obtain ⟨row, hplain, rfl, _⟩ := quoteFrom_eq_map hsymbols
    have hframed := Wildcards.passes_iff_isFramed.mp
      ⟨(hpasses hplain).mp ⟨symbols, hsymbols⟩, fun h => hne (toChars_eq_nil_iff.mpr h)⟩
    exact isComponent_toChars hplain hframed
  · intro h
    obtain ⟨row, hplain, hframed, rfl⟩ := h.exists_row
    obtain ⟨htaken, hne⟩ := Wildcards.passes_iff_isFramed.mpr hframed
    exact ⟨(hpasses hplain).mpr htaken, fun h => hne (toChars_eq_nil_iff.mp h)⟩

theorem quoted_eq_bare {x : Symbol} {c : Char} (h : x.quoted = .bare c) : x = .bare c := by
  cases x with
  | bare d =>
    rw [Symbol.quoted] at h
    split at h
    · exact h
    · cases h
  | escaped d => cases h

theorem quoted_fits (x : Symbol) : x.quoted.Fits := by
  cases x with
  | escaped c => trivial
  | bare c =>
    rw [Symbol.quoted]
    split
    · next hc => simpa [Symbol.Fits, or_assoc] using hc
    · trivial

theorem fit_map_quoted (symbols : List Symbol) : Fit (symbols.map Symbol.quoted) := by
  intro x hx
  obtain ⟨y, _, rfl⟩ := List.mem_map.mp hx
  exact quoted_fits y

theorem isWildcard_quoted (x : Symbol) : x.quoted.isWildcard = x.isWildcard := by
  cases x with
  | escaped c => rfl
  | bare c =>
    rw [Symbol.quoted]
    split
    · rfl
    · next hc =>
      simp only [Bool.or_eq_true, beq_iff_eq, not_or] at hc
      simp [Symbol.isWildcard, hc.1.2, hc.2]

theorem char_quoted (x : Symbol) : x.quoted.char = x.char := by
  cases x with
  | escaped c => rfl
  | bare c =>
    rw [Symbol.quoted]
    split <;> rfl

theorem map_quoted_eq_map_bare {symbols : List Symbol} {cs : List Char}
    (h : symbols.map Symbol.quoted = cs.map .bare) : symbols = cs.map .bare := by
  induction symbols generalizing cs with
  | nil => simpa using h
  | cons x symbols ih =>
    obtain ⟨c, cs, rfl, hx, hrest⟩ := List.map_eq_cons_iff.mp h.symm
    rw [quoted_eq_bare hx.symm, ih hrest.symm, List.map_cons]

end Formatted

end PlatformCatalog
