/-!
# Symbols of a quoted value

In a quoted value a backslash takes the sting out of the character after it.
Read so, the value is a row of symbols: bare characters, of which `*` and
`?` are wildcards, and escaped ones. A backslash at the very end escapes
nothing and counts for nothing.
-/

set_option autoImplicit false

namespace PlatformCatalog

inductive Symbol where
  | bare (c : Char)
  | escaped (c : Char)
  deriving DecidableEq, Repr

namespace Symbol

def char : Symbol → Char
  | .bare c => c
  | .escaped c => c

def isWildcard : Symbol → Bool
  | .bare c => c == '*' || c == '?'
  | .escaped _ => false

def ofChars : List Char → List Symbol
  | [] => []
  | [c] => if c = '\\' then [] else [.bare c]
  | c :: d :: rest =>
    if c = '\\' then .escaped d :: ofChars rest else .bare c :: ofChars (d :: rest)

def toChars : List Symbol → List Char
  | [] => []
  | .bare c :: rest => c :: toChars rest
  | .escaped c :: rest => '\\' :: c :: toChars rest

/-- No bare backslash: what reading yields, and what writing gives back. -/
def Plain (ss : List Symbol) : Prop := .bare '\\' ∉ ss

theorem ofChars_toChars {ss : List Symbol} (h : Plain ss) : ofChars (toChars ss) = ss := by
  induction ss with
  | nil => rfl
  | cons s ss ih =>
    have hs : Plain ss := fun hm => h (by simp [hm])
    cases s with
    | bare c =>
      have hc : c ≠ '\\' := by rintro rfl; exact h (by simp)
      have ih := ih hs
      rw [toChars]
      cases hr : toChars ss with
      | nil =>
        rw [hr] at ih
        rw [ofChars, if_neg hc, ← ih, ofChars]
      | cons d rest =>
        rw [hr] at ih
        rw [ofChars, if_neg hc, ih]
    | escaped c => rw [toChars, ofChars, if_pos rfl, ih hs]

end Symbol

def unquote (s : String) : String :=
  String.ofList ((Symbol.ofChars s.toList).map Symbol.char)

end PlatformCatalog
