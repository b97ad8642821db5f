import PlatformCatalog.Proofs.Placement
import PlatformCatalog.Store.Index

/-!
# Values in quoted form

However a name was read, the characters that stand bare in its values are
word characters and wildcards. So vendor and product can be told apart in
the text that joins them.
-/

set_option autoImplicit false

namespace PlatformCatalog

open Formatted

def Symbol.Fits : Symbol → Prop
  | .bare c => isWordChar c = true ∨ c = '*' ∨ c = '?'
  | .escaped _ => True

def Fit (symbols : List Symbol) : Prop := ∀ x ∈ symbols, x.Fits

theorem Placed.fit {embedded : Bool} {previous : Option Symbol} {symbols : List Symbol}
    (h : Placed embedded previous symbols) : Fit symbols := by
  induction h with
  | nil => exact fun x hx => absurd hx List.not_mem_nil
  | asterisk _ _ ih => exact List.forall_mem_cons.mpr ⟨Or.inr (Or.inl rfl), ih⟩
  | questionMark _ _ ih => exact List.forall_mem_cons.mpr ⟨Or.inr (Or.inr rfl), ih⟩
  | word hc _ ih => exact List.forall_mem_cons.mpr ⟨Or.inl hc, ih⟩
  | escaped _ ih => exact List.forall_mem_cons.mpr ⟨trivial, ih⟩

theorem Symbol.Fits.ne {c : Char} (h : (Symbol.bare c).Fits) : c ≠ '\\' ∧ c ≠ '#' := by
  constructor <;> rintro rfl <;> rcases h with h | h | h <;> revert h <;> decide

theorem plain_of_fit {symbols : List Symbol} (h : Fit symbols) : Symbol.Plain symbols :=
  fun hbare => (h _ hbare).ne.1 rfl

def Value.IsQuoted : Value → Prop
  | .text s => ∃ symbols, Fit symbols ∧ s.toList = Symbol.toChars symbols
  | _ => True

def Name.IsQuoted (n : Name) : Prop := ∀ a, (n.get a).IsQuoted

theorem Value.IsPlaced.isQuoted {v : Value} (h : v.IsPlaced) : v.IsQuoted := by
  cases v with
  | text s =>
    obtain ⟨symbols, hplaced, hs⟩ := h
    exact ⟨symbols, hplaced.fit, hs⟩
  | _ => trivial

theorem Name.isQuoted_of_parse {s : String} {n : Name} (h : Name.parse s = .ok n) :
    n.IsQuoted :=
  fun a => (Name.isPlaced_parse h a).1.isQuoted

theorem Value.exists_fit_word {v : Value} (h : v.IsQuoted) :
    ∃ symbols, Fit symbols ∧ v.word.toList = Symbol.toChars symbols := by
  cases v with
  | any => exact ⟨[.bare 'A', .bare 'N', .bare 'Y'], by simp [Fit, Symbol.Fits]; decide, rfl⟩
  | na => exact ⟨[.bare 'N', .bare 'A'], by simp [Fit, Symbol.Fits]; decide, rfl⟩
  | text s => exact h

theorem Product.splitMember_toChars {symbols : List Symbol} (h : Fit symbols)
    (rest : List Char) :
    splitMember (Symbol.toChars symbols ++ '#' :: '#' :: rest) =
      some (Symbol.toChars symbols, rest) := by
  induction symbols with
  | nil => simp [Symbol.toChars, splitMember]
  | cons x symbols ih =>
    have ih := ih fun y hy => h y (by simp [hy])
    cases x with
    | bare c =>
      obtain ⟨hescape, hsign⟩ := (h (.bare c) (by simp)).ne
      simp [Symbol.toChars, splitMember, hescape, hsign, ih]
    | escaped c => simp [Symbol.toChars, splitMember, ih]

theorem Product.ofMember?_member {v : Value} (hv : v.IsQuoted) (product : String) :
    ofMember? (member ⟨v.word, product⟩) = some ⟨v.word, product⟩ := by
  obtain ⟨symbols, hfit, hword⟩ := Value.exists_fit_word hv
  have hjoined : (member ⟨v.word, product⟩).toList =
      Symbol.toChars symbols ++ '#' :: '#' :: product.toList := by
    simp [member, hword]
  rw [ofMember?, hjoined, splitMember_toChars hfit, Option.map_some, ← hword]
  simp only [String.ofList_toList]

end PlatformCatalog
