import Mathlib.Tactic.SplitIfs
import PlatformCatalog.Json.Fields
import PlatformCatalog.Json.Printer
import PlatformCatalog.Json.Reader

/-!
# Reading what was written

A document whose strings are texts and which holds no numbers is read back
from its compact form. The reader's stack is arbitrary in every lemma, so a
value is read in the same way wherever it stands.
-/

set_option autoImplicit false

namespace PlatformCatalog.Json

open Text

def glyphs (cs : List Char) : List Glyph := cs.map .char

@[simp] theorem glyphs_nil : glyphs [] = [] := rfl

@[simp] theorem glyphs_cons (c : Char) (cs : List Char) :
    glyphs (c :: cs) = .char c :: glyphs cs := rfl

@[simp] theorem glyphs_append (cs ds : List Char) : glyphs (cs ++ ds) = glyphs cs ++ glyphs ds :=
  List.map_append

mutual

/-- No numbers occur, and every string denotes a text. -/
def IsTextual : Json → Prop
  | .null => True
  | .bool _ => True
  | .number _ => False
  | .string s => s.isSome
  | .list items => AreTextual items
  | .object members => AreTextualMembers members

def AreTextual : List Json → Prop
  | [] => True
  | v :: rest => v.IsTextual ∧ AreTextual rest

def AreTextualMembers : List (Option String × Json) → Prop
  | [] => True
  | (name, v) :: rest => name.isSome ∧ v.IsTextual ∧ AreTextualMembers rest

end

theorem areTextual_iff (items : List Json) : AreTextual items ↔ ∀ v ∈ items, v.IsTextual := by
  induction items with
  | nil => simp [AreTextual]
  | cons v rest ih => simp [AreTextual, ih]

theorem areTextualMembers_iff (members : List (Option String × Json)) :
    AreTextualMembers members ↔ ∀ m ∈ members, m.1.isSome ∧ m.2.IsTextual := by
  induction members with
  | nil => simp [AreTextualMembers]
  | cons m rest ih =>
    obtain ⟨name, v⟩ := m
    simp [AreTextualMembers, ih, and_assoc]

namespace Machine

theorem run_cons (m : Machine) (c : Char) (rest : List Glyph) :
    m.run (.char c :: rest) = (stepChar c m).bind (·.run rest) := by
  rw [run, step]
  cases stepChar c m <;> rfl

def reading (done : List Char) : TextState := ⟨some done, none, .plain⟩

theorem digit?_lowerHexDigit : ∀ n, n < 16 → digit? 16 (lowerHexDigit n) = some n := by decide

theorem putCode_reading (done : List Char) (c : Char) (hc : c.toNat < 0x20) :
    (reading done).putCode c.toNat = reading (c :: done) := by
  simp only [TextState.putCode, reading]
  rw [if_neg (by omega), if_neg (by omega), Char.ofNat_toNat]
  rfl

theorem run_code_digit (k : List Frame) (s : TextState) (left value d : Nat) (c : Char)
    (hd : digit? 16 c = some d) (rest : List Glyph) :
    run ⟨k, .string { s with phase := .code (left + 2) value }⟩ (.char c :: rest) =
      run ⟨k, .string { s with phase := .code (left + 1) (value * 16 + d) }⟩ rest := by
  simp [run_cons, stepChar, stepText, hd]

theorem run_code_end (k : List Frame) (s : TextState) (value d : Nat) (c : Char)
    (hd : digit? 16 c = some d) (rest : List Glyph) :
    run ⟨k, .string { s with phase := .code 1 value }⟩ (.char c :: rest) =
      run ⟨k, .string ({ s with phase := .code 1 value }.putCode (value * 16 + d))⟩ rest := by
  simp [run_cons, stepChar, stepText, hd]

theorem run_code (k : List Frame) (done : List Char) (c : Char) (hc : c.toNat < 0x20)
    (rest : List Glyph) :
    run ⟨k, .string (reading done)⟩ (glyphs ['\\', 'u', '0', '0', lowerHexDigit (c.toNat / 16),
      lowerHexDigit (c.toNat % 16)] ++ rest) = run ⟨k, .string (reading (c :: done))⟩ rest := by
  have hzero : digit? 16 '0' = some 0 := by decide
  have hhigh := digit?_lowerHexDigit (c.toNat / 16) (by omega)
  have hlow := digit?_lowerHexDigit (c.toNat % 16) (by omega)
  have hvalue : ((0 * 16 + 0) * 16 + 0) * 16 + c.toNat / 16 = c.toNat / 16 := by omega
  have hcode : c.toNat / 16 * 16 + c.toNat % 16 = c.toNat := by omega
  calc run ⟨k, .string (reading done)⟩ _
      = run ⟨k, .string { reading done with phase := .code 4 0 }⟩
          (.char '0' :: .char '0' :: .char (lowerHexDigit (c.toNat / 16)) ::
            .char (lowerHexDigit (c.toNat % 16)) :: rest) := rfl
    _ = run ⟨k, .string ({ reading done with phase := .code 1 (c.toNat / 16) }.putCode
          c.toNat)⟩ rest := by
        rw [run_code_digit k _ 2 0 0 _ hzero, run_code_digit k _ 1 _ 0 _ hzero,
          run_code_digit k _ 0 _ _ _ hhigh, hvalue, run_code_end k _ _ _ _ hlow, hcode]
    _ = run ⟨k, .string (reading (c :: done))⟩ rest := by
        rw [← putCode_reading done c hc]
        rfl

theorem run_escaped (k : List Frame) (done : List Char) (c : Char) (rest : List Glyph) :
    run ⟨k, .string (reading done)⟩ (glyphs (escaped c) ++ rest) =
      run ⟨k, .string (reading (c :: done))⟩ rest := by
  rw [escaped]
  split_ifs with hquote hback h8 hc hn hr ht hcontrol
  · subst hquote; rfl
  · subst hback; rfl
  · subst h8; rfl
  · subst hc; rfl
  · subst hn; rfl
  · subst hr; rfl
  · subst ht; rfl
  · exact run_code k done c hcontrol rest
  · simp [run_cons, stepChar, stepText, reading, hquote, hback, hcontrol, TextState.put]

theorem run_escapes (k : List Frame) (cs done : List Char) (rest : List Glyph) :
    run ⟨k, .string (reading done)⟩ (glyphs (cs.flatMap escaped) ++ rest) =
      run ⟨k, .string (reading (cs.reverse ++ done))⟩ rest := by
  induction cs generalizing done with
  | nil => rfl
  | cons c cs ih =>
    rw [List.flatMap_cons, glyphs_append, List.append_assoc, run_escaped, ih]
    simp

theorem run_quotedChars (k : List Frame) (s : String) (rest : List Glyph) :
    run (startText k) ((glyphs (quotedChars (some s))).tail ++ rest) =
      run (deliverText (some s) k) rest := by
  have hend : run ⟨k, .string (reading s.toList.reverse)⟩ (.char '"' :: rest) =
      run (deliverText (some s) k) rest := by
    simp [run_cons, stepChar, stepText, reading, TextState.result]
  have hbody := run_escapes k s.toList [] (.char '"' :: rest)
  rw [List.append_nil, hend] at hbody
  rw [← hbody]
  simp only [quotedChars, Option.getD_some, glyphs_cons, List.tail_cons, glyphs_append,
    glyphs_nil, List.append_assoc, List.cons_append, List.nil_append]
  rfl

theorem run_firstItem (k : List Frame) (c : Char) (hc : c ≠ ']') (hb : isBlank c = false)
    (rest : List Glyph) :
    run ⟨k, .firstItem⟩ (.char c :: rest) = run ⟨k, .value⟩ (.char c :: rest) := by
  simp [run_cons, stepChar, hc, hb]

theorem compactChars_head (v : Json) (hv : v.IsTextual) :
    ∃ c rest, compactChars v = c :: rest ∧ c ≠ ']' ∧ isBlank c = false := by
  cases v with
  | null => exact ⟨_, _, rfl, by decide, by decide⟩
  | bool b => cases b <;> exact ⟨_, _, rfl, by decide, by decide⟩
  | number n => exact hv.elim
  | string s => exact ⟨_, _, rfl, by decide, by decide⟩
  | list items => exact ⟨_, _, rfl, by decide, by decide⟩
  | object members => exact ⟨_, _, rfl, by decide, by decide⟩

theorem compactItems_false_cons (v : Json) (rest : List Json) :
    compactItems false (v :: rest) = ',' :: compactItems true (v :: rest) := rfl

theorem compactMembers_false_cons (m : Option String × Json) (rest : List (Option String × Json)) :
    compactMembers false (m :: rest) = ',' :: compactMembers true (m :: rest) := rfl

def Awaiting : List Frame → Prop
  | .members _ :: _ => False
  | _ => True

theorem deliverText_of_awaiting (s : Option String) (k : List Frame) (hk : Awaiting k) :
    deliverText s k = deliver (.string s) k := by
  cases k with
  | nil => rfl
  | cons f k =>
    cases f with
    | items done => rfl
    | members done => exact hk.elim
    | member done name => rfl

theorem run_item_comma (done : List Json) (k : List Frame) (rest : List Glyph) :
    run ⟨.items done :: k, .comma⟩ (.char ',' :: rest) = run ⟨.items done :: k, .value⟩ rest := by
  rw [run_cons]
  rfl

theorem run_member_comma (done : List (Option String × Json)) (k : List Frame)
    (rest : List Glyph) :
    run ⟨.members done :: k, .comma⟩ (.char ',' :: rest) =
      run ⟨.members done :: k, .name⟩ rest := by
  rw [run_cons]
  rfl

theorem run_name (done : List (Option String × Json)) (k : List Frame) (s : String)
    (rest : List Glyph) :
    run ⟨.members done :: k, .name⟩ (glyphs (quotedChars (some s)) ++ .char ':' :: rest) =
      run ⟨.member done (some s) :: k, .value⟩ rest := by
  have hs := run_quotedChars (.members done :: k) s (.char ':' :: rest)
  have hcolon : run (deliverText (some s) (.members done :: k)) (.char ':' :: rest) =
      run ⟨.member done (some s) :: k, .value⟩ rest := by
    rw [run_cons]
    rfl
  rw [← hcolon, ← hs]
  rfl

theorem run_firstName (k : List Frame) (rest : List Glyph) :
    run ⟨k, .firstName⟩ (.char '"' :: rest) = run ⟨k, .name⟩ (.char '"' :: rest) := by
  rw [run_cons, run_cons]
  rfl

mutual

/-- A written value is read and takes its place in what is open. -/
theorem run_compactChars (v : Json) (hv : v.IsTextual) (k : List Frame) (hk : Awaiting k)
    (rest : List Glyph) :
    run ⟨k, .value⟩ (glyphs (compactChars v) ++ rest) = run (deliver v k) rest :=
  match v, hv with
  | .null, _ => rfl
  | .bool true, _ => rfl
  | .bool false, _ => rfl
  | .string (some s), _ => by
    rw [← deliverText_of_awaiting (some s) k hk, ← run_quotedChars k s rest]
    rfl
  | .list [], _ => rfl
  | .list (v :: items), hv => by
    obtain ⟨c, cs, hc, hclose, hblank⟩ := compactChars_head v hv.1
    have hfirst := run_firstItem (.items [] :: k) c hclose hblank
    have hhead := run_compactChars v hv.1 (.items [] :: k) trivial
    have htail := run_compactItems items hv.2 [v] k rest
    rw [hc] at hhead
    simp only [compactChars, compactItems, hc, if_true, List.nil_append, List.cons_append,
      glyphs_cons, glyphs_append, glyphs_nil, List.append_assoc] at hhead ⊢
    calc run ⟨k, .value⟩ (.char '[' :: .char c :: _)
        = run ⟨.items [] :: k, .firstItem⟩ (.char c :: _) := by rw [run_cons]; rfl
      _ = run (deliver v (.items [] :: k)) _ := by rw [hfirst, hhead]
      _ = run (deliver (.list (v :: items)) k) rest := htail
  | .object [], _ => rfl
  | .object ((some name, v) :: members), hv => by
    have htail := run_compactMembers members hv.2.2 [(some name, v)] k rest
    have hname := run_name [] k name
    have hvalue := run_compactChars v hv.2.1 (.member [] (some name) :: k) trivial
    simp only [compactChars, compactMembers, if_true, List.nil_append, List.cons_append,
      glyphs_cons, glyphs_append, glyphs_nil, List.append_assoc] at hname hvalue ⊢
    calc run ⟨k, .value⟩ (.char '\x7b' :: _)
        = run ⟨.members [] :: k, .firstName⟩ (glyphs (quotedChars (some name)) ++ _) := by
          rw [run_cons]; rfl
      _ = run ⟨.members [] :: k, .name⟩ (glyphs (quotedChars (some name)) ++ _) :=
          run_firstName _ _
      _ = run (deliver v (.member [] (some name) :: k)) _ := by rw [hname, hvalue]
      _ = run (deliver (.object ((some name, v) :: members)) k) rest := htail

theorem run_compactItems (items : List Json) (hi : AreTextual items) (done : List Json)
    (k : List Frame) (rest : List Glyph) :
    run ⟨.items done :: k, .comma⟩ (glyphs (compactItems false items) ++ .char ']' :: rest) =
      run (deliver (.list (done.reverse ++ items)) k) rest :=
  match items, hi with
  | [], _ => by simp [compactItems, run_cons, stepChar, afterValue, isBlank]
  | v :: items, hi => by
    have hhead := run_compactChars v hi.1 (.items done :: k) trivial
    have htail := run_compactItems items hi.2 (v :: done) k rest
    rw [List.reverse_cons, List.append_assoc] at htail
    rw [compactItems_false_cons, glyphs_cons, List.cons_append, run_item_comma, compactItems]
    simp only [if_true, List.nil_append, glyphs_append, List.append_assoc]
    rw [hhead]
    exact htail

theorem run_compactMembers (members : List (Option String × Json)) (hm : AreTextualMembers members)
    (done : List (Option String × Json)) (k : List Frame) (rest : List Glyph) :
    run ⟨.members done :: k, .comma⟩
        (glyphs (compactMembers false members) ++ .char '\x7d' :: rest) =
      run (deliver (.object (done.reverse ++ members)) k) rest :=
  match members, hm with
  | [], _ => by simp [compactMembers, run_cons, stepChar, afterValue, isBlank]
  | (some name, v) :: members, hm => by
    have hname := run_name done k name
    have hvalue := run_compactChars v hm.2.1 (.member done (some name) :: k) trivial
    have htail := run_compactMembers members hm.2.2 ((some name, v) :: done) k rest
    rw [List.reverse_cons, List.append_assoc] at htail
    rw [compactMembers_false_cons, glyphs_cons, List.cons_append, run_member_comma, compactMembers]
    simp only [if_true, List.nil_append, glyphs_append, glyphs_cons, List.append_assoc,
      List.cons_append]
    rw [hname, hvalue]
    exact htail

end

end Machine

/-- What is written compactly reads as the value it was written from. -/
theorem parse_compact (v : Json) (hv : v.IsTextual) : parse v.compact = some v := by
  have h := Machine.run_compactChars v hv [] trivial []
  rw [List.append_nil] at h
  rw [parse, ofGlyphs, compact, Glyph.ofString, String.toList_ofList, ← glyphs, h]
  rfl

theorem listOf?_map {α : Type} {read : Json → Option α} {write : α → Json}
    (h : ∀ x, read (write x) = some x) (xs : List α) :
    listOf? read (.list (xs.map write)) = some xs := by
  rw [listOf?]
  induction xs with
  | nil => rfl
  | cons x xs ih => simp [List.mapM_cons, h, ih]

end PlatformCatalog.Json
