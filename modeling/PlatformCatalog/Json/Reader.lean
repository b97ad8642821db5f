import PlatformCatalog.Json.Value
import PlatformCatalog.Text.Glyph
import PlatformCatalog.Text.Numeral

/-!
# Reading JSON

A document is read by a machine that takes one glyph at a time. Its stack
holds the lists and objects that are still open, the innermost first, and its
mode says what may come next. No depth and no length is too great for it.
-/

set_option autoImplicit false

namespace PlatformCatalog.Json

open Text

/-- What is open around the place where the machine stands. Items and members are kept with the
last one first. -/
inductive Frame where
  | items (done : List Json)
  | members (done : List (Option String × Json))
  | member (done : List (Option String × Json)) (name : Option String)

inductive TextPhase where
  | plain
  | backslash
  | code (left value : Nat)
  deriving DecidableEq

/-- A string as far as it is read: its characters, last one first, unless it has ceased to denote
a text, and the first half of a surrogate pair that waits for the second. -/
structure TextState where
  content : Option (List Char) := some []
  half : Option Nat := none
  phase : TextPhase := .plain

inductive NumberPhase where
  | sign
  | zero
  | digits
  | point
  | fraction
  | mark
  | markSign
  | exponent
  deriving DecidableEq

namespace NumberPhase

def ends : NumberPhase → Bool
  | .zero | .digits | .fraction | .exponent => true
  | _ => false

def next (c : Char) : NumberPhase → Option NumberPhase
  | .sign => if c = '0' then some .zero else if c.isDigit then some .digits else none
  | .zero => if c = '.' then some .point else if c = 'e' ∨ c = 'E' then some .mark else none
  | .digits =>
    if c.isDigit then some .digits
    else if c = '.' then some .point
    else if c = 'e' ∨ c = 'E' then some .mark
    else none
  | .point => if c.isDigit then some .fraction else none
  | .fraction =>
    if c.isDigit then some .fraction else if c = 'e' ∨ c = 'E' then some .mark else none
  | .mark =>
    if c = '+' ∨ c = '-' then some .markSign else if c.isDigit then some .exponent else none
  | .markSign => if c.isDigit then some .exponent else none
  | .exponent => if c.isDigit then some .exponent else none

end NumberPhase

inductive Mode where
  | value
  | firstItem
  | firstName
  | name
  | colon
  | comma
  | word (rest : List Char) (v : Json)
  | string (s : TextState)
  | number (phase : NumberPhase) (seen : List Char)
  | complete (v : Json)

structure Machine where
  stack : List Frame := []
  mode : Mode := .value

namespace TextState

def put (s : TextState) (c : Char) : TextState :=
  { s with
    content := if s.half.isSome then none else s.content.map (c :: ·)
    half := none
    phase := .plain }

/-- The string with one 16-bit code added. Two halves in a row are one character, and a half
without its other half denotes nothing. -/
def putCode (s : TextState) (n : Nat) : TextState :=
  match s.half with
  | some high =>
    if 0xDC00 ≤ n ∧ n ≤ 0xDFFF then
      { s with
        content := s.content.map
          (Char.ofNat (0x10000 + (high - 0xD800) * 0x400 + (n - 0xDC00)) :: ·)
        half := none
        phase := .plain }
    else { s with content := none, half := none, phase := .plain }
  | none =>
    if 0xD800 ≤ n ∧ n ≤ 0xDBFF then { s with half := some n, phase := .plain }
    else if 0xDC00 ≤ n ∧ n ≤ 0xDFFF then { s with content := none, phase := .plain }
    else s.put (Char.ofNat n)

def escape? (c : Char) : Option Char :=
  if c = '"' ∨ c = '\\' ∨ c = '/' then some c
  else if c = 'b' then some '\x08'
  else if c = 'f' then some '\x0c'
  else if c = 'n' then some '\n'
  else if c = 'r' then some '\r'
  else if c = 't' then some '\t'
  else none

def result (s : TextState) : Option String :=
  if s.half.isSome then none else s.content.map fun cs => String.ofList cs.reverse

end TextState

namespace Machine

def isBlank (c : Char) : Bool := c == ' ' || c == '\n' || c == '\t' || c == '\r'

def deliver (v : Json) : List Frame → Machine
  | .items done :: k => ⟨.items (v :: done) :: k, .comma⟩
  | .member done name :: k => ⟨.members ((name, v) :: done) :: k, .comma⟩
  | k => ⟨k, .complete v⟩

/-- A string has ended. Right inside an object it is a name, and elsewhere a value. -/
def deliverText (s : Option String) : List Frame → Machine
  | .members done :: k => ⟨.member done s :: k, .colon⟩
  | k => deliver (.string s) k

def startText (k : List Frame) : Machine := ⟨k, .string {}⟩

def startValue (c : Char) (k : List Frame) : Option Machine :=
  if isBlank c then some ⟨k, .value⟩
  else if c = '"' then some (startText k)
  else if c = '[' then some ⟨.items [] :: k, .firstItem⟩
  else if c = '\x7b' then some ⟨.members [] :: k, .firstName⟩
  else if c = 't' then some ⟨k, .word ['r', 'u', 'e'] (.bool true)⟩
  else if c = 'f' then some ⟨k, .word ['a', 'l', 's', 'e'] (.bool false)⟩
  else if c = 'n' then some ⟨k, .word ['u', 'l', 'l'] .null⟩
  else if c = '-' then some ⟨k, .number .sign [c]⟩
  else if c = '0' then some ⟨k, .number .zero [c]⟩
  else if c.isDigit then some ⟨k, .number .digits [c]⟩
  else none

def afterValue (c : Char) : List Frame → Option Machine
  | .items done :: k =>
    if isBlank c then some ⟨.items done :: k, .comma⟩
    else if c = ',' then some ⟨.items done :: k, .value⟩
    else if c = ']' then some (deliver (.list done.reverse) k)
    else none
  | .members done :: k =>
    if isBlank c then some ⟨.members done :: k, .comma⟩
    else if c = ',' then some ⟨.members done :: k, .name⟩
    else if c = '\x7d' then some (deliver (.object done.reverse) k)
    else none
  | _ => none

def afterAll (c : Char) (k : List Frame) (v : Json) : Option Machine :=
  if isBlank c then some ⟨k, .complete v⟩ else none

def afterNumber (c : Char) (m : Machine) : Option Machine :=
  match m.mode with
  | .complete v => afterAll c m.stack v
  | _ => afterValue c m.stack

def stepText (c : Char) (s : TextState) (k : List Frame) : Option Machine :=
  match s.phase with
  | .plain =>
    if c = '"' then some (deliverText s.result k)
    else if c = '\\' then some ⟨k, .string { s with phase := .backslash }⟩
    else if c.toNat < 0x20 then none
    else some ⟨k, .string (s.put c)⟩
  | .backslash =>
    if c = 'u' then some ⟨k, .string { s with phase := .code 4 0 }⟩
    else (TextState.escape? c).map fun d => ⟨k, .string (s.put d)⟩
  | .code left value =>
    match digit? 16 c with
    | none => none
    | some d =>
      let value := value * 16 + d
      if left ≤ 1 then some ⟨k, .string (s.putCode value)⟩
      else some ⟨k, .string { s with phase := .code (left - 1) value }⟩

def stepChar (c : Char) (m : Machine) : Option Machine :=
  match m.mode with
  | .value => startValue c m.stack
  | .firstItem =>
    if isBlank c then some m
    else if c = ']' then some (deliver (.list []) m.stack.tail)
    else startValue c m.stack
  | .firstName =>
    if isBlank c then some m
    else if c = '\x7d' then some (deliver (.object []) m.stack.tail)
    else if c = '"' then some (startText m.stack)
    else none
  | .name =>
    if isBlank c then some m
    else if c = '"' then some (startText m.stack)
    else none
  | .colon =>
    if isBlank c then some m
    else if c = ':' then some ⟨m.stack, .value⟩
    else none
  | .comma => afterValue c m.stack
  | .word rest v =>
    match rest with
    | [] => none
    | [d] => if c = d then some (deliver v m.stack) else none
    | d :: more => if c = d then some ⟨m.stack, .word more v⟩ else none
  | .string s => stepText c s m.stack
  | .number phase seen =>
    match phase.next c with
    | some next => some ⟨m.stack, .number next (c :: seen)⟩
    | none =>
      if phase.ends then
        afterNumber c (deliver (.number (String.ofList seen.reverse)) m.stack)
      else none
  | .complete v => afterAll c m.stack v

/-- A stray byte may stand in a string only, which then denotes no text. -/
def step (m : Machine) : Glyph → Option Machine
  | .char c => stepChar c m
  | .stray _ =>
    match m.mode with
    | .string s =>
      if s.phase = .plain then
        some { m with mode := .string { s with content := none, half := none } }
      else none
    | _ => none

def run (m : Machine) : List Glyph → Option Machine
  | [] => some m
  | g :: rest =>
    match m.step g with
    | some m => m.run rest
    | none => none

def result? (m : Machine) : Option Json :=
  match m.mode, m.stack with
  | .complete v, _ => some v
  | .number phase seen, [] =>
    if phase.ends then some (.number (String.ofList seen.reverse)) else none
  | _, _ => none

end Machine

def ofGlyphs (gs : List Glyph) : Option Json :=
  (Machine.run {} gs).bind Machine.result?

def parse (s : String) : Option Json := ofGlyphs (Glyph.ofString s)

def parseBytes (bytes : List UInt8) : Option Json := ofGlyphs (Glyph.ofBytes bytes)

end PlatformCatalog.Json
