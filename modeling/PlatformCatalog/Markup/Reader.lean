import PlatformCatalog.Markup.Event

/-!
# Reading markup

A machine that takes one glyph at a time. End tags have to match the start
tags that are open, but a document may end with elements still open. It may
not end inside a piece of markup.
-/

set_option autoImplicit false

namespace PlatformCatalog.Markup

open Text

/-- Where the machine stands in the document. Glyphs read so far stand in reverse order. -/
inductive Mode where
  | text (read : List Glyph)
  | opened
  | tag (read : List Glyph) (quote : Option Glyph)
  | declared (left : List Char) (block : List Char)
  | block (ending left : List Char)
  | documentType (read : List Glyph) (depth : Nat)
  | instruction (isFirst afterMark : Bool)
  deriving DecidableEq, Repr

inductive Fault where
  | unclosed
  | mismatchedEnd
  | invalidDeclaration
  deriving DecidableEq, Repr

def Fault.message : Fault → String
  | .unclosed => "the document ends inside markup"
  | .mismatchedEnd => "an end tag does not match its start tag"
  | .invalidDeclaration => "a declaration of no known kind"

structure Machine where
  mode : Mode := .text []
  openNames : List (List Glyph) := []
  events : List Event := []

namespace Machine

def isChar (c : Char) (g : Glyph) : Bool := g == .char c

def emit (m : Machine) (e : Event) : Machine :=
  { m with mode := .text [], events := e :: m.events }

/-- The text before a piece of markup becomes an event unless it is blank. -/
def flush (m : Machine) (read : List Glyph) : Machine :=
  match trimBy isBlankGlyph read.reverse with
  | [] => m
  | content => { m with events := .text content :: m.events }

/-- Blanks behind the name do not count, but blanks alone are a name. -/
def endName (content : List Glyph) : List Glyph :=
  match (content.reverse.dropWhile isBlankGlyph).reverse with
  | [] => content
  | name => name

def closeTag (m : Machine) (content : List Glyph) : Except Fault Machine :=
  let name := endName content
  match m.openNames with
  | [] => .error .mismatchedEnd
  | top :: rest =>
    if name = top then .ok ({ m with openNames := rest }.emit (.closing name))
    else .error .mismatchedEnd

def openTag (m : Machine) (content : List Glyph) : Except Fault Machine :=
  let (whole, ended) := match content.reverse with
    | .char '/' :: rest => (rest.reverse, true)
    | _ => (content, false)
  let name := whole.takeWhile fun g => !isBlankGlyph g
  if ended then .ok (m.emit .selfClosing)
  else .ok ({ m with openNames := name :: m.openNames }.emit
    (.opening name (whole.drop name.length)))

def endTag (m : Machine) (content : List Glyph) : Except Fault Machine :=
  match content with
  | .char '/' :: rest => m.closeTag rest
  | _ => m.openTag content

def commentEnd : List Char := ['-', '-', '>']

def unparsedEnd : List Char := [']', ']', '>']

/-- What has to follow in a block of the given end after one more character. -/
def nextLeft (ending left : List Char) (g : Glyph) : List Char :=
  match left with
  | c :: rest =>
    if isChar c g then rest
    else match ending with
      | first :: _ =>
        if isChar first g then if left.length = 1 then left else ending.drop 1
        else ending
      | [] => ending
  | [] => ending

def typeKeyword : List Char := "doctype".toList

def isDocumentType (content : List Glyph) : Bool :=
  let start := content.take typeKeyword.length
  let lowered := start.map fun g => match g with
    | .char c => c.toLower
    | .stray _ => '\x00'
  lowered = typeKeyword && !((content.drop typeKeyword.length).all isBlankGlyph)

def readTag (m : Machine) (read : List Glyph) (g : Glyph) : Except Fault Machine :=
  if isChar '>' g then m.endTag read.reverse
  else if isChar '"' g || isChar '\'' g then .ok { m with mode := .tag (g :: read) (some g) }
  else .ok { m with mode := .tag (g :: read) none }

/-- A tag may be without a name. -/
def startMarkup (m : Machine) (g : Glyph) : Except Fault Machine :=
  match g with
  | .char '!' => .ok { m with mode := .declared [] [] }
  | .char '?' => .ok { m with mode := .instruction true false }
  | g => m.readTag [] g

def startDeclaration (m : Machine) (g : Glyph) : Except Fault Machine :=
  match g with
  | .char '-' => .ok { m with mode := .declared ['-'] commentEnd }
  | .char '[' => .ok { m with mode := .declared "CDATA[".toList unparsedEnd }
  | .char 'D' | .char 'd' => .ok { m with mode := .documentType [g] 0 }
  | _ => .error .invalidDeclaration

def step (m : Machine) (g : Glyph) : Except Fault Machine :=
  match m.mode with
  | .text read =>
    if isChar '<' g then .ok { m.flush read with mode := .opened }
    else .ok { m with mode := .text (g :: read) }
  | .opened => m.startMarkup g
  | .tag read none => m.readTag read g
  | .tag read (some quote) =>
    .ok { m with mode := .tag (g :: read) (if g = quote then none else some quote) }
  | .declared [] _ => m.startDeclaration g
  | .declared (c :: left) ending =>
    if !isChar c g then .error .invalidDeclaration
    else if left.isEmpty then .ok { m with mode := .block ending ending }
    else .ok { m with mode := .declared left ending }
  | .block ending left =>
    match nextLeft ending left g with
    | [] => .ok (m.emit .aside)
    | left => .ok { m with mode := .block ending left }
  | .documentType read depth =>
    if isChar '<' g then .ok { m with mode := .documentType (g :: read) (depth + 1) }
    else if isChar '>' g then
      if depth = 0 then
        if isDocumentType read.reverse then .ok (m.emit .aside) else .error .invalidDeclaration
      else .ok { m with mode := .documentType (g :: read) (depth - 1) }
    else .ok { m with mode := .documentType (g :: read) depth }
  | .instruction isFirst afterMark =>
    if isChar '>' g ∧ isFirst then .error .unclosed
    else if isChar '>' g ∧ afterMark then .ok (m.emit .aside)
    else .ok { m with mode := .instruction false (isChar '?' g) }

def run (m : Machine) : List Glyph → Except Fault Machine
  | [] => .ok m
  | g :: rest => do run (← m.step g) rest

def finish (m : Machine) : Except Fault (List Event) :=
  match m.mode with
  | .text read => .ok (m.flush read).events.reverse
  | _ => .error .unclosed

end Machine

def withoutMark : List Glyph → List Glyph
  | .char '\uFEFF' :: rest => rest
  | gs => gs

def events (bytes : List UInt8) : Except Fault (List Event) := do
  let m ← Machine.run {} (withoutMark (Glyph.ofBytes bytes))
  m.finish

end PlatformCatalog.Markup
