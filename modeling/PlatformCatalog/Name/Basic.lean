import PlatformCatalog.Name.Error
import PlatformCatalog.Name.Symbol

/-!
# Platform names

A name gives each attribute a value. A text value has to be non-empty; the
part is one of three letters, and a language without wildcards is a language
tag.
-/

set_option autoImplicit false

namespace PlatformCatalog

structure Name where
  part : Value := .any
  vendor : Value := .any
  product : Value := .any
  version : Value := .any
  update : Value := .any
  edition : Value := .any
  language : Value := .any
  softwareEdition : Value := .any
  targetSoftware : Value := .any
  targetHardware : Value := .any
  other : Value := .any
  deriving DecidableEq, Repr, Inhabited

namespace Name

def get (n : Name) : Attribute → Value
  | .part => n.part
  | .vendor => n.vendor
  | .product => n.product
  | .version => n.version
  | .update => n.update
  | .edition => n.edition
  | .language => n.language
  | .softwareEdition => n.softwareEdition
  | .targetSoftware => n.targetSoftware
  | .targetHardware => n.targetHardware
  | .other => n.other

def put (n : Name) (a : Attribute) (v : Value) : Name :=
  match a with
  | .part => { n with part := v }
  | .vendor => { n with vendor := v }
  | .product => { n with product := v }
  | .version => { n with version := v }
  | .update => { n with update := v }
  | .edition => { n with edition := v }
  | .language => { n with language := v }
  | .softwareEdition => { n with softwareEdition := v }
  | .targetSoftware => { n with targetSoftware := v }
  | .targetHardware => { n with targetHardware := v }
  | .other => { n with other := v }

theorem get_put (n : Name) (a b : Attribute) (v : Value) :
    (n.put a v).get b = if b = a then v else n.get b := by
  cases a <;> cases b <;> rfl

theorem ext_get {m n : Name} (h : ∀ a, m.get a = n.get a) : m = n := by
  cases m; cases n
  have hp := h .part; have hv := h .vendor; have hr := h .product; have hn := h .version
  have hu := h .update; have he := h .edition; have hl := h .language
  have hs := h .softwareEdition; have ht := h .targetSoftware; have hh := h .targetHardware
  have ho := h .other
  simp_all [get]

end Name

def isAsciiLetter (c : Char) : Bool :=
  ('a' ≤ c && c ≤ 'z') || ('A' ≤ c && c ≤ 'Z')

def isAsciiDigit (c : Char) : Bool := '0' ≤ c && c ≤ '9'

def isRegion (cs : List Char) : Bool :=
  (cs.length == 2 && cs.all isAsciiLetter) || (cs.length == 3 && cs.all isAsciiDigit)

/-- Two or three letters, and perhaps a quoted hyphen and a region. -/
def isLanguageTag (cs : List Char) : Bool :=
  let letters := cs.takeWhile isAsciiLetter
  (letters.length == 2 || letters.length == 3) &&
    match cs.dropWhile isAsciiLetter with
    | [] => true
    | '\\' :: '-' :: region => isRegion region
    | _ => false

def hasWildcard (cs : List Char) : Bool := (Symbol.ofChars cs).any Symbol.isWildcard

def checkText (a : Attribute) (s : String) : Except NameError Unit :=
  if s.isEmpty then .error (.emptyComponent a)
  else match a with
    | .part => if s = "a" ∨ s = "o" ∨ s = "h" then .ok () else .error (.invalidPart s)
    | .language =>
      if hasWildcard s.toList || isLanguageTag s.toList then .ok ()
      else .error (.invalidLanguage s)
    | _ => .ok ()

def checkValue (a : Attribute) : Value → Except NameError Unit
  | .text s => checkText a s
  | _ => .ok ()

namespace Name

def set (n : Name) (a : Attribute) (v : Value) : Except NameError Name :=
  match checkValue a v with
  | .ok () => .ok (n.put a v)
  | .error e => .error e

def word (n : Name) (a : Attribute) : String := (n.get a).word

def unquoted (n : Name) (a : Attribute) : String :=
  match n.get a with
  | .text s => unquote s
  | _ => ""

end Name

/-- What is left of a text after the given beginning, ASCII letters counting alike in both cases. -/
def dropBeginning : List Char → List Char → Option (List Char)
  | [], cs => some cs
  | _ :: _, [] => none
  | b :: bs, c :: cs => if b.toLower = c.toLower then dropBeginning bs cs else none

end PlatformCatalog
