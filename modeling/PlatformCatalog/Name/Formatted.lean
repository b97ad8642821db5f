import PlatformCatalog.Name.Basic

/-!
# Formatted strings

The formatted string of a name lists its eleven attributes between colons.
A component is quoted on the way in: wildcards may stand at its ends only,
and every other character that is no letter, digit or underscore gets a
backslash unless it has one. On the way out three characters lose it.
-/

set_option autoImplicit false

namespace PlatformCatalog.Formatted

def mark : String := "cpe:2.3:"

/-- The pieces of a text between the colons that no backslash escapes. -/
def split : List Char → List (List Char)
  | [] => [[]]
  | [c] => if c = ':' then [[], []] else [[c]]
  | c :: d :: rest =>
    if c = ':' then [] :: split (d :: rest)
    else if c = '\\' then
      match split rest with
      | [] => [[c, d]]
      | p :: ps => (c :: d :: p) :: ps
    else
      match split (d :: rest) with
      | [] => [[c]]
      | p :: ps => (c :: p) :: ps

def isWordChar (c : Char) : Bool := isAsciiLetter c || isAsciiDigit c || c == '_'

inductive QuotingFault where
  | embeddedWildcard
  | danglingEscape
  deriving DecidableEq, Repr

def QuotingFault.error (value : String) : QuotingFault → NameError
  | .embeddedWildcard => .embeddedWildcard value
  | .danglingEscape => .danglingEscape value

/-- A question mark belongs to a run at one end of the component. -/
def questionMarkFits (embedded : Bool) (previous : Option Char) (rest : List Char) : Bool :=
  previous.isNone || rest.isEmpty || (!embedded && previous == some '?') ||
    (embedded && rest.head? == some '?')

/-- The symbols of a component. `embedded` says that something other than a wildcard has been
read, `previous` is the character just read. -/
def quoteFrom (embedded : Bool) (previous : Option Char) :
    List Char → Except QuotingFault (List Symbol)
  | [] => .ok []
  | [c] =>
    if c = '\\' then .error .danglingEscape
    else if isWordChar c || c == '*' || c == '?' then .ok [.bare c]
    else .ok [.escaped c]
  | c :: d :: rest =>
    if c = '\\' then (.escaped d :: ·) <$> quoteFrom true (some d) rest
    else if isWordChar c then (.bare c :: ·) <$> quoteFrom true (some c) (d :: rest)
    else if c = '*' then
      if previous.isNone then (.bare c :: ·) <$> quoteFrom embedded (some c) (d :: rest)
      else .error .embeddedWildcard
    else if c = '?' then
      if questionMarkFits embedded previous (d :: rest) then
        (.bare c :: ·) <$> quoteFrom embedded (some c) (d :: rest)
      else .error .embeddedWildcard
    else (.escaped c :: ·) <$> quoteFrom true (some c) (d :: rest)

def quote (component : List Char) : Except NameError String :=
  match quoteFrom false none component with
  | .ok symbols => .ok (String.ofList (Symbol.toChars symbols))
  | .error fault => .error (fault.error (String.ofList component))

def readValue (component : List Char) : Except NameError Value :=
  if component = ['*'] then .ok .any
  else if component = ['-'] then .ok .na
  else Value.text <$> quote component

def fill : List Attribute → List (List Char) → Name → Except NameError Name
  | a :: as, c :: cs, n => do
    let v ← readValue c
    let n ← n.set a v
    fill as cs n
  | _, _, n => .ok n

def read (s : String) : Except NameError Name :=
  match dropBeginning mark.toList s.toList with
  | none => .error (.invalidPrefix s)
  | some rest =>
    let components := split rest
    if components.length = Attribute.all.length then fill Attribute.all components {}
    else .error (.componentCount s Attribute.all.length components.length)

/-- A dot, a hyphen and an underscore need no backslash in a formatted string. -/
def symbolText : Symbol → List Char
  | .bare c => [c]
  | .escaped c => if c = '.' ∨ c = '-' ∨ c = '_' then [c] else ['\\', c]

def valueText : Value → List Char
  | .any => ['*']
  | .na => ['-']
  | .text s => (Symbol.ofChars s.toList).flatMap symbolText

def joinBy (separator : Char) : List (List Char) → List Char
  | [] => []
  | [t] => t
  | t :: u :: rest => t ++ separator :: joinBy separator (u :: rest)

def write (n : Name) : String :=
  String.ofList (mark.toList ++ joinBy ':' (Attribute.all.map fun a => valueText (n.get a)))

end PlatformCatalog.Formatted
