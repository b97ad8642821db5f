import PlatformCatalog.Name.Formatted
import PlatformCatalog.Text.Form
import PlatformCatalog.Text.Numeral

/-!
# URIs of names

The URI of a name has at most seven components. Characters other than
letters, digits, underscore, dot, hyphen and tilde are percent codes, and two
codes stand for the wildcards. The four attributes that have no component of
their own are packed into the edition, with tildes between them. The beginning of a
text tells whether it is the URI of a name or its formatted string.
-/

set_option autoImplicit false

namespace PlatformCatalog.Uri

open Text Formatted

def mark : String := "cpe:/"

def attributes : List Attribute :=
  [.part, .vendor, .product, .version, .update, .edition, .language]

def packed : List Attribute := .edition :: Attribute.extended

def splitAtEach (separator : Char) : List Char → List (List Char)
  | [] => [[]]
  | c :: rest =>
    if c = separator then [] :: splitAtEach separator rest
    else match splitAtEach separator rest with
      | [] => [[c]]
      | p :: ps => (c :: p) :: ps

def isAsciiPunctuation (c : Char) : Bool :=
  let n := c.toNat
  (33 ≤ n && n ≤ 47) || (58 ≤ n && n ≤ 64) || (91 ≤ n && n ≤ 96) || (123 ≤ n && n ≤ 126)

inductive DecodingFault where
  | embeddedWildcard
  | invalidPercentEncoding
  | invalidCharacter (c : Char)
  deriving DecidableEq, Repr

def DecodingFault.error (value : String) : DecodingFault → NameError
  | .embeddedWildcard => .embeddedWildcard value
  | .invalidPercentEncoding => .invalidPercentEncoding value
  | .invalidCharacter c => .invalidCharacter value c

def punctuation? (high low : Char) : Option Char :=
  match numeral? 16 [high, low] with
  | some n => if isAsciiPunctuation (Char.ofNat n) then some (Char.ofNat n) else none
  | none => none

def startsWithQuestionMark (cs : List Char) : Bool := cs.take 3 == ['%', '0', '1']

/-- The code of a question mark belongs to a run of them at one end of the component. -/
def questionMarkFits (embedded : Bool) (previous : Option Symbol) (rest : List Char) : Bool :=
  previous.isNone || rest.isEmpty || (!embedded && previous == some (.bare '?')) ||
    (embedded && startsWithQuestionMark rest)

/-- The symbols of a lower-case component. `embedded` says that something other than a wildcard
has been read, `previous` is the symbol just read. -/
def decodeFrom (embedded : Bool) (previous : Option Symbol) :
    List Char → Except DecodingFault (List Symbol)
  | [] => .ok []
  | c :: rest =>
    if c = '.' ∨ c = '-' ∨ c = '~' then
      (.escaped c :: ·) <$> decodeFrom true (some (.escaped c)) rest
    else if c = '%' then
      match rest with
      | h :: l :: rest =>
        if h = '0' ∧ l = '1' then
          if questionMarkFits embedded previous rest then
            (.bare '?' :: ·) <$> decodeFrom embedded (some (.bare '?')) rest
          else .error .embeddedWildcard
        else if h = '0' ∧ l = '2' then
          if previous.isNone || rest.isEmpty then
            (.bare '*' :: ·) <$> decodeFrom embedded (some (.bare '*')) rest
          else .error .embeddedWildcard
        else match punctuation? h l with
          | some p => (.escaped p :: ·) <$> decodeFrom true (some (.escaped p)) rest
          | none => .error .invalidPercentEncoding
      | _ => .error .invalidPercentEncoding
    else if isWordChar c then (.bare c :: ·) <$> decodeFrom true (some (.bare c)) rest
    else .error (.invalidCharacter c)

def readValue (component : List Char) : Except NameError Value :=
  if component = [] then .ok .any
  else if component = ['-'] then .ok .na
  else match decodeFrom false none (lowerChars component) with
    | .ok symbols => .ok (.text (String.ofList (Symbol.toChars symbols)))
    | .error fault => .error (fault.error (String.ofList component))

def fill : List Attribute → List (List Char) → Name → Except NameError Name
  | a :: as, c :: cs, n => do
    let v ← readValue c
    let n ← n.set a v
    fill as cs n
  | _, _, n => .ok n

/-- The name with the attributes of a packed edition, whose first tilde has been read. -/
def unpack (component : List Char) (n : Name) : Except NameError Name :=
  let pieces := splitAtEach '~' (component.drop 1)
  if pieces.length = packed.length then fill packed pieces n
  else .error (.invalidPackedEdition (String.ofList component))

def readComponent (a : Attribute) (component : List Char) (n : Name) : Except NameError Name :=
  if a = .edition ∧ component.head? = some '~' then unpack component n
  else fill [a] [component] n

/-- Each attribute takes its component, and an empty one where the components have run out. -/
def readComponents : List Attribute → List (List Char) → Name → Except NameError Name
  | [], _, n => .ok n
  | a :: as, cs, n => do
    let n ← readComponent a (cs.headD []) n
    readComponents as cs.tail n

def read (s : String) : Except NameError Name :=
  match dropBeginning mark.toList s.toList with
  | none => .error (.invalidPrefix s)
  | some rest =>
    let components := splitAtEach ':' rest
    if components.length ≤ attributes.length then readComponents attributes components {}
    else .error (.componentCount s attributes.length components.length)

def percentCode (c : Char) : List Char :=
  let digits := hexDigits c.toNat
  '%' :: (if digits.length < 2 then '0' :: digits else digits)

def escapedText (c : Char) : List Char :=
  if c = '-' ∨ c = '.' then [c]
  else if c.toNat < 0x80 then percentCode c
  else [c]

def symbolText : Symbol → List Char
  | .bare c =>
    if c = '?' then ['%', '0', '1']
    else if c = '*' then ['%', '0', '2']
    else [c]
  | .escaped c => escapedText c

def valueText : Value → List Char
  | .any => []
  | .na => ['-']
  | .text s => (Symbol.ofChars s.toList).flatMap symbolText

/-- The edition component, packed if one of the extended attributes is set. -/
def editionText (n : Name) : List Char :=
  if Attribute.extended.all fun a => n.get a = .any then valueText n.edition
  else '~' :: joinBy '~' (packed.map fun a => valueText (n.get a))

def componentText (n : Name) (a : Attribute) : List Char :=
  if a = .edition then editionText n else valueText (n.get a)

def trimEnd (c : Char) (cs : List Char) : List Char :=
  (cs.reverse.dropWhile (· == c)).reverse

/-- The URI of a name. Empty components at the end are left out with their colons. -/
def write (n : Name) : String :=
  String.ofList (trimEnd ':' (mark.toList ++ joinBy ':' (attributes.map (componentText n))))

end PlatformCatalog.Uri

namespace PlatformCatalog.Name

open Text

def parse (s : String) : Except NameError Name :=
  if (dropBeginning Formatted.mark.toList s.toList).isSome then Formatted.read s
  else if (dropBeginning Uri.mark.toList s.toList).isSome then Uri.read s
  else .error (.invalidPrefix s)

/-- The key by which a product is searched: vendor and product in lower case, with spaces for
underscores. -/
def searchTitle (n : Name) : String :=
  let joined := (n.unquoted .vendor).toList ++ ' ' :: (n.unquoted .product).toList
  lowercase (trim (String.ofList (joined.map fun c => if c = '_' then ' ' else c)))

end PlatformCatalog.Name
