import PlatformCatalog.Text.Glyph
import PlatformCatalog.Text.Numeral

/-!
# URLs

Whether a text is an absolute URL, and whether that names a host. Blanks and
controls around the text and line breaks in it do not count. In the schemes
of the web, slashes and backslashes are alike, and the host has to be there.
-/

set_option autoImplicit false

namespace PlatformCatalog.Text.Url

inductive Form where
  | relative
  | malformed
  | absolute (hasHost : Bool)
  deriving DecidableEq, Repr

def isOuter (c : Char) : Bool := c.toNat ≤ 0x20

def isLineBlank (c : Char) : Bool := c == '\t' || c == '\n' || c == '\r'

def isSchemeChar (c : Char) : Bool := c.isAlphanum || c == '+' || c == '-' || c == '.'

def isPathStart (c : Char) : Bool := c == '/' || c == '?' || c == '#'

def isForbiddenInHost (c : Char) : Bool :=
  c == '\x00' || isLineBlank c || " #/:<>?@[\\]^|".toList.contains c

def isForbiddenInDomain (c : Char) : Bool :=
  isForbiddenInHost c || c.toNat < 0x20 || c == '\x7f' || c == '\uFFFD' ||
    "\"%`\x7b\x7d".toList.contains c

def splitAt (mark : Char) : List Char → List (List Char)
  | [] => [[]]
  | c :: rest =>
    if c = mark then [] :: splitAt mark rest
    else match splitAt mark rest with
      | [] => [[c]]
      | part :: parts => (c :: part) :: parts

/-- A number in an address of four bytes: decimal, octal after a zero, hexadecimal after `0x`. -/
def addressNumber? (cs : List Char) : Option Nat :=
  match cs with
  | [] => none
  | '0' :: 'x' :: [] | '0' :: 'X' :: [] => some 0
  | '0' :: 'x' :: rest | '0' :: 'X' :: rest => numeral? 16 rest
  | '0' :: c :: rest => numeral? 8 (c :: rest)
  | cs => numeral? 10 cs

def withoutLastEmpty (parts : List (List Char)) : List (List Char) :=
  if parts.getLast? = some [] then parts.dropLast else parts

def endsInNumber (domain : List Char) : Bool :=
  match (withoutLastEmpty (splitAt '.' domain)).getLast? with
  | none => false
  | some [] => false
  | some last => last.all Char.isDigit || (addressNumber? last).isSome

def isFourByteAddress (domain : List Char) : Bool :=
  let parts := withoutLastEmpty (splitAt '.' domain)
  if 4 < parts.length then false
  else match parts.mapM addressNumber? with
    | none => false
    | some numbers =>
      match numbers.getLast? with
      | none => false
      | some last =>
        numbers.dropLast.all (· ≤ 255) && last < Nat.pow 256 (5 - numbers.length)

def isHexPiece (cs : List Char) : Bool :=
  !cs.isEmpty && cs.length ≤ 4 && cs.all fun c => (digit? 16 c).isSome

def isByte (cs : List Char) : Bool :=
  match cs with
  | ['0'] => true
  | '0' :: _ => false
  | cs => !cs.isEmpty && cs.all Char.isDigit && (numeral? 10 cs).any (· ≤ 255)

def pieceCount? (lastMayBeBytes : Bool) : List (List Char) → Option Nat
  | [] => some 0
  | [piece] =>
    if isHexPiece piece then some 1
    else
      let bytes := splitAt '.' piece
      if lastMayBeBytes && bytes.length == 4 && bytes.all isByte then some 2 else none
  | piece :: rest =>
    if isHexPiece piece then (pieceCount? lastMayBeBytes rest).map (· + 1) else none

def splitAtPair : List Char → List Char × Option (List Char)
  | ':' :: ':' :: rest => ([], some rest)
  | c :: rest => let (before, after) := splitAtPair rest; (c :: before, after)
  | [] => ([], none)

def pieces (cs : List Char) : List (List Char) := if cs.isEmpty then [] else splitAt ':' cs

/-- Eight pieces of 16 bits, of which a row of zeros may be left out once. -/
def isEightPieceAddress (cs : List Char) : Bool :=
  match splitAtPair cs with
  | (before, none) => pieceCount? true (pieces before) = some 8
  | (before, some after) =>
    match pieceCount? false (pieces before), pieceCount? true (pieces after) with
    | some m, some n => m + n ≤ 7
    | _, _ => false

def percentDecoded : List Char → List UInt8
  | [] => []
  | '%' :: a :: b :: rest =>
    match digit? 16 a, digit? 16 b with
    | some x, some y => UInt8.ofNat (16 * x + y) :: percentDecoded rest
    | _, _ => 0x25 :: percentDecoded (a :: b :: rest)
  | c :: rest => (String.singleton c).toUTF8.data.toList ++ percentDecoded rest

def glyphChar : Glyph → Char
  | .char c => c
  | .stray _ => '\uFFFD'

def bracketed? (host : List Char) : Option Bool :=
  match host with
  | '[' :: rest => some (rest.getLast? = some ']' && isEightPieceAddress rest.dropLast)
  | _ => none

/-- A host of the schemes of the web: an address, or a domain after percent codes are resolved. -/
def isWebHost (host : List Char) : Bool :=
  match bracketed? host with
  | some ok => ok
  | none =>
    let domain := (Glyph.ofBytes (percentDecoded host)).map glyphChar
    !domain.isEmpty && !domain.any isForbiddenInDomain &&
      (!endsInNumber domain || isFourByteAddress domain)

def isOpaqueHost (host : List Char) : Bool :=
  match bracketed? host with
  | some ok => ok
  | none => !host.any isForbiddenInHost

def authority (web : Bool) (cs : List Char) : List Char :=
  cs.takeWhile fun c => !(isPathStart c || (web && c == '\\'))

def splitUser (cs : List Char) : Option (List Char) × List Char :=
  if cs.contains '@' then
    let host := (cs.reverse.takeWhile (· ≠ '@')).reverse
    (some (cs.take (cs.length - host.length - 1)), host)
  else (none, cs)

def hasCredentials (user : Option (List Char)) : Bool :=
  user.any fun u => !(u.isEmpty || u == [':'])

def splitPort (inside : Bool) : List Char → List Char × Option (List Char)
  | [] => ([], none)
  | c :: rest =>
    if c = ':' ∧ !inside then ([], some rest)
    else
      let inside := if c = '[' then true else if c = ']' then false else inside
      let (host, port) := splitPort inside rest
      (c :: host, port)

def isPort (cs : List Char) : Bool :=
  cs.isEmpty || (numeral? 10 cs).any (· ≤ 65535)

/-- The form of a URL with an authority, which begins behind the slashes. -/
def withAuthority (web : Bool) (cs : List Char) : Form :=
  let whole := authority web cs
  let (user, rest) := splitUser whole
  let (host, port) := splitPort false rest
  if user = some [] ∧ rest.isEmpty ∧ whole.length < cs.length then .malformed
  else if host.isEmpty then
    if web || port.isSome || hasCredentials user then .malformed else .absolute false
  else if !(if web then isWebHost host else isOpaqueHost host) then .malformed
  else if port.any fun p => !isPort p then .malformed
  else .absolute true

def isDriveLetter (cs : List Char) : Bool :=
  match cs with
  | [a, b] => a.isAlpha && (b == ':' || b == '|')
  | _ => false

def ofFile (cs : List Char) : Form :=
  match cs with
  | a :: b :: rest =>
    if (a == '/' || a == '\\') && (b == '/' || b == '\\') then
      let host := authority true rest
      if host.isEmpty || isDriveLetter host then .absolute false
      else if !isWebHost host then .malformed
      else .absolute (host.map Char.toLower ≠ "localhost".toList)
    else .absolute false
  | _ => .absolute false

def webSchemes : List String := ["http", "https", "ws", "wss", "ftp"]

def scheme? (cs : List Char) : Option (String × List Char) :=
  match cs with
  | [] => none
  | c :: _ =>
    if !c.isAlpha then none
    else match cs.dropWhile isSchemeChar with
      | ':' :: rest => some (String.ofList ((cs.takeWhile isSchemeChar).map Char.toLower), rest)
      | _ => none

def form (s : String) : Form :=
  let inner := ((s.toList.dropWhile isOuter).reverse.dropWhile isOuter).reverse
  match scheme? (inner.filter fun c => !isLineBlank c) with
  | none => .relative
  | some (scheme, rest) =>
    if scheme = "file" then ofFile rest
    else if scheme ∈ webSchemes then
      withAuthority true (rest.dropWhile fun c => c == '/' || c == '\\')
    else match rest with
      | '/' :: '/' :: rest => withAuthority false rest
      | _ => .absolute false

def isAbsolute (s : String) : Bool :=
  match form s with
  | .absolute _ => true
  | _ => false

/-- Whether a text names a proxy: a URL with a host, for which the scheme of the web may be
missing. -/
def isProxy (s : String) : Bool :=
  match form s with
  | .absolute true => true
  | .malformed => false
  | _ => form ("http://" ++ s) = .absolute true

end PlatformCatalog.Text.Url
