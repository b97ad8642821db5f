import PlatformCatalog.Json.Value

/-!
# Writing JSON

Two layouts: one without any blanks, and one with a line for each item and
an indentation of two spaces. Strings are written with the shortest escapes,
and non-ASCII characters as they are.
-/

set_option autoImplicit false

namespace PlatformCatalog.Json

def lowerHexDigit (n : Nat) : Char :=
  if n < 10 then Char.ofNat (48 + n) else Char.ofNat (87 + n)

def escaped (c : Char) : List Char :=
  if c = '"' then ['\\', '"']
  else if c = '\\' then ['\\', '\\']
  else if c = '\x08' then ['\\', 'b']
  else if c = '\x0c' then ['\\', 'f']
  else if c = '\n' then ['\\', 'n']
  else if c = '\r' then ['\\', 'r']
  else if c = '\t' then ['\\', 't']
  else if c.toNat < 0x20 then
    ['\\', 'u', '0', '0', lowerHexDigit (c.toNat / 16), lowerHexDigit (c.toNat % 16)]
  else [c]

def quotedChars (s : Option String) : List Char :=
  '"' :: ((s.getD "").toList.flatMap escaped ++ ['"'])

mutual

def compactChars : Json → List Char
  | .null => ['n', 'u', 'l', 'l']
  | .bool true => ['t', 'r', 'u', 'e']
  | .bool false => ['f', 'a', 'l', 's', 'e']
  | .number n => n.toList
  | .string s => quotedChars s
  | .list items => '[' :: compactItems true items ++ [']']
  | .object members => '\x7b' :: compactMembers true members ++ ['\x7d']

def compactItems (first : Bool) : List Json → List Char
  | [] => []
  | v :: rest => (if first then [] else [',']) ++ compactChars v ++ compactItems false rest

def compactMembers (first : Bool) : List (Option String × Json) → List Char
  | [] => []
  | (name, v) :: rest =>
    (if first then [] else [',']) ++ quotedChars name ++ ':' :: compactChars v ++
      compactMembers false rest

end

def compact (v : Json) : String := String.ofList (compactChars v)

def newline (depth : Nat) : List Char := '\n' :: List.replicate (2 * depth) ' '

mutual

def prettyChars (depth : Nat) : Json → List Char
  | .list [] => ['[', ']']
  | .list (v :: rest) =>
    '[' :: newline (depth + 1) ++ prettyChars (depth + 1) v ++ prettyItems (depth + 1) rest ++
      newline depth ++ [']']
  | .object [] => ['\x7b', '\x7d']
  | .object ((name, v) :: rest) =>
    '\x7b' :: newline (depth + 1) ++ quotedChars name ++ ':' :: ' ' :: prettyChars (depth + 1) v ++
      prettyMembers (depth + 1) rest ++ newline depth ++ ['\x7d']
  | .null => ['n', 'u', 'l', 'l']
  | .bool true => ['t', 'r', 'u', 'e']
  | .bool false => ['f', 'a', 'l', 's', 'e']
  | .number n => n.toList
  | .string s => quotedChars s

def prettyItems (depth : Nat) : List Json → List Char
  | [] => []
  | v :: rest => ',' :: newline depth ++ prettyChars depth v ++ prettyItems depth rest

def prettyMembers (depth : Nat) : List (Option String × Json) → List Char
  | [] => []
  | (name, v) :: rest =>
    ',' :: newline depth ++ quotedChars name ++ ':' :: ' ' :: prettyChars depth v ++
      prettyMembers depth rest

end

def pretty (v : Json) : String := String.ofList (prettyChars 0 v)

end PlatformCatalog.Json
