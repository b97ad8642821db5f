/-!
# JSON values

A value keeps what a document says and no more: the members of an object in
their order with repetitions, a number by its numeral, and a string as the
text it denotes, if it denotes one. A string with half a surrogate pair or
with bytes outside UTF-8 is well-formed and denotes none.
-/

set_option autoImplicit false

namespace PlatformCatalog

inductive Json where
  | null
  | bool (b : Bool)
  | number (numeral : String)
  | string (text : Option String)
  | list (items : List Json)
  | object (members : List (Option String × Json))
  deriving Inhabited, Repr

namespace Json

def text (s : String) : Json := .string (some s)

def natural (n : Nat) : Json := .number (toString n)

def texts (ss : List String) : Json := .list (ss.map text)

def record (members : List (String × Json)) : Json :=
  .object (members.map fun m => (some m.1, m.2))

end Json

end PlatformCatalog
