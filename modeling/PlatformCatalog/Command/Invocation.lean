import PlatformCatalog.Store.Backend

/-!
# Invocations

The words of a command line and what they ask for. Options that hold for
every command may stand before or behind its name, and the later place wins.
No option may be given twice in one place.
-/

set_option autoImplicit false

namespace PlatformCatalog

open Text

inductive Request where
  | fetch (source : Source) (listing : Bool)
  | products
  | uris (p : Product)
  | search (query : String) (n : Nat) (algorithm : String) (byProduct : Bool)
  deriving DecidableEq, Repr

structure Invocation where
  backend : Backend := .relational
  path : Option String := none
  threads : Option Nat := none
  wait : Nat := 0
  batchSize : Nat := 5000
  proxy : Option String := none
  request : Request
  deriving DecidableEq, Repr

namespace Invocation

inductive Place where
  | program
  | fetch
  | products
  | uris
  | search
  deriving DecidableEq, Repr

def place? : String → Option Place
  | "fetch" => some .fetch
  | "products" => some .products
  | "cpes" => some .uris
  | "search" => some .search
  | _ => none

inductive Switch where
  | backend
  | path
  | threads
  | wait
  | batchSize
  | proxy
  | debug
  | listing
  | count
  | algorithm
  | byProduct
  | help
  | version
  deriving DecidableEq, Repr

def longSwitch? (place : Place) : String → Option Switch
  | "dbtype" => some .backend
  | "dbpath" => some .path
  | "threads" => some .threads
  | "wait" => some .wait
  | "batch-size" => some .batchSize
  | "http-proxy" => some .proxy
  | "debug" => some .debug
  | "help" => some .help
  | "version" => if place = .program then some .version else none
  | "stdout" => if place = .fetch then some .listing else none
  | "n" => if place = .search then some .count else none
  | "algorithm" => if place = .search then some .algorithm else none
  | "by-product" => if place = .search then some .byProduct else none
  | _ => none

def shortSwitch? (place : Place) : Char → Option Switch
  | 'h' => some .help
  | 'V' => if place = .program then some .version else none
  | 'n' => if place = .search then some .count else none
  | _ => none

def takesValue : Switch → Bool
  | .debug | .listing | .byProduct | .help | .version => false
  | _ => true

def number? (s : String) : Option Nat := (boundedNumeral max64 s.toList).toOption

def fits : Switch → String → Bool
  | .backend, s => (Backend.parse s).toOption.isSome
  | .path, s => s ≠ ""
  | .threads, s | .wait, s | .batchSize, s | .count, s => (number? s).isSome
  | _, _ => true

inductive Stop where
  | help
  | version
  | usage
  deriving DecidableEq, Repr

/-- What has been read: options with their places, the last one first, and the other words behind
the name of the command, the last one first. -/
structure Reading where
  place : Place := .program
  options : List (Place × Switch × String) := []
  words : List String := []
  deriving DecidableEq, Repr

namespace Reading

def hasOption (r : Reading) (s : Switch) : Bool :=
  r.options.any fun o => o.1 = r.place ∧ o.2.1 = s

def addOption (r : Reading) (s : Switch) (value : String) : Except Stop Reading :=
  if r.hasOption s || !fits s value then .error .usage
  else .ok { r with options := (r.place, s, value) :: r.options }

def addSwitch (r : Reading) (s : Switch) : Except Stop Reading :=
  match s with
  | .help => .error .help
  | .version => .error .version
  | s => r.addOption s ""

def addWord (r : Reading) (word : String) : Except Stop Reading :=
  if r.place = .program then
    if word = "help" then .error .help
    else match place? word with
      | some place => .ok { r with place }
      | none => .error .usage
  else .ok { r with words := word :: r.words }

/-- Words behind a pair of hyphens are never options, nor do they name a command. -/
def addPlain (r : Reading) : List String → Except Stop Reading
  | [] => .ok r
  | word :: rest =>
    if r.place = .program then .error .usage
    else addPlain { r with words := word :: r.words } rest

def isSwitch (word : String) : Bool :=
  match word.toList with
  | '-' :: _ :: _ => true
  | _ => false

def switch? (place : Place) (word : String) : Option (Switch × Option String) :=
  match word.toList with
  | '-' :: '-' :: cs =>
    let name := cs.takeWhile (· ≠ '=')
    let value := match cs.dropWhile (· ≠ '=') with
      | _ :: rest => some (String.ofList rest)
      | [] => none
    (longSwitch? place (String.ofList name)).map (·, value)
  | '-' :: c :: cs =>
    let value := match cs with
      | [] => none
      | '=' :: rest => some (String.ofList rest)
      | rest => some (String.ofList rest)
    (shortSwitch? place c).map (·, value)
  | _ => none

def read (r : Reading) : List String → Except Stop Reading
  | [] => .ok r
  | word :: rest =>
    if word = "--" then r.addPlain rest
    else if isSwitch word then
      match switch? r.place word with
      | none => .error .usage
      | some (s, given) =>
        match takesValue s, given with
        | false, none => do read (← r.addSwitch s) rest
        | false, some _ => .error .usage
        | true, some value => do read (← r.addOption s value) rest
        | true, none =>
          match rest with
          | value :: rest =>
            if isSwitch value then .error .usage else do read (← r.addOption s value) rest
          | [] => .error .usage
    else do read (← r.addWord word) rest
termination_by words => words.length

/-- The value of an option in the last place where it stands. -/
def value? (r : Reading) (s : Switch) : Option String :=
  (r.options.find? fun o => o.2.1 = s).map (·.2.2)

def has (r : Reading) (s : Switch) : Bool := (r.value? s).isSome

def numberOf? (r : Reading) (s : Switch) : Option Nat := (r.value? s).bind number?

def request? (r : Reading) : Option Request :=
  match r.place, r.words.reverse with
  | .fetch, [source] =>
    match Source.parse source with
    | .ok source => some (.fetch source (r.has .listing))
    | .error _ => none
  | .products, [] => some .products
  | .uris, [vendor, product] => some (.uris ⟨vendor, product⟩)
  | .search, [query] =>
    some (.search query ((r.numberOf? .count).getD 10) ((r.value? .algorithm).getD "")
      (r.has .byProduct))
  | _, _ => none

def toInvocation (r : Reading) : Except Stop Invocation :=
  match r.request? with
  | none => .error .usage
  | some request =>
    .ok { backend := ((r.value? .backend).bind fun s => (Backend.parse s).toOption).getD .relational
          path := r.value? .path
          threads := r.numberOf? .threads
          wait := (r.numberOf? .wait).getD 0
          batchSize := (r.numberOf? .batchSize).getD 5000
          proxy := r.value? .proxy
          request }

end Reading

def parse (words : List String) : Except Stop Invocation := do
  let r ← Reading.read {} words
  r.toInvocation

end Invocation

end PlatformCatalog
