import PlatformCatalog.Fetch.Archive
import PlatformCatalog.Fetch.Error

/-!
# Downloads

A request is answered by the host of its address, if the host can be
reached. Redirections are followed up to a number of times, and failures are
put down to the address that was asked for.
-/

set_option autoImplicit false

namespace PlatformCatalog

inductive Body where
  | bytes (bs : List UInt8)
  | archive (a : Archive)
  deriving DecidableEq, Repr

structure Reply where
  status : Nat := 200
  body : Body := .bytes []
  location : Option String := none
  closed : Bool := false
  deriving DecidableEq, Repr

/-- What lies at an address: the replies to one request after another, of which the last one
repeats, and the number of requests so far. -/
structure Page where
  address : String
  replies : List Reply
  requests : Nat := 0
  deriving DecidableEq, Repr

inductive Network where
  | unreachable
  | host (pages : List Page)
  deriving DecidableEq, Repr

namespace Network

def replyOf (p : Page) : Option Reply := (p.replies[p.requests]?).or p.replies.getLast?

def request (address : String) : List Page → List Page × Option Reply
  | [] => ([], none)
  | p :: rest =>
    if p.address = address then ({ p with requests := p.requests + 1 } :: rest, replyOf p)
    else
      let (rest, reply) := request address rest
      (p :: rest, reply)

def isRedirection (status : Nat) : Bool := [301, 302, 303, 307, 308].contains status

def origin (address : String) : String :=
  let cs := address.toList
  let scheme := cs.takeWhile (· ≠ '/')
  let host := (cs.drop (scheme.length + 2)).takeWhile (· ≠ '/')
  String.ofList (scheme ++ ['/', '/'] ++ host)

def target (address location : String) : String :=
  if location.toList.head? = some '/' then origin address ++ location else location

def transportFault (address : String) : FetchError :=
  .transport address ("error sending request for url (" ++ address ++ ")")

/-- The body that `asked` leads to from an address on, with so many redirections left. -/
def follow (asked : String) : Nat → String → List Page → List Page × Except FetchError Body
  | left, address, pages =>
    match request address pages with
    | (pages, none) => (pages, .error (.status asked 404))
    | (pages, some r) =>
      if r.closed then (pages, .error (transportFault asked))
      else if r.status / 100 = 2 then (pages, .ok r.body)
      else match isRedirection r.status, r.location, left with
        | true, some _, 0 => (pages, .error (transportFault asked))
        | true, some location, left + 1 => follow asked left (target address location) pages
        | _, _, _ => (pages, .error (.status asked r.status))

def redirections : Nat := 10

def get (address : String) : Network → Network × Except FetchError Body
  | .unreachable => (.unreachable, .error (transportFault address))
  | .host pages =>
    let (pages, body) := follow address redirections address pages
    (.host pages, body)

def after (n : Network) (address : String) : Nat → Network
  | 0 => n
  | attempts + 1 => ((n.after address attempts).get address).1

/-- The outcome of one of several attempts at a download, the first of which is number one. -/
def attempt (n : Network) (address : String) (number : Nat) : Except FetchError Body :=
  ((n.after address (number - 1)).get address).2

def requests (n : Network) (address : String) : Nat :=
  match n with
  | .unreachable => 0
  | .host pages => ((pages.find? fun p => p.address = address).map Page.requests).getD 0

end Network

end PlatformCatalog
