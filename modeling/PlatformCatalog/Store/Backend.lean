import PlatformCatalog.Store.KeyValue
import PlatformCatalog.Store.Relational

/-!
# Stores of either backend

What both backends do alike, and what becomes of an attempt to open a store,
which depends on what lies in its place.
-/

set_option autoImplicit false

namespace PlatformCatalog

inductive Backend where
  | relational
  | keyValue
  deriving DecidableEq, Repr

namespace Backend

def name : Backend → String
  | .relational => "sqlite3"
  | .keyValue => "redb"

def parse : String → Except StoreError Backend
  | "sqlite3" => .ok .relational
  | "redb" => .ok .keyValue
  | other => .error (.unknownBackend other)

end Backend

inductive Store where
  | relational (s : RelationalStore)
  | keyValue (s : KeyValueStore)
  deriving DecidableEq, Repr

namespace Store

def backend : Store → Backend
  | .relational _ => .relational
  | .keyValue _ => .keyValue

def empty : Backend → Store
  | .relational => .relational {}
  | .keyValue => .keyValue {}

def opened : Store → Store
  | .relational s => .relational s.opened
  | .keyValue s => .keyValue s.opened

def fresh (b : Backend) : Store := (empty b).opened

inductive Site where
  | vacant
  | underFile
  | foreign
  | store (s : Store) (held : Bool)
  deriving DecidableEq, Repr

def foreignFile : Backend → StoreError
  | .relational => .relational "file is not a database"
  | .keyValue => .keyValue "file is not a database"

/-- Opens the store in a place. A key-value store cannot be opened twice. -/
def openAt (b : Backend) (path : String) : Site → Except StoreError Store
  | .vacant => .ok (fresh b)
  | .underFile => .error (.openFailed path "failed to create database directory")
  | .foreign => .error (foreignFile b)
  | .store s held =>
    if s.backend ≠ b then .error (foreignFile b)
    else if held ∧ b = .keyValue then .error .locked
    else .ok s.opened

def stamp : Store → Except StoreError Stamp
  | .relational s => s.stamp
  | .keyValue s => s.stamp

def writeStamp : Store → Stamp → Store
  | .relational s, stamp => .relational (s.writeStamp stamp)
  | .keyValue s, stamp => .keyValue (s.writeStamp stamp)

def checkSchema (s : Store) : Except StoreError Unit := do
  let stamp ← s.stamp
  stamp.checkSchema

/-- The store with the source's batch in the place of its last one, and the number of records. -/
def insert (s : Store) (source : Source) (b : Batch) (batchSize : Nat) :
    Except StoreError (Store × Nat) :=
  match s with
  | .relational s => do
    let (s, n) ← s.insert source b batchSize
    return (.relational s, n)
  | .keyValue s => do
    let (s, n) ← s.insert source b batchSize
    return (.keyValue s, n)

def products : Store → List Product × List Product
  | .relational s => s.products
  | .keyValue s => s.products

def uris : Store → Product → List String × List String
  | .relational s, p => s.uris p
  | .keyValue s, p => s.uris p

def isDeprecated : Store → String → Bool
  | .relational s, uri => s.isDeprecated uri
  | .keyValue s, uri => s.isDeprecated uri

def similarTitles (s : Store) (query : String) (n : Nat) (a : Algorithm) : List Entry :=
  match s with
  | .relational s => s.similar Record.title query n a
  | .keyValue s => s.similar .urisByTitle query n a

def similarSearchTitles (s : Store) (query : String) (n : Nat) (a : Algorithm) : List Entry :=
  match s with
  | .relational s => s.similar Record.searchTitle query n a
  | .keyValue s => s.similar .urisBySearchTitle query n a

end Store

end PlatformCatalog
