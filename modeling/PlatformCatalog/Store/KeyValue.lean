import PlatformCatalog.Json.Printer
import PlatformCatalog.Json.Reader
import PlatformCatalog.Record.Listing
import PlatformCatalog.Similarity.Ranking
import PlatformCatalog.Store.Manifest
import PlatformCatalog.Store.Ordered
import PlatformCatalog.Store.Stamp

/-!
# The key-value store

Sets and hashes in ascending order. Taking in a batch adds the items of its
records to the sets, removes what the source contributed before and nobody
contributes any more, and records the new manifest. Each of these commits is
applied as a whole.
-/

set_option autoImplicit false

namespace PlatformCatalog

open Text Time

structure KeyValueStore where
  /-- Pairs of a set's key and a member. -/
  sets : List (String × String) := []
  /-- Texts under pairs of a hash's key and a field. -/
  hashes : List ((String × String) × String) := []
  deriving DecidableEq, Repr

namespace KeyValueStore

def stampKey : String := "CPE#FETCHMETA"

def revisionField : String := "Revision"

def schemaVersionField : String := "SchemaVersion"

def lastFetchedAtField : String := "LastFetchedAt"

def manifestKey : String := "CPE#DEP"

def field? (s : KeyValueStore) (key name : String) : Option String :=
  Ordered.get? (key, name) s.hashes

def setField (s : KeyValueStore) (key name value : String) : KeyValueStore :=
  { s with hashes := Ordered.put Ordered.pairBefore (key, name) value s.hashes }

def dropField (s : KeyValueStore) (key name : String) : KeyValueStore :=
  { s with hashes := Ordered.remove (key, name) s.hashes }

def addRow (s : KeyValueStore) (row : String × String) : KeyValueStore :=
  { s with sets := Ordered.insert Ordered.pairBefore row s.sets }

def corruptStamp (name reason : String) : StoreError := .corrupt (stampKey ++ "/" ++ name) reason

def readVersion (raw : String) : Except StoreError Nat :=
  match boundedNumeral max32 raw.toList with
  | .ok n => .ok n
  | .error e => .error (corruptStamp schemaVersionField e.message)

def readTime : Option String → Except StoreError Timestamp
  | none => .ok Timestamp.epoch
  | some raw =>
    match Timestamp.readStrict raw with
    | .ok t => .ok t
    | .error e => .error (corruptStamp lastFetchedAtField e.message)

/-- A store without a schema version counts as one just made. -/
def stamp (s : KeyValueStore) : Except StoreError Stamp :=
  match s.field? stampKey schemaVersionField with
  | none => .ok .fresh
  | some raw => do
    let schemaVersion ← readVersion raw
    let lastFetchedAt ← readTime (s.field? stampKey lastFetchedAtField)
    return ⟨(s.field? stampKey revisionField).getD "", schemaVersion, lastFetchedAt⟩

def writeStamp (s : KeyValueStore) (stamp : Stamp) : KeyValueStore :=
  ((s.setField stampKey revisionField stamp.revision).setField
    stampKey schemaVersionField (toString stamp.schemaVersion)).setField
    stampKey lastFetchedAtField stamp.lastFetchedAt.stored

def opened (s : KeyValueStore) : KeyValueStore :=
  match s.field? stampKey schemaVersionField with
  | some _ => s
  | none => s.writeStamp .fresh

def manifest (s : KeyValueStore) (source : Source) : Except StoreError Manifest :=
  match s.field? manifestKey source.name with
  | none => .ok .empty
  | some raw =>
    match (Json.parse raw).bind Manifest.ofJson with
    | some m => .ok m
    | none => .error (.corrupt (manifestKey ++ "/" ++ source.name) "not a manifest")

def manifests (s : KeyValueStore) : List Source → Except StoreError Manifest
  | [] => .ok .empty
  | source :: rest => do
    let m ← s.manifest source
    let others ← s.manifests rest
    return m.merge others

inductive Commit where
  | add (entries : List (Family × Item))
  | remove (entries : List (Family × Item))
  | record (source : Source) (m : Manifest)
  deriving DecidableEq, Repr

def commit (s : KeyValueStore) : Commit → KeyValueStore
  | .add entries =>
    { s with sets := Ordered.insertAll Ordered.pairBefore (entries.map setRow) s.sets }
  | .remove entries =>
    { s with sets := Ordered.eraseAll Ordered.pairBefore (entries.map setRow) s.sets }
  | .record source m => s.setField manifestKey source.name m.toJson.compact

def commitAll (s : KeyValueStore) (commits : List Commit) : KeyValueStore :=
  commits.foldl commit s

/-- The items of `own` that neither the records nor the siblings contribute. -/
def removable (own siblings : Manifest) (records : List Record) : List (Family × Item) :=
  ((own.eraseAll (records.flatMap Record.items)).difference siblings).items

def plan (source : Source) (own siblings : Manifest) (records : List Record) (batchSize : Nat) :
    List Commit :=
  (chunks batchSize records).map (fun c => .add (c.flatMap Record.items)) ++
  (chunks batchSize (removable own siblings records)).map .remove ++
  [.record source (.ofItems (records.flatMap Record.items))]

/-- The commits of an insertion. All that can fail is read before the first of them. -/
def insertion (s : KeyValueStore) (source : Source) (b : Batch) (batchSize : Nat) :
    Except StoreError (List Commit) := do
  let stamp ← s.stamp
  stamp.checkSchema
  Stamp.checkBatchSize batchSize
  let own ← s.manifest source
  let siblings ← s.manifests source.siblings
  return plan source own siblings (normalize source b) batchSize

def insert (s : KeyValueStore) (source : Source) (b : Batch) (batchSize : Nat) :
    Except StoreError (KeyValueStore × Nat) := do
  let commits ← s.insertion source b batchSize
  return (s.commitAll commits, (normalize source b).length)

def rowsFrom (s : KeyValueStore) (key : String) : List (String × String) :=
  s.sets.dropWhile fun row => Ordered.pairBefore row (key, "")

def members (s : KeyValueStore) (key : String) : List String :=
  ((s.rowsFrom key).takeWhile fun row => row.1 == key).map (·.2)

def contains (s : KeyValueStore) (key member : String) : Bool := s.sets.contains (key, member)

def after? (start s : String) : Option String :=
  (start.toList.isPrefixOf? s.toList).map String.ofList

def groups (s : KeyValueStore) (start : String) : List String :=
  let rows := (s.rowsFrom start).takeWhile fun row => (after? start row.1).isSome
  Ordered.ofList Ordered.textBefore (rows.filterMap fun row => after? start row.1)

def productsOf (s : KeyValueStore) (f : Family) : List Product :=
  Ordered.ofList Product.before ((s.members f.keyStart).filterMap Product.ofMember?)

def products (s : KeyValueStore) : List Product × List Product :=
  let active := s.productsOf .products
  (active, (s.productsOf .deprecatedProducts).filter fun p => !active.contains p)

def isDeprecated (s : KeyValueStore) (uri : String) : Bool :=
  s.contains Family.deprecatedUris.keyStart uri && !s.contains Family.activeUris.keyStart uri

def uris (s : KeyValueStore) (p : Product) : List String × List String :=
  if p.vendor = "" ∨ p.product = "" then ([], [])
  else (s.members (Family.urisByProduct.setKey p.member)).partition fun uri => !s.isDeprecated uri

def similar (s : KeyValueStore) (f : Family) (query : String) (n : Nat) (a : Algorithm) :
    List Entry :=
  (Ranking.search a query n (s.groups f.keyStart)).map fun title =>
    ⟨title, s.members (f.setKey title)⟩

end KeyValueStore

end PlatformCatalog
