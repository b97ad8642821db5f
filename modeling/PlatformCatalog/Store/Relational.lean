import PlatformCatalog.Record.Listing
import PlatformCatalog.Similarity.Ranking
import PlatformCatalog.Store.Cell
import PlatformCatalog.Store.Ordered
import PlatformCatalog.Store.Stamp

/-!
# The relational store

A table of records in the order in which they came, and a row for the stamp.
Questions are answered from the records. An insertion is one transaction: it
happens as a whole or leaves the store as it was.
-/

set_option autoImplicit false

namespace PlatformCatalog

open Text Time

structure StampRow where
  revision : String
  schemaVersion : Cell
  lastFetchedAt : String
  deriving DecidableEq, Repr

def StampRow.ofStamp (s : Stamp) : StampRow :=
  ⟨s.revision, .integer s.schemaVersion, s.lastFetchedAt.stored⟩

structure RelationalStore where
  records : List Record := []
  stampRow : Option StampRow := none
  /-- The vendors whose records the table refuses. -/
  refused : List String := []
  deriving DecidableEq, Repr

namespace RelationalStore

/-- A store without a row for the stamp counts as one just made. -/
def stamp (s : RelationalStore) : Except StoreError Stamp :=
  match s.stampRow with
  | none => .ok .fresh
  | some row =>
    match row.schemaVersion.natural? max32 with
    | none => .error (.relational "the schema version is no version number")
    | some schemaVersion =>
      match Timestamp.readStrict row.lastFetchedAt with
      | .ok lastFetchedAt => .ok ⟨row.revision, schemaVersion, lastFetchedAt⟩
      | .error e => .error (.corrupt "fetch_meta.last_fetched_at" e.message)

def writeStamp (s : RelationalStore) (stamp : Stamp) : RelationalStore :=
  { s with stampRow := some (.ofStamp stamp) }

def opened (s : RelationalStore) : RelationalStore :=
  match s.stampRow with
  | some _ => s
  | none => s.writeStamp .fresh

inductive StampColumn where
  | revision
  | schemaVersion
  | lastFetchedAt
  deriving DecidableEq, Repr

def setStampColumn (s : RelationalStore) (column : StampColumn) (value : Cell) :
    RelationalStore × Nat :=
  match s.stampRow with
  | none => (s, 0)
  | some row =>
    let row := match column with
      | .revision => { row with revision := value.inTextColumn }
      | .schemaVersion => { row with schemaVersion := value.inIntegerColumn }
      | .lastFetchedAt => { row with lastFetchedAt := value.inTextColumn }
    ({ s with stampRow := some row }, 1)

def dropStamp (s : RelationalStore) : RelationalStore × Nat :=
  match s.stampRow with
  | none => (s, 0)
  | some _ => ({ s with stampRow := none }, 1)

def refuse (s : RelationalStore) (vendor : String) : RelationalStore :=
  { s with refused := vendor :: s.refused }

inductive Statement where
  | delete (records : List Record)
  | insert (r : Record)
  deriving DecidableEq, Repr

def execute (s : RelationalStore) : Statement → Except StoreError RelationalStore
  | .delete old => .ok { s with records := s.records.filter fun r => !old.contains r }
  | .insert r =>
    if r.vendor ∈ s.refused then .error (.relational "the record is refused")
    else if s.records.any fun q => q.source = r.source ∧ q.uri = r.uri then
      .error (.relational "the source has a record of that name")
    else .ok { s with records := s.records ++ [r] }

def executeAll (s : RelationalStore) : List Statement → Except StoreError RelationalStore
  | [] => .ok s
  | st :: rest => do executeAll (← s.execute st) rest

def statements (s : RelationalStore) (source : Source) (records : List Record) (batchSize : Nat) :
    List Statement :=
  (chunks batchSize (s.records.filter fun r => r.source = source)).map .delete ++
  records.map .insert

def insert (s : RelationalStore) (source : Source) (b : Batch) (batchSize : Nat) :
    Except StoreError (RelationalStore × Nat) := do
  let stamp ← s.stamp
  stamp.checkSchema
  Stamp.checkBatchSize batchSize
  let records := normalize source b
  let s ← s.executeAll (s.statements source records batchSize)
  return (s, records.length)

def distinct (ss : List String) : List String := Ordered.ofList Ordered.textBefore ss

def distinctProducts (records : List Record) : List Product :=
  Ordered.ofList Product.before (records.map Record.pair)

def active (s : RelationalStore) : List Record := s.records.filter fun r => !r.deprecated

def retired (s : RelationalStore) : List Record := s.records.filter fun r => r.deprecated

def products (s : RelationalStore) : List Product × List Product :=
  (distinctProducts s.active,
    distinctProducts (s.retired.filter fun d => !s.active.any fun a => a.pair = d.pair))

/-- The active and the deprecated URIs of the products whose parts have the form of the given
ones. -/
def uris (s : RelationalStore) (p : Product) : List String × List String :=
  if p.vendor = "" ∨ p.product = "" then ([], [])
  else
    let hit (r : Record) : Bool :=
      Pattern.isLike p.vendor r.vendor && Pattern.isLike p.product r.product
    (distinct ((s.active.filter hit).map Record.uri),
      distinct ((s.retired.filter fun d =>
        hit d && !s.active.any fun a => a.uri = d.uri).map Record.uri))

def isDeprecated (s : RelationalStore) (uri : String) : Bool :=
  (s.retired.any fun r => r.uri = uri) && !(s.active.any fun r => r.uri = uri)

def similar (s : RelationalStore) (column : Record → String) (query : String) (n : Nat)
    (a : Algorithm) : List Entry :=
  (Ranking.search a query n (distinct (s.records.map column))).map fun title =>
    ⟨title, distinct ((s.records.filter fun r => column r = title).map Record.uri)⟩

end RelationalStore

end PlatformCatalog
