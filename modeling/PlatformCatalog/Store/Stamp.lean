import PlatformCatalog.Json.Fields
import PlatformCatalog.Store.Error
import PlatformCatalog.Time.Timestamp

/-!
# The stamp of a store

A stamp says which revision last wrote to a store, the version of its
schema, and when a fetch was last taken in.
-/

set_option autoImplicit false

namespace PlatformCatalog

open Json Text Time

structure Stamp where
  revision : String
  schemaVersion : Nat
  lastFetchedAt : Timestamp
  deriving DecidableEq, Repr

namespace Stamp

def currentRevision : String := "0.1.0"

def latestSchemaVersion : Nat := 2

def fresh : Stamp := ⟨currentRevision, latestSchemaVersion, Timestamp.epoch⟩

def isOutdated (s : Stamp) : Bool := s.schemaVersion ≠ latestSchemaVersion

/-- Stamped anew by this revision at the given time, with the schema as it was. -/
def touched (s : Stamp) (now : Timestamp) : Stamp :=
  { s with revision := currentRevision, lastFetchedAt := now }

def checkSchema (s : Stamp) : Except StoreError Unit :=
  if s.isOutdated then .error (.schemaVersionMismatch s.schemaVersion latestSchemaVersion)
  else .ok ()

def checkBatchSize (size : Nat) : Except StoreError Unit :=
  if size < 1 then .error (.invalidBatchSize size) else .ok ()

def layout : Layout := [["revision"], ["schemaVersion"], ["lastFetchedAt"]]

def time? (v : Json) : Option Timestamp := do
  let s ← text? v
  (Timestamp.readLenient s).toOption

def ofJson (v : Json) : Option Stamp :=
  match fields? layout v with
  | some [revision, schemaVersion, lastFetchedAt] => do
    let revision ← required? text? revision
    let schemaVersion ← required? (natural? max32) schemaVersion
    let lastFetchedAt ← required? time? lastFetchedAt
    return ⟨revision, schemaVersion, lastFetchedAt⟩
  | _ => none

def toJson (s : Stamp) : Json :=
  .record [("revision", .text s.revision), ("schemaVersion", .natural s.schemaVersion),
    ("lastFetchedAt", .text s.lastFetchedAt.shown)]

end Stamp

end PlatformCatalog
