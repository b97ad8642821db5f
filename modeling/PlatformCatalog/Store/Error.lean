import PlatformCatalog.Text.Form

/-!
# Failures of the stores
-/

set_option autoImplicit false

namespace PlatformCatalog

open Text

inductive StoreError where
  | locked
  | openFailed (path reason : String)
  | schemaVersionMismatch (found expected : Nat)
  | invalidBatchSize (size : Nat)
  | unknownBackend (name : String)
  | relational (reason : String)
  | keyValue (reason : String)
  | corrupt (key reason : String)
  deriving DecidableEq, Repr

namespace StoreError

def message : StoreError → String
  | .locked => "database is locked; close other connections and retry"
  | .openFailed path reason => "failed to open " ++ path ++ ": " ++ reason
  | .schemaVersionMismatch found expected =>
    "schema version mismatch: store has " ++ toString found ++ ", expected " ++
      toString expected ++ "; rebuild the database"
  | .invalidBatchSize size => "batch size must be at least 1, got " ++ toString size
  | .unknownBackend name => "unknown database type " ++ quoted name
  | .relational reason => "sqlite error: " ++ reason
  | .keyValue reason => "key-value store error: " ++ reason
  | .corrupt key reason => "corrupt stored value for " ++ key ++ ": " ++ reason

def causes : StoreError → List String
  | .keyValue reason => [reason]
  | _ => []

end StoreError

end PlatformCatalog
