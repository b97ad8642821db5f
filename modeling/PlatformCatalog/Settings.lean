import PlatformCatalog.Fetch.Retry
import PlatformCatalog.Fetch.Schedule
import PlatformCatalog.Store.Backend
import PlatformCatalog.Text.Url

/-!
# Settings

What a run of the catalog is told: where its store lies, how it fetches, and
from where.
-/

set_option autoImplicit false

namespace PlatformCatalog

open Text

inductive SettingsError where
  | noThreads
  | noBatchSize
  | invalidProxy (url : String)
  deriving DecidableEq, Repr

namespace SettingsError

def message : SettingsError → String
  | .noThreads => "threads must be at least 1"
  | .noBatchSize => "batch size must be at least 1"
  | .invalidProxy url => "invalid HTTP proxy URL " ++ quoted url

end SettingsError

structure Addresses where
  dictionary : String :=
    "https://github.com/vulsio/vuls-data-raw-nvd-api-cpe/archive/refs/heads/main.tar.gz"
  criteria : String :=
    "https://github.com/vulsio/vuls-data-raw-nvd-api-cpematch/archive/refs/heads/main.tar.gz"
  feedBase : String := "https://jvndb.jvn.jp/ja/rss"
  annotations : String :=
    "https://raw.githubusercontent.com/vulsio/go-cpe-dictionary/master/annotation/vuls.json"
  deriving DecidableEq, Repr

structure FetchSettings where
  threads : Nat := 4
  /-- The pause between two downloads in milliseconds. -/
  wait : Nat := 0
  batchSize : Nat := 5000
  proxy : Option String := none
  timeout : Nat := 600000
  retry : RetryPolicy := {}
  addresses : Addresses := {}

namespace FetchSettings

def proxy? (s : FetchSettings) : Option String := s.proxy.filter (· ≠ "")

def check (s : FetchSettings) : Except SettingsError Unit :=
  if s.threads = 0 then .error .noThreads
  else if s.batchSize = 0 then .error .noBatchSize
  else match s.proxy? with
    | some url => if Url.isAbsolute url then .ok () else .error (.invalidProxy url)
    | none => .ok ()

def limits (s : FetchSettings) : Limits :=
  { concurrency := s.threads, wait := s.wait, timeout := s.timeout }

def checkProxy (s : FetchSettings) : Except FetchError Unit :=
  match s.proxy? with
  | some url => if Url.isProxy url then .ok () else .error (.invalidProxy url "builder error")
  | none => .ok ()

end FetchSettings

namespace Settings

def joinPath (base rest : String) : String :=
  if base = "" then rest
  else if base.toList.getLast? = some '/' then base ++ rest
  else base ++ "/" ++ rest

def defaultPath (dataDirectory : String) (b : Backend) : String :=
  joinPath (joinPath dataDirectory "cpe-dictionary") ("cpe." ++ b.name)

def path (dataDirectory : String) (b : Backend) (given : Option String) : String :=
  given.getD (defaultPath dataDirectory b)

end Settings

end PlatformCatalog
