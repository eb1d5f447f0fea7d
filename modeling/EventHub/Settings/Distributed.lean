import EventHub.Error
import EventHub.Numeric.Width
import EventHub.Text.Blank
/-!
# Settings of the shared store

Where the connections of all servers are recorded, under which keys, and how long a record lives
unless it is refreshed. A refresh has to land before the record that it extends expires.
-/

namespace EventHub.Settings

open Time (Duration)

def defaultKeyPrefix : String := "sse"

def validateLifetime (lifetime refresh : Duration) : Except Error Unit :=
  if refresh.isZero then .error (.config .invalidInterval .refreshIsZero)
  else if lifetime ≤ refresh then
    .error (.config .ttlRefreshInterval (.refreshNotBelowLifetime refresh lifetime))
  else .ok ()

structure Distributed where
  url : String
  keyPrefix : String := defaultKeyPrefix
  /-- How long a record lives; those of a crashed server are gone after this time. -/
  lifetime : Duration := .ofSeconds 120
  refreshInterval : Duration := .ofSeconds 60
deriving DecidableEq, Repr

namespace Distributed

def ofUrl? (url : Option String) : Except Error Distributed :=
  match url with
  | some url =>
    if Text.allBlank url then .error (.config .missingConnectionString .connectionStringMissing)
    else .ok ⟨url, defaultKeyPrefix, .ofSeconds 120, .ofSeconds 60⟩
  | none => .error (.config .missingConnectionString .connectionStringMissing)

def validate (s : Distributed) : Except Error Distributed :=
  (validateLifetime s.lifetime s.refreshInterval).map fun _ => s

/-- The expiry of a record in milliseconds: at least one, and within sixty-three bits. -/
def expiryMillis (lifetime : Duration) : Nat := max 1 (min lifetime.millis (Numeric.limit 63 - 1))

end Distributed

end EventHub.Settings
