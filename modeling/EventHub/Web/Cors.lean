import EventHub.Web.ClientIdentity
import EventHub.Web.Response
/-!
# Requests from other origins

Which origins may read the answers of the service, and the headers that tell so. An origin that
cannot stand in a header is left out, and the origin `*` is not accepted at all.
-/

namespace EventHub.Web.Cors

def isUsable (origin : String) : Bool :=
  origin.toList.all fun c => (' ' ≤ c && c ≠ '\x7f') || c = '\t'

/-- The origins that can stand in a header; `none` if one of them is `*`. -/
def origins? (allowed : List String) : Option (List String) :=
  let usable := allowed.filter isUsable
  if usable.contains "*" then none else some usable

def wildcardMessage : String :=
  "Wildcard origin (`*`) cannot be passed to `AllowOrigin::list`. Use `AllowOrigin::any()` instead"

def accepted? (origins : List String) (headers : List Header) : Option String :=
  (header? headers "origin").bind fun value =>
    origins.find? fun o => Text.Utf8.encode o.toList = value

def headersFor (origins : List String) (headers : List Header) : List (String × String) :=
  ((accepted? origins headers).map fun o => ("access-control-allow-origin", o)).toList ++
    [("vary", "origin, access-control-request-method, access-control-request-headers")]

def preflight (origins : List String) (headers : List Header) : Response :=
  ⟨200, headersFor origins headers ++
    [("access-control-allow-methods", "GET,POST"),
     ("access-control-allow-headers",
        "accept,cache-control,content-type,x-client-id,last-event-id")], .text ""⟩

end EventHub.Web.Cors
