import EventHub.Error
import EventHub.Json.Writer
/-!
# Responses

The answers of the service to requests: a text, a JSON value, or the beginning of an event stream.
-/

namespace EventHub.Web

inductive Body where
  | text (s : String)
  /-- The frames of the stream with the number. -/
  | stream (number : Nat)
deriving DecidableEq, Repr

structure Response where
  status : Nat
  headers : List (String × String) := []
  body : Body
deriving DecidableEq, Repr

namespace Response

def empty (status : Nat) : Response := ⟨status, [], .text ""⟩

def plain (status : Nat) (text : String) : Response :=
  ⟨status, [("content-type", "text/plain; charset=utf-8")], .text text⟩

def json (status : Nat) (v : Json) : Response :=
  ⟨status, [("content-type", "application/json")], .text v.compact⟩

def api (status : Nat) (data : Option Json) : Response :=
  json status (.object (("status_code", .number (.int status)) ::
    (data.map fun d => ("data", d)).toList))

/-- A cancelled request and an unavailable store are passing conditions, a failed transaction is
the fault of the store, and anything else that of the service. -/
def ofError (e : Error) : Response :=
  match e.kind with
  | .cancelled | .store .unavailable => plain 503 "SERVICE UNAVAILABLE"
  | .store .transaction => plain 502 "BAD GATEWAY"
  | .config _ | .write _ | .relay _ => plain 500 "INTERNAL SERVER ERROR"

def withHeaders (r : Response) (headers : List (String × String)) : Response :=
  { r with headers := r.headers ++ headers }

def withLength (r : Response) : Response :=
  match r.body with
  | .text s => { r with headers := r.headers ++ [("content-length", toString s.utf8ByteSize)] }
  | .stream _ => r

def withoutBody (r : Response) : Response := { r with body := .text "" }

end Response

end EventHub.Web
