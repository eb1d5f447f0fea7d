import EventHub.Text.Split
import EventHub.Web.Percent
/-!
# Request targets

The path and the query of a request target, which may be absolute, and the fields of a query. A
fragment is no part of either.
-/

namespace EventHub.Web

open Text (splitAll splitFirst)

def withoutFragment (target : List Char) : List Char := (splitFirst '#' target).1

def query? (target : List Char) : Option (List Char) := (splitFirst '?' (withoutFragment target)).2

def withoutAuthority (target : List Char) : List Char :=
  match target with
  | '/' :: _ => target
  | _ =>
    match splitFirst ':' target with
    | (_, some ('/' :: '/' :: rest)) => rest.dropWhile (· ≠ '/')
    | _ => target

def path (target : List Char) : List Char :=
  match withoutAuthority (splitFirst '?' (withoutFragment target)).1 with
  | [] => ['/']
  | p => p

/-- A name or value of a query: a plus sign is a space, and bytes may be percent-encoded. -/
def formDecode (text : List Char) : List Char :=
  Text.Utf8.decodeLossy (Percent.decode (Text.Utf8.encode
    (text.map fun c => if c = '+' then ' ' else c)))

/-- The fields of a query in order. Empty parts are passed over, and a part without an equals sign
has an empty value. -/
def formFields (query : List Char) : List (List Char × List Char) :=
  ((splitAll '&' query).filter fun part => !part.isEmpty).map fun part =>
    let (name, value) := splitFirst '=' part
    (formDecode name, formDecode (value.getD []))

end EventHub.Web
