import EventHub.Identity
import EventHub.Text.Blank
import EventHub.Web.Uri
/-!
# The identity of a client

A client names itself in a header or, without one, in the query of the request. A name is trimmed,
and a blank one counts as none.
-/

namespace EventHub.Web

/-- A header as received: the value is a sequence of bytes. -/
structure Header where
  name : String
  value : List UInt8
deriving DecidableEq, Repr

def lowerCase (s : String) : String := String.ofList (s.toList.map Char.toLower)

def header? (headers : List Header) (name : String) : Option (List UInt8) :=
  (headers.find? fun h => lowerCase h.name = name).map (·.value)

/-- A request that is turned away: the status and the text of the answer. -/
structure Rejection where
  status : Nat
  message : String
deriving DecidableEq, Repr

def isVisibleText (value : List UInt8) : Bool :=
  value.all fun b => (0x20 ≤ b && b < 0x7F) || b = 0x09

def asciiText (value : List UInt8) : String :=
  String.ofList (value.map fun b => Char.ofNat b.toNat)

namespace ClientIdentity

def headerName : String := "x-client-id"

def queryName : String := "client_id"

/-- The text without white space at its ends, unless nothing is left. -/
def nonBlank (s : String) : Option ClientId :=
  let trimmed := Text.trim s
  if trimmed.isEmpty then none else some trimmed

def inQuery (target : List Char) : Option ClientId :=
  match (formFields ((query? target).getD [])).findRev? fun p => p.1 = queryName.toList with
  | some (_, value) => nonBlank (String.ofList value)
  | none => none

def resolve (target : List Char) (headers : List Header) : Except Rejection (Option ClientId) :=
  match header? headers headerName with
  | none => .ok (inQuery target)
  | some value =>
    if isVisibleText value then .ok ((nonBlank (asciiText value)).orElse fun _ => inQuery target)
    else .error ⟨400, headerName ++ " must be visible ASCII"⟩

end ClientIdentity

end EventHub.Web
