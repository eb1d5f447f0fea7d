import EventHub.Numeric.Width
import EventHub.Text.Digits
import EventHub.Text.Split
/-!
# Addresses of the shared store

What is looked at in an address before a connection is tried: the scheme, the host, the port and
the number of the database.
-/

namespace EventHub.Store

inductive AddressFault where
  /-- Not an address, or one of something else. -/
  | unreadable
  | hostMissing
  | pathMissing
  /-- Connections are not encrypted. -/
  | secure
  | badDatabase
deriving DecidableEq, Repr

def AddressFault.message : AddressFault → String
  | .unreadable => "Redis URL did not parse- InvalidClientConfig"
  | .hostMissing => "Missing hostname- InvalidClientConfig"
  | .pathMissing => "Missing path- InvalidClientConfig"
  | .secure => "can't connect with TLS, the feature is not enabled- InvalidClientConfig"
  | .badDatabase => "Invalid database number- InvalidClientConfig"

namespace Address

def openSchemes : List String := ["redis", "valkey"]

def secureSchemes : List String := ["rediss", "valkeys"]

def localSchemes : List String := ["unix", "redis+unix", "valkey+unix"]

/-- Control characters and spaces at either end and line breaks anywhere do not count. -/
def clean (text : List Char) : List Char :=
  let outer := fun (c : Char) => c ≤ ' '
  ((text.dropWhile outer).reverse.dropWhile outer).reverse.filter fun c =>
    c ≠ '\t' && c ≠ '\n' && c ≠ '\r'

/-- The scheme in small letters, and what stands behind its colon. -/
def splitScheme (text : List Char) : Option (String × List Char) :=
  match Text.splitFirst ':' text with
  | (c :: scheme, some rest) =>
    if c.isAlpha && scheme.all fun d => d.isAlphanum || ['+', '-', '.'].contains d then
      some (String.ofList ((c :: scheme).map Char.toLower), rest)
    else none
  | _ => none

def hostForbids (c : Char) : Bool :=
  c = '\x00' || " #/:<>?@[\\]^|".toList.contains c

/-- Whether a port is absent or a number below `2 ^ 16`. -/
def isPort (digits : List Char) : Bool :=
  digits.isEmpty || (Text.digitsValue? digits).any (· < Numeric.limit 16)

/-- Checks what stands between the two slashes and the path: a user perhaps, the host and perhaps
a port. -/
def checkAuthority (text : List Char) : Except AddressFault Unit :=
  let hostPort := (text.reverse.takeWhile (· ≠ '@')).reverse
  let (host, port) :=
    if hostPort.head? = some '[' then
      let inner := hostPort.takeWhile (· ≠ ']')
      (inner.tail, (hostPort.drop (inner.length + 1)))
    else (hostPort.takeWhile (· ≠ ':'), hostPort.dropWhile (· ≠ ':'))
  if host.isEmpty then .error (if text.isEmpty then .hostMissing else .unreadable)
  else if host.any fun c => hostForbids c && !(hostPort.head? = some '[' && c = ':') then
    .error .unreadable
  else match port with
    | [] => .ok ()
    | ':' :: digits => if isPort digits then .ok () else .error .unreadable
    | _ => .error .unreadable

/-- Whether a text is a number of sixty-four bits, a sign perhaps in front. -/
def isDatabase (text : List Char) : Bool :=
  match text with
  | '-' :: digits => (Text.digitsValue? digits).any (· ≤ Numeric.limit 63)
  | '+' :: digits => (Text.digitsValue? digits).any (· < Numeric.limit 63)
  | digits => (Text.digitsValue? digits).any (· < Numeric.limit 63)

def checkDatabase (path : List Char) : Except AddressFault Unit :=
  let slash := fun (c : Char) => c = '/'
  let name := ((path.dropWhile slash).reverse.dropWhile slash).reverse
  if name.isEmpty || isDatabase name then .ok () else .error .badDatabase

def check (url : String) : Except AddressFault Unit :=
  match splitScheme (clean url.toList) with
  | none => .error .unreadable
  | some (scheme, rest) =>
    let rest := rest.takeWhile fun c => c ≠ '?' && c ≠ '#'
    if localSchemes.contains scheme then
      if rest.head? = some '/' then .ok () else .error .pathMissing
    else if openSchemes.contains scheme || secureSchemes.contains scheme then
      match rest with
      | '/' :: '/' :: rest => do
        checkAuthority (rest.takeWhile (· ≠ '/'))
        if secureSchemes.contains scheme then throw .secure
        checkDatabase (rest.dropWhile (· ≠ '/'))
      | _ => .error .hostMissing
    else .error .unreadable

end Address

end EventHub.Store
