import EventHub.Web.Uri
/-!
# Routes

What the paths of the service lead to. The name of a client is the last segment of a path, in which
bytes may be percent-encoded.
-/

namespace EventHub.Web

inductive Route where
  | health
  | stream
  | publish
  /-- Publishing to one client, whose name is still encoded. -/
  | publishTo (segment : List Char)
  | count
deriving DecidableEq, Repr

namespace Route

def publishToStart : List Char := "/events/".toList

def ofPath? (path : List Char) : Option Route :=
  if path = "/health".toList then some health
  else if path = "/sse".toList then some stream
  else if path = "/events".toList then some publish
  else if path = "/connections/count".toList then some count
  else
    let segment := path.drop publishToStart.length
    if publishToStart.isPrefixOf path && !segment.isEmpty && !segment.contains '/' then
      some (publishTo segment)
    else none

def methods : Route → List String
  | health | stream | count => ["GET", "HEAD"]
  | publish | publishTo _ => ["POST"]

/-- The client that an encoded segment names, unless its bytes are no text. -/
def client? (segment : List Char) : Option String :=
  (Text.Utf8.decode? (Percent.decode (Text.Utf8.encode segment))).map String.ofList

end Route

end EventHub.Web
