import EventHub.Event.Frame
import EventHub.Json.Record
import EventHub.Web.ClientIdentity
import EventHub.Web.Response
/-!
# Requests to publish

The content of a request to publish is a JSON record with the name of the event, its data, which
are `null` unless given, and perhaps its id. What stands behind the record is not looked at.
-/

namespace EventHub.Web.PublishRequest

structure Draft where
  event : Option String := none
  data : Option Json := none
  id : Option (Option String) := none

def shape : Json.Shape Draft where
  title := "struct PublishParams"
  members :=
    [⟨"event", (·.event.isSome), fun d text =>
        (Json.readString "a string" text).map fun (s, rest) => ({ d with event := some s }, rest),
        false⟩,
     ⟨"data", (·.data.isSome), fun d text =>
        (Json.readWithin (Json.maxDepth - 1) text).map fun (v, rest) =>
          ({ d with data := some v }, rest), true⟩,
     ⟨"id", (·.id.isSome), fun d text =>
        (Json.readOptionalString "a string" text).map fun (s, rest) =>
          ({ d with id := some s }, rest), true⟩]

def Draft.finish (d : Draft) : Except Json.Fault Event :=
  match d.event with
  | none => .error (.missingField "event")
  | some name => .ok ⟨name, d.data.getD .null, d.id.join⟩

def read (text : List Char) : Except Json.Failure Event :=
  (shape.read {} Draft.finish text).map (·.1)

/-! ## Bodies -/

def maxLength : Nat := 2097152

/-- Passes over the rest of a string, of bytes of any kind; the number of bytes up to behind its
closing quote. -/
def bytesToQuote : List UInt8 → Option Nat
  | [] => none
  | 0x22 :: _ => some 1
  | 0x5C :: _ :: rest => (bytesToQuote rest).map (· + 2)
  | _ :: rest => (bytesToQuote rest).map (· + 1)

def longestText : List UInt8 → List Char × List UInt8
  | [] => ([], [])
  | a :: rest =>
    match Text.Utf8.decodeFirst a rest with
    | (some c, taken) =>
      let (cs, behind) := longestText (rest.drop taken)
      (c :: cs, behind)
    | (none, _) => ([], a :: rest)
termination_by bytes => bytes.length
decreasing_by simp only [List.length_drop, List.length_cons]; omega

/-- The failure when bytes that are no text follow: a string that they stand in is refused behind
its closing quote. Also the text up to the place of the failure. -/
def failureBefore (text : List Char) (behind : List UInt8) (f : Json.Failure) :
    Json.Failure × List Char :=
  match behind, f.fault with
  | _ :: _, .endInString =>
    ({ f with fault := .invalidCodePoint },
      text ++ List.replicate ((bytesToQuote behind).getD behind.length) ' ')
  | _, _ => (f, text)

def readBytes (bytes : List UInt8) : Except (Json.Failure × List Char) Event :=
  let (text, behind) := longestText bytes
  (read text).mapError (failureBefore text behind)

def isJsonType (value : List UInt8) : Bool :=
  isVisibleText value &&
    let whole := (asciiText value).toList
    let essence := Text.trim (String.ofList (Text.splitFirst ';' whole).1)
    match Text.splitFirst '/' (lowerCase essence).toList with
    | (kind, some sub) =>
      kind = "application".toList &&
        (sub = "json".toList || ("+json".toList.isSuffixOf sub && 5 < sub.length))
    | _ => false

def ofRequest (headers : List Header) (body : List UInt8) : Except Response Event :=
  if !(header? headers "content-type").any isJsonType then
    .error (Response.plain 415 "Expected request with `Content-Type: application/json`")
  else if maxLength < body.length then
    .error (Response.plain 413 "Failed to buffer the request body: length limit exceeded")
  else match readBytes body with
    | .ok e => .ok e
    | .error (f, text) =>
      if f.fault.isData then
        .error (Response.plain 422
          ("Failed to deserialize the JSON body into the target type: " ++ f.messageWithPath text))
      else
        .error (Response.plain 400
          ("Failed to parse the request body as JSON: " ++ f.messageWithPath text))

end EventHub.Web.PublishRequest
