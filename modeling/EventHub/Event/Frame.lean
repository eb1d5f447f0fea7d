import EventHub.Json.Writer
import EventHub.Text.Lines
import EventHub.Time.Duration
/-!
# Frames of an event stream

The texts that the server writes to a stream of type `text/event-stream`: events, heartbeats and
the hint when to reconnect. Every frame ends with a blank line. The payload of an event is written
as compact JSON without the null fields of its objects.
-/

namespace EventHub

structure Event where
  name : String
  payload : Json
  id : Option String := none
deriving Repr, Inhabited

namespace Event

def fieldLine (field : String) (value : List Char) : List Char :=
  field.toList ++ ':' :: ' ' :: value ++ ['\n']

def idLine : Option String → List Char
  | none => []
  | some id => if id.isEmpty then [] else fieldLine "id" id.toList

def dataLines (text : List Char) : List Char := (Text.lines text).flatMap (fieldLine "data")

def frameChars (e : Event) : List Char :=
  idLine e.id ++ fieldLine "event" e.name.toList ++ dataLines e.payload.withoutNulls.text ++ ['\n']

def frame (e : Event) : String := String.ofList e.frameChars

/-- A comment that keeps an idle stream open. -/
def heartbeat : String := ": heartbeat\n\n"

/-- Tells the client after how many milliseconds to reconnect. -/
def retry (interval : Time.Duration) : String := "retry: " ++ toString interval.millis ++ "\n\n"

def streamHeaders : List (String × String) :=
  [("content-type", "text/event-stream"), ("cache-control", "no-cache"),
   ("connection", "keep-alive"), ("x-accel-buffering", "no")]

end Event

end EventHub
