import EventHub.Proofs.Cluster.Handlings
import EventHub.Proofs.Event.Framing
import EventHub.Proofs.Json.Rereading
import EventHub.Proofs.Web.PublishRequest
/-!
# Frames of relayed events

The data of an event are written and read once more for the other servers than for the one that was
asked to publish it. Their frames are the same exactly if each double in the data is read as itself.
-/

namespace EventHub

open Relay (Message)
open Json (doubleNumeral rereadDouble)

namespace Event

theorem carried_eq_reread {e : Event} (hvalid : e.payload.Valid)
    (hdepth : e.payload.depth < Json.maxDepth) :
    e.carried = { e with payload := e.payload.reread } := by
  rw [carried, Json.read_text hvalid hdepth]

/-- Two frames with the same name and the same id differ if their data do. -/
theorem frame_eq_iff {e e' : Event} (hname : e.name = e'.name) (hid : e.id = e'.id) :
    e.frame = e'.frame ↔ e.payload.withoutNulls.text = e'.payload.withoutNulls.text := by
  have hshown : e.shownId = e'.shownId := by rw [shownId, shownId, hid]
  rw [frame, frame, String.ofList_inj, frameChars_eq, frameChars_eq, hshown, hname,
    List.append_cancel_left_eq, List.append_cancel_left_eq, field, field]
  simp

end Event

namespace Json

theorem read_decimalText {d : Numeric.Double} (hvalid : d.Valid) :
    read d.decimalText = .ok (.number (.double (rereadDouble d))) :=
  read_text (v := .number (.double d)) hvalid (show 0 < maxDepth by decide)

theorem read_decimalText_iff {d : Numeric.Double} (hvalid : d.Valid) :
    read d.decimalText = .ok (.number (.double d)) ↔ rereadDouble d = d := by
  rw [read_decimalText hvalid, Except.ok.injEq, Json.number.injEq, Number.double.injEq]

end Json

/-- The frame of the event as the others read it is the frame of the event exactly if each double
in the data is what its text is read as. -/
theorem Event.frame_carried_iff {e : Event} (hvalid : e.payload.Valid)
    (hdepth : e.payload.depth < Json.maxDepth) :
    e.carried.frame = e.frame ↔
      ∀ d ∈ e.payload.doubles, Json.read d.decimalText = .ok (.number (.double d)) := by
  have hdoubles := Json.valid_of_mem_doubles e.payload hvalid
  have hframe : Event.frame { e with payload := e.payload.reread } = e.frame ↔
      e.payload.reread.withoutNulls.text = e.payload.withoutNulls.text := frame_eq_iff rfl rfl
  rw [carried_eq_reread hvalid hdepth, hframe, Json.withoutNulls_reread,
    Json.text_reread_iff (Json.valid_withoutNulls _ hvalid), Json.doubles_withoutNulls]
  exact forall₂_congr fun d hd => (Json.read_decimalText_iff (hdoubles d hd)).symm

namespace Web

open Cluster

/-- An event that a request asks to publish is published once by the server that is asked and once,
as it is read from the relay, by each other server. Their frames are the same exactly if each double
in the data is what its text is read as, and it is if its digits are exact as a double and its point
is not moved too far. -/
theorem relayed_frame_eq_iff {headers : List Header} {body : List UInt8} {e : Event}
    (haccepted : PublishRequest.ofRequest headers body = .ok e) :
    (∀ origin s source server target stamp, source ≠ server → Network.StampOk stamp →
      PublishesOnce (fun c cancelled => c.stepPublication cancelled origin) Publication.call?
        Publication.frames (fun _ => True) (.ofEvent target e) target e ∧
      PublishesOnce (fun c cancelled => c.stepHandling cancelled s) Handling.call?
        Handling.frames (IsAt s server) (.fresh (Message.ofEvent source target e stamp).encode)
        target e.carried) ∧
    (e.carried.frame = e.frame ↔
      ∀ d ∈ e.payload.doubles, Json.read d.decimalText = .ok (.number (.double d))) ∧
    (∀ d ∈ e.payload.doubles, (doubleNumeral d).decimal.digits < 2 ^ 53 →
      (doubleNumeral d).decimal.exponent.natAbs ≤ 22 →
      Json.read d.decimalText = .ok (.number (.double d))) := by
  obtain ⟨hvalid, hnested⟩ := PublishRequest.ofRequest_sound haccepted
  have hdepth : e.payload.depth < Json.maxDepth := by omega
  refine ⟨fun origin s source server target stamp hforeign hstamp => ⟨?_, ?_⟩,
    Event.frame_carried_iff hvalid hdepth, fun d hd hdigits hexponent => ?_⟩
  · exact publication_publishesOnce origin target e
  · exact handling_publishesOnce fun c cancelled hc =>
      stepHandling_encode hforeign hvalid hdepth hstamp hc cancelled
  · have hd := Json.valid_of_mem_doubles e.payload hvalid d hd
    rw [Json.read_decimalText_iff hd]
    exact Json.rereadDouble_eq_self hd hdigits (by omega) (by omega)

def jsonHeader : Header := ⟨"content-type", Text.Utf8.encode "application/json".toList⟩

/-- The content of a request to publish the data, given as JSON text. -/
def bodyOf (data : String) : List UInt8 :=
  Text.Utf8.encode ("\x7b\"event\":\"n\",\"data\":" ++ data ++ "\x7d").toList

/-- Small and simple numbers are the same everywhere. -/
theorem relayed_frame_eq_simple : ∃ e,
    PublishRequest.ofRequest [jsonHeader] (bodyOf "[0.1,-2.5e-7,1e22,-0.0]") = .ok e ∧
      e.frame = "event: n\ndata: [0.1,-2.5e-7,1e+22,-0.0]\n\n" ∧ e.carried.frame = e.frame := by
  cases haccepted : PublishRequest.ofRequest [jsonHeader] (bodyOf "[0.1,-2.5e-7,1e22,-0.0]") with
  | error response =>
    have hsome : (PublishRequest.ofRequest [jsonHeader]
      (bodyOf "[0.1,-2.5e-7,1e22,-0.0]")).toOption.isSome = true := by decide +kernel
    rw [haccepted] at hsome
    cases hsome
  | ok e =>
    have heval : (PublishRequest.ofRequest [jsonHeader]
        (bodyOf "[0.1,-2.5e-7,1e22,-0.0]")).toOption.all (fun e =>
          e.frame = "event: n\ndata: [0.1,-2.5e-7,1e+22,-0.0]\n\n" ∧
          ∀ d ∈ e.payload.doubles, (doubleNumeral d).decimal.digits < 2 ^ 53 ∧
            (doubleNumeral d).decimal.exponent.natAbs ≤ 22) = true := by decide +kernel
    rw [haccepted] at heval
    simp only [Except.toOption, Option.all_some, decide_eq_true_eq] at heval
    obtain ⟨hframe, hsimple⟩ := heval
    obtain ⟨_, hiff, hexact⟩ := relayed_frame_eq_iff haccepted
    exact ⟨e, rfl, hframe, hiff.mpr fun d hd => hexact d hd (hsimple d hd).1 (hsimple d hd).2⟩

/-- A double whose sixteen digits are rounded when they are read: the other servers write another
number than the server that is asked. -/
theorem data_changes_on_relay :
    ((PublishRequest.ofRequest [jsonHeader] (bodyOf "999999999999999.875")).toOption.map
      fun e => (e.frame, e.carried.frame)) =
        some ("event: n\ndata: 999999999999999.9\n\n",
          "event: n\ndata: 1000000000000000.0\n\n") := by
  decide +kernel

end Web

end EventHub
