import EventHub.Proofs.Text.Split
import EventHub.Proofs.Web.Identities
import EventHub.Proofs.Web.Targets
/-!
# Requests that name clients

A client may be named in the query of a request or in a header, and as a segment of a path. Each of
the three has a reader of its own; whatever the name is, they agree on it.
-/

namespace EventHub.Web

open Text (splitAll splitFirst)
open ClientIdentity (headerName queryName)

variable {client : ClientId} {r : Request}

/-! ## Requests that name a client -/

def SetsClient (query : List Char) (client : ClientId) : Prop :=
  ∃ before after,
    splitAll '&' query = before ++ (queryName.toList ++ '=' :: encodedName client) :: after ∧
    ∀ part ∈ after, formDecode (splitFirst '=' part).1 ≠ queryName.toList

def VisibleAscii (client : ClientId) : Prop :=
  ∀ c ∈ client.toList, (0x20 ≤ c.toNat ∧ c.toNat < 0x7F) ∨ c.toNat = 0x09

/-- The request asks for a stream of the client, which it names in the query or in the header. -/
inductive OpensFor (client : ClientId) (r : Request) : Prop where
  | query (hmethod : r.method = "GET") (hpath : path r.target = "/sse".toList)
      (hheader : ∀ h ∈ r.headers, lowerCase h.name ≠ headerName) {query : List Char}
      (hquery : query? r.target = some query) (hsets : SetsClient query client)
  | header (hmethod : r.method = "GET") (hpath : path r.target = "/sse".toList)
      (hvisible : VisibleAscii client)
      (hvalue : FirstValue r.headers headerName (Text.Utf8.encode client.toList))

structure PublishesTo (client : ClientId) (r : Request) : Prop where
  method : r.method = "POST"
  path_eq : path r.target = "/events/".toList ++ encodedName client

/-! ## Plain targets -/

def streamTarget (client : ClientId) : List Char :=
  "/sse".toList ++ '?' :: (queryName.toList ++ '=' :: encodedName client)

def eventsTarget (client : ClientId) : List Char := "/events/".toList ++ encodedName client

theorem withoutFragment_streamTarget (client : ClientId) :
    withoutFragment (streamTarget client) = streamTarget client := by
  have hfront : '#' ∉ streamTarget client := by
    simp only [streamTarget, List.mem_append, List.mem_cons, not_or]
    exact ⟨by decide, by decide, by decide, by decide, separator_not_mem (by decide)⟩
  rw [withoutFragment, Text.splitFirst_of_not_mem hfront]

theorem path_streamTarget (client : ClientId) : path (streamTarget client) = "/sse".toList := by
  rw [path, withoutFragment_streamTarget, streamTarget, Text.splitFirst_append (by decide)]
  rfl

theorem query?_streamTarget (client : ClientId) :
    query? (streamTarget client) = some (queryName.toList ++ '=' :: encodedName client) := by
  rw [query?, withoutFragment_streamTarget, streamTarget, Text.splitFirst_append (by decide)]

theorem path_eventsTarget (client : ClientId) :
    path (eventsTarget client) = eventsTarget client := by
  have hnone (c : Char) (hc : c ∈ separators) (hstart : c ∉ "/events/".toList) :
      c ∉ eventsTarget client := List.not_mem_append hstart (separator_not_mem hc)
  rw [path, withoutFragment,
    Text.splitFirst_of_not_mem (hnone '#' (by decide) (by decide)),
    Text.splitFirst_of_not_mem (hnone '?' (by decide) (by decide))]
  rfl

theorem opensFor_streamTarget (client : ClientId) {headers : List Header} (body : List UInt8)
    (hheaders : ∀ h ∈ headers, lowerCase h.name ≠ headerName) :
    OpensFor client ⟨"GET", streamTarget client, headers, body⟩ := by
  refine .query rfl (path_streamTarget client) hheaders (query?_streamTarget client)
    ⟨[], [], Text.splitAll_of_not_mem ?_, fun part hpart => absurd hpart List.not_mem_nil⟩
  simp only [List.mem_append, List.mem_cons, not_or]
  exact ⟨by decide, by decide, separator_not_mem (by decide)⟩

theorem publishesTo_eventsTarget (client : ClientId) (headers : List Header) (body : List UInt8) :
    PublishesTo client ⟨"POST", eventsTarget client, headers, body⟩ :=
  ⟨rfl, path_eventsTarget client⟩

/-! ## The client of a request -/

theorem lastField_of_sets {query : List Char} (hsets : SetsClient query client) :
    LastField (formFields query) queryName client := by
  obtain ⟨before, after, hsplit, hafter⟩ := hsets
  let fieldOf (part : List Char) : List Char × List Char :=
    (formDecode (splitFirst '=' part).1, formDecode ((splitFirst '=' part).2.getD []))
  have hown : fieldOf (queryName.toList ++ '=' :: encodedName client) =
      (queryName.toList, client.toList) := by
    have hname : formDecode queryName.toList = queryName.toList := by decide +kernel
    simp only [fieldOf]
    rw [Text.splitFirst_append (by decide), Option.getD_some, formDecode_encodedName, hname]
  refine ⟨(before.filter fun part => !part.isEmpty).map fieldOf,
    (after.filter fun part => !part.isEmpty).map fieldOf, ?_, fun field hfield => ?_⟩
  · rw [← hown, ← List.map_cons, ← List.map_append, formFields, hsplit, List.filter_append,
      List.filter_cons_of_pos (by simp)]
  · obtain ⟨part, hpart, rfl⟩ := List.mem_map.mp hfield
    exact hafter part (List.mem_of_mem_filter hpart)

theorem asciiText_encode (hvisible : VisibleAscii client) :
    asciiText (Text.Utf8.encode client.toList) = client := by
  have hascii (c : Char) (hc : c ∈ client.toList) : c.toNat < 0x80 := by
    have := hvisible c hc
    omega
  rw [asciiText, Text.Utf8.encode_ascii hascii, List.map_map]
  refine (congrArg String.ofList ((List.map_congr_left fun c hc => ?_).trans
    (List.map_id _))).trans String.ofList_toList
  have hc := hascii c hc
  rw [Function.comp_apply, UInt8.toNat_ofNat', Nat.mod_eq_of_lt (by omega), Char.ofNat_toNat]
  rfl

theorem readable_encode (hvisible : VisibleAscii client) :
    ∀ b ∈ Text.Utf8.encode client.toList, Readable b := by
  intro b hb
  rw [Text.Utf8.encode_ascii fun c hc => by have := hvisible c hc; omega, List.mem_map] at hb
  obtain ⟨c, hc, rfl⟩ := hb
  have hc := hvisible c hc
  have hvalue : (UInt8.ofNat c.toNat).toNat = c.toNat := by
    rw [UInt8.toNat_ofNat']
    omega
  simp only [Readable, UInt8.le_iff_toNat_le, ← UInt8.toNat_inj, UInt8.reduceToNat, hvalue]
  omega

theorem trims_self (hnamed : Named client) : Text.Trims client client :=
  Text.trim_eq_iff.mp (Text.trim_eq_self hnamed.2)

theorem OpensFor.resolve_eq (hopens : OpensFor client r) (hnamed : Named client) :
    ClientIdentity.resolve r.target r.headers = .ok (some client) := by
  rw [ClientIdentity.resolve_iff]
  cases hopens with
  | query hmethod hpath hheader hquery hsets =>
    refine .query (fun value hvalue => ?_) ?_ (trims_self hnamed) hnamed.1
    · obtain ⟨before, h, after, hsplit, hname, -⟩ := hvalue
      refine absurd hname (hheader h ?_)
      rw [hsplit]
      exact List.mem_append_right _ List.mem_cons_self
    · rw [ClientIdentity.queryFields, hquery]
      exact lastField_of_sets hsets
  | header hmethod hpath hvisible hvalue =>
    refine .header hvalue (readable_encode hvisible) ?_ hnamed.1
    rw [asciiText_encode hvisible]
    exact trims_self hnamed

theorem ofPath?_encodedName (hne : client ≠ "") :
    Route.ofPath? ("/events/".toList ++ encodedName client) =
      some (.publishTo (encodedName client)) := by
  have hother {p : List Char} (hp : ¬ Route.publishToStart <+: p) :
      "/events/".toList ++ encodedName client ≠ p := by
    rintro rfl
    exact hp (List.prefix_append _ _)
  have hslash : (encodedName client).contains '/' = false := by
    rw [Bool.eq_false_iff, ne_eq, List.contains_iff_mem]
    exact separator_not_mem (by decide)
  have hfull : (encodedName client).isEmpty = false := by
    rw [Bool.eq_false_iff, ne_eq, List.isEmpty_iff]
    exact encodedName_ne_nil hne
  have hbegins : Route.publishToStart.isPrefixOf ("/events/".toList ++ encodedName client) = true :=
    List.isPrefixOf_iff_prefix.mpr (List.prefix_append _ _)
  rw [Route.ofPath?, if_neg (hother (by decide)), if_neg (hother (by decide)),
    if_neg (hother (by decide)), if_neg (hother (by decide)), hbegins]
  have hdrop : ("/events/".toList ++ encodedName client).drop Route.publishToStart.length =
      encodedName client := List.drop_left
  simp only [hdrop, hslash, hfull, Bool.not_false, Bool.and_self, if_true]

namespace Server

variable {s : Server}

/-- The origin of a request that is no `OPTIONS` adds headers to the answer and nothing else. -/
theorem answerOrigin_eq (hoptions : r.method ≠ "OPTIONS") :
    (s.answerOrigin r).1 = (s.answerPlain r).1 ∧
      (s.answerOrigin r).2.map (·.status) = (s.answerPlain r).2.map (·.status) ∧
      (s.answerOrigin r).2.map (·.body) = (s.answerPlain r).2.map (·.body) := by
  rw [answerOrigin]
  cases s.origins with
  | none => exact ⟨rfl, rfl, rfl⟩
  | some origins =>
    dsimp only
    rw [if_neg hoptions]
    obtain ⟨s', _ | response⟩ := s.answerPlain r <;> exact ⟨rfl, rfl, rfl⟩

/-- The answer to a request that is no `HEAD` or `OPTIONS` leaves the server as its route does. -/
theorem respond_eq (hhead : r.method ≠ "HEAD") (hoptions : r.method ≠ "OPTIONS") :
    (s.respond r).1 = (s.answerPlain r).1 ∧
      (s.respond r).2.map (·.status) = (s.answerPlain r).2.map (·.status) ∧
      (s.respond r).2.map (·.body) = (s.answerPlain r).2.map (·.body) := by
  have hlength (response : Response) : response.withLength.status = response.status ∧
      response.withLength.body = response.body := by
    rw [Response.withLength]
    split <;> exact ⟨rfl, rfl⟩
  obtain ⟨hleft, hstatus, hbody⟩ := answerOrigin_eq (s := s) hoptions
  rw [← hleft, ← hstatus, ← hbody, respond]
  obtain ⟨s', _ | response⟩ := s.answerOrigin r
  · exact ⟨rfl, rfl, rfl⟩
  · simp only [if_neg hhead, Option.map_some, hlength]
    exact ⟨trivial, rfl, rfl⟩

theorem answerPlain_of_opens (hopens : OpensFor client r) : s.answerPlain r = s.openStream r := by
  obtain ⟨hmethod, hpath⟩ : r.method = "GET" ∧ path r.target = "/sse".toList := by
    cases hopens <;> exact ⟨‹_›, ‹_›⟩
  rw [answerPlain, hpath]
  show (if Route.stream.methods.contains r.method then s.openStream r else _) = _
  rw [hmethod]
  rfl

theorem answerPlain_of_publishes (hpublishes : PublishesTo client r) (hne : client ≠ "") :
    s.answerPlain r = s.publish (some client) r := by
  rw [answerPlain, hpublishes.path_eq, ofPath?_encodedName hne]
  dsimp only
  rw [hpublishes.method, answerRoute, client?_encodedName]
  rfl

theorem clientOf_of_opens (hopens : OpensFor client r) (hnamed : Named client)
    (hresolver : s.resolver = .standard) : s.clientOf r = .ok (s, client) := by
  rw [clientOf, identify, hresolver]
  dsimp only
  rw [hopens.resolve_eq hnamed]
  rfl

end Server

end EventHub.Web
