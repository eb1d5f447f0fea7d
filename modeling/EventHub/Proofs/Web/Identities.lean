import EventHub.Proofs.Identity
import EventHub.Proofs.Text.Blank
import EventHub.Proofs.Web.Answers
import EventHub.Proofs.Web.OpenStreams
/-!
# Which client a request names

The identity of a request, as a relation between its target, its headers and the answer: the first
header of the name decides if it can be read and is not blank, and otherwise the last field of the
query does. So a request is turned away for that header only, whatever its query is. Every client of
a server has a name that is neither blank nor has white space at its ends.
-/

namespace EventHub.Web

/-! ## Headers and fields -/

def FirstValue (headers : List Header) (name : String) (value : List UInt8) : Prop :=
  ∃ before h after, headers = before ++ h :: after ∧
    lowerCase h.name = name ∧ h.value = value ∧
    ∀ h' ∈ before, lowerCase h'.name ≠ name

/-- A visible character of ASCII, a space or a tab. -/
def Readable (b : UInt8) : Prop := (0x21 ≤ b ∧ b ≤ 0x7E) ∨ b = 0x20 ∨ b = 0x09

def LastField (fields : List (List Char × List Char)) (name value : String) : Prop :=
  ∃ before after, fields = before ++ (name.toList, value.toList) :: after ∧
    ∀ field ∈ after, field.1 ≠ name.toList

variable {headers : List Header} {name : String} {value : List UInt8}

theorem header?_eq_some : header? headers name = some value ↔ FirstValue headers name value := by
  rw [header?, Option.map_eq_some_iff]
  constructor
  · rintro ⟨h, hfind, hvalue⟩
    obtain ⟨hname, before, after, hsplit, hbefore⟩ := List.find?_eq_some_iff_append.mp hfind
    exact ⟨before, h, after, hsplit, by simpa using hname, hvalue, by simpa using hbefore⟩
  · rintro ⟨before, h, after, hsplit, hname, hvalue, hbefore⟩
    exact ⟨h, List.find?_eq_some_iff_append.mpr
      ⟨by simpa using hname, before, after, hsplit, by simpa using hbefore⟩, hvalue⟩

theorem FirstValue.unique {value' : List UInt8} (hvalue : FirstValue headers name value)
    (hvalue' : FirstValue headers name value') : value = value' :=
  Option.some.inj ((header?_eq_some.mpr hvalue).symm.trans (header?_eq_some.mpr hvalue'))

theorem isVisibleText_eq_true : isVisibleText value = true ↔ ∀ b ∈ value, Readable b := by
  rw [isVisibleText, List.all_eq_true]
  refine forall₂_congr fun b _ => ?_
  simp only [Readable, Bool.or_eq_true, Bool.and_eq_true, decide_eq_true_eq]
  have hle {m n : UInt8} : m ≤ n ↔ m.toNat ≤ n.toNat := UInt8.le_iff_toNat_le
  have hlt {m n : UInt8} : m < n ↔ m.toNat < n.toNat := UInt8.lt_iff_toNat_lt
  simp only [hle, hlt, ← UInt8.toNat_inj, UInt8.reduceToNat]
  omega

variable {fields : List (List Char × List Char)} {field : List Char × List Char} {text : String}

theorem LastField.findRev?_eq (hfield : LastField fields name text) :
    fields.findRev? (fun p => p.1 = name.toList) = some (name.toList, text.toList) := by
  obtain ⟨before, after, rfl, hafter⟩ := hfield
  rw [List.findRev?_eq_find?_reverse, List.reverse_append, List.reverse_cons, List.append_assoc]
  refine List.find?_eq_some_iff_append.mpr ⟨by simp, after.reverse, before.reverse, rfl, ?_⟩
  simpa using hafter

theorem lastField_of_findRev? (hfind : fields.findRev? (fun p => p.1 = name.toList) = some field) :
    LastField fields name (String.ofList field.2) := by
  rw [List.findRev?_eq_find?_reverse] at hfind
  obtain ⟨hname, after, before, hsplit, hafter⟩ := List.find?_eq_some_iff_append.mp hfind
  have hname' : field.1 = name.toList := of_decide_eq_true hname
  refine ⟨before.reverse, after.reverse, ?_, by simpa using hafter⟩
  rw [String.toList_ofList, ← hname', ← List.reverse_reverse fields, hsplit,
    List.reverse_append,
    List.reverse_cons, List.append_assoc]
  rfl

/-! ## The answer -/

namespace ClientIdentity

variable {target : List Char} {client : ClientId}

def queryFields (target : List Char) : List (List Char × List Char) :=
  formFields ((query? target).getD [])

/-- The header, if the request has one, can be read and is blank. -/
def Unnamed (headers : List Header) : Prop :=
  ∀ value, FirstValue headers headerName value →
    (∀ b ∈ value, Readable b) ∧ Text.Trims (asciiText value) ""

/-- What a request is to be told about the identity of its client. -/
inductive Resolves (target : List Char) (headers : List Header) :
    Except Rejection (Option ClientId) → Prop where
  | unreadable {value : List UInt8} (hvalue : FirstValue headers headerName value) {b : UInt8}
      (hb : b ∈ value) (hbad : ¬ Readable b) :
      Resolves target headers (.error ⟨400, "x-client-id must be visible ASCII"⟩)
  | header {value : List UInt8} (hvalue : FirstValue headers headerName value)
      (hreadable : ∀ b ∈ value, Readable b) {client : ClientId}
      (htrims : Text.Trims (asciiText value) client) (hne : client ≠ "") :
      Resolves target headers (.ok (some client))
  | query (hunnamed : Unnamed headers) {text : String}
      (hfield : LastField (queryFields target) queryName text) {client : ClientId}
      (htrims : Text.Trims text client) (hne : client ≠ "") :
      Resolves target headers (.ok (some client))
  | anonymous (hunnamed : Unnamed headers)
      (hblank : ∀ text, LastField (queryFields target) queryName text → Text.Trims text "") :
      Resolves target headers (.ok none)

theorem nonBlank_of_trims (htrims : Text.Trims text client) (hne : client ≠ "") :
    nonBlank text = some client := by
  rw [nonBlank, Text.trim_of_trims htrims]
  exact if_neg (by rwa [String.isEmpty_iff])

theorem nonBlank_of_blank (hblank : Text.Trims text "") : nonBlank text = none := by
  rw [nonBlank, Text.trim_of_trims hblank]
  rfl

/-- A name is what is left of a text; otherwise nothing is left. -/
theorem nonBlank_cases (text : String) : nonBlank text = none ∧ Text.Trims text "" ∨
    ∃ client, nonBlank text = some client ∧ Text.Trims text client ∧ client ≠ "" := by
  have htrims := Text.trims_trim text
  by_cases hempty : Text.trim text = ""
  · rw [hempty] at htrims
    exact .inl ⟨nonBlank_of_blank htrims, htrims⟩
  · exact .inr ⟨_, nonBlank_of_trims htrims hempty, htrims, hempty⟩

theorem inQuery_of_lastField (hfield : LastField (queryFields target) queryName text) :
    inQuery target = nonBlank text := by
  have hfind := hfield.findRev?_eq
  rw [queryFields] at hfind
  rw [inQuery, hfind]
  exact congrArg nonBlank String.ofList_toList

theorem inQuery_of_blank
    (hblank : ∀ text, LastField (queryFields target) queryName text → Text.Trims text "") :
    inQuery target = none := by
  rw [inQuery]
  split
  · next hfind => exact nonBlank_of_blank (hblank _ (lastField_of_findRev? hfind))
  · rfl

/-- Either the last field of the query names a client, or there is none or it is blank. -/
theorem inQuery_cases (target : List Char) :
    (∃ text client, LastField (queryFields target) queryName text ∧ Text.Trims text client ∧
      client ≠ "") ∨
    ∀ text, LastField (queryFields target) queryName text → Text.Trims text "" := by
  by_cases hfield : ∃ text, LastField (queryFields target) queryName text
  · obtain ⟨text, hfield⟩ := hfield
    obtain ⟨-, hblank⟩ | ⟨client, -, htrims, hne⟩ := nonBlank_cases text
    · right
      intro text' hfield'
      have hsame := hfield.findRev?_eq.symm.trans hfield'.findRev?_eq
      obtain rfl : text = text' := String.toList_inj.mp (by simpa using hsame)
      exact hblank
    · exact .inl ⟨text, client, hfield, htrims, hne⟩
  · exact .inr fun text hfield' => absurd ⟨text, hfield'⟩ hfield

theorem resolve_of_unnamed (hunnamed : Unnamed headers) :
    resolve target headers = .ok (inQuery target) := by
  rw [resolve]
  cases hvalue : header? headers headerName with
  | none => rfl
  | some value =>
    obtain ⟨hreadable, hblank⟩ := hunnamed value (header?_eq_some.mp hvalue)
    dsimp only
    rw [if_pos (isVisibleText_eq_true.mpr hreadable), nonBlank_of_blank hblank]
    rfl

theorem resolve_of_resolves {answer : Except Rejection (Option ClientId)}
    (hresolves : Resolves target headers answer) : resolve target headers = answer := by
  cases hresolves with
  | unreadable hvalue hb hbad =>
    rw [resolve, header?_eq_some.mpr hvalue]
    exact if_neg fun hvisible => hbad (isVisibleText_eq_true.mp hvisible _ hb)
  | header hvalue hreadable htrims hne =>
    rw [resolve, header?_eq_some.mpr hvalue]
    dsimp only
    rw [if_pos (isVisibleText_eq_true.mpr hreadable), nonBlank_of_trims htrims hne]
    rfl
  | query hunnamed hfield htrims hne =>
    rw [resolve_of_unnamed hunnamed, inQuery_of_lastField hfield, nonBlank_of_trims htrims hne]
  | anonymous hunnamed hblank => rw [resolve_of_unnamed hunnamed, inQuery_of_blank hblank]

theorem exists_resolves (target : List Char) (headers : List Header) :
    ∃ answer, Resolves target headers answer := by
  by_cases hunnamed : Unnamed headers
  · obtain ⟨text, client, hfield, htrims, hne⟩ | hblank := inQuery_cases target
    · exact ⟨_, .query hunnamed hfield htrims hne⟩
    · exact ⟨_, .anonymous hunnamed hblank⟩
  · rw [Unnamed] at hunnamed
    push Not at hunnamed
    obtain ⟨value, hvalue, hnamed⟩ := hunnamed
    by_cases hreadable : ∀ b ∈ value, Readable b
    · obtain ⟨-, hblank⟩ | ⟨client, -, htrims, hne⟩ := nonBlank_cases (asciiText value)
      · exact absurd hblank (hnamed hreadable)
      · exact ⟨_, .header hvalue hreadable htrims hne⟩
    · push Not at hreadable
      obtain ⟨b, hb, hbad⟩ := hreadable
      exact ⟨_, .unreadable hvalue hb hbad⟩

/-- Each request is told one thing about the identity of its client. -/
theorem resolve_iff {answer : Except Rejection (Option ClientId)} :
    resolve target headers = answer ↔ Resolves target headers answer := by
  constructor
  · rintro rfl
    obtain ⟨answer, hresolves⟩ := exists_resolves target headers
    rwa [resolve_of_resolves hresolves]
  · exact resolve_of_resolves

/-- A request is turned away for what the header has, and for nothing else. -/
theorem resolve_fails_iff : (∃ rejection, resolve target headers = .error rejection) ↔
    ∃ value, FirstValue headers headerName value ∧ ∃ b ∈ value, ¬ Readable b := by
  constructor
  · rintro ⟨rejection, hresolve⟩
    cases resolve_iff.mp hresolve with
    | unreadable hvalue hb hbad => exact ⟨_, hvalue, _, hb, hbad⟩
  · rintro ⟨value, hvalue, b, hb, hbad⟩
    exact ⟨_, resolve_of_resolves (.unreadable hvalue hb hbad)⟩

end ClientIdentity

/-! ## The clients of a server -/

/-- A name for a client: it is not empty, and there is no white space at its ends. -/
def Named (client : ClientId) : Prop := client ≠ "" ∧ Text.Trimmed client.toList

theorem ClientIdentity.named_of_resolve {target : List Char} {client : ClientId}
    (hresolve : resolve target headers = .ok (some client)) : Named client := by
  cases resolve_iff.mp hresolve with
  | header _ _ htrims hne | query _ _ htrims hne =>
    obtain ⟨_, _, _, _, _, htrimmed⟩ := htrims
    exact ⟨hne, htrimmed⟩

theorem isBlank_of_isHexDigit {c : Char} (hc : isHexDigit c = true) : Text.isBlank c = false := by
  simp only [isHexDigit, Bool.or_eq_true, Bool.and_eq_true, decide_eq_true_eq] at hc
  have hrange : (48 ≤ c.toNat ∧ c.toNat ≤ 57) ∨ (97 ≤ c.toNat ∧ c.toNat ≤ 102) := hc
  simp [Text.isBlank, Text.inRanges, Text.blankRanges]
  omega

theorem named_anonymous (n : Nat) : Named ("anonymous-" ++ generated n) := by
  obtain ⟨d, hlast, hdigit⟩ := exists_getLast?_of_isGenerated (isGenerated_generated n)
  have hhead : ("anonymous-" ++ generated n).toList.head? = some 'a' := by
    rw [String.toList_append]
    rfl
  refine ⟨fun hempty => ?_, fun c hc => ?_⟩
  · rw [hempty] at hhead
    cases hhead
  · rw [hhead, getLast?_append _ hlast] at hc
    obtain hc | hc := hc <;> cases hc
    · decide
    · exact isBlank_of_isHexDigit hdigit

namespace Server

variable {s s' : Server}

/-- What can happen next on a server whose clients come with requests: one of them is identified and
connects, or else nobody comes. -/
inductive RequestStep : Server → Server → Prop where
  | visit {s s' : Server} {r : Request} {client : ClientId}
      (hclient : s.clientOf r = .ok (s', client)) (id : ConnectionId) (lastEventId : Option String)
      (hid : ∀ x ∈ s'.machine.cluster.connections, x.id ≠ id) :
      RequestStep s ((s'.connect id client lastEventId).1.begin
        (s'.connect id client lastEventId).2)
  | other {s s' : Server} (hstep : Step s s')
      (hnobody : s'.cluster.connections.length = s.cluster.connections.length) : RequestStep s s'

def RequestRun : Server → Server → Prop := Relation.ReflTransGen RequestStep

structure Identified (s : Server) : Prop where
  resolver : s.resolver = .standard
  clients : ∀ x ∈ s.cluster.connections, Named x.client

theorem Step.resolver_eq (hstep : Step s s') : s'.resolver = s.resolver := by
  cases hstep with
  | task stopFirst i =>
    rw [stepTask]
    split <;> rfl
  | read choice number =>
    rw [readStream]
    split <;> rfl
  | drop number =>
    rw [dropStream]
    split <;> rfl
  | _ => rfl

theorem Identified.named_of_clientOf (hidentified : s.Identified) {r : Request} {client : ClientId}
    (hclient : s.clientOf r = .ok (s', client)) : Named client ∧ s'.resolver = s.resolver := by
  rw [clientOf, identify, hidentified.resolver] at hclient
  cases hresolve : ClientIdentity.resolve r.target r.headers with
  | error rejection =>
    rw [hresolve] at hclient
    cases hclient
  | ok client? =>
    rw [hresolve] at hclient
    cases client? with
    | none =>
      cases hclient
      exact ⟨named_anonymous s.nextName, rfl⟩
    | some client =>
      cases hclient
      exact ⟨ClientIdentity.named_of_resolve hresolve, rfl⟩

theorem RequestStep.keeps (hstep : RequestStep s s') (hinv : Inv s) (hidentified : s.Identified) :
    Inv s' ∧ s'.Identified := by
  cases hstep with
  | @visit s₁ r client hclient id lastEventId hid =>
    obtain ⟨hrun, hmachine, -⟩ := run_clientOf hclient
    obtain ⟨hnamed, hresolver⟩ := hidentified.named_of_clientOf hclient
    have hconnections := (comes_connect s₁ id client lastEventId).connections
    refine ⟨((Run.inv hrun hinv).connect hid client lastEventId).inv,
      hresolver.trans hidentified.resolver, fun x hx => ?_⟩
    rw [hconnections, cluster, hmachine, List.mem_append, List.mem_singleton] at hx
    obtain hx | rfl := hx
    · exact hidentified.clients x hx
    · exact hnamed
  | other hstep hnobody =>
    have hkeeps := hstep.keeps hinv
    refine ⟨hkeeps.inv, hstep.resolver_eq.trans hidentified.resolver, fun x' hx' => ?_⟩
    obtain ⟨h, hh⟩ := List.mem_iff_getElem?.mp hx'
    have hfades : Cluster.Fades s.cluster s'.cluster := ⟨hkeeps.grows, hnobody⟩
    obtain ⟨x, hx, hfaded⟩ := hfades.exists_before hh
    exact hfaded.client_eq ▸ hidentified.clients x (List.mem_of_getElem? hx)

theorem RequestRun.keeps {s₀ : Server} (hrun : RequestRun s₀ s) (hinv : Inv s₀)
    (hidentified : s₀.Identified) : Inv s ∧ s.Identified := by
  induction hrun with
  | refl => exact ⟨hinv, hidentified⟩
  | tail _ hstep ih => exact hstep.keeps ih.1 ih.2

theorem Identified.members (hidentified : s.Identified) (hinv : Inv s) :
    ∀ m ∈ s.registry.members, Named m.client := by
  intro m hm
  obtain ⟨x, hx, hmember⟩ := Option.map_eq_some_iff.mp (hinv.located.member m hm)
  exact congrArg Member.client hmember ▸ hidentified.clients x (List.mem_of_getElem? hx)

open ClientIdentity in
/-- A request is turned away exactly if the first header of the name has a byte that cannot be read;
otherwise its client is named by what is left of that header without white space around it, or, if
nothing is left, of the last field of the query. So no connection, and nobody in the registry, has a
blank or an untrimmed name, however the query of its request was written. -/
theorem clients_named :
    (∀ target headers answer, resolve target headers = answer ↔
      Resolves target headers answer) ∧
    (∀ target headers, (∃ rejection, resolve target headers = .error rejection) ↔
      ∃ value, FirstValue headers headerName value ∧ ∃ b ∈ value, ¬ Readable b) ∧
    ∀ s₀ s : Server, Starts s₀ → s₀.resolver = .standard → RequestRun s₀ s →
      (∀ x ∈ s.cluster.connections, Named x.client) ∧
      (∀ m ∈ s.registry.members, Named m.client) ∧
      ∀ client, ¬ Named client → s.registry.membersOf client = [] := by
  refine ⟨fun _ _ _ => resolve_iff, fun _ _ => resolve_fails_iff,
    fun s₀ s hstarts hresolver hrun => ?_⟩
  have hidentified : s₀.Identified := by
    refine ⟨hresolver, fun x hx => ?_⟩
    rw [hstarts.connections] at hx
    cases hx
  obtain ⟨hinv, hidentified⟩ := hrun.keeps hstarts.inv hidentified
  refine ⟨hidentified.clients, hidentified.members hinv, fun client hunnamed => ?_⟩
  refine List.eq_nil_iff_forall_not_mem.mpr fun m hm => hunnamed ?_
  obtain ⟨hmember, rfl⟩ := hinv.located.agrees.mem_membersOf.mp hm
  exact hidentified.members hinv m hmember

/-- A blank header gives way to the last field of the query, a percent sign there without digits
and a byte that is no text included; a header that cannot be read does not. -/
theorem clients_named_escaped :
    ClientIdentity.resolve "/sse?client_id=a&client_id=+b%zz%FF".toList
        [⟨"X-Client-Id", [0x20, 0x09]⟩, ⟨"x-client-id", [0xFF]⟩] =
          .ok (some "b%zz\ufffd") ∧
      (∃ rejection, ClientIdentity.resolve "/sse?client_id=a".toList
        [⟨"X-Client-Id", [0xFF]⟩] = .error rejection) ∧
      visited.registry.membersOf " x" = [] := by
  obtain ⟨hanswers, hfails, hnamed⟩ := clients_named
  refine ⟨(hanswers _ _ _).mpr ?_, (hfails _ _).mpr ?_, ?_⟩
  · have hunnamed : ClientIdentity.Unnamed
        [⟨"X-Client-Id", [0x20, 0x09]⟩, ⟨"x-client-id", [0xFF]⟩] := by
      intro value hvalue
      obtain rfl : value = [0x20, 0x09] :=
        hvalue.unique ⟨[], ⟨"X-Client-Id", [0x20, 0x09]⟩, _, rfl, by decide, rfl, by simp⟩
      exact ⟨isVisibleText_eq_true.mp (by decide), Text.trim_eq_iff.mp (by decide)⟩
    have hfield : LastField
        (ClientIdentity.queryFields "/sse?client_id=a&client_id=+b%zz%FF".toList)
        ClientIdentity.queryName " b%zz\ufffd" :=
      ⟨[("client_id".toList, ['a'])], [], by decide +kernel, by simp⟩
    exact .query hunnamed hfield (Text.trim_eq_iff.mp (by decide)) (by decide)
  · exact ⟨[0xFF], ⟨[], ⟨"X-Client-Id", [0xFF]⟩, [], rfl, by decide, rfl, by simp⟩, 0xFF,
      List.mem_singleton_self _, by simp [Readable]⟩
  · have hstarts : Starts lone := ⟨⟨_, rfl, rfl⟩, rfl, rfl, rfl⟩
    have hclient : lone.clientOf { target := "/sse?client_id=x".toList } = .ok (lone, "x") := by
      have hresolve : ClientIdentity.resolve "/sse?client_id=x".toList [] = .ok (some "x") := by
        decide +kernel
      rw [clientOf, identify, show lone.resolver = .standard from rfl]
      dsimp only
      rw [hresolve]
      rfl
    have hvisit : RequestStep lone _ := .visit hclient ⟨"a"⟩ none (by simp [lone])
    have hrun : RequestRun lone visited :=
      (Relation.ReflTransGen.single hvisit).tail (.other (.task _ true 0) rfl)
    refine (hnamed lone visited hstarts rfl hrun).2.2 " x" fun hspace => ?_
    exact absurd (hspace.2 ' ' (.inl rfl)) (by decide)

end Server

end EventHub.Web
