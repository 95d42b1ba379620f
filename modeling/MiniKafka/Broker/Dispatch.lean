import MiniKafka.Net.Session
import MiniKafka.Protocol.RoundTrip

/-!
# From frames to handlers

`Broker::handle` chooses a handler by the type of the request, and each handler decodes its
payload, does its work and encodes the response under the correlation id of the request.
Through a session the calls of a client are then those of the typed handlers, whatever the
connection does to the bytes.
-/

namespace MiniKafka.Broker

open Common Foundations Net Protocol

variable {σ : Type}

/-- `enum class RequestType`. -/
inductive RequestType
  | produce
  | fetch
  | metadata
  | replicate
  | brokerHeartbeat
  | leaderAndISR
  | requestVote
  | controllerHeartbeat
  | isrUpdate
  | joinGroup
  | syncGroup
  | heartbeat
  | leaveGroup
  | commitOffset
  | fetchOffset
  | findCoordinator
  | createTopic
  deriving DecidableEq, Repr

namespace RequestType

def code : RequestType → UInt16
  | .produce => 1
  | .fetch => 2
  | .metadata => 3
  | .replicate => 10
  | .brokerHeartbeat => 11
  | .leaderAndISR => 12
  | .requestVote => 13
  | .controllerHeartbeat => 14
  | .isrUpdate => 15
  | .joinGroup => 20
  | .syncGroup => 21
  | .heartbeat => 22
  | .leaveGroup => 23
  | .commitOffset => 24
  | .fetchOffset => 25
  | .findCoordinator => 26
  | .createTopic => 27

/-- The cases of the switch in `handle`. -/
def switch : List RequestType :=
  [.produce, .fetch, .metadata, .createTopic, .findCoordinator, .joinGroup, .syncGroup,
    .heartbeat, .leaveGroup, .commitOffset, .fetchOffset, .requestVote, .controllerHeartbeat,
    .brokerHeartbeat, .leaderAndISR, .replicate, .isrUpdate]

def ofCode (requestType : UInt16) : Option RequestType :=
  switch.find? fun t => t.code = requestType

theorem ofCode_code (t : RequestType) : ofCode t.code = some t := by
  cases t <;> rfl

/-- What the handler decodes. -/
def request : RequestType → MessageType
  | .produce => .produceRequest
  | .fetch => .fetchRequest
  | .metadata => .metadataRequest
  | .replicate => .replicaFetchRequest
  | .brokerHeartbeat => .brokerHeartbeatRequest
  | .leaderAndISR => .leaderAndISRRequest
  | .requestVote => .requestVoteRequest
  | .controllerHeartbeat => .controllerHeartbeatRequest
  | .isrUpdate => .isrUpdateRequest
  | .joinGroup => .joinGroupRequest
  | .syncGroup => .syncGroupRequest
  | .heartbeat => .heartbeatRequest
  | .leaveGroup => .leaveGroupRequest
  | .commitOffset => .commitOffsetRequest
  | .fetchOffset => .fetchOffsetRequest
  | .findCoordinator => .findCoordinatorRequest
  | .createTopic => .createTopicRequest

/-- What the handler encodes; a fetch of a replica is answered like one of a consumer. -/
def response : RequestType → MessageType
  | .produce => .produceResponse
  | .fetch => .fetchResponse
  | .metadata => .metadataResponse
  | .replicate => .fetchResponse
  | .brokerHeartbeat => .brokerHeartbeatResponse
  | .leaderAndISR => .leaderAndISRResponse
  | .requestVote => .requestVoteResponse
  | .controllerHeartbeat => .controllerHeartbeatResponse
  | .isrUpdate => .isrUpdateResponse
  | .joinGroup => .joinGroupResponse
  | .syncGroup => .syncGroupResponse
  | .heartbeat => .heartbeatResponse
  | .leaveGroup => .leaveGroupResponse
  | .commitOffset => .commitOffsetResponse
  | .fetchOffset => .fetchOffsetResponse
  | .findCoordinator => .findCoordinatorResponse
  | .createTopic => .createTopicResponse

abbrev Request (t : RequestType) : Type := t.request.codec.Message

abbrev Response (t : RequestType) : Type := t.response.codec.Message

end RequestType

/-- The handlers between decoding and encoding. One that throws, as file operations do, may
have changed the state. -/
abbrev Service (σ : Type) :=
  (t : RequestType) → t.Request → σ → Except NetError t.Response × σ

/-- What the `handle_` functions share. -/
def handleAs (service : Service σ) (t : RequestType) (req : RequestFrame) (s : σ) :
    Except NetError ResponseFrame × σ :=
  match t.request.codec.decode.run ⟨req.payload, 0⟩ with
  | .error e => (.error (.decode e), s)
  | .ok (m, _) =>
      let (answer, s) := service t m s
      (answer.map fun resp => ⟨req.correlationId, t.response.codec.encode resp⟩, s)

/-- `Broker::handle`. -/
def handle (service : Service σ) : Handler σ := fun req s =>
  match RequestType.ofCode req.requestType with
  | some t => handleAs service t req s
  | none => (.ok ⟨req.correlationId, putErrorCode .unknownRequestType⟩, s)

/-- A call of a client, with the correlation id it gives it. -/
structure Call where
  type : RequestType
  correlationId : UInt32
  request : type.Request

/-- The response to a call under its correlation id. -/
structure Reply where
  type : RequestType
  correlationId : UInt32
  response : type.Response

namespace Call

def frame (c : Call) : RequestFrame :=
  ⟨c.type.code, c.correlationId, c.type.request.codec.encode c.request⟩

/-- The lengths in the request and the length of the frame fit their fields. -/
structure Fits (c : Call) : Prop where
  request : c.type.request.codec.Fits c.request
  frame : (requestBody c.frame).length < 2 ^ 32

end Call

def Reply.frame (r : Reply) : ResponseFrame :=
  ⟨r.correlationId, r.type.response.codec.encode r.response⟩

/-- What a client decodes from the frame that answers a call of type `t`. -/
def decodeReply (t : RequestType) (f : ResponseFrame) : Except DecodeError t.Response :=
  (t.response.codec.decode.run ⟨f.payload, 0⟩).map Prod.fst

/-- A call on the typed handlers. -/
def serveCall (service : Service σ) (c : Call) (s : σ) : Except NetError Reply × σ :=
  let (answer, s) := service c.type c.request s
  (answer.map fun resp => ⟨c.type, c.correlationId, resp⟩, s)

section Dispatch

variable {service : Service σ} {c : Call} {s : σ}

/-- A payload its type cannot be decoded from ends the session and changes nothing. -/
theorem handle_malformed {req : RequestFrame} {t : RequestType} {e : DecodeError}
    (ht : req.requestType = t.code) (h : t.request.codec.decode.run ⟨req.payload, 0⟩ = .error e) :
    handle service req s = (.error (.decode e), s) := by
  rw [handle, ht, RequestType.ofCode_code]
  change handleAs service t req s = _
  rw [handleAs, h]

/-- A request that fits is decoded as it was, and handled as its type. -/
theorem handle_frame (h : c.Fits) :
    handle service c.frame s =
      ((serveCall service c s).1.map Reply.frame, (serveCall service c s).2) := by
  have hread := (c.type.request.delimits h.request).reads [] 0
  rw [List.append_nil] at hread
  have hcode : RequestType.ofCode c.frame.requestType = some c.type :=
    RequestType.ofCode_code c.type
  rw [handle, hcode]
  change handleAs service c.type c.frame s = _
  have hpayload : c.frame.payload = c.type.request.codec.encode c.request := rfl
  rw [handleAs, hpayload, hread, serveCall]
  dsimp only
  cases service c.type c.request s with
  | mk answer t => cases answer <;> rfl

/-- A call that was answered was answered by its handler. -/
theorem handle_answered {answer : ResponseFrame} {s' : σ} (h : c.Fits)
    (hanswer : handle service c.frame s = (.ok answer, s')) :
    ∃ resp, service c.type c.request s = (.ok resp, s') ∧
      answer = Reply.frame ⟨c.type, c.correlationId, resp⟩ := by
  rw [handle_frame h, serveCall] at hanswer
  cases hserve : service c.type c.request s with
  | mk result t =>
      rw [hserve] at hanswer
      cases result with
      | error e => cases hanswer
      | ok resp =>
          cases hanswer
          exact ⟨resp, rfl, rfl⟩

/-- A response that fits is decoded as it was. -/
theorem decodeReply_frame {r : Reply} (h : r.type.response.codec.Fits r.response) :
    decodeReply r.type r.frame = .ok r.response := by
  have hread := (r.type.response.delimits h).reads [] 0
  rw [List.append_nil] at hread
  rw [decodeReply, Reply.frame, hread]
  rfl

end Dispatch

/-! ## Calls over a connection -/

/-- What a client has of its calls: the replies to the first of those that were handled. -/
structure Replied (service : Service σ) (s s' : σ) (calls handled : List Call)
    (replies : List Reply) (back : Incoming) : Prop where
  first : handled <+: calls
  state : s' = (answerEach (serveCall service) handled s).2
  answers : replies <+: (answerEach (serveCall service) handled s).1
  /-- They come in the order of the calls, under their types and ids. -/
  paired : replies.map (fun r => (r.type, r.correlationId)) <+:
    calls.map fun c => (c.type, c.correlationId)
  read : ∃ back', (collect readResponseFrame replies.length).run back =
      .ok (replies.map Reply.frame, back') ∧
    ∀ f next, readResponseFrame.run back' ≠ .ok (f, next)
  decoded : ∀ r ∈ replies, r.type.response.codec.Fits r.response →
    decodeReply r.type r.frame = .ok r.response

variable {service : Service σ} {calls : List Call} {conn back : Incoming} {out : Outgoing}
  {clientAnswers : List SendAnswer} {s : σ}

theorem answerEach_calls (fits : ∀ c ∈ calls, c.Fits) :
    answerEach (handle service) (calls.map Call.frame) s =
      ((answerEach (serveCall service) calls s).1.map Reply.frame,
        (answerEach (serveCall service) calls s).2) :=
  answerEach_image (fun c hc _ => handle_frame (fits c hc)) s

theorem serveCall_paired {c : Call} {t t' : σ} {r : Reply}
    (h : serveCall service c t = (.ok r, t')) :
    (r.type, r.correlationId) = (c.type, c.correlationId) := by
  rw [serveCall] at h
  cases hserve : service c.type c.request t with
  | mk answer t' =>
      rw [hserve] at h
      cases answer with
      | error e => cases h
      | ok resp =>
          cases h
          rfl

/-- A client writes calls to a connection that a session of the broker serves, and reads what
comes back. Wherever the connection breaks, it has the replies of the typed handlers to its
first calls, in their order; the broker's state is what these handlers make of them and of
perhaps some more of the calls. Where it does not break, all are handled and replied to. -/
theorem calls_replied (fits : ∀ c ∈ calls, c.Fits)
    (small : ∀ r ∈ (answerEach (serveCall service) calls s).1,
      (responseBody r.frame).length < 2 ^ 32)
    (arrived : conn.coming <+:
      (writeEach writeRequestFrame (calls.map Call.frame) ⟨[], clientAnswers⟩).2.sent)
    (hout : out.sent = [])
    (returned : back.coming <+: (session (handle service) conn out s).out.sent) :
    ∃ handled replies,
      Replied service s (session (handle service) conn out s).state calls handled replies back ∧
      (conn.coming = requestStream (calls.map Call.frame) → out.Reliable →
        back.coming = (session (handle service) conn out s).out.sent →
          handled = calls ∧ replies = (answerEach (serveCall service) calls s).1) := by
  have hframes : ∀ f ∈ calls.map Call.frame, (requestBody f).length < 2 ^ 32 := by
    intro f hf
    obtain ⟨c, hc, rfl⟩ := List.mem_map.mp hf
    exact (fits c hc).frame
  have hsmall : ∀ f ∈ (answerEach (handle service) (calls.map Call.frame) s).1,
      (responseBody f).length < 2 ^ 32 := by
    rw [answerEach_calls fits]
    intro f hf
    obtain ⟨r, hr, rfl⟩ := List.mem_map.mp hf
    exact small r hr
  obtain ⟨frames, got, hexchanged, hall⟩ :=
    session_exchanges hframes hsmall arrived hout returned
  obtain ⟨handled, hhandled, rfl⟩ := List.prefix_map_iff.mp hexchanged.first
  have hfits : ∀ c ∈ handled, c.Fits := fun c hc => fits c (hhandled.subset hc)
  have hanswers := hexchanged.answers
  have hstate := hexchanged.state
  rw [answerEach_calls hfits] at hanswers hstate
  obtain ⟨replies, hreplies, rfl⟩ := List.prefix_map_iff.mp hanswers
  refine ⟨handled, replies, ⟨hhandled, hstate, hreplies, ?_, ?_, ?_⟩, ?_⟩
  · have hpaired : (answerEach (serveCall service) handled s).1.map
        (fun r => (r.type, r.correlationId)) <+:
          handled.map fun c => (c.type, c.correlationId) := by
      apply answerEach_map
      intro c t r t' h
      exact serveCall_paired h
    exact ((hreplies.map _).trans hpaired).trans (hhandled.map _)
  · rw [← List.length_map Reply.frame]
    exact hexchanged.read
  · intro r _ hr
    exact decodeReply_frame hr
  · intro hwhole hreliable hback
    obtain ⟨hsame, hgot⟩ := hall hwhole hreliable hback
    have hlen := congrArg List.length hsame
    rw [List.length_map, List.length_map] at hlen
    have hhandledAll := hhandled.eq_of_length hlen
    subst hhandledAll
    rw [answerEach_calls hfits] at hgot
    have hcount := congrArg List.length hgot
    rw [List.length_map, List.length_map] at hcount
    exact ⟨rfl, hreplies.eq_of_length hcount⟩

end MiniKafka.Broker
