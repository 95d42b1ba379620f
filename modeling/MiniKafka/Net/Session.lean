import MiniKafka.Foundations.Serving
import MiniKafka.Net.FrameStream
import MiniKafka.Storage.RecoveryScan

/-!
# Sessions of a server

`TcpServer::session` reads frames from one connection, hands each to the handler of the
server and writes the answer, until one of these throws. A connection may break in either
direction at any byte; what the client reads are nevertheless the answers to its first
requests, in the order in which it sent them.
-/

namespace MiniKafka.Net

open Foundations Common Storage

variable {σ : Type}

/-- A handler answers or throws, and leaves a state either way. The state is all it depends
on, so it also stands for what other sessions do between two calls. -/
abbrev Handler (σ : Type) := RequestFrame → σ → Except NetError ResponseFrame × σ

/-- What is left when a session has ended. -/
structure Ended (σ : Type) where
  what : NetError
  out : Outgoing
  state : σ

section Frames

variable {α : Type} {fields : Bytes → Decode α}

theorem within_local (get : Decode α) (data : Bytes) : Local (within get data) := by
  unfold within
  cases get.run ⟨data, 0⟩ with
  | ok read => exact Local.pure read.1
  | error e =>
      intro input a next h
      cases h

theorem within_advancing (get : Decode α) (data : Bytes) : Advancing (within get data) := by
  unfold within
  cases get.run ⟨data, 0⟩ with
  | ok read => exact Advancing.pure read.1
  | error e =>
      intro input a next h
      cases h

theorem decodeFrame_local (fields : Bytes → Decode α) : Local (decodeFrame fields) := by
  apply (getRaw_local 4).bind
  intro lenBuf
  apply (within_local getU32 lenBuf).bind
  intro totalLen
  apply (getRaw_local totalLen.toNat).bind
  intro body
  exact within_local (fields body) body

theorem decodeFrame_consuming (fields : Bytes → Decode α) : Consuming (decodeFrame fields) := by
  have hlength : Consuming (getRaw 4) := by
    intro r b next h
    have hok := getRaw_ok h
    omega
  apply hlength.bind
  intro lenBuf
  apply (within_advancing getU32 lenBuf).bind
  intro totalLen
  apply (getRaw_advancing totalLen.toNat).bind
  intro body
  exact within_advancing (fields body) body

/-- A frame that was read is no longer to come. -/
theorem readFrame_shortens {conn next : Incoming} {a : α}
    (h : (readFrame fields).run conn = .ok (a, next)) :
    next.coming.length < conn.coming.length :=
  (readFrame_refines fields).shortens (decodeFrame_consuming fields) h

end Frames

/-- `TcpServer::session`. -/
def session (handler : Handler σ) (conn : Incoming) (out : Outgoing) (s : σ) : Ended σ :=
  match _h : readRequestFrame.run conn with
  | .error e => ⟨e, out, s⟩
  | .ok (req, next) =>
      match handler req s with
      | (.error e, s) => ⟨e, out, s⟩
      | (.ok resp, s) =>
          match writeResponseFrame resp out with
          | (.error e, out) => ⟨e, out, s⟩
          | (.ok (), out) => session handler next out s
termination_by conn.coming.length
decreasing_by exact readFrame_shortens _h

/-- The bytes of a row of frames. -/
def requestStream (requests : List RequestFrame) : Bytes :=
  requests.flatMap fun f => framed (requestBody f)

def responseStream (responses : List ResponseFrame) : Bytes :=
  responses.flatMap fun f => framed (responseBody f)

/-- The frames that are whole at the front of a stream, whoever wrote it. -/
def requestsIn (bytes : Bytes) : List RequestFrame :=
  readFrames (decodeFrame requestFields) ⟨bytes, 0⟩

/-- A connection whose calls of `send` neither fail nor return 0. -/
def Outgoing.Reliable (out : Outgoing) : Prop :=
  ∀ a ∈ out.answers, a ≠ .nothing ∧ ∀ error, a ≠ .failed error

section Writing

variable {out : Outgoing}

theorem writeResponseFrame_writes :
    Writes Outgoing.sent (fun f => framed (responseBody f)) writeResponseFrame := by
  intro f out
  obtain ⟨part, hpart, hsent, hok⟩ : ∃ part, part <+: (framed (responseBody f)).drop 0 ∧
      (sendAll out (framed (responseBody f)) 0).2.sent = out.sent ++ part ∧
      ((sendAll out (framed (responseBody f)) 0).1 = .ok () ↔
        part = (framed (responseBody f)).drop 0) := sendAll_sent
  exact ⟨part, hpart, hsent, hok⟩

theorem Outgoing.Reliable.tail {a : SendAnswer} {answers : List SendAnswer} (sent : Bytes)
    (h : out.Reliable) (heq : out.answers = a :: answers) : Reliable ⟨sent, answers⟩ := by
  intro b hb
  exact h b (heq ▸ List.mem_cons_of_mem a hb)

/-- A call of `send` takes some of the bytes or is interrupted. -/
theorem Outgoing.Reliable.send {data : Bytes} (h : out.Reliable) (hdata : data ≠ []) :
    (out.send data).2.Reliable ∧ ((out.send data).1 = .interrupted ∨
      ∃ n, n ≠ 0 ∧ (out.send data).1 = .accepted n) := by
  have hlen : data.length ≠ 0 := (List.length_pos_of_ne_nil hdata).ne'
  unfold Outgoing.send
  split
  · exact ⟨h, Or.inr ⟨data.length, hlen, rfl⟩⟩
  · next n answers heq => exact ⟨h.tail _ heq, Or.inr ⟨min (n + 1) data.length, by omega, rfl⟩⟩
  · next answers heq => exact ⟨h.tail _ heq, Or.inl rfl⟩
  · next answers heq => exact absurd rfl (h _ (heq ▸ List.mem_cons_self)).1
  · next error answers heq => exact absurd rfl ((h _ (heq ▸ List.mem_cons_self)).2 error)

/-- Over a reliable connection all bytes are sent, and it stays reliable. -/
theorem sendAll_reliable {data : Bytes} {sent : Nat} (h : out.Reliable) :
    (sendAll out data sent).1 = .ok () ∧ (sendAll out data sent).2.Reliable := by
  fun_induction sendAll out data sent with
  | case1 out sent hlt next hsend ih =>
      have hnext := (h.send (List.drop_eq_nil_iff.not.mpr (Nat.not_le_of_lt hlt))).1
      rw [hsend] at hnext
      exact ih hnext
  | case2 out sent hlt error next hsend =>
      have hresult := (h.send (List.drop_eq_nil_iff.not.mpr (Nat.not_le_of_lt hlt))).2
      simp [hsend] at hresult
  | case3 out sent hlt next hsend =>
      have hresult := (h.send (List.drop_eq_nil_iff.not.mpr (Nat.not_le_of_lt hlt))).2
      simp [hsend] at hresult
  | case4 out sent hlt n next hsend hn ih =>
      have hnext := (h.send (List.drop_eq_nil_iff.not.mpr (Nat.not_le_of_lt hlt))).1
      rw [hsend] at hnext
      exact ih hnext
  | case5 out sent hlt => exact ⟨rfl, h⟩

end Writing

/-! ## What a session does -/

section Session

variable {handler : Handler σ} {conn : Incoming} {out : Outgoing} {s : σ}

/-- The loop of a session is the loop of a server. -/
theorem session_serves (handler : Handler σ) (conn : Incoming) (out : Outgoing) (s : σ) :
    Serves readRequestFrame handler writeResponseFrame conn out s
      (session handler conn out s).out (session handler conn out s).state := by
  fun_induction session handler conn out s with
  | case1 conn out s e hread => exact .ended hread
  | case2 conn out s req next hread e s' hanswer => exact .thrown hread hanswer
  | case3 conn out s req next hread resp s' hanswer e out' hwrite =>
      exact .broken hread hanswer hwrite
  | case4 conn out s req next hread resp s' hanswer out' hwrite ih =>
      exact .answered hread hanswer hwrite ih

/-- Whatever bytes arrive, a session handles the requests that are whole in them. -/
theorem session_hasServed (handler : Handler σ) (conn : Incoming) (out : Outgoing) (s : σ) :
    ∃ handled part, (session handler conn out s).out.sent = out.sent ++ part ∧
      HasServed handler (fun f => framed (responseBody f)) s (session handler conn out s).state
        (requestsIn conn.coming) handled part ∧
      (out.Reliable → part = responseStream (answerEach handler handled s).1) := by
  obtain ⟨frames, tail, hframes, htail, hcoming⟩ := exists_frames
    (decodeFrame_consuming requestFields) (decodeFrame_local requestFields) conn.coming
  have hrequests : requestsIn conn.coming = frames.map Prod.snd := by
    rw [requestsIn, readFrames, hcoming,
      scanFrames_frames (decodeFrame_consuming requestFields) hframes htail]
    exact foldStream_rule (P := fun done out => out = done.map Prod.snd) rfl
      fun done frame acc _ h => by rw [h, List.map_append, List.map_singleton]
  rw [hrequests]
  exact (session_serves handler conn out s).hasServed (readFrame_refines requestFields)
    (decodeFrame_consuming requestFields) writeResponseFrame_writes
    (fun _ _ h => sendAll_reliable h) hframes htail hcoming

/-- The requests in a part of a stream of requests are the first of them. -/
theorem requestsIn_prefix {requests : List RequestFrame} {bytes : Bytes}
    (fits : ∀ f ∈ requests, (requestBody f).length < 2 ^ 32)
    (h : bytes <+: requestStream requests) : requestsIn bytes <+: requests := by
  have hframes := frames_delimited (fun f => ⟨_, requestFields_run f⟩) fits
  obtain ⟨kept, tail, hkept, rfl, htail⟩ := stream_cut hframes h
  have hwhole : requestsIn (requestStream kept ++ tail) = kept :=
    readFrames_stream (decodeFrame_consuming requestFields)
      (fun f hf => hframes f (hkept.subset hf)) htail
  change requestsIn (requestStream kept ++ tail) <+: requests
  rw [hwhole]
  exact hkept

theorem requestsIn_whole {requests : List RequestFrame}
    (fits : ∀ f ∈ requests, (requestBody f).length < 2 ^ 32) :
    requestsIn (requestStream requests) = requests := by
  have hframes := frames_delimited (fun f => ⟨_, requestFields_run f⟩) fits
  have hwhole := readFrames_stream (decodeFrame_consuming requestFields) hframes (.inl rfl)
  rwa [List.append_nil] at hwhole

/-- What a client gets over a connection for the requests it has written. -/
structure Exchanged (handler : Handler σ) (s s' : σ) (requests : List RequestFrame)
    (handled : List RequestFrame) (got : List ResponseFrame) (back : Incoming) : Prop where
  /-- The server has handled the first requests in order, each once. -/
  first : handled <+: requests
  state : s' = (answerEach handler handled s).2
  /-- The client reads the answers to the first of these, and no other frame. -/
  answers : got <+: (answerEach handler handled s).1
  read : ∃ back', (collect readResponseFrame got.length).run back = .ok (got, back') ∧
    ∀ f next, readResponseFrame.run back' ≠ .ok (f, next)

variable {requests : List RequestFrame} {clientAnswers : List SendAnswer} {back : Incoming}

/-- A client writes requests without waiting for their answers. Both directions of the
connection may break at any byte. What the client reads are the answers to its first
requests in their order, and the server has handled these, and perhaps more of the first ones.
Where nothing breaks it has handled them all and the client reads all answers. -/
theorem session_exchanges (fits : ∀ f ∈ requests, (requestBody f).length < 2 ^ 32)
    (small : ∀ f ∈ (answerEach handler requests s).1, (responseBody f).length < 2 ^ 32)
    (arrived : conn.coming <+:
      (writeEach writeRequestFrame requests ⟨[], clientAnswers⟩).2.sent)
    (hout : out.sent = [])
    (returned : back.coming <+: (session handler conn out s).out.sent) :
    ∃ handled got, Exchanged handler s (session handler conn out s).state requests handled got
        back ∧
      (conn.coming = requestStream requests → out.Reliable →
        back.coming = (session handler conn out s).out.sent →
          handled = requests ∧ got = (answerEach handler requests s).1) := by
  obtain ⟨sentPart, hsentPart, hsent, -⟩ :=
    writeEach_sent (fun f out => rfl : ∀ f out, writeRequestFrame f out =
      sendAll out (framed (requestBody f)) 0) requests ⟨[], clientAnswers⟩
  rw [hsent, List.nil_append] at arrived
  have hrequests := requestsIn_prefix fits (arrived.trans hsentPart)
  obtain ⟨handled, part, hpart, hserved, hreliable⟩ := session_hasServed handler conn out s
  rw [hpart, hout, List.nil_append] at returned
  have hfields : ∀ f, ∃ next, (responseFields (responseBody f)).run ⟨responseBody f, 0⟩ =
      .ok (f, next) := fun f => ⟨_, responseFields_run f⟩
  have hhandledFirst := hserved.first.trans hrequests
  have hdelimits := frames_delimited hfields fun f hf =>
    small f ((answerEach_part hhandledFirst s).subset hf)
  obtain ⟨got, hgot, hall, hback⟩ := hserved.received (readFrame_refines responseFields)
    (decodeFrame_consuming responseFields) hdelimits returned
  refine ⟨handled, got, ⟨hhandledFirst, hserved.state, hgot, hback⟩, ?_⟩
  intro hwhole hout' hback'
  have hpartWhole := hreliable hout'
  have hhandled : handled = requests := by
    rw [hserved.all hpartWhole, hwhole, requestsIn_whole fits]
  rw [hpart, hout, List.nil_append] at hback'
  refine ⟨hhandled, ?_⟩
  rw [hall hpartWhole hback', hhandled]

/-- A handler that numbers its answers. -/
def numberAnswers : Handler Nat := fun f n =>
  (.ok ⟨f.correlationId, Common.putU32 (UInt32.ofNat n)⟩, n + 1)

def twoRequests : List RequestFrame := [⟨3, 7, [1]⟩, ⟨1, 8, []⟩]

/-- The answers to `twoRequests`. -/
def twoAnswers : List ResponseFrame := [⟨7, [0, 0, 0, 0]⟩, ⟨8, [0, 0, 0, 1]⟩]

/-- Both directions of the connection take and give their bytes in pieces. -/
theorem session_exchanges_pieces :
    ∃ handled got, Exchanged numberAnswers 0
        (session numberAnswers ⟨requestStream twoRequests, [.upTo 2, .interrupted], none⟩
          ⟨[], [.upTo 0]⟩ 0).state twoRequests handled got
        ⟨responseStream twoAnswers, [.upTo 4], none⟩ ∧
      handled = twoRequests ∧ got = twoAnswers := by
  have fits : ∀ f ∈ twoRequests, (requestBody f).length < 2 ^ 32 := by decide
  have small : ∀ f ∈ (answerEach numberAnswers twoRequests 0).1,
      (responseBody f).length < 2 ^ 32 := by
    decide
  have arrived : requestStream twoRequests <+:
      (writeEach writeRequestFrame twoRequests ⟨[], [.interrupted, .upTo 5]⟩).2.sent := by
    decide +kernel
  have reliable : Outgoing.Reliable ⟨[], [.upTo 0]⟩ := by
    intro a ha
    obtain rfl := List.mem_singleton.mp ha
    exact ⟨nofun, nofun⟩
  have sent : responseStream twoAnswers =
      (session numberAnswers ⟨requestStream twoRequests, [.upTo 2, .interrupted], none⟩
        ⟨[], [.upTo 0]⟩ 0).out.sent := by
    decide +kernel
  have returned : (Incoming.mk (responseStream twoAnswers) [.upTo 4] none).coming <+:
      (session numberAnswers ⟨requestStream twoRequests, [.upTo 2, .interrupted], none⟩
        ⟨[], [.upTo 0]⟩ 0).out.sent := by
    rw [← sent]
  obtain ⟨handled, got, hexchanged, hall⟩ :=
    session_exchanges fits small arrived rfl returned
  obtain ⟨rfl, rfl⟩ := hall rfl reliable sent
  exact ⟨_, _, hexchanged, rfl, rfl⟩

end Session

end MiniKafka.Net
