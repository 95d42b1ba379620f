import Mathlib.Data.List.Perm.Basic
import MiniKafka.Foundations.Run
import MiniKafka.Net.Session

/-!
# Calls of a peer

`ClusterMembership::call` keeps one connection to a peer open and does not compare correlation
ids. It drops a connection on which anything failed, so nothing is ever left on the one it
keeps, and what it reads there answers the request it has just written. The second attempt may
have the peer handle a request twice, and what is left on a dropped connection may still reach
it later. A broken pipe ends the caller's process before the second attempt.
-/

namespace MiniKafka.Cluster

open Common Foundations Net

/-- What is under way on a connection, in both directions. -/
structure Link where
  outbound : Bytes := []
  inbound : Bytes := []
  deriving DecidableEq

/-- What becomes of one attempt: whether it gets a connection, how much is sent, whether the
peer reads it before the caller gives up, how much comes back, and how much of what the peer
has not read then will reach it. -/
structure Fate where
  connects : Bool := true
  sends : List SendAnswer := []
  reached : Bool := true
  peerRecvs : List RecvAnswer := []
  peerSends : List SendAnswer := []
  returned : Option Nat := none
  recvs : List RecvAnswer := []
  ending : Option String := none
  later : Nat := 0

/-- A caller and its peer. The peer's part is the state of its handler and the requests that
the handler has got; `called` are the requests of the calls so far. -/
structure Calling (σ : Type) where
  peer : σ
  /-- `PeerConn::sock`. -/
  sock : Option Link := none
  /-- What will still reach the peer from connections that were dropped. -/
  adrift : List Bytes := []
  heard : List RequestFrame := []
  called : List RequestFrame := []
  /-- The caller's process has met a broken pipe. -/
  ended : Bool := false

variable {σ : Type}

/-- The handler, and a list of what it has got. -/
def recording (handler : Handler σ) : Handler (σ × List RequestFrame) := fun req (s, heard) =>
  let (answer, s) := handler req s
  (answer, (s, heard ++ [req]))

/-- The bytes behind the last whole request. -/
def leftover (bytes : Bytes) : Bytes := bytes.drop (requestStream (requestsIn bytes)).length

namespace Calling

variable (handler : Handler σ) (s : Calling σ)

/-- The peer's session reads some bytes; what it answers, and the state behind it. -/
def served (f : Fate) (bytes : Bytes) : Bytes × Calling σ :=
  let ended := session (recording handler) ⟨bytes, f.peerRecvs, none⟩ ⟨[], f.peerSends⟩
    (s.peer, s.heard)
  (ended.out.sent, { s with peer := ended.state.1, heard := ended.state.2 })

/-- `pc.sock = Socket()`. -/
def disconnect (f : Fate) (unread : Bytes) : Calling σ :=
  { s with sock := none, adrift := s.adrift ++ [unread.take f.later] }

/-- The response is read from what arrives. -/
def receive (f : Fate) (unread inbound : Bytes) : Except NetError ResponseFrame × Calling σ :=
  let arrived := f.returned.elim inbound inbound.take
  match readResponseFrame.run ⟨arrived, f.recvs, f.ending⟩ with
  | .ok (resp, conn) =>
      (.ok resp, { s with sock := some ⟨unread, conn.coming ++ inbound.drop arrived.length⟩ })
  | .error e => (.error e, s.disconnect f unread)

/-- While the caller waits, the peer's session reads what is under way to it, or not yet. -/
def await (f : Fate) (link : Link) : Except NetError ResponseFrame × Calling σ :=
  if f.reached then
    let (answers, s) := s.served handler f link.outbound
    s.receive f (leftover link.outbound) (link.inbound ++ answers)
  else s.receive f link.outbound link.inbound

/-- The request is written and the response is read. -/
def exchange (req : RequestFrame) (f : Fate) (link : Link) :
    Except NetError ResponseFrame × Calling σ :=
  match writeRequestFrame req ⟨[], f.sends⟩ with
  | (.error e, out) =>
      (.error e, { s.disconnect f (link.outbound ++ out.sent) with
        ended := s.ended || e = .runtime ("send failed: " ++ brokenPipe) })
  | (.ok (), out) => s.await handler f { link with outbound := link.outbound ++ out.sent }

/-- The loop of `call`. A socket that is not valid is connected first, and `meanwhile` is what
else happens at the peer between the attempts. -/
def attempts (req : RequestFrame) (meanwhile : σ → σ) :
    List Fate → Calling σ → Option ResponseFrame × Calling σ
  | [], s => (none, s)
  | f :: fates, s =>
      if s.sock = none ∧ f.connects = false then (none, s)
      else
        match s.exchange handler req f (s.sock.getD {}) with
        | (.ok resp, s) => (some resp, s)
        | (.error _, s) =>
            if s.ended then (none, s)
            else attempts req meanwhile fates { s with peer := meanwhile s.peer }

def call (req : RequestFrame) (first second : Fate) (meanwhile : σ → σ) :
    Option ResponseFrame × Calling σ :=
  attempts handler req meanwhile [first, second] { s with called := s.called ++ [req] }

end Calling

/-- A call, something else that happens at the peer, or bytes of a dropped connection that
reach it. -/
inductive CallEvent (σ : Type)
  | call (req : RequestFrame) (first second : Fate) (meanwhile : σ → σ)
  | elsewhere (peer : σ)
  | late (i : Nat) (f : Fate)

def callStep (handler : Handler σ) (s : Calling σ) : CallEvent σ → Option (Calling σ)
  | .call req first second meanwhile =>
      if s.ended then none else some (s.call handler req first second meanwhile).2
  | .elsewhere peer => some { s with peer := peer }
  | .late i f => (s.adrift[i]?).map fun bytes =>
      { (s.served handler f bytes).2 with adrift := s.adrift.eraseIdx i }

/-- Requests that fit their frames. -/
def CallFits (_ : Calling σ) : CallEvent σ → Prop
  | .call req _ _ _ => (requestBody req).length < 2 ^ 32
  | _ => True

instance (s : Calling σ) : (e : CallEvent σ) → Decidable (CallFits s e)
  | .call req _ _ _ => inferInstanceAs (Decidable ((requestBody req).length < 2 ^ 32))
  | .elsewhere _ | .late _ _ => .isTrue trivial

/-- An attempt on which nothing breaks. -/
structure Fate.Clean (f : Fate) : Prop where
  connects : f.connects = true
  sends : Outgoing.Reliable ⟨[], f.sends⟩
  reached : f.reached = true
  peerSends : Outgoing.Reliable ⟨[], f.peerSends⟩
  returned : f.returned = none

section Session

variable {handler : Handler σ} {s : Calling σ} {f : Fate} {req : RequestFrame}

/-- The peer has got some requests, and has done with each what the handler does. -/
structure Got (handler : Handler σ) (s t : Calling σ) (got : List RequestFrame) : Prop where
  heard : t.heard = s.heard ++ got
  peer : t.peer = got.foldl (fun p req => (handler req p).2) s.peer

theorem Got.nothing {t : Calling σ} (peer : t.peer = s.peer) (heard : t.heard = s.heard) :
    Got handler s t [] :=
  ⟨heard.trans (List.append_nil _).symm, peer⟩

/-- The handler has got the first of the requests that a session has handled. -/
theorem recording_state (handler : Handler σ) (handled : List RequestFrame) (p : σ)
    (heard : List RequestFrame) :
    ∃ got, got <+: handled ∧ (answerEach (recording handler) handled (p, heard)).2 =
      (got.foldl (fun p req => (handler req p).2) p, heard ++ got) := by
  induction handled generalizing p heard with
  | nil => exact ⟨[], List.nil_prefix, by rw [List.append_nil]; rfl⟩
  | cons req rest ih =>
      have hfirst : recording handler req (p, heard) =
          ((handler req p).1, ((handler req p).2, heard ++ [req])) := rfl
      rw [answerEach, hfirst]
      cases hanswer : (handler req p).1 with
      | error e => exact ⟨[req], List.prefix_cons_inj _ |>.mpr List.nil_prefix, rfl⟩
      | ok resp =>
          obtain ⟨got, hgot, hstate⟩ := ih (handler req p).2 (heard ++ [req])
          refine ⟨req :: got, (List.prefix_cons_inj _).mpr hgot, ?_⟩
          dsimp only
          rw [hstate, List.append_assoc]
          rfl

/-- Whatever reaches the peer, it gets a first part of the whole requests in it. -/
theorem served_got (handler : Handler σ) (s : Calling σ) (f : Fate) (bytes : Bytes) :
    ∃ got, got <+: requestsIn bytes ∧ Got handler s (s.served handler f bytes).2 got := by
  obtain ⟨handled, part, -, hserved, -⟩ := session_hasServed (recording handler)
    ⟨bytes, f.peerRecvs, none⟩ ⟨[], f.peerSends⟩ (s.peer, s.heard)
  obtain ⟨got, hgot, hstate⟩ := recording_state handler handled s.peer s.heard
  rw [← hserved.state] at hstate
  exact ⟨got, hgot.trans hserved.first, congrArg Prod.snd hstate, congrArg Prod.fst hstate⟩

theorem requestsIn_frame (fits : (requestBody req).length < 2 ^ 32) :
    requestsIn (framed (requestBody req)) = [req] := by
  have hwhole : requestsIn (requestStream [req]) = [req] :=
    requestsIn_whole fun f hf => (List.mem_singleton.mp hf).symm ▸ fits
  rwa [requestStream, List.flatMap_singleton] at hwhole

/-- A part of one request is at most this request. -/
theorem requestsIn_part {bytes : Bytes} (fits : (requestBody req).length < 2 ^ 32)
    (h : bytes <+: framed (requestBody req)) : requestsIn bytes <+: [req] := by
  apply requestsIn_prefix fun f hf => (List.mem_singleton.mp hf).symm ▸ fits
  rwa [requestStream, List.flatMap_singleton]

theorem leftover_frame (fits : (requestBody req).length < 2 ^ 32) :
    leftover (framed (requestBody req)) = [] := by
  rw [leftover, requestsIn_frame fits, requestStream, List.flatMap_singleton, List.drop_length]

theorem prefix_singleton {α : Type*} {l : List α} {a : α} (h : l <+: [a]) : l = [] ∨ l = [a] := by
  cases l with
  | nil => exact Or.inl rfl
  | cons b rest =>
      obtain ⟨rfl, hrest⟩ := List.cons_prefix_cons.mp h
      rw [List.prefix_nil.mp hrest]
      exact Or.inr rfl

/-- A request that is got at most once is handled at most once. -/
theorem Got.once {t : Calling σ} {got rest : List RequestFrame} (h : Got handler s t got)
    (once : got ++ rest <+: [req]) : t.peer = s.peer ∨ t.peer = (handler req s.peer).2 := by
  rcases prefix_singleton ((List.prefix_append got rest).trans once) with rfl | rfl
  · exact Or.inl h.peer
  · exact Or.inr h.peer

/-- A part of a request that reaches the peer is handled once or not. -/
theorem served_part (handler : Handler σ) (s : Calling σ) (f : Fate)
    (fits : (requestBody req).length < 2 ^ 32) {bytes : Bytes}
    (h : bytes <+: framed (requestBody req)) :
    (s.served handler f bytes).2.peer = s.peer ∨
      (s.served handler f bytes).2.peer = (handler req s.peer).2 := by
  obtain ⟨got, hgot, hstate⟩ := served_got handler s f bytes
  have honce : got ++ [] <+: [req] := by
    rw [List.append_nil]
    exact hgot.trans (requestsIn_part fits h)
  exact hstate.once honce

/-- What comes back from a request that reaches the peer is a part of the handler's answer. -/
theorem served_frame (handler : Handler σ) (s : Calling σ) (f : Fate)
    (fits : (requestBody req).length < 2 ^ 32) :
    let r := s.served handler f (framed (requestBody req))
    r.1 = [] ∨ ∃ resp, handler req s.peer = (.ok resp, r.2.peer) ∧
      r.2.heard = s.heard ++ [req] ∧ r.1 <+: framed (responseBody resp) := by
  intro r
  obtain ⟨handled, part, hpart, hserved, -⟩ := session_hasServed (recording handler)
    ⟨framed (requestBody req), f.peerRecvs, none⟩ ⟨[], f.peerSends⟩ (s.peer, s.heard)
  have hsent : r.1 = part := hpart
  have hstate : (r.2.peer, r.2.heard) =
      (answerEach (recording handler) handled (s.peer, s.heard)).2 := hserved.state
  have hanswers := hserved.sent
  have hfirst := hserved.first
  rw [requestsIn_frame fits] at hfirst
  rw [hsent]
  rcases prefix_singleton hfirst with rfl | rfl
  · exact Or.inl (List.prefix_nil.mp hanswers)
  · have hrecord : recording handler req (s.peer, s.heard) =
        ((handler req s.peer).1, ((handler req s.peer).2, s.heard ++ [req])) := rfl
    rw [answerEach, hrecord] at hanswers hstate
    cases hanswer : (handler req s.peer).1 with
    | error e =>
        rw [hanswer] at hanswers
        exact Or.inl (List.prefix_nil.mp hanswers)
    | ok resp =>
        rw [hanswer] at hanswers hstate
        obtain ⟨hpeer, hheard⟩ := Prod.mk.inj hstate
        refine Or.inr ⟨resp, Prod.ext hanswer hpeer.symm, hheard, ?_⟩
        simpa only [answerEach, List.flatMap_singleton] using hanswers

/-- Over a connection on which nothing breaks all of the answer comes back. -/
theorem served_clean (s : Calling σ) (fits : (requestBody req).length < 2 ^ 32)
    (sends : Outgoing.Reliable ⟨[], f.peerSends⟩) {resp : ResponseFrame}
    (answer : (handler req s.peer).1 = .ok resp) :
    (s.served handler f (framed (requestBody req))).1 = framed (responseBody resp) := by
  obtain ⟨handled, part, hpart, hserved, hreliable⟩ := session_hasServed (recording handler)
    ⟨framed (requestBody req), f.peerRecvs, none⟩ ⟨[], f.peerSends⟩ (s.peer, s.heard)
  have hall := hreliable sends
  have hhandled := hserved.all hall
  rw [requestsIn_frame fits] at hhandled
  have hrecord : recording handler req (s.peer, s.heard) =
      (.ok resp, ((handler req s.peer).2, s.heard ++ [req])) := by
    rw [← answer]
    rfl
  rw [hhandled, answerEach, hrecord] at hall
  have hsent : (s.served handler f (framed (requestBody req))).1 = part := hpart
  rw [hsent, hall]
  simp [responseStream, answerEach]

end Session

section Exchange

variable {handler : Handler σ} {s : Calling σ} {f : Fate} {req : RequestFrame}

/-- What an attempt does on a connection on which nothing is under way. -/
structure Attempted (handler : Handler σ) (s : Calling σ) (req : RequestFrame) (f : Fate)
    (r : Except NetError ResponseFrame × Calling σ) : Prop where
  called : r.2.called = s.called
  /-- The request gets to the handler, or is under way to it, at most once. -/
  once : ∃ got left, Got handler s r.2 got ∧ r.2.adrift = s.adrift ++ left ∧
    got ++ left.flatMap requestsIn <+: [req] ∧
    ∀ bytes ∈ left, bytes <+: framed (requestBody req)
  /-- What is read is the answer, if that fits a frame. -/
  ok : ∀ resp, r.1 = .ok resp → ∃ answer, handler req s.peer = (.ok answer, r.2.peer) ∧
    r.2.heard = s.heard ++ [req] ∧
    ((responseBody answer).length < 2 ^ 32 → resp = answer ∧ r.2.sock = some {})
  error : ∀ e, r.1 = .error e → r.2.sock = none
  ended : r.2.ended = true → s.ended = true ∨ .failed brokenPipe ∈ f.sends

theorem read_nothing (recvs : List RecvAnswer) (ending : Option String) :
    ∃ e, readResponseFrame.run ⟨[], recvs, ending⟩ = .error e := by
  cases hread : readResponseFrame.run ⟨[], recvs, ending⟩ with
  | error e => exact ⟨e, rfl⟩
  | ok got => exact absurd hread ((readFrame_refines responseFields).stuck
      (decodeFrame_consuming responseFields) (Or.inl rfl))

/-- What is read of a part of an answer is this answer, and nothing is left. -/
theorem read_part {arrived more : Bytes} {resp : ResponseFrame} {got : ResponseFrame × Incoming}
    {recvs : List RecvAnswer} {ending : Option String}
    (fits : (responseBody resp).length < 2 ^ 32)
    (h : arrived ++ more <+: framed (responseBody resp))
    (hread : readResponseFrame.run ⟨arrived, recvs, ending⟩ = .ok got) :
    got.1 = resp ∧ got.2.coming ++ more = [] := by
  obtain ⟨rest, hrest⟩ := h
  rw [List.append_assoc] at hrest
  have hdelimits : Delimits (decodeFrame responseFields) (framed (responseBody resp)) resp :=
    decodeFrame_delimits fits (responseFields_run resp)
  obtain ⟨hresp, hnil⟩ := (readFrame_refines responseFields).part
    (decodeFrame_local responseFields) hdelimits.reads hrest hread
  rw [← List.append_assoc] at hnil
  exact ⟨hresp, (List.append_eq_nil_iff.mp hnil).1⟩

/-- The part that arrives of what comes back, and the rest. -/
theorem arrived_append (returned : Option Nat) (inbound : Bytes) :
    returned.elim inbound inbound.take ++
      inbound.drop (returned.elim inbound inbound.take).length = inbound := by
  cases returned with
  | none => simp
  | some n => exact (List.prefix_iff_eq_append.mp (List.take_prefix n inbound))

/-- Reading drops the connection, or it gets a frame. From a part of an answer that fits it gets
this answer and leaves nothing. -/
theorem Calling.receive_cases (s : Calling σ) (f : Fate) (unread inbound : Bytes) :
    (∃ e, s.receive f unread inbound = (.error e, s.disconnect f unread)) ∨
      ∃ resp link, s.receive f unread inbound = (.ok resp, { s with sock := some link }) ∧
        ∀ answer, (responseBody answer).length < 2 ^ 32 →
          inbound <+: framed (responseBody answer) → resp = answer ∧ link = ⟨unread, []⟩ := by
  unfold Calling.receive
  dsimp only
  cases hread : readResponseFrame.run
      ⟨f.returned.elim inbound inbound.take, f.recvs, f.ending⟩ with
  | error e => exact Or.inl ⟨e, rfl⟩
  | ok got =>
      refine Or.inr ⟨got.1, _, rfl, ?_⟩
      intro answer fits h
      rw [← arrived_append f.returned inbound] at h
      obtain ⟨hresp, hnil⟩ := read_part fits h hread
      exact ⟨hresp, congrArg (Link.mk unread) hnil⟩

/-- Where nothing comes back the connection is dropped. -/
theorem Calling.receive_nothing (s : Calling σ) (f : Fate) (unread : Bytes) :
    ∃ e, s.receive f unread [] = (.error e, s.disconnect f unread) := by
  have hnothing : f.returned.elim ([] : Bytes) List.nil.take = [] :=
    (List.append_eq_nil_iff.mp (arrived_append f.returned [])).1
  obtain ⟨e, hread⟩ := read_nothing f.recvs f.ending
  refine ⟨e, ?_⟩
  unfold Calling.receive
  dsimp only
  rw [hnothing, hread]

/-- A connection is dropped after the request was got, or while it is still under way. -/
theorem Attempted.disconnect {t : Calling σ} {e : NetError} {got : List RequestFrame}
    {unread : Bytes} (called : t.called = s.called) (adrift : t.adrift = s.adrift)
    (state : Got handler s t got) (once : got ++ requestsIn (unread.take f.later) <+: [req])
    (part : unread <+: framed (requestBody req)) (ended : t.ended = s.ended) :
    Attempted handler s req f (.error e, t.disconnect f unread) where
  called := called
  once := by
    refine ⟨got, [unread.take f.later], ⟨state.heard, state.peer⟩, congrArg (· ++ _) adrift,
      ?_, ?_⟩
    · rwa [List.flatMap_singleton]
    · intro bytes hbytes
      rw [List.mem_singleton.mp hbytes]
      exact (List.take_prefix _ _).trans part
  ok := nofun
  error _ _ := rfl
  ended h := Or.inl (ended ▸ h)

theorem Attempted.setEnded {t : Calling σ} {e : NetError}
    (h : Attempted handler s req f (.error e, t)) {ended : Bool}
    (hended : ended = true → s.ended = true ∨ .failed brokenPipe ∈ f.sends) :
    Attempted handler s req f (.error e, { t with ended := ended }) := by
  obtain ⟨got, left, hstate, hadrift, honce, hparts⟩ := h.once
  exact ⟨h.called, ⟨got, left, ⟨hstate.heard, hstate.peer⟩, hadrift, honce, hparts⟩, nofun,
    h.error, hended⟩

theorem Calling.await_attempted (fits : (requestBody req).length < 2 ^ 32) (s : Calling σ)
    (f : Fate) :
    Attempted handler s req f (s.await handler f ⟨framed (requestBody req), []⟩) := by
  unfold Calling.await
  split
  · obtain ⟨got, hgot, hstate⟩ := served_got handler s f (framed (requestBody req))
    rw [requestsIn_frame fits] at hgot
    have honce : got ++ requestsIn (([] : Bytes).take f.later) <+: [req] := by
      rw [List.take_nil]
      exact (List.append_nil got).symm ▸ hgot
    simp only [leftover_frame fits, List.nil_append]
    rcases served_frame handler s f fits with hnil | ⟨resp, hanswer, hheard, hpart⟩
    · rw [hnil]
      obtain ⟨e, he⟩ := (s.served handler f (framed (requestBody req))).2.receive_nothing f []
      rw [he]
      exact Attempted.disconnect rfl rfl hstate honce List.nil_prefix rfl
    · rcases (s.served handler f (framed (requestBody req))).2.receive_cases f [] _ with
        ⟨e, he⟩ | ⟨got', link, hok, hread⟩
      · rw [he]
        exact Attempted.disconnect rfl rfl hstate honce List.nil_prefix rfl
      · rw [hok]
        refine ⟨rfl, ⟨got, [], ⟨hstate.heard, hstate.peer⟩, (List.append_nil _).symm, ?_, nofun⟩,
          ?_, nofun, Or.inl⟩
        · rwa [List.flatMap_nil, List.append_nil]
        · rintro r hr
          obtain rfl := Except.ok.inj hr
          refine ⟨resp, hanswer, hheard, fun small => ?_⟩
          obtain ⟨hresp, hlink⟩ := hread resp small hpart
          exact ⟨hresp, congrArg some hlink⟩
  · obtain ⟨e, he⟩ := s.receive_nothing f (framed (requestBody req))
    rw [he]
    refine Attempted.disconnect rfl rfl (Got.nothing rfl rfl) ?_ List.prefix_rfl rfl
    exact requestsIn_part fits (List.take_prefix _ _)

theorem Calling.exchange_attempted (handler : Handler σ)
    (fits : (requestBody req).length < 2 ^ 32) (s : Calling σ) (f : Fate) :
    Attempted handler s req f (s.exchange handler req f {}) := by
  obtain ⟨part, hpart, hsent, hok⟩ : ∃ part, part <+: (framed (requestBody req)).drop 0 ∧
      (writeRequestFrame req ⟨[], f.sends⟩).2.sent = [] ++ part ∧
      ((writeRequestFrame req ⟨[], f.sends⟩).1 = .ok () ↔
        part = (framed (requestBody req)).drop 0) := sendAll_sent
  rw [List.drop_zero] at hpart hok
  unfold Calling.exchange
  cases hwrite : writeRequestFrame req ⟨[], f.sends⟩ with
  | mk wrote out =>
      rw [hwrite] at hsent hok
      obtain rfl : out.sent = part := hsent
      cases wrote with
      | error e =>
          have hdropped : Attempted handler s req f (.error e, s.disconnect f out.sent) :=
            Attempted.disconnect rfl rfl (Got.nothing rfl rfl)
              (requestsIn_part fits ((List.take_prefix _ _).trans hpart)) hpart rfl
          apply hdropped.setEnded
          intro hended
          rcases Bool.or_eq_true_iff.mp hended with hbefore | hbroken
          · exact Or.inl hbefore
          · rw [of_decide_eq_true hbroken] at hwrite
            exact Or.inr (sendAll_brokenPipe (congrArg Prod.fst hwrite))
      | ok =>
          have hwhole := hok.mp rfl
          simp only [List.nil_append, hwhole]
          exact s.await_attempted fits f

/-- Where nothing breaks the answer is returned. -/
theorem Calling.exchange_clean (fits : (requestBody req).length < 2 ^ 32)
    (s : Calling σ) (clean : f.Clean) {resp : ResponseFrame}
    (small : (responseBody resp).length < 2 ^ 32) (answer : (handler req s.peer).1 = .ok resp) :
    (s.exchange handler req f {}).1 = .ok resp := by
  have hsend : (writeRequestFrame req ⟨[], f.sends⟩).1 = .ok () :=
    (sendAll_reliable clean.sends).1
  obtain ⟨part, hpart, hsent, hok⟩ : ∃ part, part <+: (framed (requestBody req)).drop 0 ∧
      (writeRequestFrame req ⟨[], f.sends⟩).2.sent = [] ++ part ∧
      ((writeRequestFrame req ⟨[], f.sends⟩).1 = .ok () ↔
        part = (framed (requestBody req)).drop 0) := sendAll_sent
  have hwhole := hok.mp hsend
  rw [List.drop_zero] at hwhole
  have hdelimits : Delimits (decodeFrame responseFields) (framed (responseBody resp)) resp :=
    decodeFrame_delimits small (responseFields_run resp)
  have hdecoded := hdelimits.reads [] 0
  rw [List.append_nil] at hdecoded
  obtain ⟨conn, hread⟩ : ∃ conn, readResponseFrame.run
      ⟨framed (responseBody resp), f.recvs, f.ending⟩ = .ok (resp, conn) := by
    obtain ⟨conn, hread, -⟩ := (readFrame_refines responseFields).reads
      (s := ⟨framed (responseBody resp), f.recvs, f.ending⟩) rfl hdecoded
    exact ⟨conn, hread⟩
  have hserved : (s.served handler f (framed (requestBody req))).1 =
      framed (responseBody resp) := served_clean s fits clean.peerSends answer
  unfold Calling.exchange
  cases hwrite : writeRequestFrame req ⟨[], f.sends⟩ with
  | mk wrote out =>
      rw [hwrite] at hsend hsent
      obtain rfl : wrote = .ok () := hsend
      have hout : out.sent = framed (requestBody req) := by
        rw [hsent, List.nil_append, hwhole]
      simp only [List.nil_append, hout, Calling.await, clean.reached, if_true, Calling.receive,
        clean.returned, Option.elim_none, hserved, hread]

end Exchange

section Call

variable {handler : Handler σ} {s t : Calling σ} {f first second : Fate} {req : RequestFrame}
  {meanwhile : σ → σ}

/-- How the last of at most so many attempts finds the peer: those before it were handled or
not. -/
inductive Finds (handler : Handler σ) (req : RequestFrame) (meanwhile : σ → σ) :
    Nat → σ → σ → Prop
  | first (n : Nat) (p : σ) : Finds handler req meanwhile (n + 1) p p
  | again {n : Nat} {p q r : σ} (handled : q = p ∨ q = (handler req p).2)
      (rest : Finds handler req meanwhile n (meanwhile q) r) :
      Finds handler req meanwhile (n + 1) p r

/-- What a row of attempts does: none leaves anything on the connection that is kept. -/
structure Tried (handler : Handler σ) (s : Calling σ) (req : RequestFrame) (meanwhile : σ → σ)
    (fates : List Fate) (r : Option ResponseFrame × Calling σ) : Prop where
  called : r.2.called = s.called
  idle : r.2.sock.getD {} = {}
  often : ∃ got left, r.2.heard = s.heard ++ got ∧ r.2.adrift = s.adrift ++ left ∧
    ∀ other, (got ++ left.flatMap requestsIn).count other ≤ fates.length * [req].count other
  answer : ∀ resp, r.1 = some resp → ∃ p,
    Finds handler req meanwhile fates.length s.peer p ∧ handler req p = (.ok resp, r.2.peer)

theorem Calling.attempts_tried (meanwhile : σ → σ)
    (fits : (requestBody req).length < 2 ^ 32)
    (small : ∀ p resp, (handler req p).1 = .ok resp → (responseBody resp).length < 2 ^ 32)
    (fates : List Fate) (s : Calling σ) (idle : s.sock.getD {} = {}) :
    Tried handler s req meanwhile fates (attempts handler req meanwhile fates s) := by
  induction fates generalizing s with
  | nil => exact ⟨rfl, idle, ⟨[], [], by simp [attempts]⟩, nofun⟩
  | cons f fates ih =>
      rw [attempts]
      split
      · exact ⟨rfl, idle, ⟨[], [], by simp⟩, nofun⟩
      · rw [idle]
        have hattempt := Calling.exchange_attempted handler fits s f
        obtain ⟨got, left, hstate, hadrift, honce, -⟩ := hattempt.once
        have hheard := hstate.heard
        cases hrun : s.exchange handler req f {} with
        | mk result t =>
            rw [hrun] at hattempt hstate hheard hadrift
            have hcount : ∀ other,
                (got ++ left.flatMap requestsIn).count other ≤ [req].count other :=
              fun other => honce.sublist.count_le other
            cases result with
            | ok resp =>
                obtain ⟨answer, hanswer, -, hread⟩ := hattempt.ok resp rfl
                obtain ⟨rfl, hsock⟩ := hread (small s.peer answer (congrArg Prod.fst hanswer))
                refine ⟨hattempt.called, by rw [hsock]; rfl, ⟨got, left, hheard, hadrift, ?_⟩, ?_⟩
                · intro other
                  refine (hcount other).trans ?_
                  rw [List.length_cons, Nat.succ_mul]
                  exact Nat.le_add_left _ _
                · rintro r hr
                  obtain rfl := Option.some.inj hr
                  exact ⟨s.peer, .first _ _, hanswer⟩
            | error e =>
                have hsock := hattempt.error e rfl
                dsimp only
                split
                · refine ⟨hattempt.called, by rw [hsock]; rfl, ⟨got, left, hheard, hadrift, ?_⟩,
                    nofun⟩
                  intro other
                  refine (hcount other).trans ?_
                  rw [List.length_cons, Nat.succ_mul]
                  exact Nat.le_add_left _ _
                have hrest := ih { t with peer := meanwhile t.peer }
                  (by rw [show t.sock = none from hsock]; rfl)
                obtain ⟨got', left', hheard', hadrift', hoften⟩ := hrest.often
                refine ⟨hrest.called.trans hattempt.called, hrest.idle,
                  ⟨got ++ got', left ++ left', ?_, ?_, ?_⟩, ?_⟩
                · rw [hheard', hheard, List.append_assoc]
                · rw [hadrift', hadrift, List.append_assoc]
                · intro other
                  have hfirst := hcount other
                  have hothers := hoften other
                  simp only [List.flatMap_append, List.count_append] at hfirst hothers ⊢
                  rw [List.length_cons, Nat.succ_mul]
                  omega
                · intro resp hresp
                  obtain ⟨p, hfinds, hanswer⟩ := hrest.answer resp hresp
                  exact ⟨p, .again (hstate.once honce) hfinds, hanswer⟩

/-- Nothing is under way on the connection that is kept, and no request gets to the handler
more than twice, counting what may still reach it. -/
structure Settled (s : Calling σ) : Prop where
  idle : s.sock.getD {} = {}
  twice : ∀ req, s.heard.count req + (s.adrift.flatMap requestsIn).count req ≤
    2 * s.called.count req

theorem Settled.call (h : Settled s) (fits : (requestBody req).length < 2 ^ 32)
    (small : ∀ p resp, (handler req p).1 = .ok resp → (responseBody resp).length < 2 ^ 32) :
    Settled (s.call handler req first second meanwhile).2 := by
  have htried := Calling.attempts_tried meanwhile fits small [first, second]
    { s with called := s.called ++ [req] } h.idle
  refine ⟨htried.idle, ?_⟩
  intro other
  obtain ⟨got, left, hheard, hadrift, hoften⟩ := htried.often
  have hbefore := h.twice other
  have hnew := hoften other
  rw [Calling.call, hheard, hadrift, htried.called]
  simp only [List.flatMap_append, List.count_append, List.length_cons, List.length_nil] at hnew ⊢
  omega

/-- What reaches the handler late was counted. -/
theorem Settled.late (h : Settled s) {i : Nat} {bytes : Bytes} (hi : s.adrift[i]? = some bytes)
    (f : Fate) :
    Settled { (s.served handler f bytes).2 with adrift := s.adrift.eraseIdx i } := by
  refine ⟨h.idle, ?_⟩
  intro req
  obtain ⟨got, hgot, hstate⟩ := served_got handler s f bytes
  obtain ⟨hlt, rfl⟩ := List.getElem?_eq_some_iff.mp hi
  have hbefore := h.twice req
  have hperm := (List.getElem_cons_eraseIdx_perm hlt).flatMap_right requestsIn
  rw [← hperm.count_eq req, List.flatMap_cons, List.count_append] at hbefore
  have hcount := hgot.sublist.count_le req
  change (s.served handler f s.adrift[i]).2.heard.count req +
    ((s.adrift.eraseIdx i).flatMap requestsIn).count req ≤ 2 * s.called.count req
  rw [hstate.heard, List.count_append]
  omega

theorem Settled.step (h : Settled s) {e : CallEvent σ} (fits : CallFits s e)
    (small : ∀ req p resp, (handler req p).1 = .ok resp → (responseBody resp).length < 2 ^ 32)
    (hstep : callStep handler s e = some t) : Settled t := by
  cases e with
  | call req first second meanwhile =>
      simp only [callStep] at hstep
      split at hstep
      · cases hstep
      · obtain rfl := Option.some.inj hstep
        exact h.call fits (small req)
  | elsewhere peer =>
      obtain rfl := Option.some.inj hstep
      exact ⟨h.idle, h.twice⟩
  | late i f =>
      obtain ⟨bytes, hi, rfl⟩ := Option.map_eq_some_iff.mp hstep
      exact h.late hi f

/-- How two attempts find the peer. -/
def Found (handler : Handler σ) (req : RequestFrame) (meanwhile : σ → σ) (start p : σ) : Prop :=
  p = start ∨ p = meanwhile start ∨ p = meanwhile (handler req start).2

theorem Finds.found {start p : σ} (h : Finds handler req meanwhile 2 start p) :
    Found handler req meanwhile start p := by
  cases h with
  | first => exact Or.inl rfl
  | again handled rest =>
      cases rest with
      | first =>
          rcases handled with rfl | rfl
          · exact Or.inr (Or.inl rfl)
          · exact Or.inr (Or.inr rfl)
      | again _ rest => cases rest

/-- An attempt on which nothing breaks is the last one. -/
theorem Calling.attempts_clean (fits : (requestBody req).length < 2 ^ 32) (s : Calling σ)
    (idle : s.sock.getD {} = {}) (clean : f.Clean) {fates : List Fate} {resp : ResponseFrame}
    (small : (responseBody resp).length < 2 ^ 32) (answer : (handler req s.peer).1 = .ok resp) :
    (attempts handler req meanwhile (f :: fates) s).1 = some resp := by
  have hanswered := Calling.exchange_clean fits s clean small answer
  rw [attempts, clean.connects, if_neg (by simp), idle]
  cases hrun : s.exchange handler req f {} with
  | mk result t =>
      rw [hrun] at hanswered
      obtain rfl : result = .ok resp := hanswered
      rfl

/-- A dead connection costs a retry, not the call, and a broken pipe the process. -/
theorem Settled.call_clean (h : Settled s) (fits : (requestBody req).length < 2 ^ 32)
    (small : ∀ p resp, (handler req p).1 = .ok resp → (responseBody resp).length < 2 ^ 32)
    (running : s.ended = false) (connects : first.connects = true)
    (whole : .failed brokenPipe ∉ first.sends) (clean : second.Clean)
    (answers : ∀ p, Found handler req meanwhile s.peer p →
      ∃ resp, (handler req p).1 = .ok resp) :
    (s.call handler req first second meanwhile).1.isSome := by
  let called := { s with called := s.called ++ [req] }
  have hidle : called.sock.getD {} = {} := h.idle
  have hattempt := Calling.exchange_attempted handler fits called first
  obtain ⟨got, left, hstate, -, honce, -⟩ := hattempt.once
  rw [Calling.call, Calling.attempts, connects, if_neg (by simp), hidle]
  cases hrun : called.exchange handler req first {} with
  | mk result t =>
      rw [hrun] at hattempt hstate
      cases result with
      | ok resp => rfl
      | error e =>
          have hsock : t.sock = none := hattempt.error e rfl
          have hgoes : t.ended = false := by
            rw [Bool.eq_false_iff]
            intro hended
            rcases hattempt.ended hended with hbefore | hbroken
            · exact absurd (running.symm.trans hbefore) (by decide)
            · exact whole hbroken
          have hfound : Found handler req meanwhile s.peer (meanwhile t.peer) := by
            rcases hstate.once honce with hpeer | hpeer
            · exact Or.inr (Or.inl (congrArg meanwhile hpeer))
            · exact Or.inr (Or.inr (congrArg meanwhile hpeer))
          obtain ⟨resp, hresp⟩ := answers _ hfound
          dsimp only
          rw [if_neg (by rw [hgoes]; decide), Calling.attempts_clean fits { t with peer := _ }
            (by rw [hsock]; rfl) clean (small _ _ hresp) hresp]
          rfl

/-- What `call` returns is the answer to the request it was called with, whatever became of
earlier calls and of connections that were dropped, and whatever else happens at the peer:
correlation ids need not be compared. When its first attempt fails without a broken pipe, which
ends the process, and the second does not, it returns an answer. The price is that the peer may
handle a request twice, and even after the call; it never does so more often than twice for each
call. -/
theorem peer_calls_answered {start : σ} {visits : List (Calling σ × CallEvent σ)}
    (small : ∀ req p resp, (handler req p).1 = .ok resp → (responseBody resp).length < 2 ^ 32)
    (run : Run (callStep handler) { peer := start } visits t) (fits : Guarded CallFits visits) :
    (∀ req, (requestBody req).length < 2 ^ 32 → ∀ first second meanwhile,
      (∀ resp, (t.call handler req first second meanwhile).1 = some resp →
        ∃ p, Found handler req meanwhile t.peer p ∧
          handler req p = (.ok resp, (t.call handler req first second meanwhile).2.peer)) ∧
      (t.ended = false → first.connects = true → .failed brokenPipe ∉ first.sends →
        second.Clean →
        (∀ p, Found handler req meanwhile t.peer p → ∃ resp, (handler req p).1 = .ok resp) →
        (t.call handler req first second meanwhile).1.isSome)) ∧
    ∀ req, t.heard.count req ≤ 2 * t.called.count req := by
  have hsettled : Settled t :=
    run.invariant fits ⟨rfl, fun req => Nat.zero_le _⟩
      fun t e u hG h hstep => h.step hG small hstep
  refine ⟨?_, fun req => (Nat.le_add_right _ _).trans (hsettled.twice req)⟩
  intro req hreq first second meanwhile
  refine ⟨?_, hsettled.call_clean hreq (small req)⟩
  intro resp hresp
  have htried := Calling.attempts_tried meanwhile hreq (small req) [first, second]
    { t with called := t.called ++ [req] } hsettled.idle
  obtain ⟨p, hfinds, hanswer⟩ := htried.answer resp hresp
  exact ⟨p, hfinds.found, hanswer⟩

end Call

/-- The answer to the first call is cut off, and its connection is dropped. -/
def cutAnswer : List (CallEvent Nat) :=
  [.call ⟨3, 7, [1]⟩ { returned := some 3 } {} id, .elsewhere 5, .call ⟨1, 8, []⟩ {} {} id]

theorem peer_calls_answered_cut :
    ∃ visits t, Run (callStep numberAnswers) { peer := 0 } visits t ∧
      t.heard = [⟨3, 7, [1]⟩, ⟨3, 7, [1]⟩, ⟨1, 8, []⟩] ∧
      (∀ req, t.heard.count req ≤ 2 * t.called.count req) ∧
      (t.call numberAnswers ⟨1, 8, []⟩ {} {} id).1.isSome := by
  have seen : (execute (callStep numberAnswers) { peer := 0 } cutAnswer).map
      (fun t => (t.heard, t.ended)) =
      some ([⟨3, 7, [1]⟩, ⟨3, 7, [1]⟩, ⟨1, 8, []⟩], false) := by
    decide +kernel
  obtain ⟨t, run, hseen⟩ := run_showing seen
  obtain ⟨hheard, running⟩ := Prod.mk.inj hseen
  have fits : Guarded CallFits (trace (callStep numberAnswers) { peer := 0 } cutAnswer) := by
    decide +kernel
  have small : ∀ req p resp, (numberAnswers req p).1 = .ok resp →
      (responseBody resp).length < 2 ^ 32 := by
    rintro req p resp hresp
    obtain rfl := Except.ok.inj hresp
    simp [responseBody]
  have clean : Fate.Clean {} := ⟨rfl, nofun, rfl, nofun, rfl⟩
  obtain ⟨hcalls, htwice⟩ := peer_calls_answered small run fits
  obtain ⟨-, hanswered⟩ := hcalls ⟨1, 8, []⟩ (by decide) {} {} id
  exact ⟨_, t, run, hheard, htwice, hanswered running rfl nofun clean fun p _ => ⟨_, rfl⟩⟩

end MiniKafka.Cluster
