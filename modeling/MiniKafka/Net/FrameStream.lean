import MiniKafka.Net.Socket
import MiniKafka.Foundations.StreamReader

/-!
# Streams of frames

The read functions of a socket make of what comes what a decoder makes of it in one piece, so
the frames of a stream are read back whatever the kernel does to the calls on either side. A
stream that ends early gives the frames that are whole, and then an error.
-/

namespace MiniKafka.Net

open Foundations Common

variable {α : Type}

/-- A reader over bytes of its own. -/
def within (get : Decode α) (data : Bytes) : Decode α :=
  match get.run ⟨data, 0⟩ with
  | .ok (a, _) => pure a
  | .error e => throw e

/-- `readFrame` on bytes in one piece. -/
def decodeFrame (fields : Bytes → Decode α) : Decode α := do
  let lenBuf ← getRaw 4
  let totalLen ← within getU32 lenBuf
  let body ← getRaw totalLen.toNat
  within (fields body) body

theorem receive_refines (len : Nat) : Refines Incoming.coming (receive len) (getRaw len) where
  reads {conn r bytes next} hview h := by
    rw [getRaw_run] at h
    split at h
    · cases h
    · next henough =>
        obtain ⟨rfl, rfl⟩ := Prod.mk.inj (Except.ok.inj h)
        rw [Input.remaining, hview] at henough
        have hnone : ([] : Bytes).length ≤ len := Nat.zero_le len
        have hall : len ≤ ([] : Bytes).length + conn.coming.length := by simpa using henough
        obtain ⟨conn', hread, hleft⟩ := recvAll_ok hnone hall
        refine ⟨conn', ?_, ?_⟩
        · change recvAll conn len [] = _
          rw [hread, hview]
          rfl
        · change r.rest.drop len = conn'.coming
          rw [hleft, hview]
          rfl
  fails {conn r e} hview h := by
    rw [getRaw_run] at h
    split at h
    · next hshort =>
        rw [Input.remaining, hview] at hshort
        exact recvAll_error (by simpa using hshort)
    · cases h

theorem onBytes_refines (get : Decode α) (data : Bytes) :
    Refines Incoming.coming (onBytes get data) (within get data) := by
  unfold onBytes within
  cases get.run ⟨data, 0⟩ with
  | ok read => exact Refines.pure read.1
  | error e => exact Refines.throw e (NetError.decode e)

theorem receive_zero : receive 0 = pure [] := by
  funext conn
  rw [receive, recvAll]
  rfl

/-- Of an empty body nothing is to be read. -/
theorem receiveBody_refines (totalLen : UInt32) :
    Refines Incoming.coming (receiveBody totalLen) (getRaw totalLen.toNat) := by
  unfold receiveBody
  split
  · exact receive_refines totalLen.toNat
  · next hzero =>
      have hnat : totalLen = 0 := by simpa using hzero
      rw [hnat, ← receive_zero]
      exact receive_refines 0

theorem readFrame_refines (fields : Bytes → Decode α) :
    Refines Incoming.coming (readFrame fields) (decodeFrame fields) := by
  apply (receive_refines 4).bind
  intro lenBuf
  apply (onBytes_refines getU32 lenBuf).bind
  intro totalLen
  exact (receiveBody_refines totalLen).bind fun body => onBytes_refines (fields body) body

/-! ## Frames that are read back -/

theorem within_eq {get : Decode α} {data : Bytes} {a : α} {next : Reader}
    (h : get.run ⟨data, 0⟩ = .ok (a, next)) : within get data = pure a := by
  rw [within, h]

theorem decodeFrame_delimits {fields : Bytes → Decode α} {body : Bytes} {f : α} {next : Reader}
    (hlen : body.length < 2 ^ 32) (hfields : (fields body).run ⟨body, 0⟩ = .ok (f, next)) :
    Delimits (decodeFrame fields) (framed body) f := by
  have hlength := (getU32_delimits (UInt32.ofNat body.length)).reads [] 0
  rw [List.append_nil] at hlength
  have hlast : Delimits (within (fields body) body) [] f := by
    rw [within_eq hfields]
    exact Delimits.pure rfl
  have hbody : Delimits (getRaw (UInt32.ofNat body.length).toNat >>= fun body =>
      within (fields body) body) body f := by
    rw [UInt32.toNat_ofNat_of_lt' hlen]
    have hframe := (getRaw_delimits body).bind (f := fun body => within (fields body) body) hlast
    rwa [List.append_nil] at hframe
  apply (getRaw_delimits (putU32 (UInt32.ofNat body.length))).bind
  rw [within_eq hlength]
  exact hbody

theorem requestFields_run (f : RequestFrame) :
    (requestFields (requestBody f)).run ⟨requestBody f, 0⟩ = .ok (f, ⟨f.payload, 6⟩) := by
  have htype := (getU16_delimits f.requestType).reads (putU32 f.correlationId ++ f.payload) 0
  have hcorr := (getU32_delimits f.correlationId).reads f.payload 2
  exact (run_bind_of_ok _ htype).trans (run_bind_of_ok _ hcorr)

theorem responseFields_run (f : ResponseFrame) :
    (responseFields (responseBody f)).run ⟨responseBody f, 0⟩ = .ok (f, ⟨f.payload, 4⟩) := by
  have hcorr := (getU32_delimits f.correlationId).reads f.payload 0
  exact run_bind_of_ok _ hcorr

/-! ## Writing -/

/-- Frames written one after another, until a write fails. -/
def writeEach (write : α → Outgoing → Except NetError Unit × Outgoing) :
    List α → Outgoing → Except NetError Unit × Outgoing
  | [], out => (.ok (), out)
  | f :: rest, out =>
      match write f out with
      | (.ok (), next) => writeEach write rest next
      | (.error e, next) => (.error e, next)

/-- What is sent of the frames: all of them, or a part if a write fails. -/
theorem writeEach_sent {write : α → Outgoing → Except NetError Unit × Outgoing}
    {encode : α → Bytes} (hwrite : ∀ f out, write f out = sendAll out (encode f) 0)
    (frames : List α) (out : Outgoing) :
    ∃ part, part <+: frames.flatMap encode ∧
      (writeEach write frames out).2.sent = out.sent ++ part ∧
      ((writeEach write frames out).1 = .ok () ↔ part = frames.flatMap encode) := by
  induction frames generalizing out with
  | nil => exact ⟨[], List.prefix_refl _, (List.append_nil _).symm, by simp [writeEach]⟩
  | cons f rest ih =>
      have hfirstFrame := @sendAll_sent out (encode f) 0
      obtain ⟨first, hfirst, hsent, hok⟩ := hfirstFrame
      rw [List.drop_zero] at hfirst hok
      rw [← hwrite] at hsent hok
      rw [List.flatMap_cons, writeEach]
      cases hrun : write f out with
      | mk result next =>
          rw [hrun] at hsent hok
          cases result with
          | error e =>
              refine ⟨first, hfirst.trans (List.prefix_append _ _), hsent, ?_⟩
              constructor
              · intro h
                cases h
              · intro hall
                have hwhole : encode f <+: first := hall ▸ List.prefix_append _ _
                cases hok.mpr (hfirst.eq_of_length_le hwhole.length_le)
          | ok =>
              obtain rfl := hok.mp rfl
              obtain ⟨part, hpart, hrest, hall⟩ := ih next
              refine ⟨encode f ++ part, (List.prefix_append_right_inj _).mpr hpart, ?_, ?_⟩
              · rw [← List.append_assoc, ← hsent]
                exact hrest
              · rw [List.append_right_inj]
                exact hall

/-! ## Streams -/

/-- The frames that `write` sends are those that `read` receives: all of them from the whole
stream, and from a part of it those that are whole. -/
structure StreamRoundTrip (encode : α → Bytes)
    (write : α → Outgoing → Except NetError Unit × Outgoing) (read : Receive α)
    (frames : List α) : Prop where
  sent : ∀ out, ∃ part, part <+: frames.flatMap encode ∧
    (writeEach write frames out).2.sent = out.sent ++ part ∧
    ((writeEach write frames out).1 = .ok () ↔ part = frames.flatMap encode)
  whole : ∀ conn : Incoming, conn.coming = frames.flatMap encode →
    ∃ conn', (collect read frames.length).run conn = .ok (frames, conn') ∧ conn'.coming = []
  cut : ∀ conn : Incoming, conn.coming <+: frames.flatMap encode →
    conn.coming ≠ frames.flatMap encode →
    ∃ whole f more part conn' e, frames = whole ++ f :: more ∧
      conn.coming = whole.flatMap encode ++ part ∧ part <+: encode f ∧ part ≠ encode f ∧
      (collect read whole.length).run conn = .ok (whole, conn') ∧ read.run conn' = .error e

theorem frames_delimited {fields : Bytes → Decode α} {body : α → Bytes} {frames : List α}
    (hfields : ∀ f, ∃ next, (fields (body f)).run ⟨body f, 0⟩ = .ok (f, next))
    (hlen : ∀ f ∈ frames, (body f).length < 2 ^ 32) :
    ∀ f ∈ frames, Delimits (decodeFrame fields) (framed (body f)) f := by
  intro f hf
  obtain ⟨next, hnext⟩ := hfields f
  exact decodeFrame_delimits (hlen f hf) hnext

theorem streamRoundTrip {fields : Bytes → Decode α} {body : α → Bytes}
    {write : α → Outgoing → Except NetError Unit × Outgoing} {frames : List α}
    (hwrite : ∀ f out, write f out = sendAll out (framed (body f)) 0)
    (hfields : ∀ f, ∃ next, (fields (body f)).run ⟨body f, 0⟩ = .ok (f, next))
    (hlen : ∀ f ∈ frames, (body f).length < 2 ^ 32) :
    StreamRoundTrip (fun f => framed (body f)) write (readFrame fields) frames where
  sent := writeEach_sent hwrite frames
  whole conn hconn :=
    (readFrame_refines fields).stream (frames_delimited hfields hlen)
      (by rw [hconn, List.append_nil])
  cut conn hprefix hne :=
    (readFrame_refines fields).cut (frames_delimited hfields hlen) hprefix hne

/-- The frames of a connection arrive as they were sent. -/
theorem frame_streams_round_trip :
    (∀ frames : List RequestFrame, (∀ f ∈ frames, (requestBody f).length < 2 ^ 32) →
      StreamRoundTrip (fun f => framed (requestBody f)) writeRequestFrame readRequestFrame
        frames) ∧
    (∀ frames : List ResponseFrame, (∀ f ∈ frames, (responseBody f).length < 2 ^ 32) →
      StreamRoundTrip (fun f => framed (responseBody f)) writeResponseFrame readResponseFrame
        frames) := by
  constructor
  · intro frames hlen
    exact streamRoundTrip (fun _ _ => rfl) (fun f => ⟨_, requestFields_run f⟩) hlen
  · intro frames hlen
    exact streamRoundTrip (fun _ _ => rfl) (fun f => ⟨_, responseFields_run f⟩) hlen

/-- Two requests and the answer to one of them. -/
theorem frame_streams_round_trip_two :
    StreamRoundTrip (fun f => framed (requestBody f)) writeRequestFrame readRequestFrame
      [⟨2, 7, [104, 105]⟩, ⟨3, 8, []⟩] ∧
    StreamRoundTrip (fun f => framed (responseBody f)) writeResponseFrame readResponseFrame
      [⟨7, [0]⟩] :=
  ⟨frame_streams_round_trip.1 _ (by decide), frame_streams_round_trip.2 _ (by decide)⟩

end MiniKafka.Net
