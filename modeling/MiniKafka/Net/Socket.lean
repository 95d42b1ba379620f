import MiniKafka.Common.Codec
import MiniKafka.Foundations.StreamReader

/-!
# Sockets and frames

The functions of `socket.cpp` that move bytes. A call of `send` or `recv` moves as many bytes
as the kernel likes and may be interrupted; the loops around them go on until all bytes are
moved or the connection ends.
-/

namespace MiniKafka.Net

open Foundations Common

/-- The exceptions, by their texts. -/
inductive NetError
  | runtime (what : String)
  | decode (e : DecodeError)
  deriving DecidableEq, Repr

structure RequestFrame where
  requestType : UInt16 := 0
  correlationId : UInt32 := 0
  payload : Bytes := []
  deriving DecidableEq, Repr

structure ResponseFrame where
  correlationId : UInt32 := 0
  payload : Bytes := []
  deriving DecidableEq, Repr

/-! ## The calls of the kernel -/

/-- `strerror(EPIPE)`. -/
def brokenPipe : String := "Broken pipe"

/-- How a call of `send` is answered. -/
inductive SendAnswer
  /-- At most `n + 1` bytes are taken. -/
  | upTo (n : Nat)
  | interrupted
  /-- The call returns 0. -/
  | nothing
  /-- With the text of `errno`. At `brokenPipe` the caller also gets a `SIGPIPE`, which nothing
  handles, and its process ends before it can throw. -/
  | failed (error : String)
  deriving DecidableEq, Repr

/-- The sending side of a connection. -/
structure Outgoing where
  /-- What the kernel has taken. -/
  sent : Bytes := []
  /-- The answers to the next calls. The calls behind them get all their bytes taken. -/
  answers : List SendAnswer := []
  deriving DecidableEq, Repr

/-- What a call of `send` returns; `EINTR` is apart from the other errors. -/
inductive SendResult
  | accepted (n : Nat)
  | interrupted
  | failed (error : String)
  deriving DecidableEq, Repr

def Outgoing.send (out : Outgoing) (data : Bytes) : SendResult × Outgoing :=
  match out.answers with
  | [] => (.accepted data.length, { out with sent := out.sent ++ data })
  | .upTo n :: answers =>
      (.accepted (min (n + 1) data.length), ⟨out.sent ++ data.take (n + 1), answers⟩)
  | .interrupted :: answers => (.interrupted, { out with answers := answers })
  | .nothing :: answers => (.accepted 0, { out with answers := answers })
  | .failed error :: answers => (.failed error, { out with answers := answers })

/-- How a call of `recv` is answered while there is something to receive. -/
inductive RecvAnswer
  /-- At most `n + 1` bytes are given. -/
  | upTo (n : Nat)
  | interrupted
  deriving DecidableEq, Repr

/-- The receiving side of a connection. -/
structure Incoming where
  /-- What is still to come before the connection ends. -/
  coming : Bytes
  /-- The answers to the next calls. The calls behind them get all they ask for. -/
  answers : List RecvAnswer := []
  /-- The error the connection ends with, unless the peer closes it. -/
  ending : Option String := none
  deriving DecidableEq, Repr

/-- What a call of `recv` returns; no bytes stand for the end of the connection. -/
inductive RecvResult
  | received (chunk : Bytes)
  | interrupted
  | failed (error : String)
  deriving DecidableEq, Repr

/-- The next bytes that come, `n` of them at most. -/
def Incoming.give (conn : Incoming) (n : Nat) : RecvResult × Incoming :=
  if conn.coming = [] then
    match conn.ending with
    | none => (.received [], conn)
    | some error => (.failed error, conn)
  else (.received (conn.coming.take n), { conn with coming := conn.coming.drop n })

def Incoming.recv (conn : Incoming) (len : Nat) : RecvResult × Incoming :=
  match conn.answers with
  | [] => conn.give len
  | .upTo n :: answers => { conn with answers := answers }.give (min (n + 1) len)
  | .interrupted :: answers => (.interrupted, { conn with answers := answers })

section Calls

variable {out next : Outgoing} {data : Bytes} {conn conn' : Incoming} {len n : Nat}

theorem Outgoing.send_interrupted (h : out.send data = (.interrupted, next)) :
    next.sent = out.sent ∧ next.answers.length < out.answers.length := by
  unfold Outgoing.send at h
  split at h <;> cases h
  next heq => simp [heq]

theorem Outgoing.send_failed {error : String} (h : out.send data = (.failed error, next)) :
    next.sent = out.sent := by
  unfold Outgoing.send at h
  split at h <;> cases h
  rfl

theorem Outgoing.mem_of_send_failed {error : String}
    (h : out.send data = (.failed error, next)) : .failed error ∈ out.answers := by
  unfold Outgoing.send at h
  split at h <;> cases h
  next heq =>
    rw [heq]
    exact List.mem_cons_self

theorem Outgoing.send_answers (out : Outgoing) (data : Bytes) :
    (out.send data).2.answers ⊆ out.answers := by
  unfold Outgoing.send
  split
  · exact List.Subset.refl _
  all_goals
    next heq =>
      rw [heq]
      exact List.subset_cons_self _ _

/-- As many bytes are taken as `send` returns. -/
theorem Outgoing.send_accepted (h : out.send data = (.accepted n, next)) :
    n ≤ data.length ∧ next.sent = out.sent ++ data.take n ∧
      next.answers.length ≤ out.answers.length := by
  unfold Outgoing.send at h
  split at h <;> cases h
  · simp
  · next heq =>
      refine ⟨Nat.min_le_right _ _, ?_, by simp [heq]⟩
      rw [List.take_eq_take_min]
  · next heq => simp [heq]

theorem Incoming.give_ne_interrupted : (conn.give n).1 ≠ .interrupted := by
  unfold Incoming.give
  split
  · split <;> simp
  · simp

/-- An error is the end of the connection. -/
theorem Incoming.give_failed {error : String} (h : conn.give n = (.failed error, conn')) :
    conn.coming = [] := by
  unfold Incoming.give at h
  split at h
  · assumption
  · cases h

theorem Incoming.give_received {chunk : Bytes} (h : conn.give n = (.received chunk, conn'))
    (hn : 0 < n) :
    conn.coming = chunk ++ conn'.coming ∧ chunk.length ≤ n ∧ (chunk = [] → conn.coming = []) ∧
      conn'.answers = conn.answers := by
  unfold Incoming.give at h
  split at h
  · next hend =>
      split at h
      · cases h
        exact ⟨rfl, Nat.zero_le _, fun _ => hend, rfl⟩
      · cases h
  · cases h
    refine ⟨(List.take_append_drop _ _).symm, List.length_take_le _ _, fun hnil => ?_, rfl⟩
    exact (List.take_eq_nil_iff.mp hnil).resolve_left hn.ne'

theorem Incoming.recv_interrupted (h : conn.recv len = (.interrupted, conn')) :
    conn'.coming = conn.coming ∧ conn'.answers.length < conn.answers.length := by
  unfold Incoming.recv at h
  split at h
  · exact absurd (congrArg Prod.fst h) give_ne_interrupted
  · exact absurd (congrArg Prod.fst h) give_ne_interrupted
  · next heq =>
      cases h
      simp [heq]

theorem Incoming.recv_failed {error : String} (h : conn.recv len = (.failed error, conn')) :
    conn.coming = [] := by
  unfold Incoming.recv at h
  split at h
  · exact give_failed h
  · exact (give_failed h :)
  · cases h

/-- What is received was the first to come. Nothing is received only where nothing comes. -/
theorem Incoming.recv_received {chunk : Bytes} (h : conn.recv len = (.received chunk, conn'))
    (hlen : 0 < len) :
    conn.coming = chunk ++ conn'.coming ∧ chunk.length ≤ len ∧ (chunk = [] → conn.coming = []) ∧
      conn'.answers.length ≤ conn.answers.length := by
  unfold Incoming.recv at h
  split at h
  · next heq =>
      obtain ⟨hcoming, hshort, hend, hanswers⟩ := give_received h hlen
      exact ⟨hcoming, hshort, hend, by rw [hanswers]⟩
  · next heq =>
      obtain ⟨hcoming, hshort, hend, hanswers⟩ := give_received h (by omega)
      exact ⟨hcoming, hshort.trans (Nat.min_le_right _ _), hend, by simp [hanswers, heq]⟩
  · cases h

end Calls

/-! ## The loops around them -/

/-- `send_all`, when `sent` bytes of `data` are taken. -/
def sendAll (out : Outgoing) (data : Bytes) (sent : Nat) : Except NetError Unit × Outgoing :=
  if sent < data.length then
    match _h : out.send (data.drop sent) with
    | (.interrupted, next) => sendAll next data sent
    | (.failed error, next) => (.error (.runtime ("send failed: " ++ error)), next)
    | (.accepted n, next) =>
        if n = 0 then (.error (.runtime "connection closed during send"), next)
        else sendAll next data (sent + n)
  else (.ok (), out)
termination_by out.answers.length + (data.length - sent)
decreasing_by
  · have hused := (Outgoing.send_interrupted _h).2
    omega
  · have hused := (Outgoing.send_accepted _h).2.2
    omega

/-- `recv_all`, when `got` is in the buffer. -/
def recvAll (conn : Incoming) (len : Nat) (got : Bytes) : Except NetError (Bytes × Incoming) :=
  if _hlen : got.length < len then
    match _h : conn.recv (len - got.length) with
    | (.interrupted, next) => recvAll next len got
    | (.failed error, _) => .error (.runtime ("recv failed: " ++ error))
    | (.received chunk, next) =>
        if _hchunk : chunk = [] then .error (.runtime "connection closed during recv")
        else recvAll next len (got ++ chunk)
  else .ok (got, conn)
termination_by conn.answers.length + conn.coming.length
decreasing_by
  · obtain ⟨hcoming, hused⟩ := Incoming.recv_interrupted _h
    rw [hcoming]
    omega
  · obtain ⟨hcoming, -, -, hused⟩ := Incoming.recv_received _h (Nat.sub_pos_of_lt _hlen)
    have hpos := List.length_pos_iff.mpr _hchunk
    rw [hcoming, List.length_append]
    omega

section Loops

variable {out : Outgoing} {conn : Incoming} {data got : Bytes} {len sent : Nat}

/-- A write hands over all its bytes, or it fails and they are not all taken. -/
theorem sendAll_sent :
    ∃ part, part <+: data.drop sent ∧ (sendAll out data sent).2.sent = out.sent ++ part ∧
      ((sendAll out data sent).1 = .ok () ↔ part = data.drop sent) := by
  fun_induction sendAll out data sent with
  | case1 out sent hlt next h ih =>
      obtain ⟨part, hpart, hsent, hok⟩ := ih
      exact ⟨part, hpart, by rw [hsent, (Outgoing.send_interrupted h).1], hok⟩
  | case2 out sent hlt error next h =>
      refine ⟨[], List.nil_prefix, ?_, ?_⟩
      · rw [List.append_nil]
        exact Outgoing.send_failed h
      · simpa using hlt
  | case3 out sent hlt next h =>
      obtain ⟨-, hsent, -⟩ := Outgoing.send_accepted h
      refine ⟨[], List.nil_prefix, by simpa using hsent, ?_⟩
      simpa using hlt
  | case4 out sent hlt n next h hn ih =>
      obtain ⟨part, hpart, hsent, hok⟩ := ih
      obtain ⟨-, htaken, -⟩ := Outgoing.send_accepted h
      rw [← List.drop_drop] at hpart hok
      have hsplit := List.take_append_drop n (data.drop sent)
      refine ⟨(data.drop sent).take n ++ part, ?_, ?_, ?_⟩
      · obtain ⟨rest, hrest⟩ := hpart
        exact ⟨rest, by rw [List.append_assoc, hrest, hsplit]⟩
      · rw [hsent, htaken, List.append_assoc]
      · rw [hok]
        constructor
        · intro hall
          rw [hall, hsplit]
        · intro hall
          exact List.append_cancel_left (hall.trans hsplit.symm)
  | case5 out sent hlt =>
      have hdone : data.drop sent = [] := List.drop_eq_nil_of_le (Nat.le_of_not_lt hlt)
      exact ⟨[], List.nil_prefix, (List.append_nil _).symm, by simp [hdone]⟩

/-- A write that ends at a broken pipe has met one. -/
theorem sendAll_brokenPipe
    (h : (sendAll out data sent).1 = .error (.runtime ("send failed: " ++ brokenPipe))) :
    .failed brokenPipe ∈ out.answers := by
  fun_induction sendAll out data sent with
  | case1 out sent hlt next hsend ih =>
      have hanswers := out.send_answers (data.drop sent)
      rw [hsend] at hanswers
      exact hanswers (ih h)
  | case2 out sent hlt error next hsend =>
      have herror : error = brokenPipe := by
        injection h with h
        injection h with h
        exact (String.append_right_inj _).mp h
      subst herror
      exact Outgoing.mem_of_send_failed hsend
  | case3 out sent hlt next hsend =>
      injection h with h
      injection h with h
      exact absurd h (by decide)
  | case4 out sent hlt n next hsend hn ih =>
      have hanswers := out.send_answers (data.drop sent)
      rw [hsend] at hanswers
      exact hanswers (ih h)
  | case5 => cases h

/-- However the bytes come, `recv_all` gets the first ones and leaves the others. -/
theorem recvAll_ok (hgot : got.length ≤ len)
    (henough : len ≤ got.length + conn.coming.length) :
    ∃ next, recvAll conn len got = .ok (got ++ conn.coming.take (len - got.length), next) ∧
      next.coming = conn.coming.drop (len - got.length) := by
  fun_induction recvAll conn len got with
  | case1 conn got hlt next h ih =>
      rw [← (Incoming.recv_interrupted h).1] at henough ⊢
      exact ih hgot henough
  | case2 conn got hlt error next h =>
      have hend := Incoming.recv_failed h
      rw [hend, List.length_nil] at henough
      omega
  | case3 conn got hlt next h =>
      have hend := (Incoming.recv_received h (Nat.sub_pos_of_lt hlt)).2.2.1 rfl
      rw [hend, List.length_nil] at henough
      omega
  | case4 conn got hlt chunk next h hchunk ih =>
      obtain ⟨hcoming, hshort, -⟩ := Incoming.recv_received h (Nat.sub_pos_of_lt hlt)
      rw [hcoming, List.length_append] at henough
      rw [List.length_append] at ih
      obtain ⟨last, hread, hleft⟩ := ih (by omega) (by omega)
      have hsub : len - (got.length + chunk.length) = len - got.length - chunk.length := by omega
      refine ⟨last, ?_, ?_⟩
      · rw [hread, hcoming, List.take_append, List.take_of_length_le hshort, hsub,
          List.append_assoc]
      · rw [hleft, hcoming, List.drop_append, List.drop_eq_nil_of_le hshort, List.nil_append, hsub]
  | case5 conn got hlt =>
      have hzero : len - got.length = 0 := by omega
      exact ⟨conn, by simp [hzero], by simp [hzero]⟩

/-- It fails where the connection ends before. -/
theorem recvAll_error (hshort : got.length + conn.coming.length < len) :
    ∃ e, recvAll conn len got = .error e := by
  fun_induction recvAll conn len got with
  | case1 conn got hlt next h ih =>
      rw [← (Incoming.recv_interrupted h).1] at hshort
      exact ih hshort
  | case2 conn got hlt error next h => exact ⟨_, rfl⟩
  | case3 conn got hlt next h => exact ⟨_, rfl⟩
  | case4 conn got hlt chunk next h hchunk ih =>
      obtain ⟨hcoming, -, -⟩ := Incoming.recv_received h (Nat.sub_pos_of_lt hlt)
      rw [hcoming, List.length_append] at hshort
      rw [List.length_append] at ih
      exact ih (by omega)
  | case5 conn got hlt => omega

end Loops

/-! ## Frames -/

def requestBody (f : RequestFrame) : Bytes :=
  putU16 f.requestType ++ (putU32 f.correlationId ++ f.payload)

def responseBody (f : ResponseFrame) : Bytes := putU32 f.correlationId ++ f.payload

/-- A body behind its length. -/
def framed (body : Bytes) : Bytes := putU32 (UInt32.ofNat body.length) ++ body

def writeRequestFrame (f : RequestFrame) (out : Outgoing) : Except NetError Unit × Outgoing :=
  sendAll out (framed (requestBody f)) 0

def writeResponseFrame (f : ResponseFrame) (out : Outgoing) : Except NetError Unit × Outgoing :=
  sendAll out (framed (responseBody f)) 0

abbrev Receive (α : Type) := StateT Incoming (Except NetError) α

def receive (len : Nat) : Receive Bytes := fun conn => recvAll conn len []

/-- A reader over bytes that have been received. -/
def onBytes {α : Type} (get : Decode α) (data : Bytes) : Receive α :=
  match get.run ⟨data, 0⟩ with
  | .ok (a, _) => pure a
  | .error e => throw (.decode e)

/-- An empty body is not asked for. -/
def receiveBody (totalLen : UInt32) : Receive Bytes :=
  if 0 < totalLen then receive totalLen.toNat else pure []

/-- What the two read functions share: the length, and the body with its fields. -/
def readFrame {α : Type} (fields : Bytes → Decode α) : Receive α := do
  let lenBuf ← receive 4
  let totalLen ← onBytes getU32 lenBuf
  let body ← receiveBody totalLen
  onBytes (fields body) body

def requestFields (body : Bytes) : Decode RequestFrame := do
  let requestType ← getU16
  let correlationId ← getU32
  let r ← get
  return { requestType, correlationId, payload := body.drop r.pos }

def responseFields (body : Bytes) : Decode ResponseFrame := do
  let correlationId ← getU32
  return { correlationId, payload := body.drop 4 }

def readRequestFrame : Receive RequestFrame := readFrame requestFields

def readResponseFrame : Receive ResponseFrame := readFrame responseFields

end MiniKafka.Net
