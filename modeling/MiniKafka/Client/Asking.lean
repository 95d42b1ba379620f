import MiniKafka.Broker.Dispatch
import MiniKafka.Broker.Peers
import MiniKafka.Cluster.PeerCalls

/-!
# Requests over connections of their own

The command line clients open a connection for each request and close it after the response.
What breaks then costs at most one copy of the request: it gets to the handler once, or what is
left of it may still do so.
-/

namespace MiniKafka.Client

open Broker Cluster Common Foundations Net Protocol

/-- The brokers, and what a client has under way to them. -/
structure Asking (σ : Type) where
  brokers : σ
  /-- What will still reach a broker from connections that were closed. -/
  adrift : List (Address × Bytes) := []
  /-- The requests of the client that the handlers have got. -/
  heard : List RequestFrame := []

variable {σ : Type}

namespace Asking

variable (service : Address → Service σ) (s : Asking σ)

/-- A request over a connection of its own. No answer stands for an exception, or for the end of
the process at a broken pipe. -/
def ask (peer : Address) (req : RequestFrame) (f : Fate) : Option ResponseFrame × Asking σ :=
  if f.connects then
    let fresh : Calling σ := { peer := s.brokers, heard := s.heard }
    let (answer, c) := fresh.exchange (handle (service peer)) req f {}
    (answer.toOption,
      { brokers := c.peer
        heard := c.heard
        adrift := s.adrift ++ c.adrift.map fun bytes => (peer, bytes) })
  else (none, s)

/-- Bytes of a closed connection reach a broker. -/
def late (f : Fate) (i : Nat) (peer : Address) (bytes : Bytes) : Asking σ :=
  let fresh : Calling σ := { peer := s.brokers, heard := s.heard }
  let c := (fresh.served (handle (service peer)) f bytes).2
  { brokers := c.peer, heard := c.heard, adrift := s.adrift.eraseIdx i }

/-- The requests that may still get to a handler. -/
def waiting : List RequestFrame := s.adrift.flatMap fun w => requestsIn w.2

end Asking

section Ask

variable {service : Address → Service σ} {s : Asking σ} {peer : Address} {req : RequestFrame}
  {f : Fate}

/-- What a request over a connection of its own does. -/
structure Asked (service : Address → Service σ) (s : Asking σ) (peer : Address)
    (req : RequestFrame) (r : Option ResponseFrame × Asking σ) : Prop where
  once : ∃ (got : List RequestFrame) (left : List Bytes), r.2.heard = s.heard ++ got ∧
    r.2.brokers = got.foldl (fun p req => (handle (service peer) req p).2) s.brokers ∧
    r.2.adrift = s.adrift ++ left.map (fun bytes => (peer, bytes)) ∧
    got ++ left.flatMap requestsIn <+: [req] ∧
    ∀ bytes ∈ left, bytes <+: framed (requestBody req)
  answer : ∀ resp, r.1 = some resp → ∃ answer,
    handle (service peer) req s.brokers = (.ok answer, r.2.brokers) ∧
    r.2.heard = s.heard ++ [req] ∧ ((responseBody answer).length < 2 ^ 32 → resp = answer)

theorem Asking.ask_asked (service : Address → Service σ) (s : Asking σ) (peer : Address)
    (fits : (requestBody req).length < 2 ^ 32) (f : Fate) :
    Asked service s peer req (s.ask service peer req f) := by
  unfold Asking.ask
  split
  · have hattempt := Calling.exchange_attempted (handle (service peer)) fits
      { peer := s.brokers, heard := s.heard } f
    obtain ⟨got, left, hstate, hadrift, honce, hpart⟩ := hattempt.once
    dsimp only
    cases hrun : Calling.exchange (handle (service peer)) { peer := s.brokers, heard := s.heard }
        req f {} with
    | mk result c =>
        rw [hrun] at hattempt hstate hadrift
        refine ⟨⟨got, left, hstate.heard, hstate.peer, ?_, honce, hpart⟩, ?_⟩
        · have hleft : c.adrift = left := hadrift.trans (List.nil_append left)
          rw [← hleft]
        · intro resp hresp
          cases result with
          | error e => cases hresp
          | ok got' =>
              obtain rfl := Option.some.inj hresp
              obtain ⟨answer, hanswer, hheard, hread⟩ := hattempt.ok got' rfl
              exact ⟨answer, hanswer, hheard, fun small => (hread small).1⟩
  · exact ⟨⟨[], [], (List.append_nil _).symm, rfl, (List.append_nil _).symm, List.nil_prefix,
      nofun⟩, nofun⟩

/-- Where nothing breaks the answer is returned. -/
theorem Asking.ask_clean (s : Asking σ) (peer : Address)
    (fits : (requestBody req).length < 2 ^ 32) (clean : f.Clean) {resp : ResponseFrame}
    (small : (responseBody resp).length < 2 ^ 32)
    (answer : (handle (service peer) req s.brokers).1 = .ok resp) :
    (s.ask service peer req f).1 = some resp := by
  have hanswered := Calling.exchange_clean fits { peer := s.brokers, heard := s.heard } clean
    small answer
  unfold Asking.ask
  rw [if_pos clean.connects]
  exact congrArg Except.toOption hanswered

/-- The brokers have handled the request once or not. -/
theorem Asked.brokers {r : Option ResponseFrame × Asking σ} (h : Asked service s peer req r) :
    r.2.brokers = s.brokers ∨ r.2.brokers = (handle (service peer) req s.brokers).2 := by
  obtain ⟨got, left, -, hbrokers, -, honce, -⟩ := h.once
  rcases prefix_singleton ((List.prefix_append _ _).trans honce) with rfl | rfl
  · exact Or.inl hbrokers
  · exact Or.inr hbrokers

/-- What is under way behind a request is a part of it, or was before. -/
theorem Asked.parts {r : Option ResponseFrame × Asking σ} (h : Asked service s peer req r) :
    ∀ w ∈ r.2.adrift, w ∈ s.adrift ∨ w.2 <+: framed (requestBody req) := by
  obtain ⟨got, left, -, -, hadrift, -, hparts⟩ := h.once
  intro w hw
  rw [hadrift] at hw
  rcases List.mem_append.mp hw with hold | hnew
  · exact Or.inl hold
  · obtain ⟨bytes, hbytes, rfl⟩ := List.mem_map.mp hnew
    exact Or.inr (hparts bytes hbytes)

end Ask

/-! ## Copies of a request -/

/-- How often handlers have got requests of a kind, or still may. -/
def Asking.copies (kind : RequestFrame → Bool) (s : Asking σ) : Nat :=
  s.heard.countP kind + s.waiting.countP kind

section Copies

variable {service : Address → Service σ} {s : Asking σ} {peer : Address} {req : RequestFrame}
  {f : Fate} {kind : RequestFrame → Bool}

theorem Asked.waiting {r : Option ResponseFrame × Asking σ} {left : List Bytes}
    (h : r.2.adrift = s.adrift ++ left.map fun bytes => (peer, bytes)) :
    r.2.waiting = s.waiting ++ left.flatMap requestsIn := by
  rw [Asking.waiting, h, List.flatMap_append, List.flatMap_map]
  rfl

/-- Nothing is left of a request that was answered. -/
theorem Asked.spent {r : Option ResponseFrame × Asking σ} {resp : ResponseFrame}
    (h : Asked service s peer req r) (answered : r.1 = some resp) : r.2.waiting = s.waiting := by
  obtain ⟨got, left, hheard, -, hadrift, honce, -⟩ := h.once
  obtain ⟨answer, -, hgot, -⟩ := h.answer resp answered
  obtain rfl : got = [req] := List.append_cancel_left (hheard.symm.trans hgot)
  have hnil : left.flatMap requestsIn = [] :=
    List.prefix_nil.mp ((List.prefix_append_right_inj [req]).mp honce)
  rw [Asked.waiting hadrift, hnil, List.append_nil]

/-- A request is one more copy, if it is of the kind. -/
theorem Asked.copies (kind : RequestFrame → Bool) {r : Option ResponseFrame × Asking σ}
    (h : Asked service s peer req r) :
    r.2.copies kind ≤ s.copies kind + [req].countP kind := by
  obtain ⟨got, left, hheard, -, hadrift, honce, -⟩ := h.once
  have hcount := honce.sublist.countP_le (p := kind)
  rw [List.countP_append] at hcount
  rw [Asking.copies, Asking.copies, hheard, Asked.waiting hadrift, List.countP_append,
    List.countP_append]
  omega

/-- What reaches a broker late was under way. -/
theorem Asking.late_got (service : Address → Service σ) (s : Asking σ) (f : Fate) {i : Nat}
    {w : Address × Bytes} (hi : s.adrift[i]? = some w) :
    ∃ got, got <+: requestsIn w.2 ∧ (s.late service f i w.1 w.2).heard = s.heard ++ got ∧
      (s.late service f i w.1 w.2).brokers =
        got.foldl (fun p req => (handle (service w.1) req p).2) s.brokers ∧
      ∀ kind, got.countP kind + (s.late service f i w.1 w.2).waiting.countP kind ≤
        s.waiting.countP kind := by
  obtain ⟨got, hgot, hstate⟩ := served_got (handle (service w.1))
    { peer := s.brokers, heard := s.heard } f w.2
  refine ⟨got, hgot, hstate.heard, hstate.peer, fun kind => ?_⟩
  obtain ⟨hlt, rfl⟩ := List.getElem?_eq_some_iff.mp hi
  have hperm := (List.getElem_cons_eraseIdx_perm hlt).flatMap_right fun w => requestsIn w.2
  have hcount := hgot.sublist.countP_le (p := kind)
  have hbefore : s.waiting.countP kind = (requestsIn s.adrift[i].2).countP kind +
      ((s.adrift.eraseIdx i).flatMap fun w => requestsIn w.2).countP kind := by
    rw [Asking.waiting, ← hperm.countP_eq kind, List.flatMap_cons, List.countP_append]
  rw [hbefore]
  exact Nat.add_le_add_right hcount _

theorem Asking.late_copies (service : Address → Service σ) (s : Asking σ) (f : Fate) {i : Nat}
    {w : Address × Bytes} (hi : s.adrift[i]? = some w) :
    (s.late service f i w.1 w.2).copies kind ≤ s.copies kind := by
  obtain ⟨got, -, hheard, -, hcount⟩ := s.late_got service f hi
  have hleft := hcount kind
  rw [Asking.copies, Asking.copies, hheard, List.countP_append]
  omega

end Copies

end MiniKafka.Client
