import MiniKafka.Broker.StandaloneLogs
import MiniKafka.Client.Asking

/-!
# A producer that retries

The loop of `mk-produce`. Each attempt is one Produce over a connection of its own; a redirect
is followed at once, and any other failure costs a growing sleep and a question who leads the
partition now. Requests whose answers were lost are written again, so the record may be stored
more than once, but never more often than there are attempts, and an offset that the producer
reports is one that holds the record.
-/

namespace MiniKafka.Client

open Broker Cluster Common Foundations Net Protocol Storage

def kMaxProduceAttempts : Nat := 10

def kInitialBackoffMs : UInt32 := 50

def kMaxBackoffMs : UInt32 := 2000

/-- What the loop does not change; `broker` is the address that was given to it. -/
structure ProduceArgs where
  broker : Address
  topic : Topic
  partitionId : UInt32
  acks : UInt8 := 1
  record : Record

def ProduceArgs.request (args : ProduceArgs) : ProduceRequest :=
  ⟨args.topic, args.partitionId, args.acks, [args.record]⟩

inductive Outcome
  | produced (baseOffset : UInt64)
  | gaveUp
  deriving DecidableEq, Repr

/-- The turns of the loop: how many there were, how many ended with a redirect and how many
with a sleep. -/
structure Pace where
  backoffMs : UInt32 := kInitialBackoffMs
  attempts : Nat := 0
  redirects : Nat := 0
  backoffs : Nat := 0
  sleptMs : Nat := 0
  outcome : Option Outcome := none
  deriving DecidableEq, Repr

namespace Pace

variable (p : Pace)

def attempt : Pace := { p with attempts := p.attempts + 1 }

def finish (baseOffset : UInt64) : Pace := { p with outcome := some (.produced baseOffset) }

def redirect : Pace := { p with redirects := p.redirects + 1 }

def backOff : Pace :=
  { p with
    sleptMs := p.sleptMs + p.backoffMs.toNat
    backoffs := p.backoffs + 1
    backoffMs := min (p.backoffMs * 2) kMaxBackoffMs }

/-- The condition of the loop. -/
def goOn : Pace :=
  if p.attempts < kMaxProduceAttempts then p else { p with outcome := some .gaveUp }

end Pace

/-- The brokers, and the producer. -/
structure Producing (σ : Type) extends Asking σ where
  /-- `produceHost` and `producePort`. -/
  address : Address
  correlationId : UInt32 := 1
  pace : Pace := {}

/-- What `resolve_leader` takes from an answer. -/
def leaderIn (partitionId : UInt32) (resp : MetadataResponse) : Option Address :=
  if resp.errorCode ≠ .none then none
  else
    (resp.partitions.find? fun pm => pm.partitionId = partitionId ∧ pm.leaderHost ≠ []).map
      fun pm => ⟨pm.leaderHost, pm.leaderPort.toUInt16⟩

namespace Producing

variable {σ : Type} (service : Address → Service σ) (args : ProduceArgs) (s : Producing σ)

/-- The Produce of an attempt. -/
def call : Call := ⟨.produce, s.correlationId, args.request⟩

/-- A connection that was made has used a correlation id. -/
def produce (f : Fate) : Option ProduceResponse × Producing σ :=
  let (answer, asking) := s.ask service s.address (s.call args).frame f
  (answer.bind fun resp => (decodeReply .produce resp).toOption,
    { s with
      toAsking := asking
      correlationId := if f.connects then s.correlationId + 1 else s.correlationId })

/-- The question of `resolve_leader`. -/
def metadataCall (args : ProduceArgs) : Call :=
  ⟨.metadata, 1, (⟨args.topic⟩ : MetadataRequest)⟩

def resolveLeader (f : Fate) : Option Address × Producing σ :=
  let (answer, asking) := s.ask service args.broker (metadataCall args).frame f
  let resp := answer.bind fun resp => (decodeReply .metadata resp).toOption
  (resp.bind (leaderIn args.partitionId), { s with toAsking := asking })

/-- The end of a turn that has failed. -/
def backOff (f : Fate) : Producing σ :=
  let (resolved, s) := { s with pace := s.pace.backOff }.resolveLeader service args f
  { s with address := resolved.getD s.address, pace := s.pace.goOn }

/-- The rest of a turn, from the response on. -/
def receive (resp : Option ProduceResponse) (f : Fate) : Producing σ :=
  match resp with
  | some resp =>
      if resp.errorCode = .none then { s with pace := s.pace.finish resp.baseOffset }
      else if resp.errorCode = .notLeaderForPartition ∧ resp.leaderHost ≠ [] then
        { s with
          address := ⟨resp.leaderHost, resp.leaderPort.toUInt16⟩
          pace := s.pace.redirect.goOn }
      else s.backOff service args f
  | none => s.backOff service args f

/-- A turn of the loop; the Metadata request at its end has its own fate. -/
def turn (f resolve : Fate) : Producing σ :=
  let (resp, s) := { s with pace := s.pace.attempt }.produce service args f
  s.receive service args resp resolve

end Producing

/-- A turn of the producer, something else that happens at the brokers, or bytes of a closed
connection that reach one. -/
inductive ProduceEvent (ε : Type)
  | turn (f resolve : Fate)
  | elsewhere (e : ε)
  | late (i : Nat) (f : Fate)

def produceStep {σ ε : Type} (service : Address → Service σ) (env : σ → ε → Option σ)
    (args : ProduceArgs) (s : Producing σ) : ProduceEvent ε → Option (Producing σ)
  | .turn f resolve => if s.pace.outcome = none then some (s.turn service args f resolve) else none
  | .elsewhere e => (env s.brokers e).map fun brokers => { s with brokers := brokers }
  | .late i f => (s.adrift[i]?).map fun w =>
      { s with toAsking := s.late service f i w.1 w.2 }

/-! ## The pace of the loop -/

/-- How long the producer sleeps after `n` sleeps. -/
def backoff (n : Nat) : Nat := min (50 * 2 ^ n) 2000

def totalBackoff (n : Nat) : Nat := ((List.range n).map backoff).sum

example : totalBackoff kMaxProduceAttempts = 11150 := by decide

theorem totalBackoff_succ (n : Nat) : totalBackoff (n + 1) = totalBackoff n + backoff n := by
  simp [totalBackoff, List.range_succ]

theorem backoff_succ (n : Nat) : backoff (n + 1) = min (backoff n * 2) 2000 := by
  rw [backoff, backoff, Nat.pow_succ]
  omega

theorem toNat_min (a b : UInt32) : (min a b).toNat = min a.toNat b.toNat := by
  change (if a ≤ b then a else b).toNat = _
  split
  · next hle => exact (Nat.min_eq_left (UInt32.le_iff_toNat_le.mp hle)).symm
  · next hnot =>
      rw [UInt32.le_iff_toNat_le] at hnot
      omega

/-- Turns end with a sleep or a redirect, except the one that produces. -/
structure Pace.Paced (p : Pace) : Prop where
  turns : p.attempts = p.backoffs + p.redirects ∨
    ∃ baseOffset, p.outcome = some (.produced baseOffset) ∧
      p.attempts = p.backoffs + p.redirects + 1
  slept : p.sleptMs = totalBackoff p.backoffs
  next : p.backoffMs.toNat = backoff p.backoffs
  bound : p.attempts ≤ kMaxProduceAttempts
  goesOn : p.outcome = none → p.attempts < kMaxProduceAttempts
  gaveUp : p.outcome = some .gaveUp → p.attempts = kMaxProduceAttempts ∧
    p.attempts = p.backoffs + p.redirects

section Pace

variable {p : Pace}

theorem Pace.paced_start : Pace.Paced {} where
  turns := Or.inl rfl
  slept := rfl
  next := rfl
  bound := Nat.zero_le _
  goesOn _ := by decide
  gaveUp := nofun

/-- A turn that has not produced has slept or was redirected. -/
theorem Pace.Paced.goOn (turns : p.attempts = p.backoffs + p.redirects)
    (slept : p.sleptMs = totalBackoff p.backoffs) (next : p.backoffMs.toNat = backoff p.backoffs)
    (bound : p.attempts ≤ kMaxProduceAttempts) (running : p.outcome = none) : p.goOn.Paced := by
  unfold Pace.goOn
  split
  · next hlt => exact ⟨Or.inl turns, slept, next, bound, fun _ => hlt, by simp [running]⟩
  · next hge =>
      exact ⟨Or.inl turns, slept, next, bound, nofun,
        fun _ => ⟨Nat.le_antisymm bound (Nat.le_of_not_lt hge), turns⟩⟩

theorem Pace.Paced.running (h : p.Paced) (running : p.outcome = none) :
    p.attempts = p.backoffs + p.redirects ∧ p.attempts < kMaxProduceAttempts := by
  rcases h.turns with hturns | ⟨baseOffset, hproduced, -⟩
  · exact ⟨hturns, h.goesOn running⟩
  · cases running.symm.trans hproduced

theorem Pace.Paced.finish (h : p.Paced) (running : p.outcome = none) (baseOffset : UInt64) :
    (p.attempt.finish baseOffset).Paced := by
  obtain ⟨hturns, hlt⟩ := h.running running
  refine ⟨Or.inr ⟨baseOffset, rfl, congrArg (· + 1) hturns⟩, h.slept, h.next, hlt, nofun, nofun⟩

theorem Pace.Paced.redirect (h : p.Paced) (running : p.outcome = none) :
    p.attempt.redirect.goOn.Paced := by
  obtain ⟨hturns, hlt⟩ := h.running running
  exact Pace.Paced.goOn (congrArg (· + 1) hturns) h.slept h.next hlt running

theorem Pace.Paced.backOff (h : p.Paced) (running : p.outcome = none) :
    p.attempt.backOff.goOn.Paced := by
  obtain ⟨hturns, hlt⟩ := h.running running
  have hshort : p.backoffMs.toNat ≤ 2000 := by
    rw [h.next]
    exact Nat.min_le_right _ _
  have hnext : (min (p.backoffMs * 2) kMaxBackoffMs).toNat = backoff (p.backoffs + 1) := by
    rw [backoff_succ, ← h.next]
    have hdouble : (p.backoffMs * 2).toNat = p.backoffMs.toNat * 2 := by
      rw [UInt32.toNat_mul]
      change p.backoffMs.toNat * 2 % 2 ^ 32 = _
      omega
    rw [← hdouble, toNat_min]
    rfl
  refine Pace.Paced.goOn ?_ ?_ hnext hlt running
  · change p.attempts + 1 = p.backoffs + 1 + p.redirects
    omega
  · change p.sleptMs + p.backoffMs.toNat = totalBackoff (p.backoffs + 1)
    rw [totalBackoff_succ, h.slept, h.next]

end Pace

/-! ## The turns of the loop -/

/-- A Produce, as the handlers of the brokers get it. -/
def isProduce (f : RequestFrame) : Bool := f.requestType = RequestType.produce.code

section Turn

variable {σ : Type} {service : Address → Service σ} {args : ProduceArgs} {s : Producing σ}
  {f resolve : Fate}

/-- The frames of the producer fit their length fields. -/
structure ProduceArgs.Fits (args : ProduceArgs) : Prop where
  request : args.request.Fits
  frame : ∀ correlationId, (requestBody (Call.frame
    ⟨.produce, correlationId, args.request⟩)).length < 2 ^ 32
  metadata : (requestBody (Producing.metadataCall args).frame).length < 2 ^ 32

/-- The Produce of a turn, from what the turn begins with. -/
def Producing.begin (s : Producing σ) : Producing σ := { s with pace := s.pace.attempt }

/-- The Produce of a turn does what one request does. -/
theorem Producing.produce_asked (service : Address → Service σ) (fits : args.Fits)
    (s : Producing σ) (f : Fate) :
    ∃ r, Asked service s.toAsking s.address (s.call args).frame r ∧
      (s.produce service args f).1 = r.1.bind (fun resp => (decodeReply .produce resp).toOption) ∧
      (s.produce service args f).2.toAsking = r.2 :=
  ⟨_, s.ask_asked service s.address (fits.frame s.correlationId) f, rfl, rfl⟩

/-- How a turn ends, after its Produce was answered or not. -/
inductive TurnEnd (service : Address → Service σ) (args : ProduceArgs) (resolve : Fate)
    (answer : Option ProduceResponse) (s : Producing σ) : Producing σ → Prop
  | produced {resp} (got : answer = some resp) (ok : resp.errorCode = .none) :
      TurnEnd service args resolve answer s { s with pace := s.pace.finish resp.baseOffset }
  | redirected {resp} (got : answer = some resp)
      (moved : resp.errorCode = .notLeaderForPartition ∧ resp.leaderHost ≠ []) :
      TurnEnd service args resolve answer s { s with
        address := ⟨resp.leaderHost, resp.leaderPort.toUInt16⟩
        pace := s.pace.redirect.goOn }
  | failed : TurnEnd service args resolve answer s (s.backOff service args resolve)

theorem Producing.turn_end (service : Address → Service σ) (args : ProduceArgs)
    (s : Producing σ) (f resolve : Fate) :
    TurnEnd service args resolve (s.begin.produce service args f).1
      (s.begin.produce service args f).2 (s.turn service args f resolve) := by
  change TurnEnd service args resolve (s.begin.produce service args f).1
    (s.begin.produce service args f).2 ((s.begin.produce service args f).2.receive service args
      (s.begin.produce service args f).1 resolve)
  unfold Producing.receive
  split
  · next resp hresp =>
      split
      · next hok => exact .produced hresp hok
      · split
        · next hmoved => exact .redirected hresp hmoved
        · exact .failed
  · exact .failed

/-- Every turn keeps the pace, and adds at most one copy. -/
structure Retrying (s : Producing σ) : Prop where
  paced : s.pace.Paced
  copies : s.copies isProduce ≤ s.pace.attempts

theorem isProduce_call (correlationId : UInt32) :
    [Call.frame ⟨.produce, correlationId, args.request⟩].countP isProduce = 1 := rfl

theorem isProduce_metadata : [(Producing.metadataCall args).frame].countP isProduce = 0 := rfl

theorem goOn_attempts (p : Pace) : p.goOn.attempts = p.attempts := by
  unfold Pace.goOn
  split <;> rfl

/-- What a turn that has failed ends with. -/
theorem Producing.backOff_asked (service : Address → Service σ) (fits : args.Fits)
    (s : Producing σ) (f : Fate) :
    ∃ r, Asked service s.toAsking args.broker (metadataCall args).frame r ∧
      (s.backOff service args f).toAsking = r.2 ∧
      (s.backOff service args f).pace = s.pace.backOff.goOn :=
  ⟨_, s.ask_asked service args.broker fits.metadata f, rfl, rfl⟩

theorem Retrying.turn (h : Retrying s) (fits : args.Fits) (running : s.pace.outcome = none)
    (f resolve : Fate) : Retrying (s.turn service args f resolve) := by
  obtain ⟨r, hasked, -, hproduced⟩ := s.begin.produce_asked service fits f
  have hpace : (s.begin.produce service args f).2.pace = s.pace.attempt := rfl
  have hcopies : (s.begin.produce service args f).2.copies isProduce ≤
      s.pace.attempt.attempts := by
    have hone := hasked.copies isProduce
    rw [Producing.call, isProduce_call] at hone
    rw [hproduced]
    exact hone.trans (Nat.succ_le_succ h.copies)
  have hend := s.turn_end service args f resolve
  generalize s.turn service args f resolve = u at hend
  generalize (s.begin.produce service args f).2 = begun at hpace hcopies hend
  cases hend with
  | @produced resp got ok =>
      refine ⟨?_, hcopies.trans_eq (by rw [hpace]; rfl)⟩
      rw [hpace]
      exact h.paced.finish running resp.baseOffset
  | redirected got moved =>
      constructor
      · change begun.pace.redirect.goOn.Paced
        rw [hpace]
        exact h.paced.redirect running
      · change begun.copies isProduce ≤ begun.pace.redirect.goOn.attempts
        rw [goOn_attempts, hpace]
        exact hcopies
  | failed =>
      obtain ⟨r', hasked', hbackOff, hslept⟩ := begun.backOff_asked service fits resolve
      have hnone := hasked'.copies isProduce
      rw [isProduce_metadata] at hnone
      constructor
      · rw [hslept, hpace]
        exact h.paced.backOff running
      · rw [hbackOff, hslept, goOn_attempts, hpace]
        exact hnone.trans hcopies

/-- A response to a Produce that fits its fields fits its frame. -/
theorem produceReply_fits {resp : ProduceResponse} (h : StringFits resp.leaderHost)
    (correlationId : UInt32) :
    (responseBody (Reply.frame ⟨.produce, correlationId, resp⟩)).length < 2 ^ 32 := by
  have hlen : resp.leaderHost.length < 2 ^ 16 := h
  have hbody : (responseBody (Reply.frame ⟨.produce, correlationId, resp⟩)).length =
      20 + resp.leaderHost.length := by
    change (putU32 correlationId ++ encodeProduceResponse resp).length = _
    simp only [encodeProduceResponse, putErrorCode, putI16, putString, putU16, List.length_append,
      List.length_cons, List.length_nil, putU32_length, putU64_length]
    omega
  omega

/-- An offset that is reported was answered. -/
theorem Producing.turn_produced (fits : args.Fits)
    (small : ∀ p resp, (service s.address .produce args.request p).1 = .ok resp →
      StringFits resp.leaderHost)
    (running : s.pace.outcome = none) {baseOffset : UInt64}
    (h : (s.turn service args f resolve).pace.outcome = some (.produced baseOffset)) :
    ∃ resp, service s.address .produce args.request s.brokers =
        (.ok resp, (s.turn service args f resolve).brokers) ∧
      resp.errorCode = .none ∧ resp.baseOffset = baseOffset := by
  obtain ⟨r, hasked, hresp, hproduced⟩ := s.begin.produce_asked service fits f
  have hpace : (s.begin.produce service args f).2.pace = s.pace.attempt := rfl
  have hbrokers : (s.begin.produce service args f).2.brokers = r.2.brokers :=
    congrArg Asking.brokers hproduced
  have hend := s.turn_end service args f resolve
  generalize s.turn service args f resolve = u at hend h ⊢
  generalize (s.begin.produce service args f).2 = begun at hpace hend hbrokers
  have hgoOn : ∀ p : Pace, p.outcome = none → p.goOn.outcome ≠ some (.produced baseOffset) := by
    intro p hp
    unfold Pace.goOn
    split
    · rw [hp]
      exact nofun
    · exact nofun
  cases hend with
  | @produced resp got ok =>
      rw [hresp] at got
      obtain ⟨frame, hframe, hdecoded⟩ := Option.bind_eq_some_iff.mp got
      obtain ⟨answer, hanswer, -, hsame⟩ := hasked.answer frame hframe
      have hcall : (s.begin.call args).Fits := ⟨fits.request, fits.frame s.correlationId⟩
      obtain ⟨resp', hserve, rfl⟩ := handle_answered hcall hanswer
      have hserve' : service s.address .produce args.request s.brokers = (.ok resp', r.2.brokers) :=
        hserve
      have hfits : StringFits resp'.leaderHost := small s.brokers resp' (congrArg Prod.fst hserve')
      obtain rfl := hsame (produceReply_fits hfits s.correlationId)
      have hdecoded' : decodeReply .produce
          (Reply.frame ⟨.produce, s.correlationId, resp'⟩) = .ok resp' :=
        decodeReply_frame (r := ⟨.produce, s.correlationId, resp'⟩) hfits
      have hresp' : resp = resp' := by
        change (decodeReply .produce (Reply.frame ⟨.produce, s.correlationId, resp'⟩)).toOption =
          some resp at hdecoded
        rw [hdecoded'] at hdecoded
        exact (Option.some.inj hdecoded).symm
      subst hresp'
      refine ⟨resp, hserve'.trans (congrArg _ hbrokers.symm), ok, ?_⟩
      exact (Outcome.produced.inj (Option.some.inj h))
  | redirected got moved =>
      rw [hpace] at h
      exact absurd h (hgoOn _ running)
  | failed =>
      obtain ⟨r', -, -, hslept⟩ := begun.backOff_asked service fits resolve
      rw [hslept, hpace] at h
      exact absurd h (hgoOn _ running)

end Turn

/-- In whatever way the brokers answer and connections break, `mk-produce` makes at most ten
attempts, and handlers get its record no more often than it has made attempts, even counting
requests that reach them later. Each turn that does not produce ends with a redirect or a sleep,
and the sleeps double from 50 ms up to 2 s: a producer that gives up has slept as often as it
was not redirected. One that reports an offset was answered it by the handler of the broker it
asked. -/
theorem producer_retries {σ ε : Type} {service : Address → Service σ} {env : σ → ε → Option σ}
    {args : ProduceArgs} {start : σ} {address : Address} {correlationId : UInt32}
    {visits : List (Producing σ × ProduceEvent ε)} {t : Producing σ} (fits : args.Fits)
    (small : ∀ peer p resp, (service peer .produce args.request p).1 = .ok resp →
      StringFits resp.leaderHost)
    (run : Run (produceStep service env args)
      { brokers := start, address := address, correlationId := correlationId } visits t) :
    t.heard.countP isProduce ≤ t.pace.attempts ∧ t.pace.attempts ≤ kMaxProduceAttempts ∧
      t.pace.sleptMs = totalBackoff t.pace.backoffs ∧
      (t.pace.outcome = some .gaveUp →
        t.pace.backoffs + t.pace.redirects = kMaxProduceAttempts) ∧
      ∀ f resolve u baseOffset, produceStep service env args t (.turn f resolve) = some u →
        u.pace.outcome = some (.produced baseOffset) →
        ∃ resp, service t.address .produce args.request t.brokers = (.ok resp, u.brokers) ∧
          resp.errorCode = .none ∧ resp.baseOffset = baseOffset := by
  have hretrying : Retrying t := by
    refine run.always ⟨Pace.paced_start, Nat.le_refl 0⟩ ?_
    intro t e u h hstep
    cases e with
    | turn f resolve =>
        simp only [produceStep] at hstep
        split at hstep
        · next running =>
            obtain rfl := Option.some.inj hstep
            exact h.turn fits running f resolve
        · cases hstep
    | elsewhere e =>
        obtain ⟨brokers, -, rfl⟩ := Option.map_eq_some_iff.mp hstep
        exact ⟨h.paced, h.copies⟩
    | late i f =>
        obtain ⟨w, hi, rfl⟩ := Option.map_eq_some_iff.mp hstep
        exact ⟨h.paced, (t.late_copies service f hi).trans h.copies⟩
  obtain ⟨hpaced, hcopies⟩ := hretrying
  refine ⟨(Nat.le_add_right _ _).trans hcopies, hpaced.bound, hpaced.slept, ?_, ?_⟩
  · intro hgaveUp
    obtain ⟨hlast, hturns⟩ := hpaced.gaveUp hgaveUp
    exact hturns.symm.trans hlast
  · intro f resolve u baseOffset hstep houtcome
    simp only [produceStep] at hstep
    split at hstep
    · next running =>
        obtain rfl := Option.some.inj hstep
        exact Producing.turn_produced fits (small t.address) running houtcome
    · cases hstep

/-- Every broker but one sends the producer to this one. -/
def redirecting (peer : Address) : Service Unit
  | .produce, _, s =>
      let resp : ProduceResponse :=
        if peer = ⟨[98], 9093⟩ then ⟨.none, 7, [], 0⟩ else ⟨.notLeaderForPartition, 0, [98], 9093⟩
      (.ok resp, s)
  | _, _, s => (.error (.runtime "not here"), s)

def oneRecord : ProduceArgs := ⟨⟨[97], 9092⟩, [116], 0, 1, { key := [1], value := [10] }⟩

/-- The first attempt gets no connection, the second is redirected. -/
def refusedRedirected : List (ProduceEvent Unit) :=
  [.turn { connects := false } {}, .turn { sends := [.upTo 5] } {}]

theorem oneRecord_fits : oneRecord.Fits where
  request := ⟨by decide, by decide, by decide⟩
  frame _ := by simp [requestBody, Call.frame]; decide
  metadata := by decide

theorem producer_retries_redirected :
    ∃ visits t, Run (produceStep redirecting (fun s () => some s) oneRecord)
        { brokers := (), address := ⟨[97], 9092⟩ } visits t ∧
      t.pace.sleptMs = totalBackoff 1 ∧
      ∃ u, produceStep redirecting (fun s () => some s) oneRecord t (.turn {} {}) = some u ∧
        u.pace.outcome = some (.produced 7) ∧
        ∃ resp, redirecting t.address .produce oneRecord.request t.brokers = (.ok resp, u.brokers) ∧
          resp.errorCode = .none ∧ resp.baseOffset = 7 := by
  have seen : ((execute (produceStep redirecting (fun s () => some s) oneRecord)
      { brokers := (), address := ⟨[97], 9092⟩ } refusedRedirected).map fun t =>
        (t.pace.backoffs, (t.turn redirecting oneRecord {} {}).pace.outcome,
          t.pace.outcome)) = some (1, some (.produced 7), none) := by
    decide +kernel
  obtain ⟨t, run, hseen⟩ := run_showing seen
  obtain ⟨hbackoffs, hproduced⟩ := Prod.mk.inj hseen
  obtain ⟨houtcome, hrunning⟩ := Prod.mk.inj hproduced
  have small : ∀ peer p resp, (redirecting peer .produce oneRecord.request p).1 = .ok resp →
      StringFits resp.leaderHost := by
    rintro peer p resp hresp
    obtain rfl := Except.ok.inj hresp
    split <;> decide
  obtain ⟨-, -, hslept, -, hanswered⟩ := producer_retries oneRecord_fits small run
  have hstep : produceStep redirecting (fun s () => some s) oneRecord t (.turn {} {}) =
      some (t.turn redirecting oneRecord {} {}) := if_pos hrunning
  exact ⟨_, t, run, hbackoffs ▸ hslept, _, hstep, houtcome, hanswered _ _ _ _ hstep houtcome⟩

end MiniKafka.Client
