import MiniKafka.Broker.StandaloneLogs
import MiniKafka.Storage.Draining

/-!
# A consumer of one partition

The poll loop of `mk-consume` without a group. It begins at an offset and prints what the
fetches answer, while other clients go on calling the broker; what it prints is the log from
this offset on, every record once, and it comes to the end of whatever the log then has.
-/

namespace MiniKafka.Client

open Broker Cluster Common Foundations Protocol Storage

variable {γ : Type}

/-- 1 MiB per poll. -/
def kMaxFetchBytes : UInt32 := (1 : UInt32) <<< 20

/-- What the poll loops make of an answer. -/
inductive Polled
  | redirect (leaderHost : Bytes) (leaderPort : UInt16)
  | refused (errorCode : ErrorCode)
  | empty
  | records (records : List Record)
  deriving DecidableEq, Repr

def polled (resp : FetchResponse) : Polled :=
  if resp.errorCode = .notLeaderForPartition ∧ resp.leaderHost ≠ [] then
    .redirect resp.leaderHost resp.leaderPort.toUInt16
  else if resp.errorCode ≠ .none then .refused resp.errorCode
  else if resp.records = [] then .empty
  else .records resp.records

/-- The position behind the records that a poll has printed. -/
def nextPosition (position : UInt64) (records : List Record) : UInt64 :=
  records.foldl (fun _ rec => rec.offset + 1) position

/-- The loop of `run_direct_mode`, from the first Fetch on. -/
structure DirectConsumer where
  topic : Topic
  partitionId : UInt32
  offset : UInt64
  address : Address
  printed : List Record := []
  /-- It has returned 1, or a call has thrown. -/
  ended : Bool := false
  deriving DecidableEq

namespace DirectConsumer

variable (c : DirectConsumer)

def key : TopicPartition := (c.topic, c.partitionId)

def request : FetchRequest := ⟨c.topic, c.partitionId, c.offset, kMaxFetchBytes⟩

/-- The rest of a turn of the loop, from the response on. -/
def receive (resp : FetchResponse) : DirectConsumer :=
  match polled resp with
  | .redirect host port => { c with address := ⟨host, port⟩ }
  | .refused _ => { c with ended := true }
  | .empty => c
  | .records records =>
      { c with printed := c.printed ++ records, offset := nextPosition c.offset records }

end DirectConsumer

section Run

variable (cfg : BrokerConfig) (groups : Service γ) (restart : γ → γ)

/-- A turn of the loop, at a broker without peers. The high watermark is not looked at, so the
fetch happens when it reads its records. -/
def poll (s : Standalone γ × DirectConsumer) : Standalone γ × DirectConsumer :=
  match standalone cfg groups .fetch s.2.request s.1 with
  | (.ok resp, t) => (t, s.2.receive resp)
  | (.error _, t) => (t, { s.2 with ended := true })

/-- The consumer polls, its connection breaks, or something else happens at the broker. -/
inductive DirectEvent
  | poll
  | disconnect
  | broker (e : StandaloneEvent)

/-- With the process of the broker the connection ends, and nobody catches what the next call
throws. -/
def directStep (s : Standalone γ × DirectConsumer) :
    DirectEvent → Option (Standalone γ × DirectConsumer)
  | .poll => if s.2.ended then none else some (poll cfg groups s)
  | .disconnect => some (s.1, { s.2 with ended := true })
  | .broker e => (standaloneStep cfg groups restart s.1 e).map fun t =>
      (t, { s.2 with ended := s.2.ended || !e.isCall })

end Run

/-- The broker goes on running, and the connection to it lasts. -/
def KeepsRunning (_ : Standalone γ × DirectConsumer) : DirectEvent → Prop
  | .poll => True
  | .disconnect => False
  | .broker e => e.isCall = true

instance (s : Standalone γ × DirectConsumer) : (e : DirectEvent) → Decidable (KeepsRunning s e)
  | .poll => .isTrue trivial
  | .disconnect => .isFalse id
  | .broker e => inferInstanceAs (Decidable (e.isCall = true))

/-- What else happens at the broker has ordinary names and fits. -/
def OthersFit (s : Standalone γ) : DirectEvent → Prop
  | .poll | .disconnect => True
  | .broker e => Takes s e

instance (s : Standalone γ) : (e : DirectEvent) → Decidable (OthersFit s e)
  | .poll | .disconnect => .isTrue trivial
  | .broker e => inferInstanceAs (Decidable (Takes s e))

/-- The topic of the consumer has an ordinary name, too. -/
structure DirectTakes (s : Standalone γ × DirectConsumer) (e : DirectEvent) : Prop where
  topic : TopicName s.2.topic
  others : OthersFit s.1 e

instance (s : Standalone γ × DirectConsumer) (e : DirectEvent) : Decidable (DirectTakes s e) :=
  decidable_of_iff (TopicName s.2.topic ∧ OthersFit s.1 e)
    ⟨fun h => ⟨h.1, h.2⟩, fun h => ⟨h.topic, h.others⟩⟩

section Poll

variable {cfg : BrokerConfig} {groups : Service γ} {restart : γ → γ} {s : Standalone γ}
  {c : DirectConsumer}

theorem polled_records (records : List Record) (highWatermark : UInt64) :
    polled ⟨.none, highWatermark, records, [], 0⟩ =
      if records = [] then .empty else .records records := by
  simp [polled]

/-- The position moves by the number of records. -/
theorem nextPosition_eq {records : List Record} {position : UInt64}
    (h : Numbered position.toNat records) :
    (nextPosition position records) = position + UInt64.ofNat records.length := by
  by_cases hnil : records = []
  · subst hnil
    exact (UInt64.add_zero _).symm
  · rw [nextPosition, h.next_position hnil, UInt64.ofNat_add, UInt64.ofNat_toNat]

/-- What a poll sees of the log, and what is behind it. -/
structure Fetched (cfg : BrokerConfig) (s : Standalone γ) (req : FetchRequest)
    (records : List Record) : Prop where
  polled : polled (s.fetch cfg req).1 = if records = [] then .empty else .records records
  answers : Answers (s.logs (req.topic, req.partitionId)) req.fetchOffset records
  next : nextPosition req.fetchOffset records =
    req.fetchOffset + UInt64.ofNat records.length
  sound : (s.fetch cfg req).2.Sound
  logs : (s.fetch cfg req).2.logs = s.logs

theorem fetched (cfg : BrokerConfig) (h : s.Sound) (req : FetchRequest)
    (hoffset : req.fetchOffset.toNat < 2 ^ 63) : ∃ records, Fetched cfg s req records := by
  obtain ⟨hsound, hlogs, records, hanswers, hfetch⟩ := fetch_logs cfg req h
  have hnumbered : Numbered req.fetchOffset.toNat records :=
    hanswers.numbered (h.numbered (req.topic, req.partitionId)).1 hoffset
  refine ⟨records, ?_, hanswers, nextPosition_eq hnumbered, hsound, hlogs⟩
  rw [Except.ok.inj hfetch, polled_records]

/-- A poll prints what follows its position, and nothing only at the end of the log. -/
theorem poll_prints (cfg : BrokerConfig) (groups : Service γ) (h : s.Sound)
    (hoffset : c.offset.toNat < 2 ^ 63) :
    ∃ records, Answers (s.logs c.key) c.offset records ∧
      (poll cfg groups (s, c)).1.Sound ∧ (poll cfg groups (s, c)).1.logs = s.logs ∧
      (poll cfg groups (s, c)).2 =
        { c with
          printed := c.printed ++ records
          offset := c.offset + UInt64.ofNat records.length } := by
  obtain ⟨records, hfetched⟩ := fetched cfg h c.request hoffset
  have hnext : nextPosition c.offset records = c.offset + UInt64.ofNat records.length :=
    hfetched.next
  have hpoll : poll cfg groups (s, c) =
      ((s.fetch cfg c.request).2, c.receive (s.fetch cfg c.request).1) := rfl
  refine ⟨records, hfetched.answers, hfetched.sound, hfetched.logs, ?_⟩
  rw [hpoll, DirectConsumer.receive, hfetched.polled]
  by_cases hnil : records = []
  · subst hnil
    simp
  · simp only [if_neg hnil, hnext]

end Poll

/-! ## What is printed -/

/-- The consumer has printed the log from `start` up to its position, and was not sent to
another broker. -/
structure PrintsFrom (start : Nat) (address : Address) (log : List Record)
    (c : DirectConsumer) : Prop where
  window : c.printed <+: log.drop start
  position : c.offset.toNat = start + c.printed.length
  stays : c.address = address

section Printed

variable {cfg : BrokerConfig} {groups : Service γ} {restart : γ → γ} {s : Standalone γ}
  {c : DirectConsumer} {start : Nat} {address : Address} {log : List Record}

theorem PrintsFrom.grow {log' : List Record} (h : PrintsFrom start address log c)
    (hlog : log <+: log') : PrintsFrom start address log' c :=
  ⟨h.window.trans (hlog.drop start), h.position, h.stays⟩

theorem PrintsFrom.position_lt (h : PrintsFrom start address log c) (hstart : start < 2 ^ 63)
    (hlog : log.length < 2 ^ 63) : c.offset.toNat < 2 ^ 63 := by
  have hlen := h.window.length_le
  have hposition := h.position
  rw [List.length_drop] at hlen
  omega

/-- A poll extends the window, unless all is printed. -/
theorem PrintsFrom.poll (h : PrintsFrom start address (s.logs c.key) c) (hs : s.Sound)
    (hstart : start < 2 ^ 63) :
    (poll cfg groups (s, c)).1.Sound ∧ (poll cfg groups (s, c)).1.logs = s.logs ∧
      (poll cfg groups (s, c)).2.key = c.key ∧
      PrintsFrom start address (s.logs c.key) (poll cfg groups (s, c)).2 ∧
      ((s.logs c.key).length ≤ (poll cfg groups (s, c)).2.offset.toNat ∨
        c.offset.toNat < (poll cfg groups (s, c)).2.offset.toNat) := by
  obtain ⟨-, hlt⟩ := hs.numbered c.key
  have hoffset := h.position_lt hstart hlt
  obtain ⟨records, hanswers, hsound, hlogs, hpoll⟩ := poll_prints cfg groups hs hoffset
  obtain ⟨hpart, hend⟩ := hanswers hoffset
  have hlen := hpart.length_le
  have hprinted := h.window.length_le
  rw [List.length_drop] at hlen hprinted
  have hposition : (c.offset + UInt64.ofNat records.length).toNat =
      c.offset.toNat + records.length := by
    rw [UInt64.toNat_add, UInt64.toNat_ofNat']
    omega
  have hrest : c.printed ++ records <+: (s.logs c.key).drop start := by
    obtain ⟨rest, hwindow⟩ := h.window
    have hdrop : (s.logs c.key).drop c.offset.toNat = rest := by
      rw [h.position, ← List.drop_drop, ← hwindow, List.drop_left]
    rw [← hwindow]
    exact (List.prefix_append_right_inj _).mpr (hdrop ▸ hpart)
  rw [hpoll]
  refine ⟨hsound, hlogs, rfl, ⟨hrest, ?_, h.stays⟩, ?_⟩
  · change (c.offset + UInt64.ofNat records.length).toNat = _
    rw [hposition, h.position, List.length_append, Nat.add_assoc]
  · change _ ≤ (c.offset + UInt64.ofNat records.length).toNat ∨
      c.offset.toNat < (c.offset + UInt64.ofNat records.length).toNat
    rw [hposition]
    by_cases hnil : records = []
    · exact Or.inl ((hend hnil).trans (Nat.le_add_right _ _))
    · have hpos := List.length_pos_of_ne_nil hnil
      omega

/-- What is kept in a run: the consumer is where it was, and has printed a part of the log. -/
structure Consuming (start : Nat) (address : Address) (key : TopicPartition)
    (s : Standalone γ × DirectConsumer) : Prop where
  sound : s.1.Sound
  key_eq : s.2.key = key
  prints : PrintsFrom start address (s.1.logs key) s.2

theorem Consuming.step {key : TopicPartition} {s t : Standalone γ × DirectConsumer}
    {e : DirectEvent} (h : Consuming start address key s) (hstart : start < 2 ^ 63)
    (takes : DirectTakes s e) (hstep : directStep cfg groups restart s e = some t) :
    Consuming start address key t := by
  obtain ⟨s, c⟩ := s
  obtain ⟨hsound, rfl, hprints⟩ := h
  cases e with
  | poll =>
      simp only [directStep] at hstep
      split at hstep
      · cases hstep
      · obtain rfl := Option.some.inj hstep
        obtain ⟨hsound', hlogs, hkey, hprints', -⟩ := hprints.poll hsound hstart
        exact ⟨hsound', hkey, hlogs ▸ hprints'⟩
  | disconnect =>
      obtain rfl := Option.some.inj hstep
      obtain ⟨hwindow, hposition, hstays⟩ := hprints
      exact ⟨hsound, rfl, hwindow, hposition, hstays⟩
  | broker e =>
      obtain ⟨u, hu, rfl⟩ := Option.map_eq_some_iff.mp hstep
      obtain ⟨hsound', hlog⟩ := standaloneStep_logs hsound takes.others hu
      obtain ⟨hwindow, hposition, hstays⟩ := hprints.grow (hlog.grows c.key)
      exact ⟨hsound', rfl, hwindow, hposition, hstays⟩

/-- When nobody writes any more, as many polls as there are records left print them all. -/
theorem Consuming.drains {key : TopicPartition} {s : Standalone γ × DirectConsumer}
    (h : Consuming start address key s) (hstart : start < 2 ^ 63) {polls : Nat}
    (hpolls : (s.1.logs key).length ≤ s.2.offset.toNat + polls) :
    ((poll cfg groups)^[polls] s).2.printed = (s.1.logs key).drop start := by
  induction polls generalizing s with
  | zero =>
      have hlen := h.prints.window.length_le
      have hposition := h.prints.position
      rw [List.length_drop] at hlen
      apply h.prints.window.eq_of_length
      rw [List.length_drop]
      omega
  | succ polls ih =>
      obtain ⟨s, c⟩ := s
      obtain ⟨hsound, rfl, hprints⟩ := h
      have hwindow : PrintsFrom start address (s.logs c.key) c := hprints
      obtain ⟨hsound', hlogs, hkey, hprints', hmoves⟩ := hwindow.poll hsound hstart
      have hnext : Consuming start address c.key (poll cfg groups (s, c)) :=
        ⟨hsound', hkey, hlogs ▸ hprints'⟩
      have hleft : ((poll cfg groups (s, c)).1.logs c.key).length ≤
          (poll cfg groups (s, c)).2.offset.toNat + polls := by
        rw [hlogs]
        rcases hmoves with hend | hmove
        · exact hend.trans (Nat.le_add_right _ _)
        · change (s.logs c.key).length ≤ c.offset.toNat + (polls + 1) at hpolls
          omega
      rw [Function.iterate_succ_apply, ih hnext hleft, hlogs]

end Printed

/-- No answer ends the consumer. -/
theorem DirectConsumer.ended_step {cfg : BrokerConfig} {groups : Service γ} {restart : γ → γ}
    {s t : Standalone γ × DirectConsumer} {e : DirectEvent} (hs : s.1.Sound)
    (hoffset : s.2.offset.toNat < 2 ^ 63) (running : s.2.ended = false)
    (keeps : KeepsRunning s e) (hstep : directStep cfg groups restart s e = some t) :
    t.2.ended = false := by
  cases e with
  | poll =>
      simp only [directStep, running] at hstep
      obtain rfl := Option.some.inj hstep
      obtain ⟨records, -, -, -, hpoll⟩ := poll_prints cfg groups hs hoffset
      rw [hpoll]
      exact running
  | disconnect => exact absurd keeps id
  | broker e =>
      obtain ⟨u, -, rfl⟩ := Option.map_eq_some_iff.mp hstep
      have hcall : e.isCall = true := keeps
      simp [running, hcall]

/-- A consumer that begins at `start` prints the log from there on, every record once and in
order, whatever else is called at the broker. Only a broken connection or the end of the broker's
process ends it, and when the log stops growing it prints the whole rest of it, with no more
polls than there are records left. -/
theorem direct_consumer_prints_log {cfg : BrokerConfig} {groups : Service γ} {restart : γ → γ}
    {g : γ} {clock : Nat → UInt64} {topic : Topic} {partitionId : UInt32} {start : UInt64}
    {address : Address} {visits : List ((Standalone γ × DirectConsumer) × DirectEvent)}
    {t : Standalone γ × DirectConsumer}
    (run : Run (directStep cfg groups restart)
      ({ groupCoordinator := g, clock := clock },
        { topic := topic, partitionId := partitionId, offset := start, address := address })
      visits t)
    (hstart : start.toNat < 2 ^ 63) (takes : Guarded DirectTakes visits) :
    PrintsFrom start.toNat address (t.1.logs (topic, partitionId)) t.2 ∧
      (Guarded KeepsRunning visits → t.2.ended = false) ∧
      ∀ polls, (t.1.logs (topic, partitionId)).length ≤ t.2.offset.toNat + polls →
        ((poll cfg groups)^[polls] t).2.printed =
          (t.1.logs (topic, partitionId)).drop start.toNat := by
  have first : Consuming start.toNat address (topic, partitionId)
      (({ groupCoordinator := g, clock := clock } : Standalone γ),
        { topic := topic, partitionId := partitionId, offset := start, address := address }) :=
    ⟨Standalone.sound_start g clock, rfl, List.nil_prefix, rfl, rfl⟩
  have hconsuming : Consuming start.toNat address (topic, partitionId) t :=
    run.invariant takes first fun t e u hG h hstep => h.step hstart hG hstep
  refine ⟨hconsuming.prints, ?_, fun polls hpolls => hconsuming.drains hstart hpolls⟩
  intro keeps
  have both : Guarded (fun s e => DirectTakes s e ∧ KeepsRunning s e) visits := fun v hv =>
    ⟨takes v hv, keeps v hv⟩
  refine (run.invariant (I := fun s => Consuming start.toNat address (topic, partitionId) s ∧
    s.2.ended = false) both ⟨first, rfl⟩ ?_).2
  rintro t e u ⟨hG, hkeeps⟩ ⟨h, hrunning⟩ hstep
  have hoffset := h.prints.position_lt hstart (h.sound.numbered (topic, partitionId)).2
  exact ⟨h.step hstart hG hstep,
    DirectConsumer.ended_step h.sound hoffset hrunning hkeeps hstep⟩

/-- A consumer from offset 1 polls between two batches and after them. -/
def pollsBetween : List DirectEvent :=
  [.broker (.call .produce twoRecords), .poll, .broker (.call .produce twoRecords), .poll]

theorem direct_consumer_prints_log_between :
    ∃ visits t, Run (directStep oneBroker noGroups id)
        (({ groupCoordinator := (), clock := UInt64.ofNat } : Standalone Unit),
          { topic := [116], partitionId := 0, offset := 1, address := ⟨[104], 9092⟩ })
        visits t ∧
      t.2.printed.length = 3 ∧ t.2.printed <+: (t.1.logs ([116], 0)).drop 1 ∧
      t.2.ended = false := by
  have seen : (execute (directStep oneBroker noGroups id)
      (({ groupCoordinator := (), clock := UInt64.ofNat } : Standalone Unit),
        { topic := [116], partitionId := 0, offset := 1, address := ⟨[104], 9092⟩ })
      pollsBetween).map (fun t => t.2.printed.length) = some 3 := by
    decide +kernel
  obtain ⟨t, run, hlength⟩ := run_showing seen
  have takes : Guarded DirectTakes (trace (directStep oneBroker noGroups id)
      (({ groupCoordinator := (), clock := UInt64.ofNat } : Standalone Unit),
        { topic := [116], partitionId := 0, offset := 1, address := ⟨[104], 9092⟩ })
      pollsBetween) := by
    decide +kernel
  obtain ⟨hprints, hkeeps, -⟩ := direct_consumer_prints_log run (by decide) takes
  have keeps : Guarded KeepsRunning (trace (directStep oneBroker noGroups id)
      (({ groupCoordinator := (), clock := UInt64.ofNat } : Standalone Unit),
        { topic := [116], partitionId := 0, offset := 1, address := ⟨[104], 9092⟩ })
      pollsBetween) := by
    decide +kernel
  exact ⟨_, t, run, hlength, hprints.window, hkeeps keeps⟩

end MiniKafka.Client
