import MiniKafka.Broker.DataFiles
import MiniKafka.Broker.Standalone

/-!
# A standalone broker is a map of logs

Seen from its clients, a broker without peers keeps one log for each partition. A Produce
appends to one of them and answers where, a Fetch answers a part of one from the offset it
asks for, and nothing else touches any. A process that ends in the middle of a write leaves a
first part of the batch, and otherwise restarts change nothing: what was acknowledged is read
back by every later fetch. The topics and groups have ordinary names, so that no event works on
a file of another.
-/

namespace MiniKafka.Broker

open Cluster Common Foundations MiniKafka.Group Net Protocol Storage

variable {γ : Type}

/-- Calls that are answered, the sections of the two fetches, between which others come, and the
ways in which the process ends. One that ends in several writes at once is torn in each of them
before it crashes; a torn creation of a topic, which holds the mutex of the broker, comes last
and includes the crash. -/
inductive StandaloneEvent
  | call (t : RequestType) (m : t.Request)
  | readFetch (req : FetchRequest)
  | readReplica (req : ReplicaFetchRequest)
  | answerFetch (read : PendingFetch)
  | tornProduce (req : ProduceRequest) (cut : AppendCut)
  | tornRecover (key : TopicPartition) (cut : RecoverCut)
  | tornCreateTopic (req : CreateTopicRequest) (bytes : Nat)
  | crash

namespace StandaloneEvent

/-- The process goes on. -/
def isCall : StandaloneEvent → Bool
  | .call _ _ | .readFetch _ | .readReplica _ | .answerFetch _ => true
  | _ => false

/-- The partition whose files are read or written. -/
def key : StandaloneEvent → Option TopicPartition
  | .call .produce req => some (req.topic, req.partitionId)
  | .call .fetch req => some (req.topic, req.partitionId)
  | .call .replicate req => some (req.topic, req.partitionId)
  | .readFetch req => some (req.topic, req.partitionId)
  | .readReplica req => some (req.topic, req.partitionId)
  | .tornProduce req _ => some (req.topic, req.partitionId)
  | .tornRecover key _ => some key
  | _ => none

/-- The topic whose file `.partitions` is read or written. -/
def counted : StandaloneEvent → Option Topic
  | .call .metadata req => some req.topic
  | .call .createTopic req => some req.topic
  | .tornCreateTopic req _ => some req.topic
  | _ => none

/-- The group whose offsets are read or written. -/
def group : StandaloneEvent → Option GroupId
  | .call .commitOffset req => some req.groupId
  | .call .fetchOffset req => some req.groupId
  | _ => none

def Touches (e : StandaloneEvent) : DataFile → Prop
  | .segment key _ _ => key ∈ e.key
  | .partitions topic => topic ∈ e.counted
  | .offsets groupId => groupId ∈ e.group

/-- The topic and the group have ordinary names. -/
def Named (e : StandaloneEvent) : Prop :=
  (∀ key ∈ e.key, TopicName key.1) ∧ (∀ topic ∈ e.counted, TopicName topic) ∧
    ∀ groupId ∈ e.group, FileGroup groupId

instance (e : StandaloneEvent) : Decidable e.Named :=
  inferInstanceAs (Decidable (_ ∧ _ ∧ _))

theorem Named.file {e : StandaloneEvent} {f : DataFile} (h : e.Named) (touches : e.Touches f) :
    f.Named := by
  obtain ⟨hkey, htopic, hgroup⟩ := h
  cases f with
  | segment key base file => exact hkey key touches
  | partitions topic => exact htopic topic touches
  | offsets groupId => exact hgroup groupId touches

end StandaloneEvent

abbrev Logs := TopicPartition → List Record

/-- Records that arrive at a log are put at its end. -/
def Logs.grow (logs : Logs) (key : TopicPartition) (records : List Record) : Logs :=
  Function.update logs key (logs key ++ place (logs key).length records)

/-- No log loses or changes a record. -/
def Logs.Extends (logs logs' : Logs) : Prop := ∀ key, logs key <+: logs' key

theorem Logs.extends_of_eq {logs logs' : Logs} (h : logs' = logs) : logs.Extends logs' := by
  subst h
  exact fun _ => List.prefix_rfl

theorem Logs.Extends.trans {logs mid logs' : Logs} (first : logs.Extends mid)
    (second : mid.Extends logs') : logs.Extends logs' := fun key =>
  (first key).trans (second key)

theorem Logs.extends_update {logs : Logs} {key : TopicPartition} {records : List Record}
    (grown : logs key <+: records) : logs.Extends (Function.update logs key records) := by
  intro other
  by_cases heq : other = key
  · subst heq
    rwa [Function.update_self]
  · rw [Function.update_of_ne heq]

theorem Logs.extends_grow (logs : Logs) (key : TopicPartition) (records : List Record) :
    logs.Extends (logs.grow key records) :=
  Logs.extends_update (List.prefix_append _ _)

/-- The records that a fetch has read are a part of the log. -/
def PendingFetch.FromLog (logs : Logs) (read : PendingFetch) : Prop :=
  read.fetchOffset.toNat < 2 ^ 63 →
    read.records <+: (logs read.key).drop read.fetchOffset.toNat

theorem PendingFetch.FromLog.grow {logs logs' : Logs} {read : PendingFetch}
    (h : read.FromLog logs) (grown : logs.Extends logs') : read.FromLog logs' := fun hoffset =>
  (h hoffset).trans ((grown read.key).drop _)

namespace Standalone

variable (s : Standalone γ)

/-- What a process that ends leaves; `restart` makes the coordinator of the next one. -/
def crash (restart : γ → γ) : Standalone γ :=
  { s with
    stores := fun key =>
      match s.stores key with
      | .running p => .stopped p.directory
      | .stopped dir => .stopped dir
    topics := fun _ => none
    groupCoordinator := restart s.groupCoordinator
    fetching := [] }

def tornProduce (req : ProduceRequest) (cut : AppendCut) : Standalone γ :=
  let key := (req.topic, req.partitionId)
  let (p, s) := s.getOrCreatePartition key
  let (records, _) := assignOffsets (s.clock s.readings) p.nextOffset req.records
  { s.setStore key (.stopped (p.tornAppend records cut)) with readings := s.readings + 1 }

def tornRecover (key : TopicPartition) (cut : RecoverCut) : Option (Standalone γ) :=
  match s.stores key with
  | .running _ => none
  | .stopped dir => some (s.setStore key (.stopped (Storage.tornRecover dir cut)))

/-- The file of a topic is left with the first bytes of its number. -/
def tornCreateTopic (restart : γ → γ) (req : CreateTopicRequest) (bytes : Nat) :
    Option (Standalone γ) :=
  let file := (decimal req.numPartitions.toNat).take bytes
  if (s.partitionsFiles req.topic).isSome then none
  else some ((s.setPartitionsFile req.topic file).crash restart)

/-- The log of each partition, whether it is open or not. -/
def logs : Logs := fun key => (s.stores key).records

/-- All of a log is shown while its partition is open. -/
structure Sound : Prop where
  serving : ∀ key, (s.stores key).Serving kMaxSegBytes (s.logs key)
  fetching : ∀ read ∈ s.fetching, read.FromLog s.logs

end Standalone

section Run

variable (cfg : BrokerConfig) (groups : Service γ) (restart : γ → γ)

def standaloneStep (s : Standalone γ) : StandaloneEvent → Option (Standalone γ)
  | .call t m => some (standalone cfg groups t m s).2
  | .readFetch req => some (s.readFetch req).2
  | .readReplica req => some (s.readReplica req).2
  | .answerFetch read => (s.answerFetch read).map Prod.snd
  | .tornProduce req cut => some (s.tornProduce req cut)
  | .tornRecover key cut => s.tornRecover key cut
  | .tornCreateTopic req bytes => s.tornCreateTopic restart req bytes
  | .crash => some (s.crash restart)

end Run

/-- The request whose batch is written. -/
def StandaloneEvent.written : StandaloneEvent → Option ProduceRequest
  | .call .produce req => some req
  | .tornProduce req _ => some req
  | _ => none

/-- The names are ordinary, and a batch that is written came in one request frame and keeps its
log below `2 ^ 63` records. -/
structure Takes (s : Standalone γ) (e : StandaloneEvent) : Prop where
  named : e.Named
  batch : ∀ req ∈ e.written, OneFrame req.records ∧
    (s.logs (req.topic, req.partitionId)).length + req.records.length < 2 ^ 63

instance decidableBatch (s : Standalone γ) (e : StandaloneEvent) :
    Decidable (∀ req ∈ e.written, OneFrame req.records ∧
      (s.logs (req.topic, req.partitionId)).length + req.records.length < 2 ^ 63) :=
  inferInstanceAs (Decidable (∀ req ∈ e.written, (_ : Nat) < _ ∧ (_ : Nat) < _))

instance (s : Standalone γ) (e : StandaloneEvent) : Decidable (Takes s e) :=
  decidable_of_iff (e.Named ∧ _) ⟨fun h => ⟨h.1, h.2⟩, fun h => ⟨h.named, h.batch⟩⟩

/-- A first part of the log from the offset on, and none only from its end on. -/
def Answers (log : List Record) (offset : UInt64) (records : List Record) : Prop :=
  offset.toNat < 2 ^ 63 →
    records <+: log.drop offset.toNat ∧ (records = [] → log.length ≤ offset.toNat)

/-- What a call does to the logs, and what it answers of them. -/
def LogCall (logs logs' : Logs) : (t : RequestType) → t.Request → Except NetError t.Response →
    Prop
  | .produce, req, answer =>
      let key := (req.topic, req.partitionId)
      (∃ now, logs' = logs.grow key (req.records.map (Record.timed now))) ∧
        answer = .ok ⟨.none, UInt64.ofNat (logs key).length, [], 0⟩
  | .fetch, req, answer =>
      let log := logs (req.topic, req.partitionId)
      logs' = logs ∧ ∃ records, Answers log req.fetchOffset records ∧
        answer = .ok ⟨.none, UInt64.ofNat log.length, records, [], 0⟩
  | .replicate, req, answer =>
      let log := logs (req.topic, req.partitionId)
      logs' = logs ∧ ∃ records, Answers log req.fetchOffset records ∧
        answer = .ok ⟨.none, UInt64.ofNat log.length, records, [], 0⟩
  | _, _, _ => logs' = logs

/-- What an event does to the logs. -/
def LogStep (cfg : BrokerConfig) (groups : Service γ) (s : Standalone γ) (logs' : Logs) :
    StandaloneEvent → Prop
  | .call t m => LogCall s.logs logs' t m (standalone cfg groups t m s).1
  | .readFetch req => logs' = s.logs ∧
      Answers (s.logs (req.topic, req.partitionId)) req.fetchOffset (s.readFetch req).1.records
  | .readReplica req => logs' = s.logs ∧
      Answers (s.logs (req.topic, req.partitionId)) req.fetchOffset
        (s.readReplica req).1.records
  | .answerFetch read => logs' = s.logs ∧ read.FromLog s.logs ∧
      (s.answerFetch read).map Prod.fst =
        some ⟨.none, UInt64.ofNat (s.logs read.key).length, read.records, [], 0⟩
  | .tornProduce req _ => ∃ part now, part <+: req.records ∧
      logs' = s.logs.grow (req.topic, req.partitionId) (part.map (Record.timed now))
  | .tornRecover _ _ => logs' = s.logs
  | .tornCreateTopic _ _ => logs' = s.logs
  | .crash => logs' = s.logs

section Stores

variable {s : Standalone γ} {key : TopicPartition} {store : Store} {records : List Record}

theorem Standalone.Sound.setStore (h : s.Sound) (key : TopicPartition)
    (hstore : store.Serving kMaxSegBytes records) (grown : s.logs key <+: records) :
    (s.setStore key store).Sound ∧
      (s.setStore key store).logs = Function.update s.logs key records := by
  have hlogs : (s.setStore key store).logs = Function.update s.logs key records := by
    funext other
    by_cases heq : other = key
    · subst heq
      rw [Function.update_self]
      change ((Function.update s.stores other store) other).records = records
      rw [Function.update_self, hstore.holds.records_eq]
    · rw [Function.update_of_ne heq]
      change ((Function.update s.stores key store) other).records = _
      rw [Function.update_of_ne heq]
      rfl
  refine ⟨⟨?_, ?_⟩, hlogs⟩
  · intro other
    rw [hlogs]
    by_cases heq : other = key
    · subst heq
      rw [Function.update_self]
      change ((Function.update s.stores other store) other).Serving kMaxSegBytes records
      rwa [Function.update_self]
    · rw [Function.update_of_ne heq]
      change ((Function.update s.stores key store) other).Serving kMaxSegBytes _
      rw [Function.update_of_ne heq]
      exact h.serving other
  · intro read hread
    rw [hlogs]
    exact (h.fetching read hread).grow (Logs.extends_update grown)

/-- An open partition of a sound broker. -/
structure Opened (s s' : Standalone γ) (key : TopicPartition) (p : Partition) : Prop where
  sound : s'.Sound
  logs : s'.logs = s.logs
  serving : (Store.running p).Serving kMaxSegBytes (s.logs key)

theorem Standalone.Sound.opened (h : s.Sound) (key : TopicPartition) :
    Opened s (s.getOrCreatePartition key).2 key (s.getOrCreatePartition key).1 := by
  rw [Standalone.getOrCreatePartition]
  split
  · next p hp => exact ⟨h, rfl, hp ▸ h.serving key⟩
  · next dir hdir =>
      have hserving := h.serving key
      rw [hdir] at hserving
      have hrun := hserving.recover (by decide) (List.Perm.refl dir)
      obtain ⟨hsound, hlogs⟩ := h.setStore key hrun List.prefix_rfl
      refine ⟨hsound, ?_, hrun⟩
      rw [hlogs, Function.update_eq_self]

theorem Standalone.Sound.crash (h : s.Sound) (restart : γ → γ) :
    (s.crash restart).Sound ∧ (s.crash restart).logs = s.logs := by
  have hstop : ∀ key, ((s.crash restart).stores key).Serving kMaxSegBytes (s.logs key) := by
    intro key
    have hserving := h.serving key
    simp only [Standalone.crash]
    split
    · next p hp =>
        rw [hp] at hserving
        exact hserving.crash (by decide)
    · next dir hdir => rwa [hdir] at hserving
  have hlogs : (s.crash restart).logs = s.logs := by
    funext key
    exact (hstop key).holds.records_eq
  refine ⟨⟨?_, fun read hread => by cases hread⟩, hlogs⟩
  intro key
  rw [hlogs]
  exact hstop key

/-- The logs are in the stores, whatever else a broker has. -/
theorem Standalone.Sound.same (h : s.Sound) (s' : Standalone γ) (hstores : s'.stores = s.stores)
    (hfetching : s'.fetching ⊆ s.fetching) : s'.Sound ∧ s'.logs = s.logs := by
  have hlogs : s'.logs = s.logs := by
    funext key
    rw [Standalone.logs, hstores]
    rfl
  refine ⟨⟨?_, ?_⟩, hlogs⟩
  · intro key
    rw [hlogs, hstores]
    exact h.serving key
  · intro read hread
    rw [hlogs]
    exact h.fetching read (hfetching hread)

/-- What a fetch answers from an open partition. -/
theorem Opened.answers {s' : Standalone γ} {p : Partition} (h : Opened s s' key p)
    (offset : UInt64) (maxBytes : UInt32) :
    Answers (s.logs key) offset (p.read (toI64 offset) maxBytes) := fun hoffset =>
  h.serving.read hoffset maxBytes

theorem ofInt_natCast (n : Nat) : UInt64.ofInt n = UInt64.ofNat n := by
  apply UInt64.toNat_inj.mp
  rw [UInt64.ofInt, UInt64.toNat_ofNat', UInt64.toNat_ofNat']
  omega

/-- Without a follower a leader shows all it has, so a replica reads no further. -/
theorem Opened.readUpToLeo {s' : Standalone γ} {p : Partition} (h : Opened s s' key p)
    (startOffset : Int) (maxBytes : UInt32) :
    p.readUpToLeo startOffset maxBytes = p.read startOffset maxBytes := by
  obtain ⟨hp, -, hlt⟩ := h.serving.holds.of_running
  have hend : toI64 p.nextOffset = p.hwm := (hp.logEndOffset hlt).trans (h.serving.shown p rfl).symm
  rw [Partition.readUpToLeo, Partition.read, hend]

/-- What is read from an open partition stays a part of its log. -/
theorem Opened.fetching {s' : Standalone γ} {p : Partition} (h : Opened s s' key p)
    {read : PendingFetch} (hkey : read.key = key)
    (hanswers : Answers (s.logs key) read.fetchOffset read.records) :
    { s' with fetching := read :: s'.fetching }.Sound := by
  refine ⟨h.sound.serving, fun other hother => ?_⟩
  change other.FromLog s'.logs
  rcases List.mem_cons.mp hother with rfl | hold
  · subst hkey
    rw [h.logs]
    exact fun hoffset => (hanswers hoffset).1
  · exact h.sound.fetching other hold

end Stores

section Steps

variable {s s' : Standalone γ}

theorem handleProduce_logs {req : ProduceRequest} (h : s.Sound)
    (takes : Takes s (.call .produce req)) :
    (s.handleProduce req).2.Sound ∧
      LogCall s.logs (s.handleProduce req).2.logs .produce req (.ok (s.handleProduce req).1) := by
  obtain ⟨frame, count⟩ := takes.batch req rfl
  have hopened := h.opened (req.topic, req.partitionId)
  let opened := (s.getOrCreatePartition (req.topic, req.partitionId)).2
  let now := opened.clock opened.readings
  obtain ⟨hrun, hbase⟩ := hopened.serving.append (by decide) frame count now
  obtain ⟨hsound, hlogs⟩ := hopened.sound.setStore (req.topic, req.partitionId) hrun
    (hopened.logs ▸ List.prefix_append _ _)
  obtain ⟨hsound', hlogs'⟩ := hsound.same (s.handleProduce req).2 rfl (List.Subset.refl _)
  refine ⟨hsound', ⟨now, ?_⟩, ?_⟩
  · rw [hlogs', hlogs, hopened.logs]
    rfl
  · rw [Standalone.handleProduce]
    dsimp only
    rw [hbase, ofInt_natCast]

theorem readFetch_logs (req : FetchRequest) (h : s.Sound) :
    (s.readFetch req).2.Sound ∧ (s.readFetch req).2.logs = s.logs ∧
      Answers (s.logs (req.topic, req.partitionId)) req.fetchOffset
        (s.readFetch req).1.records := by
  have hopened := h.opened (req.topic, req.partitionId)
  have hanswers := hopened.answers req.fetchOffset req.maxBytes
  exact ⟨hopened.fetching rfl hanswers, hopened.logs, hanswers⟩

theorem readReplica_logs (req : ReplicaFetchRequest) (h : s.Sound) :
    (s.readReplica req).2.Sound ∧ (s.readReplica req).2.logs = s.logs ∧
      Answers (s.logs (req.topic, req.partitionId)) req.fetchOffset
        (s.readReplica req).1.records := by
  have hopened := h.opened (req.topic, req.partitionId)
  have hanswers := hopened.answers req.fetchOffset req.maxBytes
  rw [← hopened.readUpToLeo] at hanswers
  exact ⟨hopened.fetching rfl hanswers, hopened.logs, hanswers⟩

/-- The second section of a fetch leaves the topics and groups alone. -/
theorem answerFetch_keeps {read : PendingFetch} {answered : FetchResponse × Standalone γ}
    (hanswer : s.answerFetch read = some answered) :
    answered.2.partitionsFiles = s.partitionsFiles ∧ answered.2.topics = s.topics ∧
      answered.2.groupCoordinator = s.groupCoordinator := by
  unfold Standalone.answerFetch at hanswer
  split at hanswer
  · split at hanswer
    · obtain rfl := Option.some.inj hanswer
      exact ⟨rfl, rfl, rfl⟩
    · cases hanswer
  · cases hanswer

/-- The high watermark of an answer is that of its second section. -/
theorem answerFetch_logs {read : PendingFetch} {answered : FetchResponse × Standalone γ}
    (h : s.Sound) (hanswer : s.answerFetch read = some answered) :
    answered.2.Sound ∧ answered.2.logs = s.logs ∧ read.FromLog s.logs ∧
      answered.1 = ⟨.none, UInt64.ofNat (s.logs read.key).length, read.records, [], 0⟩ := by
  unfold Standalone.answerFetch at hanswer
  split at hanswer
  · next p hp =>
      split at hanswer
      · next hread =>
          obtain rfl := Option.some.inj hanswer
          have hserving := h.serving read.key
          rw [hp] at hserving
          have hhwm : UInt64.ofInt p.hwm = UInt64.ofNat (s.logs read.key).length := by
            rw [hserving.shown p rfl, ofInt_natCast]
          obtain ⟨hsound, hlogs⟩ :=
            h.same { s with fetching := s.fetching.erase read } rfl List.erase_subset
          exact ⟨hsound, hlogs, h.fetching read hread, by rw [hhwm]⟩
      · cases hanswer
  · cases hanswer

/-- A fetch that nobody comes between. -/
theorem fetch_logs (cfg : BrokerConfig) (req : FetchRequest) (h : s.Sound) :
    (s.fetch cfg req).2.Sound ∧
      LogCall s.logs (s.fetch cfg req).2.logs .fetch req (.ok (s.fetch cfg req).1) := by
  obtain ⟨hread, hlogs, hanswers⟩ := readFetch_logs req h
  obtain ⟨hsound, hlogs', -, hresp⟩ := answerFetch_logs hread (s.answerFetch_readFetch cfg req)
  refine ⟨hsound, hlogs'.trans hlogs, _, hanswers, ?_⟩
  rw [hresp, hlogs]
  rfl

theorem replicate_logs (cfg : BrokerConfig) (req : ReplicaFetchRequest) (h : s.Sound) :
    (s.replicate cfg req).2.Sound ∧
      LogCall s.logs (s.replicate cfg req).2.logs .replicate req
        (.ok (s.replicate cfg req).1) := by
  obtain ⟨hread, hlogs, hanswers⟩ := readReplica_logs req h
  obtain ⟨hsound, hlogs', -, hresp⟩ := answerFetch_logs hread (s.answerFetch_readReplica cfg req)
  refine ⟨hsound, hlogs'.trans hlogs, _, hanswers, ?_⟩
  rw [hresp, hlogs]
  rfl

theorem partitionCountFor_stores (s : Standalone γ) (topic : Topic) :
    (s.partitionCountFor topic).2.stores = s.stores ∧
      (s.partitionCountFor topic).2.fetching = s.fetching := by
  unfold Standalone.partitionCountFor
  split <;> exact ⟨rfl, rfl⟩

theorem handleCreateTopic_stores (s : Standalone γ) (req : CreateTopicRequest) :
    (s.handleCreateTopic req).2.stores = s.stores ∧
      (s.handleCreateTopic req).2.fetching = s.fetching := by
  unfold Standalone.handleCreateTopic
  dsimp only
  split <;> exact ⟨rfl, rfl⟩

variable {cfg : BrokerConfig} {groups : Service γ} {restart : γ → γ}

/-- A call does to the logs, and answers of them, what its type says. -/
theorem call_logs (cfg : BrokerConfig) (groups : Service γ) {t : RequestType}
    {m : t.Request} (h : s.Sound)
    (takes : Takes s (.call t m)) :
    (standalone cfg groups t m s).2.Sound ∧
      LogCall s.logs (standalone cfg groups t m s).2.logs t m
        (standalone cfg groups t m s).1 := by
  cases t with
  | produce => exact handleProduce_logs h takes
  | fetch => exact fetch_logs cfg m h
  | replicate => exact replicate_logs cfg m h
  | metadata =>
      obtain ⟨hstores, hfetching⟩ := partitionCountFor_stores s m.topic
      exact h.same _ hstores (hfetching ▸ List.Subset.refl _)
  | createTopic =>
      obtain ⟨hstores, hfetching⟩ := handleCreateTopic_stores s m
      exact h.same _ hstores (hfetching ▸ List.Subset.refl _)
  | findCoordinator | joinGroup | syncGroup | heartbeat | leaveGroup | commitOffset
  | fetchOffset | requestVote | controllerHeartbeat | brokerHeartbeat | leaderAndISR
  | isrUpdate => exact h.same _ rfl (List.Subset.refl _)

theorem standaloneStep_logs {e : StandaloneEvent} (h : s.Sound) (takes : Takes s e)
    (hstep : standaloneStep cfg groups restart s e = some s') :
    s'.Sound ∧ LogStep cfg groups s s'.logs e := by
  cases e with
  | call t m =>
      obtain rfl := Option.some.inj hstep
      obtain ⟨hsound, hcall⟩ := call_logs cfg groups h takes
      exact ⟨hsound, hcall⟩
  | readFetch req =>
      obtain rfl := Option.some.inj hstep
      exact readFetch_logs req h
  | readReplica req =>
      obtain rfl := Option.some.inj hstep
      exact readReplica_logs req h
  | answerFetch read =>
      obtain ⟨answered, hanswer, rfl⟩ := Option.map_eq_some_iff.mp hstep
      obtain ⟨hsound, hlogs, hread, hresp⟩ := answerFetch_logs h hanswer
      refine ⟨hsound, hlogs, hread, ?_⟩
      rw [hanswer, Option.map_some, hresp]
  | tornProduce req cut =>
      obtain rfl := Option.some.inj hstep
      obtain ⟨frame, count⟩ := takes.batch req rfl
      have hopened := h.opened (req.topic, req.partitionId)
      let opened := (s.getOrCreatePartition (req.topic, req.partitionId)).2
      let now := opened.clock opened.readings
      obtain ⟨part, hpart, hstop⟩ :=
        hopened.serving.tornAppend (by decide) frame count now cut
      obtain ⟨hsound, hlogs⟩ := hopened.sound.setStore (req.topic, req.partitionId) hstop
        (hopened.logs ▸ List.prefix_append _ _)
      obtain ⟨hsound', hlogs'⟩ := hsound.same (s.tornProduce req cut) rfl (List.Subset.refl _)
      refine ⟨hsound', part, now, hpart, ?_⟩
      rw [hlogs', hlogs, hopened.logs]
      rfl
  | tornRecover key cut =>
      simp only [standaloneStep, Standalone.tornRecover] at hstep
      split at hstep
      · cases hstep
      · next dir hdir =>
          obtain rfl := Option.some.inj hstep
          have hserving := h.serving key
          rw [hdir] at hserving
          have hstop := hserving.tornRecover (by decide) (List.Perm.refl dir) cut
          obtain ⟨hsound, hlogs⟩ := h.setStore key hstop List.prefix_rfl
          exact ⟨hsound, hlogs.trans (Function.update_eq_self _ _)⟩
  | tornCreateTopic req bytes =>
      simp only [standaloneStep, Standalone.tornCreateTopic] at hstep
      split at hstep
      · cases hstep
      · obtain rfl := Option.some.inj hstep
        obtain ⟨hcreated, hsame⟩ :=
          h.same (s.setPartitionsFile req.topic _) rfl (List.Subset.refl _)
        obtain ⟨hsound, hlogs⟩ := hcreated.crash restart
        exact ⟨hsound, hlogs.trans hsame⟩
  | crash =>
      obtain rfl := Option.some.inj hstep
      obtain ⟨hsound, hlogs⟩ := h.crash restart
      exact ⟨hsound, hlogs⟩

end Steps

/-! ## Runs -/

section Runs

variable {cfg : BrokerConfig} {groups : Service γ} {restart : γ → γ} {s t : Standalone γ}
  {visits : List (Standalone γ × StandaloneEvent)}

theorem LogStep.grows {logs' : Logs} {e : StandaloneEvent}
    (h : LogStep cfg groups s logs' e) : s.logs.Extends logs' := by
  cases e with
  | call t m =>
      cases t with
      | produce =>
          obtain ⟨⟨now, rfl⟩, -⟩ := h
          exact Logs.extends_grow _ _ _
      | fetch | replicate => exact Logs.extends_of_eq h.1
      | metadata | createTopic | findCoordinator | joinGroup | syncGroup | heartbeat
      | leaveGroup | commitOffset | fetchOffset | requestVote | controllerHeartbeat
      | brokerHeartbeat | leaderAndISR | isrUpdate => exact Logs.extends_of_eq h
  | tornProduce req cut =>
      obtain ⟨part, now, -, rfl⟩ := h
      exact Logs.extends_grow _ _ _
  | readFetch | readReplica | answerFetch => exact Logs.extends_of_eq h.1
  | tornRecover | tornCreateTopic | crash => exact Logs.extends_of_eq h

theorem Standalone.sound_start (groups : γ) (clock : Nat → UInt64) :
    Standalone.Sound { groupCoordinator := groups, clock := clock } where
  serving _ := Store.serving_empty
  fetching _ hread := by cases hread

/-- A run keeps a broker sound, and its logs are first parts of those of later states. -/
theorem Standalone.Sound.run (start : s.Sound)
    (run : Run (standaloneStep cfg groups restart) s visits t) (takes : Guarded Takes visits) :
    t.Sound ∧ s.logs.Extends t.logs := by
  refine run.invariant (I := fun u => u.Sound ∧ s.logs.Extends u.logs) takes
    ⟨start, Logs.extends_of_eq rfl⟩ ?_
  intro t e u htakes hinv hstep
  obtain ⟨hsound, hlog⟩ := standaloneStep_logs hinv.1 htakes hstep
  exact ⟨hsound, hinv.2.trans hlog.grows⟩

/-- The records of a sound broker carry their places. -/
theorem Standalone.Sound.numbered (h : s.Sound) (key : TopicPartition) :
    Numbered 0 (s.logs key) ∧ (s.logs key).length < 2 ^ 63 := by
  obtain ⟨hp, -, hlt⟩ := (h.opened key).serving.holds.of_running
  exact ⟨hp.numbered, hlt⟩

section Batch

variable {log front rest batch records : List Record} {now offset : UInt64}

/-- An answer below the end of a log begins with the record at its offset. -/
theorem Answers.head (h : Answers log offset records) (hnum : Numbered 0 log)
    (hlt : log.length < 2 ^ 63) (below : offset.toNat < log.length) :
    records.head?.map Record.offset = some offset := by
  obtain ⟨hpart, hend⟩ := h (below.trans hlt)
  cases records with
  | nil => exact absurd (hend rfl) (Nat.not_le_of_lt below)
  | cons first others =>
      have hfirst := ((hnum.drop below.le).part hpart)
      rw [List.head?_cons, Option.map_some, ← UInt64.toNat_inj.mp (numbered_cons.mp hfirst).1]

/-- What a fetch answers is numbered from its offset on. -/
theorem Answers.numbered (h : Answers log offset records) (hlog : Numbered 0 log)
    (hoffset : offset.toNat < 2 ^ 63) :
    Numbered offset.toNat records := by
  have hpart := (h hoffset).1
  rcases Nat.le_total offset.toNat log.length with hle | hge
  · exact (hlog.drop hle).part hpart
  · rw [List.drop_eq_nil_of_le hge, List.prefix_nil] at hpart
    rw [hpart]
    exact numbered_nil

theorem Answers.mem (h : Answers log offset records) (hlt : log.length < 2 ^ 63)
    (below : offset.toNat < log.length) {rec : Record} (hrec : rec ∈ records) : rec ∈ log :=
  List.mem_of_mem_drop ((h (below.trans hlt)).1.subset hrec)

end Batch

def twoRecords : ProduceRequest :=
  ⟨[116], 0, 1, [{ key := [1], value := [10] }, { key := [2], value := [20] }]⟩

end Runs

end MiniKafka.Broker
