import MiniKafka.Broker.ReplicaNode

/-!
# What the steps of one broker keep

The log of a broker only grows, by what a step writes; it stays dense as long as every
fetched batch is appended where it starts. The threads of the broker refer to records
its log holds.
-/

namespace MiniKafka.Broker

open Cluster Replication Storage

/-- The log holds these records at these offsets. -/
def Holds (log : ReplicaLog) (base : Nat) (batch : List LogEntry) : Prop :=
  batch <+: log.records.drop base

/-- The records a step of the leader's threads writes. -/
def leaderWrites (log : ReplicaLog) : LeaderEvent → List LogEntry
  | .append _ ts records _ => stamp ts log.nextOffset records
  | _ => []

/-- A fetched batch is appended where it starts. -/
def AppendsAtEnd (n : ReplicaNode) (e : NodeEvent) : Prop :=
  ∀ batch ∈ n.fetched e, batch.fetchOffset = n.log.logEndOffset

instance (n : ReplicaNode) (e : NodeEvent) : Decidable (AppendsAtEnd n e) :=
  inferInstanceAs (Decidable (∀ batch ∈ n.fetched e, _))

/-- The log `log'` is `log` with more records, and its end moved by their number. -/
structure Grows (log log' : ReplicaLog) (more : List LogEntry) : Prop where
  records : log'.records = log.records ++ more
  next : log'.nextOffset = log.nextOffset + more.length

variable {me : BrokerId} {n n' : ReplicaNode} {sent : Effects} {log log' : ReplicaLog}
  {led led' : LedPartition}

theorem Holds.mono {base : Nat} {batch records : List LogEntry} (h : Holds log base batch)
    (grows : log'.records = log.records ++ records) : Holds log' base batch := by
  unfold Holds
  rw [grows, List.drop_append]
  exact h.trans (List.prefix_append _ _)

theorem grows_refl (h : log'.records = log.records) (hnext : log'.nextOffset = log.nextOffset) :
    Grows log log' [] := ⟨by simp [h], by simp [hnext]⟩

theorem Grows.dense {records : List LogEntry} (h : Grows log log' records) (dense : log.Dense)
    (hc : Contiguous log.nextOffset records) : log'.Dense where
  contiguous := by
    rw [h.records, contiguous_append, Nat.zero_add, ← dense.next]
    exact ⟨dense.contiguous, hc⟩
  next := by
    rw [h.records, h.next, List.length_append, dense.next]

theorem appendReplicated_grows {records : List LogEntry}
    (hc : Contiguous log.nextOffset records) :
    Grows log (log.appendReplicated records) records :=
  ⟨ReplicaLog.appendReplicated_records records, ReplicaLog.appendReplicated_nextOffset hc⟩

theorem setHighWatermark_grows (hwm : Nat) : Grows log (log.setHighWatermark hwm) [] :=
  grows_refl rfl rfl

/-- What a produce thread has appended is in the log. -/
def ThreadHolds (log : ReplicaLog) : ProduceThread → Prop
  | .appended base batch _ | .reclamped base batch _ => Holds log base batch
  | .idle => True

theorem ThreadHolds.mono {thread : ProduceThread} {records : List LogEntry}
    (h : ThreadHolds log thread) (grows : log'.records = log.records ++ records) :
    ThreadHolds log' thread := by
  cases thread with
  | idle => trivial
  | appended base batch acksAll => exact Holds.mono h grows
  | reclamped base batch acksAll => exact Holds.mono h grows

/-- A thread moves on with the batch it appended, or finishes. -/
def ThreadMoves (thread thread' : ProduceThread) : Prop :=
  ∀ log, ThreadHolds log thread → ThreadHolds log thread'

theorem threadMoves_update {produce : Nat → ProduceThread} {thread : Nat}
    {phase : ProduceThread} (h : ThreadMoves (produce thread) phase) (t : Nat) :
    ThreadMoves (produce t) (Function.update produce thread phase t) := by
  by_cases ht : t = thread
  · subst ht
    rwa [Function.update_self]
  · rw [Function.update_of_ne ht]
    exact fun _ hold => hold

/-- What a step of the leader's threads does to the log, the progress of the followers
and the batches of the threads. -/
theorem leaderStep_cases {e : LeaderEvent} (h : leaderStep me led e = some led') :
    (∃ thread ts records acksAll, e = .append thread ts records acksAll ∧
      led'.log = (led.log.append ts records).1 ∧ led'.st = led.st ∧
      led'.produce = Function.update led.produce thread
        (.appended led.log.nextOffset (stamp ts led.log.nextOffset records) acksAll)) ∨
    (∃ id fetchOffset now, e = .onReplicaFetch id fetchOffset now ∧ led'.log = led.log ∧
      led'.st = led.st.recordFetch id fetchOffset now ∧ led'.produce = led.produce) ∨
    (leaderWrites led.log e = [] ∧
      (led'.log = led.log ∨ ∃ hwm, led'.log = led.log.setHighWatermark hwm) ∧
      led'.st.followerProgress = led.st.followerProgress ∧
      ∀ t, ThreadMoves (led.produce t) (led'.produce t)) := by
  have stay : ∀ t, ThreadMoves (led.produce t) (led.produce t) := fun _ _ hold => hold
  have finish : ∀ thread t, ThreadMoves (led.produce t)
      (Function.update led.produce thread .idle t) :=
    fun thread => threadMoves_update fun _ _ => trivial
  cases leaderStep_does h with
  | append _ => exact Or.inl ⟨_, _, _, _, rfl, rfl, rfl, rfl⟩
  | onReplicaFetch _ => exact Or.inr (Or.inl ⟨_, _, _, rfl, rfl, rfl, rfl⟩)
  | onLeaderAppend _ happended =>
      refine Or.inr (Or.inr ⟨rfl, Or.inl rfl, rfl, threadMoves_update fun log hold => ?_⟩)
      rwa [happended] at hold
  | sweep _ => exact Or.inr (Or.inr ⟨rfl, Or.inl rfl, rfl, stay⟩)
  | setHighWatermark _ => exact Or.inr (Or.inr ⟨rfl, Or.inr ⟨_, rfl⟩, rfl, stay⟩)
  | waitForHwm _ _ _ => exact Or.inr (Or.inr ⟨rfl, Or.inl rfl, rfl, finish _⟩)
  | waitTimedOut _ => exact Or.inr (Or.inr ⟨rfl, Or.inl rfl, rfl, finish _⟩)
  | answer _ => exact Or.inr (Or.inr ⟨rfl, Or.inl rfl, rfl, finish _⟩)
  | read => exact Or.inr (Or.inr ⟨rfl, Or.inl rfl, rfl, stay⟩)

theorem leaderStep_grows {e : LeaderEvent} (h : leaderStep me led e = some led') :
    Grows led.log led'.log (leaderWrites led.log e) := by
  rcases leaderStep_cases h with ⟨thread, ts, records, acksAll, rfl, hlog, -, -⟩ |
    ⟨id, offset, now, rfl, hlog, -, -⟩ | ⟨hwrites, hlog, -, -⟩
  · rw [hlog]
    exact ⟨ReplicaLog.append_records ts records, by
      rw [ReplicaLog.append_nextOffset, leaderWrites, stamp_length]⟩
  · rw [hlog]
    exact grows_refl rfl rfl
  · rw [hwrites]
    rcases hlog with hlog | ⟨hwm, hlog⟩
    · rw [hlog]
      exact grows_refl rfl rfl
    · rw [hlog]
      exact setHighWatermark_grows hwm

/-- Only a recorded fetch changes the progress of a replica. -/
theorem leaderStep_progress {e : LeaderEvent} (h : leaderStep me led e = some led')
    (he : ∀ id offset now, e ≠ .onReplicaFetch id offset now) :
    led'.st.followerProgress = led.st.followerProgress := by
  rcases leaderStep_cases h with ⟨-, -, -, -, -, -, hst, -⟩ |
    ⟨id, offset, now, heq, -, -, -⟩ | ⟨-, -, hprogress, -⟩
  · rw [hst]
  · exact absurd heq (he id offset now)
  · exact hprogress

theorem leaderStep_threads {e : LeaderEvent} (h : leaderStep me led e = some led')
    (dense : led.log.Dense) (threads : ∀ t, ThreadHolds led.log (led.produce t)) (t : Nat) :
    ThreadHolds led'.log (led'.produce t) := by
  have grows := (leaderStep_grows h).records
  rcases leaderStep_cases h with ⟨thread, ts, records, acksAll, rfl, -, -, hproduce⟩ |
    ⟨id, offset, now, -, -, -, hproduce⟩ | ⟨-, -, -, hmoves⟩
  · rw [hproduce]
    by_cases ht : t = thread
    · subst ht
      rw [Function.update_self, ThreadHolds, Holds, grows, leaderWrites, dense.next,
        List.drop_left]
    · rw [Function.update_of_ne ht]
      exact (threads t).mono grows
  · rw [hproduce]
    exact (threads t).mono grows
  · exact hmoves t _ ((threads t).mono grows)

structure NodeInv (me : BrokerId) (n : ReplicaNode) : Prop where
  dense : n.log.Dense
  watermark : WatermarkInv me n.led
  untracked : n.tracked = false → n.led.latest = none ∧ n.led.recomputing = none
  threads : ∀ t, ThreadHolds n.log (n.led.produce t)
  handlers : ∀ f batch, .read f batch ∈ n.handlers →
    Contiguous batch.fetchOffset batch.records
  received : ∀ i batch, n.received i = some batch →
    Contiguous batch.fetchOffset batch.records

theorem leaderThread_cases {e : LeaderEvent} (h : n.leaderThread me e = some led) :
    leaderStep me n.led e = some led ∨
    ∃ thread now base batch acksAll, n.tracked = false ∧ e = .onLeaderAppend thread now ∧
      n.led.produce thread = .appended base batch acksAll ∧
      led = { n.led with
        produce := Function.update n.led.produce thread (.reclamped base batch acksAll) } := by
  unfold ReplicaNode.leaderThread at h
  cases hs : n.tracked with
  | true => exact Or.inl (by simpa [hs] using h)
  | false =>
      rw [if_neg (by simp [hs])] at h
      cases e with
      | onLeaderAppend thread now =>
          simp only at h
          split at h
          · next base batch acksAll hthread =>
              exact Or.inr ⟨thread, now, base, batch, acksAll, rfl, rfl, hthread,
                (Option.some.inj h).symm⟩
          · cases h
      | onReplicaFetch id offset now => cases h
      | sweep now => cases h
      | setHighWatermark => cases h
      | waitForHwm thread => cases h
      | _ => exact Or.inl h

/-- A broker without an entry in `IsrManager` does not recompute. -/
theorem leaderThread_untracked {e : LeaderEvent} (h : n.leaderThread me e = some led)
    (hs : n.tracked = false) :
    led.latest = n.led.latest ∧ led.recomputing = n.led.recomputing := by
  unfold ReplicaNode.leaderThread at h
  rw [if_neg (by simp [hs])] at h
  cases e with
  | onLeaderAppend thread now =>
      simp only at h
      split at h
      · obtain rfl := Option.some.inj h
        exact ⟨rfl, rfl⟩
      · cases h
  | onReplicaFetch id offset now => cases h
  | sweep now => cases h
  | setHighWatermark => cases h
  | waitForHwm thread => cases h
  | _ =>
      cases leaderStep_does h
      exact ⟨rfl, rfl⟩

/-- A leader-side step changes the leader-side state only, and sends nothing but reports. -/
theorem leadStep_cases {e : LeaderEvent} (h : leadStep me n e = some (n', sent)) :
    (∀ id offset now, e ≠ .onReplicaFetch id offset now) ∧
    n.leaderThread me e = some n'.led ∧ n'.tracked = n.tracked ∧ n'.handlers = n.handlers ∧
    n'.fetchers = n.fetchers ∧ n'.assignment = n.assignment ∧
    sent.requests = [] ∧ sent.responses = [] ∧ sent.answeredBy = [] ∧
    ∀ base batch, (base, batch) ∈ sent.acked → ∃ thread acksAll, e = .waitForHwm thread ∧
      n.led.produce thread = .reclamped base batch acksAll := by
  unfold leadStep at h
  split at h
  · cases h
  · next led hled =>
      split at h
      · split at h
        · obtain ⟨rfl, rfl⟩ := Prod.mk.inj (Option.some.inj h)
          exact ⟨by simp, hled, rfl, rfl, rfl, rfl, rfl, rfl, rfl, by simp⟩
        · cases h
      · obtain ⟨rfl, rfl⟩ := Prod.mk.inj (Option.some.inj h)
        exact ⟨by simp, hled, rfl, rfl, rfl, rfl, rfl, rfl, rfl, by simp⟩
      · split at h
        · next thread _ base batch acksAll hthread =>
            obtain ⟨rfl, rfl⟩ := Prod.mk.inj (Option.some.inj h)
            refine ⟨by simp, hled, rfl, rfl, rfl, rfl, rfl, rfl, rfl, fun base' batch' hacked => ?_⟩
            obtain ⟨rfl, rfl⟩ := Prod.mk.inj (List.mem_singleton.mp hacked)
            exact ⟨thread, acksAll, rfl, hthread⟩
        · cases h
      · cases h
      · next hother =>
          obtain ⟨rfl, rfl⟩ := Prod.mk.inj (Option.some.inj h)
          exact ⟨fun id offset now he => hother id offset now he, hled, rfl, rfl, rfl, rfl, rfl,
            rfl, rfl, by simp⟩

theorem NodeInv.leaderThread (inv : NodeInv me n) {e : LeaderEvent}
    (h : n.leaderThread me e = some led) :
    Grows n.log led.log (leaderWrites n.log e) ∧ WatermarkInv me led ∧
      ∀ t, ThreadHolds led.log (led.produce t) := by
  rcases leaderThread_cases h with hstep |
    ⟨thread, now, base, batch, acksAll, -, rfl, hthread, rfl⟩
  · exact ⟨leaderStep_grows hstep, inv.watermark.step hstep,
      leaderStep_threads hstep inv.dense inv.threads⟩
  · refine ⟨grows_refl rfl rfl, inv.watermark.produce _, fun t => ?_⟩
    refine threadMoves_update (fun log hold => ?_) t n.log (inv.threads t)
    rwa [hthread] at hold

theorem NodeInv.lead (inv : NodeInv me n) {e : LeaderEvent}
    (h : leadStep me n e = some (n', sent)) : NodeInv me n' := by
  obtain ⟨-, hled, htracked, hhandlers, hfetchers, -⟩ := leadStep_cases h
  obtain ⟨grows, watermark, threads⟩ := inv.leaderThread hled
  refine ⟨?_, watermark, fun hs => ?_, threads, hhandlers ▸ inv.handlers, ?_⟩
  · refine grows.dense inv.dense ?_
    cases e with
    | append thread ts records acksAll => exact stamp_contiguous ts _ records
    | _ => trivial
  · rw [htracked] at hs
    obtain ⟨hlatest, hrecomputing⟩ := leaderThread_untracked hled hs
    rw [hlatest, hrecomputing]
    exact inv.untracked hs
  · intro i batch hi
    refine inv.received i batch ?_
    simpa only [ReplicaNode.received, hfetchers] using hi

theorem received_setFetcher (i j : Nat) (f : Option (BrokerId × PullPhase)) :
    (n.setFetcher i f).received j =
      if j = i then f.bind fun f => f.2.batch else n.received j := by
  by_cases hj : j = i
  · subst hj
    simp [ReplicaNode.received, ReplicaNode.setFetcher]
  · simp [ReplicaNode.received, ReplicaNode.setFetcher, hj]

theorem NodeInv.setFetcher (inv : NodeInv me n) (i : Nat) {f : Option (BrokerId × PullPhase)}
    (hf : ∀ batch ∈ f.bind fun f => f.2.batch, Contiguous batch.fetchOffset batch.records) :
    NodeInv me (n.setFetcher i f) where
  dense := inv.dense
  watermark := inv.watermark
  untracked := inv.untracked
  threads := inv.threads
  handlers := inv.handlers
  received j batch hj := by
    rw [received_setFetcher] at hj
    split at hj
    · exact hf batch hj
    · exact inv.received j batch hj

theorem NodeInv.setHandlers (inv : NodeInv me n) {handlers : List FetchHandler}
    (h : ∀ f batch, .read f batch ∈ handlers → Contiguous batch.fetchOffset batch.records) :
    NodeInv me { n with handlers := handlers } :=
  ⟨inv.dense, inv.watermark, inv.untracked, inv.threads, h, inv.received⟩

/-- Fetched records that continue the log keep what does not look at it. -/
theorem NodeInv.replicate (inv : NodeInv me n) {records : List LogEntry}
    (hc : Contiguous n.log.nextOffset records) :
    NodeInv me (n.setLog (n.log.appendReplicated records)) where
  dense := inv.dense.appendReplicated hc
  watermark := by
    refine ⟨inv.watermark.progress, inv.watermark.pending, fun hsettled r hr => ?_⟩
    have hhwm : (n.log.appendReplicated records).hwm = n.log.hwm := by
      unfold ReplicaLog.appendReplicated
      split <;> rfl
    exact hhwm.trans (inv.watermark.settled hsettled r hr)
  untracked := inv.untracked
  threads t := (inv.threads t).mono (ReplicaLog.appendReplicated_records records)
  handlers := inv.handlers
  received := inv.received

theorem NodeInv.restart (inv : NodeInv me n) : NodeInv me n.restart where
  dense := ⟨inv.dense.contiguous, inv.dense.next⟩
  watermark := by
    refine ⟨?_, ?_, ?_⟩ <;> simp [ReplicaNode.restart]
  untracked _ := ⟨rfl, rfl⟩
  threads _ := trivial
  handlers := by simp [ReplicaNode.restart]
  received := by simp [ReplicaNode.restart, ReplicaNode.received]

theorem NodeInv.reconcileLeader (inv : NodeInv me n) (replicas : List BrokerId)
    (idle : n.led.recomputing = none) : NodeInv me (n.reconcileLeader replicas) where
  dense := by
    unfold ReplicaNode.reconcileLeader ReplicaNode.log
    simp only
    split
    · exact inv.dense
    · exact ⟨inv.dense.contiguous, inv.dense.next⟩
  watermark := by
    -- a node with no entry has no recompute to account for
    have hprogress : n.tracked = true →
        (n.reconcileLeader replicas).led.st.followerProgress = n.led.st.followerProgress := by
      intro hs
      simp [ReplicaNode.reconcileLeader, hs]
    refine ⟨fun r hr id hid hme => ?_, fun r hr => ?_, fun hsettled r hr => ?_⟩
    · cases hs : n.tracked with
      | true =>
          rw [hprogress hs]
          exact inv.watermark.progress r hr id hid hme
      | false => exact absurd ((inv.untracked hs).1.symm.trans hr) (by simp)
    · exact absurd (idle.symm.trans hr) (by simp)
    · obtain ⟨hraised, hidle⟩ := hsettled
      simp only [ReplicaNode.reconcileLeader, Bool.or_eq_false_iff, Bool.not_eq_false']
        at hraised
      have hsettled := inv.watermark.settled ⟨hraised.1, hidle⟩ r hr
      simpa only [ReplicaNode.reconcileLeader, ReplicaNode.log, hraised.2, if_true] using hsettled
  untracked hs := by simp [ReplicaNode.reconcileLeader] at hs
  threads t := by
    have hold := inv.threads t
    unfold ReplicaNode.reconcileLeader ReplicaNode.log
    simp only
    split
    · exact hold
    · exact hold.mono (List.append_nil _).symm
  handlers := inv.handlers
  received := inv.received

theorem NodeInv.reconcileFollower (inv : NodeInv me n) (idle : n.led.recomputing = none) :
    NodeInv me n.reconcileFollower where
  dense := inv.dense
  watermark := by
    refine ⟨?_, ?_, ?_⟩ <;> simp [ReplicaNode.reconcileFollower, idle]
  untracked _ := ⟨rfl, idle⟩
  threads := inv.threads
  handlers := inv.handlers
  received := inv.received

theorem readBatch_contiguous (dense : n.log.Dense) (fetchOffset : Nat) :
    Contiguous (n.readBatch fetchOffset).fetchOffset (n.readBatch fetchOffset).records := by
  have hdrop := dense.contiguous.drop fetchOffset
  rw [Nat.zero_add] at hdrop
  exact hdrop.part (dense.readClamped_prefix fetchOffset _ _)

/-- A step writes what it fetched, or the first part of it. -/
theorem writes_fetched {e : NodeEvent} {batch : Batch} (h : batch ∈ n.fetched e) :
    n.writes e <+: batch.records := by
  cases e with
  | appendReplicated i => simp [ReplicaNode.writes, show n.received i = some batch from h]
  | crashInReplicate i kept =>
      simpa [ReplicaNode.writes, show n.received i = some batch from h]
        using List.take_prefix kept batch.records
  | _ => cases h

/-- What a step writes continues the log. -/
theorem NodeInv.writes_contiguous (inv : NodeInv me n) {e : NodeEvent}
    (atEnd : AppendsAtEnd n e) : Contiguous n.log.nextOffset (n.writes e) := by
  cases hf : n.fetched e with
  | some batch =>
      have hstart : batch.fetchOffset = n.log.nextOffset := atEnd batch hf
      have hrun : Contiguous batch.fetchOffset batch.records := by
        cases e with
        | appendReplicated i => exact inv.received i batch hf
        | crashInReplicate i kept => exact inv.received i batch hf
        | _ => cases hf
      exact (hstart ▸ hrun).part (writes_fetched hf)
  | none =>
      cases e with
      | lead e =>
          cases e with
          | append thread ts records acksAll => exact stamp_contiguous ts _ records
          | _ => trivial
      | appendReplicated i =>
          rw [ReplicaNode.writes, show n.received i = none from hf]
          trivial
      | crashInReplicate i kept =>
          rw [ReplicaNode.writes, show n.received i = none from hf]
          trivial
      | _ => trivial

theorem received_of_fetcher {i : Nat} {leader : BrokerId} {batch : Batch}
    (h : n.fetchers i = some (leader, .received batch)) : n.received i = some batch := by
  simp [ReplicaNode.received, h, PullPhase.batch]

/-- The batch an event hands to the broker is a run of records from where it was asked. -/
def HearsRuns : NodeEvent → Prop
  | .receiveFetch _ _ batch => Contiguous batch.fetchOffset batch.records
  | _ => True

/-- A step keeps the invariant of the broker, and its log grows by what the step writes. -/
theorem NodeInv.step {e : NodeEvent} (inv : NodeInv me n) (atEnd : AppendsAtEnd n e)
    (hears : HearsRuns e) (h : nodeStep me n e = some (n', sent)) :
    NodeInv me n' ∧ Grows n.log n'.log (n.writes e) := by
  have hwrites := inv.writes_contiguous atEnd
  have still : Grows n.log n.log [] := grows_refl rfl rfl
  cases nodeStep_does h with
  | checkProduce leads =>
      exact ⟨⟨inv.dense, inv.watermark, inv.untracked, inv.threads, inv.handlers,
        inv.received⟩, still⟩
  | @lead e _ _ hlead =>
      obtain ⟨-, hled, -⟩ := leadStep_cases hlead
      have hgrows := (inv.leaderThread hled).1
      cases e with
      | append thread ts records acksAll => exact ⟨inv.lead hlead, hgrows⟩
      | _ => exact ⟨inv.lead hlead, hgrows⟩
  | startFetcher _ _ => exact ⟨inv.setFetcher _ (by simp [PullPhase.batch]), still⟩
  | stopFetcher _ => exact ⟨inv.setFetcher _ (by simp), still⟩
  | requestFetch _ => exact ⟨inv.setFetcher _ (by simp [PullPhase.batch]), still⟩
  | receiveFetch _ =>
      refine ⟨inv.setFetcher _ fun batch' hbatch => ?_, still⟩
      simp only [Option.bind_some] at hbatch
      split at hbatch
      · cases hbatch
      · obtain rfl := Option.some.inj hbatch
        exact hears
  | receiveNothing _ => exact ⟨inv.setFetcher _ (by simp [PullPhase.batch]), still⟩
  | @appendReplicated i leader batch hreceived =>
      have hrec : n.writes (.appendReplicated i) = batch.records := by
        simp [ReplicaNode.writes, received_of_fetcher hreceived]
      rw [hrec] at hwrites ⊢
      exact ⟨(inv.replicate hwrites).setFetcher i (by simp [PullPhase.batch]),
        appendReplicated_grows hwrites⟩
  | checkFetch _ =>
      refine ⟨inv.setHandlers fun f batch hmem => ?_, still⟩
      exact inv.handlers f batch ((List.mem_cons.mp hmem).resolve_left (by simp))
  | @readUpToLeo replicaId fetchOffset _ =>
      refine ⟨inv.setHandlers fun f batch hmem => ?_, still⟩
      rcases List.mem_cons.mp hmem with heq | hmem
      · obtain ⟨-, rfl⟩ := FetchHandler.read.inj heq
        exact readBatch_contiguous inv.dense fetchOffset
      · exact inv.handlers f batch (List.mem_of_mem_erase hmem)
  | onReplicaFetch _ htracked hled =>
      have hgrows := leaderStep_grows hled
      refine ⟨⟨hgrows.dense inv.dense trivial, inv.watermark.step hled, ?_,
        leaderStep_threads hled inv.dense inv.threads,
        fun f b hmem => inv.handlers f b (List.mem_of_mem_erase hmem), inv.received⟩, hgrows⟩
      exact fun hns => absurd (htracked.symm.trans hns) (by simp)
  | ignoreFetch _ _ =>
      exact ⟨inv.setHandlers fun f b hmem => inv.handlers f b (List.mem_of_mem_erase hmem), still⟩
  | @reconcileLeader pa _ hidle _ =>
      refine ⟨inv.reconcileLeader pa.replicas hidle, ?_⟩
      unfold ReplicaNode.reconcileLeader
      simp only [ReplicaNode.log]
      split
      · exact still
      · exact setHighWatermark_grows _
  | reconcileFollower _ hidle _ => exact ⟨inv.reconcileFollower hidle, still⟩
  | reconcileOther _ _ _ =>
      exact ⟨⟨inv.dense, inv.watermark, inv.untracked, inv.threads, inv.handlers,
        inv.received⟩, still⟩
  | applyLeaderAndIsr =>
      exact ⟨⟨inv.dense, inv.watermark, inv.untracked, inv.threads, inv.handlers,
        inv.received⟩, still⟩
  | crash => exact ⟨inv.restart, setHighWatermark_grows _⟩
  | @crashInReplicate i kept batch hreceived =>
      have hrec : n.writes (.crashInReplicate i kept) = batch.records.take kept := by
        simp [ReplicaNode.writes, hreceived]
      rw [hrec] at hwrites ⊢
      have hgrows := appendReplicated_grows hwrites
      exact ⟨(inv.replicate hwrites).restart, hgrows.records, hgrows.next⟩

/-- Where what a step sends, and what it leaves in its handlers and in the progress it
records, comes from. -/
structure NodeTrace (n : ReplicaNode) (e : NodeEvent) (n' : ReplicaNode) (sent : Effects) :
    Prop where
  requests : ∀ leader offset, (leader, offset) ∈ sent.requests → offset = n.log.nextOffset
  responses : ∀ f batch, (f, batch) ∈ sent.responses → .read f batch ∈ n.handlers
  answered : ∀ leader ∈ sent.answeredBy, ∃ i batch, e = .receiveFetch i leader batch
  acked : ∀ base batch, (base, batch) ∈ sent.acked → ∃ thread acksAll,
    e = .lead (.waitForHwm thread) ∧ n.led.produce thread = .reclamped base batch acksAll
  checked : ∀ f offset, .checked f offset ∈ n'.handlers →
    .checked f offset ∈ n.handlers ∨ e = .checkFetch f offset
  read : ∀ f batch, .read f batch ∈ n'.handlers →
    .read f batch ∈ n.handlers ∨ .checked f batch.fetchOffset ∈ n.handlers
  progress : ∀ f p, n'.led.st.followerProgress f = some p →
    n.led.st.followerProgress f = some p ∨
    ∃ batch now, e = .onReplicaFetch f batch now ∧ n.tracked = true ∧
      p = batch.fetchOffset ∧ .read f batch ∈ n.handlers
  assignment : n'.assignment = n.assignment ∨ ∃ pa, e = .applyLeaderAndIsr pa

/-- A step that sends nothing, adds no handler, and records no progress. -/
theorem nodeTrace_quiet {e : NodeEvent} (handlers : n'.handlers ⊆ n.handlers)
    (progress : ∀ f p, n'.led.st.followerProgress f = some p →
      n.led.st.followerProgress f = some p)
    (assignment : n'.assignment = n.assignment) : NodeTrace n e n' {} where
  requests := by simp
  responses := by simp
  answered := by simp
  acked := by simp
  checked _ _ h := Or.inl (handlers h)
  read _ _ h := Or.inl (handlers h)
  progress f p h := Or.inl (progress f p h)
  assignment := Or.inl assignment

theorem nodeTrace_lead {e : LeaderEvent} (h : leadStep me n e = some (n', sent)) :
    NodeTrace n (.lead e) n' sent := by
  obtain ⟨hnofetch, hled, -, hhandlers, -, hassign, hreq, hresp, hans, hacked⟩ :=
    leadStep_cases h
  have hprogress : n'.led.st.followerProgress = n.led.st.followerProgress := by
    rcases leaderThread_cases hled with hstep | ⟨_, _, _, _, _, -, -, -, heq⟩
    · exact leaderStep_progress hstep hnofetch
    · rw [heq]
  refine ⟨by simp [hreq], by simp [hresp], by simp [hans], fun base batch hmem => ?_,
    fun f offset hmem => Or.inl (hhandlers ▸ hmem), fun f batch hmem => Or.inl (hhandlers ▸ hmem),
    fun f p hp => Or.inl (hprogress ▸ hp), Or.inl hassign⟩
  obtain ⟨thread, acksAll, rfl, hthread⟩ := hacked base batch hmem
  exact ⟨thread, acksAll, rfl, hthread⟩

theorem nodeStep_trace {e : NodeEvent} (h : nodeStep me n e = some (n', sent)) :
    NodeTrace n e n' sent := by
  have kept : n.handlers ⊆ n.handlers := fun _ h => h
  cases nodeStep_does h with
  | checkProduce _ => exact nodeTrace_quiet kept (fun _ _ h => h) rfl
  | lead hlead => exact nodeTrace_lead hlead
  | startFetcher _ _ => exact nodeTrace_quiet kept (fun _ _ h => h) rfl
  | stopFetcher _ => exact nodeTrace_quiet kept (fun _ _ h => h) rfl
  | requestFetch _ =>
      refine ⟨fun leader offset hmem => ?_, by simp, by simp, by simp,
        fun _ _ h => Or.inl h, fun _ _ h => Or.inl h, fun _ _ h => Or.inl h, Or.inl rfl⟩
      exact (Prod.mk.inj (List.mem_singleton.mp hmem)).2
  | @receiveFetch i _ batch _ =>
      refine ⟨by simp, by simp, fun leader hmem => ?_, by simp, fun _ _ h => Or.inl h,
        fun _ _ h => Or.inl h, fun _ _ h => Or.inl h, Or.inl rfl⟩
      obtain rfl := List.mem_singleton.mp hmem
      exact ⟨i, batch, rfl⟩
  | receiveNothing _ => exact nodeTrace_quiet kept (fun _ _ h => h) rfl
  | appendReplicated _ => exact nodeTrace_quiet kept (fun _ _ h => h) rfl
  | checkFetch _ =>
      refine ⟨by simp, by simp, by simp, by simp, fun f offset hmem => ?_,
        fun f batch hmem => ?_, fun _ _ h => Or.inl h, Or.inl rfl⟩
      · rcases List.mem_cons.mp hmem with heq | hmem
        · obtain ⟨rfl, rfl⟩ := FetchHandler.checked.inj heq
          exact Or.inr rfl
        · exact Or.inl hmem
      · exact Or.inl ((List.mem_cons.mp hmem).resolve_left (by simp))
  | readUpToLeo hchecked =>
      refine ⟨by simp, by simp, by simp, by simp, fun f offset hmem => ?_,
        fun f batch hmem => ?_, fun _ _ h => Or.inl h, Or.inl rfl⟩
      · exact Or.inl (List.mem_of_mem_erase ((List.mem_cons.mp hmem).resolve_left (by simp)))
      · rcases List.mem_cons.mp hmem with heq | hmem
        · obtain ⟨rfl, rfl⟩ := FetchHandler.read.inj heq
          exact Or.inr hchecked
        · exact Or.inl (List.mem_of_mem_erase hmem)
  | @onReplicaFetch replicaId batch now led hread htracked hled =>
      refine ⟨by simp, fun f b hmem => ?_, by simp, by simp,
        fun f offset hmem => Or.inl (List.mem_of_mem_erase hmem),
        fun f b hmem => Or.inl (List.mem_of_mem_erase hmem), fun f p hp => ?_, Or.inl rfl⟩
      · obtain ⟨rfl, rfl⟩ := Prod.mk.inj (List.mem_singleton.mp hmem)
        exact hread
      · rcases leaderStep_cases hled with ⟨_, _, _, _, heq, -⟩ |
          ⟨id, offset, now', heq, -, hst, -⟩ | ⟨-, -, hsame, -⟩
        · cases heq
        · obtain ⟨rfl, rfl, rfl⟩ := LeaderEvent.onReplicaFetch.inj heq
          simp only [hst, PartitionState.recordFetch_progress] at hp
          split at hp
          · next hf =>
              subst hf
              exact Or.inr ⟨batch, now, rfl, htracked, (Option.some.inj hp).symm, hread⟩
          · exact Or.inl hp
        · exact Or.inl (hsame ▸ hp)
  | ignoreFetch hread _ =>
      refine ⟨by simp, fun f b hmem => ?_, by simp, by simp,
        fun f offset hmem => Or.inl (List.mem_of_mem_erase hmem),
        fun f b hmem => Or.inl (List.mem_of_mem_erase hmem), fun _ _ h => Or.inl h, Or.inl rfl⟩
      obtain ⟨rfl, rfl⟩ := Prod.mk.inj (List.mem_singleton.mp hmem)
      exact hread
  | reconcileLeader _ _ _ =>
      refine nodeTrace_quiet kept (fun f p hp => ?_) rfl
      -- an entry that is made anew has no progress recorded
      simp only [ReplicaNode.reconcileLeader, PartitionState.setLeading_progress] at hp
      split at hp
      · exact hp
      · cases hp
  | reconcileFollower _ _ _ =>
      exact nodeTrace_quiet kept (by simp [ReplicaNode.reconcileFollower]) rfl
  | reconcileOther _ _ _ => exact nodeTrace_quiet kept (fun _ _ h => h) rfl
  | @applyLeaderAndIsr pa =>
      exact ⟨by simp, by simp, by simp, by simp, fun _ _ h => Or.inl h, fun _ _ h => Or.inl h,
        fun _ _ h => Or.inl h, Or.inr ⟨pa, rfl⟩⟩
  | crash =>
      exact nodeTrace_quiet (by simp [ReplicaNode.restart]) (by simp [ReplicaNode.restart]) rfl
  | crashInReplicate _ =>
      exact nodeTrace_quiet (by simp [ReplicaNode.restart]) (by simp [ReplicaNode.restart]) rfl

end MiniKafka.Broker
