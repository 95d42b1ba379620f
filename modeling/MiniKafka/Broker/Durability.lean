import MiniKafka.Broker.LogAgreement

/-!
# What an acks=all answer promises

A leader acknowledges by its own in-sync set; the controller promotes from its copy of
that set, which reports reach late or never. An acknowledged batch survives every clean
failover as long as the two sets are tied together: acknowledgements count every member
of the controller's set, and a report adds only followers that have fetched everything
acknowledged so far.
-/

namespace MiniKafka.Broker

open Cluster Foundations Replication Storage

variable {controller : BrokerId} {c c' : PartitionCluster} {e : ClusterEvent}

/-- The broker acknowledges as the controller's leader, with a settled high watermark
and with the whole in-sync set of the controller counted. -/
def AcksForController (controller : BrokerId) (c : PartitionCluster) (b : BrokerId) : Prop :=
  c.leader controller = some b ∧ Settled (c.nodes b).led ∧
    ∃ r ∈ (c.nodes b).led.latest, c.isr controller ⊆ r.isr

/-- The follower's log agrees with the leader's up to the offset it fetches from. -/
def FetchesFromAgreement (c : PartitionCluster) (b f : BrokerId) (fetchOffset : Nat) : Prop :=
  (c.log f).records.take fetchOffset = (c.log b).records.take fetchOffset

/-- The fetch offset the controller's leader has recorded of a follower. -/
def PartitionCluster.leaderProgress (controller : BrokerId) (c : PartitionCluster)
    (f : BrokerId) : Option Nat :=
  (c.leader controller).bind fun l => (c.nodes l).led.st.followerProgress f

/-- The leader has seen the follower fetch beyond every acknowledged record. -/
def CaughtUp (controller : BrokerId) (c : PartitionCluster) (f : BrokerId) : Prop :=
  ∃ p ∈ c.leaderProgress controller f, ∀ a ∈ c.acked, a.1 + a.2.length ≤ p

/-- The set a report puts in force adds caught-up followers to the one in force only. -/
def AddsCaughtUp (controller : BrokerId) (c : PartitionCluster) (isr : List BrokerId) : Prop :=
  ∀ f ∈ isr, c.leader controller = some f ∨ f ∈ c.isr controller ∨ CaughtUp controller c f

def StepKeepsAcked (controller : BrokerId) (c : PartitionCluster) (b : BrokerId) :
    NodeEvent → Prop
  | .lead (.waitForHwm _) => AcksForController controller c b
  | .onReplicaFetch f batch _ =>
      (c.nodes b).tracked = true → FetchesFromAgreement c b f batch.fetchOffset
  | _ => True

/-- The condition on a step under which acknowledged batches stay where the controller
looks for a new leader. -/
def KeepsAcked (controller : BrokerId) (c : PartitionCluster) : ClusterEvent → Prop
  | .broker b e => StepKeepsAcked controller c b e
  | .updateIsr isr => AddsCaughtUp controller c isr
  | .checkPartitionFailover _ => True

instance (c : PartitionCluster) (b : BrokerId) :
    Decidable (AcksForController controller c b) :=
  inferInstanceAs (Decidable (_ ∧ _ ∧ ∃ r ∈ (c.nodes b).led.latest, _))

instance (c : PartitionCluster) (b : BrokerId) :
    ∀ e, Decidable (StepKeepsAcked controller c b e)
  | .lead (.waitForHwm _) => inferInstanceAs (Decidable (AcksForController controller c b))
  | .onReplicaFetch f batch _ => inferInstanceAs (Decidable ((c.nodes b).tracked = true →
      (c.log f).records.take batch.fetchOffset = (c.log b).records.take batch.fetchOffset))
  | .lead (.append _ _ _ _) | .lead (.onLeaderAppend _ _) | .lead (.onReplicaFetch _ _ _)
  | .lead (.sweep _) | .lead .setHighWatermark | .lead (.waitTimedOut _) | .lead (.answer _)
  | .lead (.read _ _) | .checkProduce _ | .startFetcher _ | .stopFetcher _ | .requestFetch _
  | .receiveFetch _ _ _ | .receiveNothing _ | .appendReplicated _ | .checkFetch _ _
  | .readUpToLeo _ _ | .reconcile | .applyLeaderAndIsr _ | .crash | .crashInReplicate _ _ =>
      .isTrue trivial

instance (c : PartitionCluster) (f : BrokerId) : Decidable (CaughtUp controller c f) :=
  inferInstanceAs (Decidable (∃ p ∈ c.leaderProgress controller f, _))

instance (c : PartitionCluster) (isr : List BrokerId) :
    Decidable (AddsCaughtUp controller c isr) :=
  List.decidableBAll _ isr

instance (c : PartitionCluster) : ∀ e, Decidable (KeepsAcked controller c e)
  | .broker b e => inferInstanceAs (Decidable (StepKeepsAcked controller c b e))
  | .updateIsr isr => inferInstanceAs (Decidable (AddsCaughtUp controller c isr))
  | .checkPartitionFailover _ => .isTrue trivial

def TiesIsr (controller : BrokerId) (c : PartitionCluster) (e : ClusterEvent) : Prop :=
  BatchesAtEnd c e ∧ KeepsAcked controller c e

instance (c : PartitionCluster) (e : ClusterEvent) : Decidable (TiesIsr controller c e) :=
  inferInstanceAs (Decidable (_ ∧ _))

/-- What a leader has recorded of a follower is true of both logs, and acknowledged
batches are held by the leader and by every member of the controller's in-sync set. -/
structure DurableInv (controller : BrokerId) (c : PartitionCluster) : Prop where
  agree : ∀ b f p, (c.nodes b).led.st.followerProgress f = some p →
    p ≤ (c.log f).records.length ∧
    (c.log f).records.take p = (c.log b).records.take p
  durable : ∀ a ∈ c.acked, ∀ v, c.leader controller = some v ∨ v ∈ c.isr controller →
    Holds (c.log v) a.1 a.2

/-- Two logs that agree up to the end of a batch hold it both or neither. -/
theorem Holds.of_take {log log' : ReplicaLog} {base p : Nat} {batch : List LogEntry}
    (h : Holds log base batch) (agree : log'.records.take p = log.records.take p)
    (hp : base + batch.length ≤ p) : Holds log' base batch := by
  obtain ⟨rest, hrest⟩ := h
  have hcut : (log.records.take p).drop base = batch ++ rest.take (p - base - batch.length) := by
    rw [List.drop_take, ← hrest, List.take_append]
    rw [List.take_of_length_le (by omega)]
  have hcut' : (log'.records.take p).drop base <+: log'.records.drop base :=
    prefix_drop (List.take_prefix _ _) base
  rw [agree, hcut] at hcut'
  exact (List.prefix_append _ _).trans hcut'

/-- A wait succeeds only below the high watermark of a tracked partition. -/
theorem wait_below_hwm {me : BrokerId} {n n' : ReplicaNode} {sent : Effects} {thread : Nat}
    {base : Nat} {batch : List LogEntry} {acksAll : Bool}
    (h : leadStep me n (.waitForHwm thread) = some (n', sent))
    (hthread : n.led.produce thread = .reclamped base batch acksAll) :
    base + batch.length ≤ n.log.hwm := by
  obtain ⟨-, hled, -⟩ := leadStep_cases h
  rcases leaderThread_cases hled with hstep | ⟨_, _, _, _, _, -, heq, -⟩
  · generalize n'.led = led' at hstep
    cases leaderStep_does hstep with
    | waitForHwm _ hwaits hreached =>
        simp only [LedPartition.requiredOffset, hthread] at hwaits
        split at hwaits
        · next heq =>
            obtain ⟨rfl, rfl, rfl⟩ := ProduceThread.reclamped.inj heq
            split at hwaits
            · next hpos =>
                obtain rfl := Option.some.inj hwaits
                change _ ≤ n.led.log.hwm
                omega
            · cases hwaits
        · cases hwaits
  · cases heq

/-- A batch that is acknowledged under the condition is held by the leader and by the
controller's in-sync set. -/
theorem DurableInv.acknowledge (inv : DurableInv controller c) (hc : ClusterInv c)
    {b v : BrokerId} {n : ReplicaNode} {sent : Effects} {thread base : Nat}
    {batch : List LogEntry} {acksAll : Bool} (guard : AcksForController controller c b)
    (hstep : leadStep b (c.nodes b) (.waitForHwm thread) = some (n, sent))
    (hthread : (c.nodes b).led.produce thread = .reclamped base batch acksAll)
    (hv : c.leader controller = some v ∨ v ∈ c.isr controller) :
    Holds (c.log v) base batch := by
  obtain ⟨hleader, hsettled, r, hr, hisr⟩ := guard
  have hown : Holds (c.log b) base batch := by
    have hold := (hc.nodes b).threads thread
    rwa [hthread] at hold
  by_cases hvb : v = b
  · rwa [hvb]
  · have hmem : v ∈ r.isr := by
      rcases hv with hv | hv
      · exact absurd (Option.some.inj (hv.symm.trans hleader)) hvb
      · exact hisr hv
    obtain ⟨p, hp, hle⟩ := (hc.nodes b).watermark.progress r hr v hmem hvb
    have hhwm := (hc.nodes b).watermark.settled hsettled r hr
    have hwait := wait_below_hwm hstep hthread
    refine hown.of_take (inv.agree b v p hp).2 ?_
    calc base + batch.length ≤ (c.nodes b).log.hwm := hwait
      _ = r.hwm := hhwm
      _ ≤ p := hle

/-- Growing logs keep what was recorded of a follower. -/
theorem DurableInv.agree_grows (hc : ClusterInv c) (atEnd : BatchesAtEnd c e)
    (h : clusterStep controller c e = some c') {b f : BrokerId} {p : Nat}
    (agree : p ≤ (c.log f).records.length ∧
      (c.log f).records.take p = (c.log b).records.take p) :
    p ≤ (c'.log f).records.length ∧
      (c'.log f).records.take p = (c'.log b).records.take p := by
  obtain ⟨hle, htake⟩ := agree
  have hle' : p ≤ (c.log b).records.length := by
    have hlen := congrArg List.length htake
    rw [List.length_take_of_le hle, List.length_take] at hlen
    omega
  rw [(hc.grows atEnd h f).records, (hc.grows atEnd h b).records]
  refine ⟨by rw [List.length_append]; omega, ?_⟩
  rw [List.take_append_of_le_length hle, List.take_append_of_le_length hle', htake]

theorem promote_clean {alive : AliveIds} {pa pa' : PartitionAssignment}
    (h : Assignments.promote false alive pa = some pa') :
    pa'.leaderId ∈ pa.isr ∧ pa'.isr ⊆ pa.isr := by
  unfold Assignments.promote at h
  split at h
  · cases h
  · simp only at h
    split at h
    · next newLeader others hcand =>
        obtain rfl := Option.some.inj h
        have hsub : newLeader :: others ⊆ pa.isr := by
          intro id hid
          rw [← hcand, List.mem_insertionSort] at hid
          exact (List.mem_filter.mp hid).1
        exact ⟨hsub List.mem_cons_self, hsub⟩
    · cases h

theorem DurableInv.advance (inv : DurableInv controller c) (hc : ClusterInv c) {b : BrokerId}
    {ne : NodeEvent} {n : ReplicaNode} {sent : Effects}
    (guard : TiesIsr controller c (.broker b ne))
    (hdelivered : c.delivered controller b ne = true)
    (hstep : nodeStep b (c.nodes b) ne = some (n, sent)) :
    DurableInv controller (c.advance controller b ne n sent) := by
  obtain ⟨atEnd, hkeeps⟩ := guard
  have h : clusterStep controller c (.broker b ne) =
      some (c.advance controller b ne n sent) := by
    simp [clusterStep, hdelivered, hstep]
  have trace := nodeStep_trace hstep
  have hassign := leader_advance hdelivered hstep
  refine ⟨fun v f p hp => ?_, fun a ha v hv => ?_⟩
  · refine DurableInv.agree_grows hc atEnd h ?_
    by_cases hvb : v = b
    · subst hvb
      have hp : n.led.st.followerProgress f = some p := by
        simpa [PartitionCluster.advance] using hp
      rcases trace.progress f p hp with hold | ⟨batch, now, rfl, htracked, rfl, hread⟩
      · exact inv.agree v f p hold
      · have hle := (hc.read v f batch hread).trans_eq (hc.nodes f).dense.next
        exact ⟨hle, hkeeps htracked⟩
    · refine inv.agree v f p ?_
      simpa [PartitionCluster.advance, hvb] using hp
  · have hgrows := (hc.grows atEnd h v).records
    refine Holds.mono ?_ hgrows
    have hcounted : c.leader controller = some v ∨ v ∈ c.isr controller := by
      simpa only [PartitionCluster.leader, ReplicaNode.leaderId, PartitionCluster.isr, hassign]
        using hv
    rcases List.mem_append.mp ha with hnew | hold
    · obtain ⟨thread, acksAll, rfl, hthread⟩ := trace.acked a.1 a.2 hnew
      exact inv.acknowledge hc hkeeps hstep hthread hcounted
    · exact inv.durable a hold v hcounted

theorem DurableInv.step (inv : DurableInv controller c) (hc : ClusterInv c)
    (guard : TiesIsr controller c e) (h : clusterStep controller c e = some c') :
    DurableInv controller c' := by
  rcases clusterStep_cases h with ⟨b, ne, n, sent, rfl, hdelivered, hstep, rfl⟩ |
    ⟨isr, pa, rfl, -, hpa, rfl⟩ | ⟨alive, pa, pa', rfl, hpa, hpa', rfl⟩ | ⟨-, rfl⟩
  · exact inv.advance hc guard hdelivered hstep
  · have hl : pa.leaderId ∈ c.leader controller := by
      simp [PartitionCluster.leader, ReplicaNode.leaderId, hpa]
    refine ⟨fun v f p hp => ?_, fun a ha v hv => ?_⟩
    · rw [log_store, log_store]
      obtain ⟨assignment, hnode⟩ := node_store c controller { pa with isr := isr } v
      rw [hnode] at hp
      exact inv.agree v f p hp
    · rw [log_store]
      have hold := inv.durable a ha pa.leaderId (Or.inl hl)
      have hv : v = pa.leaderId ∨ v ∈ isr := by
        simpa [PartitionCluster.leader, PartitionCluster.isr, ReplicaNode.leaderId,
          PartitionCluster.store, eq_comm] using hv
      rcases hv with rfl | hv
      · exact hold
      · rcases guard.2 v hv with hleader | hisr | ⟨p, hp, hacked⟩
        · exact inv.durable a ha v (Or.inl hleader)
        · exact inv.durable a ha v (Or.inr hisr)
        · rw [PartitionCluster.leaderProgress, hl] at hp
          exact hold.of_take (inv.agree pa.leaderId v p hp).2 (hacked a ha)
  · obtain ⟨hleader, hisr⟩ := promote_clean hpa'
    have hmem : ∀ v ∈ pa.isr, v ∈ c.isr controller := by
      simp [PartitionCluster.isr, hpa]
    refine ⟨fun v f p hp => ?_, fun a ha v hv => ?_⟩
    · change p ≤ ((c.store controller pa').log f).records.length ∧
        ((c.store controller pa').log f).records.take p =
          ((c.store controller pa').log v).records.take p
      rw [log_store, log_store]
      obtain ⟨assignment, hnode⟩ := node_store c controller pa' v
      change ((c.store controller pa').nodes v).led.st.followerProgress f = some p at hp
      rw [hnode] at hp
      exact inv.agree v f p hp
    · change Holds ((c.store controller pa').log v) a.1 a.2
      rw [log_store]
      have hv : v = pa'.leaderId ∨ v ∈ pa'.isr := by
        simpa [PartitionCluster.leader, PartitionCluster.isr, ReplicaNode.leaderId,
          PartitionCluster.promoted, PartitionCluster.store, eq_comm] using hv
      rcases hv with rfl | hv
      · exact inv.durable a ha _ (Or.inr (hmem _ hleader))
      · exact inv.durable a ha _ (Or.inr (hmem _ (hisr hv)))
  · exact inv

theorem durableInv_boot (pa : PartitionAssignment) :
    DurableInv controller (PartitionCluster.boot controller pa) := by
  refine ⟨fun b f p hp => ?_, by simp [PartitionCluster.boot]⟩
  by_cases hb : b = controller <;>
    simp [PartitionCluster.boot, hb, LedPartition.boot] at hp

/-- In a run that ties the two in-sync sets together, a broker that a failover pass
promotes holds every batch acknowledged with acks=all, at its offsets. -/
theorem acked_survives_failover {pa₀ : PartitionAssignment}
    {visits : List (PartitionCluster × ClusterEvent)}
    (run : ClusterRun controller (PartitionCluster.boot controller pa₀) visits c)
    (ties : Guarded (TiesIsr controller) visits) :
    ∀ alive pa pa', (c.nodes controller).assignment = some pa →
      Assignments.promote false alive pa = some pa' →
      ∀ a ∈ c.acked, Holds (c.log pa'.leaderId) a.1 a.2 := by
  obtain ⟨-, inv⟩ := run.invariant
    (I := fun c => ClusterInv c ∧ DurableInv controller c) ties
    ⟨clusterInv_boot pa₀, durableInv_boot pa₀⟩
    fun _ _ _ guard hinv h => ⟨hinv.1.step guard.1 h, hinv.2.step hinv.1 guard h⟩
  intro alive pa pa' hpa hpa' a ha
  refine inv.durable a ha pa'.leaderId (Or.inr ?_)
  simpa [PartitionCluster.isr, hpa] using (promote_clean hpa').1

/-- Broker 2 fetches once before the record is there and twice after; then broker 1
acknowledges it. -/
def ackedByBoth : List ClusterEvent :=
  [.broker 1 (.applyLeaderAndIsr onTwoBrokers), .broker 1 .reconcile,
    .broker 1 (.checkProduce 0), .broker 1 (.lead (.append 0 0 oneRecord true)),
    .broker 1 (.lead (.onLeaderAppend 0 0)), .broker 1 (.lead .setHighWatermark)] ++
  followerFetches ++
  [.broker 1 (.lead .setHighWatermark), .broker 2 (.requestFetch 0),
    .broker 1 (.checkFetch 2 1), .broker 1 (.readUpToLeo 2 1),
    .broker 1 (.onReplicaFetch 2 ⟨1, []⟩ 0), .broker 1 (.lead .setHighWatermark),
    .broker 1 (.lead (.waitForHwm 0))]

theorem acked_survives_failover_two :
    ∃ visits c, ClusterRun 3 (PartitionCluster.boot 3 onTwoBrokers) visits c ∧
      c.acked = [(0, [firstRecord])] ∧
      Assignments.promote false .twoThree onTwoBrokers = some afterFailover ∧
      Holds (c.log 2) 0 [firstRecord] := by
  obtain ⟨c, hc⟩ := Option.isSome_iff_exists.mp
    (show (execute (clusterStep 3) (PartitionCluster.boot 3 onTwoBrokers)
      ackedByBoth).isSome by decide)
  have seen : (execute (clusterStep 3) (PartitionCluster.boot 3 onTwoBrokers)
      ackedByBoth).map (fun c => ((c.nodes 3).assignment, c.acked)) =
      some (some onTwoBrokers, [(0, [firstRecord])]) := by decide
  rw [hc, Option.map_some, Option.some.injEq, Prod.mk.injEq] at seen
  obtain ⟨hassign, hacked⟩ := seen
  have hpromote : Assignments.promote false .twoThree onTwoBrokers =
      some afterFailover := by decide
  exact ⟨_, c, run_of_execute hc, hacked, hpromote,
    acked_survives_failover (run_of_execute hc) (by decide) _ _ _ hassign hpromote
      (0, [firstRecord]) (by simp [hacked])⟩

/-- Broker 2 never fetches: the leader counts itself alone, acknowledges, and dies before
its report is handled. -/
def ackedByLeader : List ClusterEvent :=
  leaderAppends ++
    [.broker 1 (.lead (.onLeaderAppend 0 0)), .broker 1 (.lead .setHighWatermark),
      .broker 1 (.lead (.waitForHwm 0)), .broker 1 .crash]

/-- The failover pass then promotes broker 2, whose log is empty. -/
theorem acked_lost_in_failover :
    ¬ ∀ (controller : BrokerId) (pa₀ : PartitionAssignment)
      (visits : List (PartitionCluster × ClusterEvent)) (c : PartitionCluster),
      ClusterRun controller (PartitionCluster.boot controller pa₀) visits c →
      ∀ alive pa pa', (c.nodes controller).assignment = some pa →
        Assignments.promote false alive pa = some pa' →
        ∀ a ∈ c.acked, Holds (c.log pa'.leaderId) a.1 a.2 := by
  intro claim
  obtain ⟨c, hc⟩ := Option.isSome_iff_exists.mp
    (show (execute (clusterStep 3) (PartitionCluster.boot 3 onTwoBrokers)
      ackedByLeader).isSome by decide)
  have seen : (execute (clusterStep 3) (PartitionCluster.boot 3 onTwoBrokers)
      ackedByLeader).map (fun c => ((c.nodes 3).assignment, c.acked, (c.log 2).records)) =
      some (some onTwoBrokers, [(0, [firstRecord])], []) := by decide
  rw [hc] at seen
  simp only [Option.map_some, Option.some.injEq, Prod.mk.injEq] at seen
  obtain ⟨hassign, hacked, hlog⟩ := seen
  have hholds := claim 3 onTwoBrokers _ c (run_of_execute hc) .twoThree onTwoBrokers
    afterFailover hassign (by decide) (0, [firstRecord]) (by simp [hacked])
  change [firstRecord] <+: (c.log 2).records.drop 0 at hholds
  rw [hlog] at hholds
  exact absurd hholds (by decide)

end MiniKafka.Broker
