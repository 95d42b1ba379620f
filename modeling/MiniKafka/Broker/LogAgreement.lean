import MiniKafka.Broker.ClusterInvariant

/-!
# Agreement of the logs across leader changes

Nothing ever truncates a log, and a fetched batch is appended without a look at what is
before it. So a follower agrees with the leader as long as it never went beyond the
logs the later leaders started from: a broker that did is stranded, and agreement is
lost once a stranded broker is promoted or answered by the leader.
-/

namespace MiniKafka.Broker

open Cluster Foundations Replication Storage

variable {controller : BrokerId} {c c' : PartitionCluster} {e : ClusterEvent}

/-- A step of `b` neither strands it after the leader has answered it, nor has it
answered by the leader when it is stranded. -/
def StepKeepsHistory (controller : BrokerId) (c : PartitionCluster) (b : BrokerId)
    (e : NodeEvent) : Prop :=
  (c.Strands controller b e →
    ∀ a ∈ c.answered, a.follower = b → c.leader controller ≠ some a.leader) ∧
  (e.answeredBy ≠ none → e.answeredBy = c.leader controller → c.stranded b = false)

/-- The new leader is not stranded, and neither is a broker it has answered before. -/
def PromotionKeepsHistory (c : PartitionCluster) (pa : PartitionAssignment) : Prop :=
  c.stranded pa.leaderId = false ∧
  ∀ a ∈ c.answered, a.leader = pa.leaderId → c.stranded a.follower = false ∧
    (c.log a.follower).logEndOffset ≤ (c.log pa.leaderId).logEndOffset

def KeepsHistory (controller : BrokerId) (c : PartitionCluster) : ClusterEvent → Prop
  | .broker b e => StepKeepsHistory controller c b e
  | .checkPartitionFailover alive => ∀ pa ∈ (c.nodes controller).assignment,
      ∀ pa' ∈ Assignments.promote false alive pa, PromotionKeepsHistory c pa'
  | .updateIsr _ => True

instance (c : PartitionCluster) (b : BrokerId) (e : NodeEvent) :
    Decidable (StepKeepsHistory controller c b e) :=
  inferInstanceAs (Decidable ((_ → ∀ a ∈ c.answered, _) ∧ (_ → _ → _)))

instance (c : PartitionCluster) (pa : PartitionAssignment) :
    Decidable (PromotionKeepsHistory c pa) :=
  inferInstanceAs (Decidable (_ ∧ ∀ a ∈ c.answered, _ → _ ∧ _))

instance (c : PartitionCluster) : ∀ e, Decidable (KeepsHistory controller c e)
  | .broker b e => inferInstanceAs (Decidable (StepKeepsHistory controller c b e))
  | .checkPartitionFailover alive => inferInstanceAs (Decidable
      (∀ pa ∈ (c.nodes controller).assignment, ∀ pa' ∈ Assignments.promote false alive pa, _))
  | .updateIsr _ => .isTrue trivial

/-- Every batch is appended where it starts, and the history is kept. -/
def FollowsHistory (controller : BrokerId) (c : PartitionCluster) (e : ClusterEvent) : Prop :=
  BatchesAtEnd c e ∧ KeepsHistory controller c e

instance (c : PartitionCluster) (e : ClusterEvent) :
    Decidable (FollowsHistory controller c e) :=
  inferInstanceAs (Decidable (_ ∧ _))

/-- What is not stranded is part of the leader's log. -/
structure HistoryInv (controller : BrokerId) (c : PartitionCluster) : Prop where
  broker : ∀ l ∈ c.leader controller, ∀ b, c.stranded b = false →
    (c.log b).records <+: (c.log l).records
  batch : ∀ l ∈ c.leader controller, ∀ batch ∈ c.clean,
    batch.records <+: (c.log l).records.drop batch.fetchOffset
  answered : ∀ l ∈ c.leader controller, ∀ f, ⟨f, l⟩ ∈ c.answered → c.stranded f = false

theorem prefix_drop {xs ys : List LogEntry} (h : xs <+: ys) (k : Nat) :
    xs.drop k <+: ys.drop k := by
  obtain ⟨rest, rfl⟩ := h
  rw [List.drop_append]
  exact List.prefix_append _ _

theorem ClusterInv.logEnd (inv : ClusterInv c) (b : BrokerId) :
    (c.log b).logEndOffset = (c.log b).records.length := (inv.nodes b).dense.next

/-- A step of a broker leaves the controller's assignment alone. -/
theorem leader_advance {b : BrokerId} {ne : NodeEvent} {n : ReplicaNode} {sent : Effects}
    (hdelivered : c.delivered controller b ne = true)
    (hstep : nodeStep b (c.nodes b) ne = some (n, sent)) :
    ((c.advance controller b ne n sent).nodes controller).assignment =
      (c.nodes controller).assignment := by
  by_cases hb : controller = b
  · subst hb
    rcases (nodeStep_trace hstep).assignment with hsame | ⟨pa, rfl⟩
    · simpa [PartitionCluster.advance] using hsame
    · exact absurd rfl (of_decide_eq_true hdelivered).2
  · simp [PartitionCluster.advance, hb]

/-- What a broker takes in without being stranded continues the leader's log. -/
theorem HistoryInv.writes (inv : HistoryInv controller c) (hc : ClusterInv c) {b l : BrokerId}
    {ne : NodeEvent} (hl : l ∈ c.leader controller) (hb : b ≠ l)
    (atEnd : AppendsAtEnd (c.nodes b) ne) (clean : c.stranded b = false)
    (stays : ¬ c.Strands controller b ne) :
    (c.log b).records ++ (c.nodes b).writes ne <+: (c.log l).records := by
  have hlog := inv.broker l hl b clean
  have hother : c.leader controller ≠ some b := by
    intro h
    exact hb (Option.some.inj (h.symm.trans hl))
  by_cases hnothing : (c.nodes b).writes ne = []
  · rw [hnothing, List.append_nil]
    exact hlog
  · -- the batch is clean and starts at the log end of `b`
    obtain ⟨batch, hfetched, hclean⟩ : ∃ batch ∈ (c.nodes b).fetched ne, batch ∈ c.clean := by
      by_contra hnone
      exact stays ⟨hother, hnothing, fun batch hf hclean => hnone ⟨batch, hf, hclean⟩⟩
    have hbatch := (writes_fetched hfetched).trans (inv.batch l hl batch hclean)
    rw [atEnd batch hfetched] at hbatch
    change _ <+: (c.log l).records.drop (c.log b).logEndOffset at hbatch
    rw [hc.logEnd b] at hbatch
    obtain ⟨rest, hrest⟩ := hlog
    rw [← hrest, List.drop_left] at hbatch
    rw [← hrest]
    exact (List.prefix_append_right_inj _).mpr hbatch

theorem HistoryInv.advance (inv : HistoryInv controller c) (hc : ClusterInv c) {b : BrokerId}
    {ne : NodeEvent} {n : ReplicaNode} {sent : Effects}
    (guard : FollowsHistory controller c (.broker b ne))
    (hdelivered : c.delivered controller b ne = true)
    (hstep : nodeStep b (c.nodes b) ne = some (n, sent)) :
    HistoryInv controller (c.advance controller b ne n sent) := by
  obtain ⟨atEnd, hkeeps, hreceive⟩ := guard
  have hgrows : ∀ v, ((c.advance controller b ne n sent).log v).records =
      (c.log v).records ++ c.writes v (.broker b ne) := by
    intro v
    have htaken : clusterStep controller c (.broker b ne) =
        some (c.advance controller b ne n sent) := by
      simp [clusterStep, hdelivered, hstep]
    exact (hc.grows atEnd htaken v).records
  have hleader : (c.advance controller b ne n sent).leader controller =
      c.leader controller := by
    simp only [PartitionCluster.leader, ReplicaNode.leaderId, leader_advance hdelivered hstep]
  have hstranded : ∀ v, (c.advance controller b ne n sent).stranded v = false →
      c.stranded v = false ∧ (v = b → ¬ c.Strands controller b ne) := by
    intro v hv
    by_cases hvb : v = b
    · subst hvb
      simpa [PartitionCluster.advance] using hv
    · exact ⟨by simpa [PartitionCluster.advance, hvb] using hv, fun h => absurd h hvb⟩
  refine ⟨fun l hl v hv => ?_, fun l hl batch hmem => ?_, fun l hl f hans => ?_⟩
  · rw [hleader] at hl
    obtain ⟨hclean, hstays⟩ := hstranded v hv
    rw [hgrows l]
    by_cases hvl : v = l
    · subst hvl
      rw [hgrows v]
    · refine List.IsPrefix.trans ?_ (List.prefix_append _ _)
      rw [hgrows v, PartitionCluster.writes]
      split
      · next hvb =>
          subst hvb
          exact inv.writes hc hl hvl atEnd hclean (hstays rfl)
      · rw [List.append_nil]
        exact inv.broker l hl v hclean
  · rw [hleader] at hl
    rw [hgrows l]
    refine List.IsPrefix.trans ?_ (prefix_drop (List.prefix_append _ _) _)
    rcases List.mem_append.mp hmem with hnew | hold
    · -- a batch read from a log that is part of the leader's
      unfold PartitionCluster.cleanRead at hnew
      split at hnew
      · next replicaId fetchOffset =>
          split at hnew
          · cases hnew
          · next hclean =>
              obtain rfl := List.mem_singleton.mp hnew
              have hread := (hc.nodes b).dense.readClamped_prefix fetchOffset kMaxFetchBytes
                (c.log b).nextOffset
              exact hread.trans (prefix_drop (inv.broker l hl b (by simpa using hclean)) _)
      · cases hnew
    · exact inv.batch l hl batch hold
  · rw [hleader] at hl
    have hf : c.stranded f = false ∧ (f = b → ¬ c.Strands controller b ne) := by
      rcases List.mem_append.mp hans with hnew | hold
      · obtain ⟨l', hl', heq⟩ := List.mem_map.mp hnew
        obtain ⟨rfl, rfl⟩ : b = f ∧ l' = l := by simpa using heq
        obtain ⟨i, batch, rfl⟩ := (nodeStep_trace hstep).answered l' hl'
        exact ⟨hreceive (by simp [NodeEvent.answeredBy]) hl.symm, fun _ h => h.2.1 rfl⟩
      · refine ⟨inv.answered l hl f hold, ?_⟩
        rintro rfl hstrands
        exact hkeeps hstrands ⟨f, l⟩ hold rfl hl
    by_cases hfb : f = b
    · subst hfb
      simpa [PartitionCluster.advance, hf.1] using hf.2 rfl
    · simpa [PartitionCluster.advance, hfb] using hf.1

/-- The log of a broker promoted without being stranded starts the new history. -/
theorem HistoryInv.promoted (inv : HistoryInv controller c) (hc : ClusterInv c)
    {pa pa' : PartitionAssignment} {alive : AliveIds}
    (hpa : (c.nodes controller).assignment = some pa)
    (hpa' : Assignments.promote false alive pa = some pa')
    (guard : KeepsHistory controller c (.checkPartitionFailover alive)) :
    HistoryInv controller (c.promoted controller pa') := by
  obtain ⟨hclean, hanswered⟩ := guard pa hpa pa' hpa'
  have hold : pa.leaderId ∈ c.leader controller := by
    simp [PartitionCluster.leader, ReplicaNode.leaderId, hpa]
  have hnew : ∀ l ∈ (c.promoted controller pa').leader controller, l = pa'.leaderId := by
    intro l hl
    simpa [PartitionCluster.leader, ReplicaNode.leaderId, PartitionCluster.promoted,
      PartitionCluster.store, eq_comm] using hl
  have hlog : ∀ v, (c.promoted controller pa').log v = c.log v := log_store pa'
  have hstart := inv.broker pa.leaderId hold pa'.leaderId hclean
  have hcut : ∀ xs : List LogEntry, xs <+: (c.log pa.leaderId).records →
      xs.length ≤ (c.log pa'.leaderId).records.length →
      xs <+: (c.log pa'.leaderId).records := fun xs hxs hle =>
    List.prefix_of_prefix_length_le hxs hstart hle
  refine ⟨fun l hl v hv => ?_, fun l hl batch hmem => ?_, fun l hl f hans => ?_⟩
  · obtain rfl := hnew l hl
    rw [hlog, hlog]
    simp only [PartitionCluster.promoted, Bool.or_eq_false_iff, decide_eq_false_iff_not,
      not_lt] at hv
    refine hcut _ (inv.broker _ hold v hv.1) ?_
    rw [← hc.logEnd, ← hc.logEnd]
    exact hv.2
  · obtain rfl := hnew l hl
    rw [hlog]
    obtain ⟨hmem, hle⟩ := List.mem_filter.mp hmem
    have hle : batch.fetchOffset + batch.records.length ≤
        (c.log pa'.leaderId).records.length := by
      rw [← hc.logEnd]
      simpa using hle
    have hbatch := inv.batch _ hold batch hmem
    obtain ⟨rest, hrest⟩ := hstart
    rw [← hrest, List.drop_append] at hbatch
    refine List.prefix_of_prefix_length_le hbatch (List.prefix_append _ _) ?_
    rw [List.length_drop]
    omega
  · obtain rfl := hnew l hl
    obtain ⟨hf, hle⟩ := hanswered ⟨f, pa'.leaderId⟩ hans rfl
    simpa [PartitionCluster.promoted, hf] using hle

theorem HistoryInv.step (inv : HistoryInv controller c) (hc : ClusterInv c)
    (guard : FollowsHistory controller c e) (h : clusterStep controller c e = some c') :
    HistoryInv controller c' := by
  rcases clusterStep_cases h with ⟨b, ne, n, sent, rfl, hdelivered, hstep, rfl⟩ |
    ⟨isr, pa, rfl, -, hpa, rfl⟩ | ⟨alive, pa, pa', rfl, hpa, hpa', rfl⟩ | ⟨-, rfl⟩
  · exact inv.advance hc guard hdelivered hstep
  · have hleader : (c.store controller { pa with isr := isr }).leader controller =
        c.leader controller := by
      simp [PartitionCluster.leader, ReplicaNode.leaderId, PartitionCluster.store, hpa]
    refine ⟨fun l hl v hv => ?_, fun l hl batch hmem => ?_, fun l hl f hans => ?_⟩
    · rw [log_store, log_store]
      exact inv.broker l (hleader ▸ hl) v hv
    · rw [log_store]
      exact inv.batch l (hleader ▸ hl) batch hmem
    · exact inv.answered l (hleader ▸ hl) f hans
  · exact inv.promoted hc hpa hpa' guard.2
  · exact inv

theorem historyInv_boot (pa : PartitionAssignment) :
    HistoryInv controller (PartitionCluster.boot controller pa) := by
  have hempty : ∀ b, ((PartitionCluster.boot controller pa).log b).records = [] := by
    intro b
    by_cases hb : b = controller <;>
      simp [PartitionCluster.log, PartitionCluster.boot, ReplicaNode.log, hb,
        LedPartition.boot]
  refine ⟨fun l _ b _ => ?_, ?_, ?_⟩
  · rw [hempty, hempty]
  · simp [PartitionCluster.boot]
  · simp [PartitionCluster.boot]

/-- In a run that follows the history, a follower that the current leader has answered
holds a prefix of that leader's log. -/
theorem followers_agree {pa : PartitionAssignment}
    {visits : List (PartitionCluster × ClusterEvent)}
    (run : ClusterRun controller (PartitionCluster.boot controller pa) visits c)
    (follows : Guarded (FollowsHistory controller) visits) :
    ∀ l f, c.leader controller = some l → ⟨f, l⟩ ∈ c.answered →
      (c.log f).records <+: (c.log l).records := by
  obtain ⟨-, inv⟩ := run.invariant
    (I := fun c => ClusterInv c ∧ HistoryInv controller c) follows
    ⟨clusterInv_boot pa, historyInv_boot pa⟩
    fun _ _ _ guard hinv h => ⟨hinv.1.step guard.1 h, hinv.2.step hinv.1 guard h⟩
  intro l f hl hans
  exact inv.broker l hl f (inv.answered l hl f hans)

/-- Leader 1 and follower 2; broker 3 is the controller. -/
def onTwoBrokers : PartitionAssignment := ⟨1, [1, 2], [1, 2]⟩

/-- The assignment after a failover to broker 2. -/
def afterFailover : PartitionAssignment := ⟨2, [1, 2], [2]⟩

/-- Broker 1 learns that it leads and takes a record in. -/
def leaderAppends : List ClusterEvent :=
  [.broker 1 (.applyLeaderAndIsr onTwoBrokers), .broker 1 .reconcile,
    .broker 1 (.checkProduce 0), .broker 1 (.lead (.append 0 0 oneRecord true))]

/-- The record `leaderAppends` leaves at offset 0. -/
def firstRecord : LogEntry := ⟨0, 0, [], [1]⟩

/-- Broker 2 fetches the record. -/
def followerFetches : List ClusterEvent :=
  [.broker 2 (.applyLeaderAndIsr onTwoBrokers), .broker 2 (.startFetcher 0),
    .broker 2 (.requestFetch 0), .broker 1 (.checkFetch 2 0), .broker 1 (.readUpToLeo 2 0),
    .broker 1 (.onReplicaFetch 2 ⟨0, [firstRecord]⟩ 0),
    .broker 2 (.receiveFetch 0 1 ⟨0, [firstRecord]⟩), .broker 2 (.appendReplicated 0)]

/-- Broker 2 is promoted; broker 1 comes back as its follower and is answered. -/
def oldLeaderReturns (fetchOffset : Nat) : List ClusterEvent :=
  [.checkPartitionFailover .twoThree,
    .broker 2 (.applyLeaderAndIsr afterFailover), .broker 2 .reconcile,
    .broker 2 (.checkProduce 0), .broker 2 (.lead (.append 0 9 oneRecord true)),
    .broker 1 .crash, .broker 1 (.applyLeaderAndIsr afterFailover), .broker 1 .reconcile,
    .broker 1 (.startFetcher 0), .broker 1 (.requestFetch 0),
    .broker 2 (.checkFetch 1 fetchOffset), .broker 2 (.readUpToLeo 1 fetchOffset)]

def replicatedFailover : List ClusterEvent :=
  leaderAppends ++ followerFetches ++ oldLeaderReturns 1 ++
    [.broker 2 (.onReplicaFetch 1 ⟨1, [⟨1, 9, [], [1]⟩]⟩ 0),
      .broker 1 (.receiveFetch 0 2 ⟨1, [⟨1, 9, [], [1]⟩]⟩)]

theorem followers_agree_two :
    ∃ visits c, ClusterRun 3 (PartitionCluster.boot 3 onTwoBrokers) visits c ∧
      c.leader 3 = some 2 ∧ ⟨1, 2⟩ ∈ c.answered ∧ (c.log 1).records = [firstRecord] ∧
      (c.log 1).records <+: (c.log 2).records := by
  obtain ⟨c, hc⟩ := Option.isSome_iff_exists.mp
    (show (execute (clusterStep 3) (PartitionCluster.boot 3 onTwoBrokers)
      replicatedFailover).isSome by decide)
  have seen : (execute (clusterStep 3) (PartitionCluster.boot 3 onTwoBrokers)
      replicatedFailover).map (fun c => (c.leader 3, c.answered, (c.log 1).records)) =
      some (some 2, [⟨1, 2⟩, ⟨2, 1⟩], [firstRecord]) := by decide
  rw [hc, Option.map_some, Option.some.injEq, Prod.mk.injEq, Prod.mk.injEq] at seen
  obtain ⟨hleader, hanswered, hlog⟩ := seen
  have hans : ⟨1, 2⟩ ∈ c.answered := by simp [hanswered]
  exact ⟨_, c, run_of_execute hc, hleader, hans, hlog,
    followers_agree (run_of_execute hc) (by decide) 2 1 hleader hans⟩

/-- The record of broker 1 is never fetched; broker 2 starts from an empty log. -/
def unreplicatedFailover : List ClusterEvent :=
  leaderAppends ++ oldLeaderReturns 1 ++
    [.broker 2 (.onReplicaFetch 1 ⟨1, []⟩ 0), .broker 1 (.receiveFetch 0 2 ⟨1, []⟩)]

/-- The old leader keeps its record at offset 0, where the new leader has another one. -/
theorem followers_disagree :
    ¬ ∀ (controller : BrokerId) (pa : PartitionAssignment)
      (visits : List (PartitionCluster × ClusterEvent)) (c : PartitionCluster),
      ClusterRun controller (PartitionCluster.boot controller pa) visits c →
      ∀ l f, c.leader controller = some l → ⟨f, l⟩ ∈ c.answered →
        (c.log f).records <+: (c.log l).records := by
  intro claim
  obtain ⟨c, hc⟩ := Option.isSome_iff_exists.mp
    (show (execute (clusterStep 3) (PartitionCluster.boot 3 onTwoBrokers)
      unreplicatedFailover).isSome by decide)
  have seen : (execute (clusterStep 3) (PartitionCluster.boot 3 onTwoBrokers)
      unreplicatedFailover).map
      (fun c => (c.leader 3, c.answered, (c.log 1).records, (c.log 2).records)) =
      some (some 2, [⟨1, 2⟩], [firstRecord], [⟨0, 9, [], [1]⟩]) := by decide
  rw [hc] at seen
  simp only [Option.map_some, Option.some.injEq, Prod.mk.injEq] at seen
  obtain ⟨hleader, hanswered, hold, hnew⟩ := seen
  have hprefix := claim 3 onTwoBrokers _ c (run_of_execute hc) 2 1 hleader
    (by simp [hanswered])
  rw [hold, hnew] at hprefix
  exact absurd hprefix (by decide)

end MiniKafka.Broker
