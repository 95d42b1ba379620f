import MiniKafka.Cluster.AssignmentsFile

/-!
# The routing table over a restart

A broker rewrites the file of its routing table with every change, and loads it when it
starts. A name that `operator>>` reads as one word comes back; any other name derails the
loop, and the table that it loads is not the one that was written.
-/

namespace MiniKafka.Cluster

open Common Foundations TextStream

/-- What changes the map of a broker: its own controller's calls, and the entries that
another controller sends. -/
inductive RoutingCall
  | controller (call : ControllerCall)
  | applyLeaderAndIsr (entries : List LeaderAndISREntry)

def routingStep (uncleanLeaderElectionEnable : Bool) (a : Assignments) :
    RoutingCall → Option Assignments
  | .controller call => assignmentStep uncleanLeaderElectionEnable a call
  | .applyLeaderAndIsr entries => some (a.applyLeaderAndIsr entries)

/-- The lists of a request that was decoded: each is preceded by a count of 32 bits. -/
def CountedCall (_ : Assignments) : RoutingCall → Prop
  | .controller (.updateIsr _ req) => req.isr.length < 2 ^ 32
  | .controller _ => True
  | .applyLeaderAndIsr entries => ∀ e ∈ entries, e.assignment.Counted

instance (pa : PartitionAssignment) : Decidable pa.Counted :=
  decidable_of_iff (pa.replicas.length < 2 ^ 32 ∧ pa.isr.length < 2 ^ 32)
    ⟨fun h => ⟨h.1, h.2⟩, fun h => ⟨h.replicas, h.isr⟩⟩

instance decidableCountedCall (a : Assignments) : ∀ call, Decidable (CountedCall a call)
  | .controller (.updateIsr _ req) => inferInstanceAs (Decidable (req.isr.length < 2 ^ 32))
  | .controller (.createTopic _ _ _ _ _) | .controller (.checkPartitionFailover _) =>
      .isTrue trivial
  | .applyLeaderAndIsr entries =>
      List.decidableBAll (fun e : LeaderAndISREntry => e.assignment.Counted) entries

def Assignments.Counted (a : Assignments) : Prop :=
  ∀ (key : TopicPartition) (pa : PartitionAssignment), a[key]? = some pa → pa.Counted

variable {a a' : Assignments} {unclean : Bool} {alive : AliveIds} {vars : LoadVars}
  {file : Bytes}

section CountedLists

theorem PartitionAssignment.Counted.promote {pa pa' : PartitionAssignment}
    (h : pa.Counted) (hp : Assignments.promote unclean alive pa = some pa') : pa'.Counted := by
  unfold Assignments.promote at hp
  split at hp
  · cases hp
  · simp only at hp
    split at hp
    · next newLeader others hcand =>
        obtain rfl := Option.some.inj hp
        refine ⟨h.replicas, ?_⟩
        rw [← hcand, List.length_insertionSort]
        exact (List.length_filter_le _ _).trans_lt h.isr
    · split at hp
      · split at hp
        · obtain rfl := Option.some.inj hp
          exact ⟨h.replicas, by simp⟩
        · cases hp
      · cases hp

theorem AliveIds.roundRobin_counted (nonempty : alive.ids ≠ []) (rf p : UInt32) :
    (alive.roundRobin nonempty rf p).Counted := by
  have hlen : (alive.roundRobin nonempty rf p).replicas.length < 2 ^ 32 := by
    simpa [AliveIds.roundRobin] using rf.toNat_lt
  exact ⟨hlen, hlen⟩

theorem routingStep_counted {call : RoutingCall} (counted : a.Counted)
    (fits : CountedCall a call) (h : routingStep unclean a call = some a') : a'.Counted := by
  cases call with
  | applyLeaderAndIsr entries =>
      obtain rfl := Option.some.inj h
      intro key pa hpa
      exact Assignments.forall_applyLeaderAndIsr counted (fun key pa hmem => fits _ hmem) hpa
  | controller call =>
      cases call with
      | createTopic isLeader alive topic numPartitions replicationFactor =>
          simp only [routingStep, assignmentStep] at h
          split at h
          · next result d hd =>
              obtain rfl := Option.some.inj h
              rw [Assignments.createTopic_apply hd]
              intro key pa hpa
              refine Assignments.forall_applyLeaderAndIsr counted (fun key pa hmem => ?_) hpa
              obtain ⟨nonempty, p, rfl⟩ := Assignments.mem_createTopic_entries hd hmem
              exact alive.roundRobin_counted nonempty _ _
          · obtain rfl := Option.some.inj h
            exact counted
      | updateIsr isLeader req =>
          simp only [routingStep, assignmentStep] at h
          split at h
          · next d hd =>
              obtain rfl := Option.some.inj h
              obtain ⟨pa, -, hpa, rfl⟩ := Assignments.updateIsr_eq_some hd
              intro key pa' hpa'
              rw [getElem?_insert_ite] at hpa'
              split at hpa'
              · obtain rfl := Option.some.inj hpa'
                exact ⟨(counted _ pa hpa).replicas, fits⟩
              · exact counted key pa' hpa'
          · obtain rfl := Option.some.inj h
            exact counted
      | checkPartitionFailover alive =>
          obtain rfl := Option.some.inj h
          rw [Assignments.failover_apply]
          intro key pa hpa
          refine Assignments.forall_applyLeaderAndIsr counted (fun key pa hmem => ?_) hpa
          obtain ⟨old, hold, hpa⟩ := Assignments.mem_failover_entries.mp hmem
          exact (counted key old hold).promote hpa

theorem counted_empty : (∅ : Assignments).Counted := by
  intro key pa h
  simp at h

theorem counted_run {visits : List (Assignments × RoutingCall)}
    (run : Run (routingStep unclean) ∅ visits a) (fits : Guarded CountedCall visits) :
    a.Counted :=
  run.invariant fits counted_empty fun _ _ _ hfits hcounted hstep =>
    routingStep_counted hcounted hfits hstep

end CountedLists

section Restart

/-- What the loop reads as a topic is one word. -/
theorem readAssignment_token {s s' : TextStream} {vars' : LoadVars}
    {e : TopicPartition × PartitionAssignment} (h : readAssignment vars s = some (e, vars', s')) :
    Token e.1.1 := by
  simp only [readAssignment] at h
  split at h
  · cases h
  · next hfail =>
      have hread := Bool.not_eq_true _ ▸ hfail
      obtain ⟨rfl, -⟩ := Prod.mk.inj (Option.some.inj h)
      exact word_token (fail_of_number (fail_of_number (fail_of_number hread)))

theorem parseAssignments_token {e : TopicPartition × PartitionAssignment}
    (h : e ∈ parseAssignments vars file) : Token e.1.1 :=
  readEntries_forall (fun _ _ _ _ _ => readAssignment_token) h

theorem length_readIds {count : Nat} {id : BrokerId} {s : TextStream} :
    (readIds count id s).1.length = count := by
  induction count generalizing id s with
  | zero => rfl
  | succ count ih =>
      simp only [readIds, List.length_cons, ih]

/-- The loop reads no more ids than its counts of 32 bits say. -/
theorem readAssignment_counted {s s' : TextStream} {vars' : LoadVars}
    {e : TopicPartition × PartitionAssignment} (h : readAssignment vars s = some (e, vars', s')) :
    e.2.Counted := by
  simp only [readAssignment] at h
  split at h
  · cases h
  · obtain ⟨rfl, -⟩ := Prod.mk.inj (Option.some.inj h)
    constructor
    · rw [length_readIds]
      exact UInt32.toNat_lt _
    · rw [length_readIds]
      exact UInt32.toNat_lt _

/-- The lists of a loaded map fit their counts. -/
theorem loadAssignments_counted :
    (Assignments.loadAssignments vars (some file)).Counted := by
  intro key pa hpa
  rcases mem_of_getElem?_foldl hpa with hmem | hempty
  · exact readEntries_forall (P := fun e => e.2.Counted)
      (fun _ _ _ _ _ => readAssignment_counted) hmem
  · exact counted_empty key pa hempty

/-- Every name of a loaded map is one word. -/
theorem loadAssignments_token {key : TopicPartition}
    (h : key ∈ Assignments.loadAssignments vars (some file)) : Token key.1 := by
  rw [Assignments.loadAssignments, foldl_insert_eq_ofList] at h
  obtain ⟨e, he, rfl⟩ := List.mem_map.mp (mem_keys_of_mem_ofList h)
  exact parseAssignments_token he

theorem mem_toList_assignments (counted : a.Counted) (tokens : ∀ key ∈ a, Token key.1)
    {e : TopicPartition × PartitionAssignment} (he : e ∈ a.toList) :
    Token e.1.1 ∧ e.2.Counted := by
  have hpa := Std.ExtTreeMap.mem_toList_iff_getElem?_eq_some.mp he
  have hkey : e.1 ∈ a := by
    rw [Std.ExtTreeMap.mem_iff_isSome_getElem?, hpa]
    rfl
  exact ⟨tokens e.1 hkey, counted e.1 e.2 hpa⟩

/-- What is loaded from the first bytes of a file, if the lines that they reach can be read. -/
theorem parseAssignments_take {k : Nat}
    (readable : ∀ e ∈ reached assignmentLine a.toList k, Token e.1.1 ∧ e.2.Counted) :
    parseAssignments vars (a.persistAssignments.take k) =
      assignmentReader.values vars (cutLines (a.toList.map assignmentLine) k) := by
  rw [persistAssignments_eq, parseAssignments]
  apply assignmentReader.readEntries_reached
  intro e he
  exact ⟨e, rfl, readable e he⟩

/-- Whole lines are worth the entries they were written for. -/
theorem values_assignmentLines {entries : List (TopicPartition × PartitionAssignment)}
    (whole : ∀ e ∈ entries, Token e.1.1 ∧ e.2.Counted) :
    assignmentReader.values vars (entries.map assignmentLine) = entries := by
  induction entries generalizing vars with
  | nil => rfl
  | cons e entries ih =>
      have hread : assignmentReader.value vars (assignmentLine e) = some (e, vars.after e.2) :=
        assignmentOf_line vars (whole e (by simp)).2
      rw [List.map_cons, LineReader.values, hread]
      exact congrArg _ (ih fun e' he' => whole e' (List.mem_cons_of_mem _ he'))

/-- A file that was written whole is loaded as the map it was written for, whatever the
variables hold, exactly if each of the map's names is one word. -/
theorem loadAssignments_persist (counted : a.Counted) :
    Assignments.loadAssignments vars (some a.persistAssignments) = a ↔
      ∀ key ∈ a, Token key.1 := by
  constructor
  · intro h key hkey
    rw [← h] at hkey
    exact loadAssignments_token hkey
  · intro tokens
    have hparse : parseAssignments vars (a.persistAssignments.take a.persistAssignments.length) =
        _ := parseAssignments_take fun _ he =>
          mem_toList_assignments counted tokens (mem_of_reached he)
    rw [List.take_length, cutLines_of_length_le (by rw [← persistAssignments_eq]; omega),
      values_assignmentLines fun e he => mem_toList_assignments counted tokens he] at hparse
    rw [Assignments.loadAssignments, hparse, foldl_insert_eq_ofList, ofList_toList]

end Restart

/-- In a run of the calls that change the map, the file of the map it reaches is loaded as
this map exactly if each of the topics is one word. -/
theorem assignments_restored_iff {visits : List (Assignments × RoutingCall)}
    (run : Run (routingStep unclean) ∅ visits a) (fits : Guarded CountedCall visits)
    (vars : LoadVars) :
    Assignments.loadAssignments vars (some a.persistAssignments) = a ↔
      ∀ key ∈ a, Token key.1 :=
  loadAssignments_persist (counted_run run fits)

/-- A topic is created, its leader is replaced and reports, and entries of another topic
arrive. -/
def namedTopics : List RoutingCall :=
  [.controller (.createTopic true .oneTwo [116] 2 2),
    .controller (.checkPartitionFailover .twoThree),
    .controller (.updateIsr true ⟨[116], 0, [2]⟩),
    .applyLeaderAndIsr [⟨[45, 49], 7, 3, [3, 1], []⟩]]

theorem assignments_restored_named :
    ∃ visits a, Run (routingStep false) ∅ visits a ∧ a.toList.length = 3 ∧
      Assignments.loadAssignments ⟨4, 5⟩ (some a.persistAssignments) = a := by
  have seen : (execute (routingStep false) ∅ namedTopics).map
      (fun a => (a.toList.length, a.keys.all fun key => Token key.1)) = some (3, true) := by
    decide
  obtain ⟨a, run, hshow⟩ := run_showing seen
  obtain ⟨hlength, hnames⟩ := Prod.mk.inj hshow
  refine ⟨_, a, run, hlength, ?_⟩
  apply (assignments_restored_iff run (by decide) ⟨4, 5⟩).mpr
  intro key hkey
  have hall := List.all_eq_true.mp hnames key (Std.ExtTreeMap.mem_keys.mpr hkey)
  exact of_decide_eq_true hall

/-- A topic whose name has a space is not there after the restart. -/
theorem assignments_not_restored :
    ¬ ∀ (unclean : Bool) (visits : List (Assignments × RoutingCall)) (a : Assignments)
      (vars : LoadVars), Run (routingStep unclean) ∅ visits a → Guarded CountedCall visits →
      Assignments.loadAssignments vars (some a.persistAssignments) = a := by
  intro claim
  have seen : (execute (routingStep false) ∅
      [.controller (.createTopic true .oneTwo [97, 32, 98] 1 1)]).map
        (fun a => (a.toList.length,
          (Assignments.loadAssignments ⟨0, 0⟩ (some a.persistAssignments)).toList.length)) =
      some (1, 0) := by
    decide
  obtain ⟨a, run, hshow⟩ := run_showing seen
  obtain ⟨hwritten, hloaded⟩ := Prod.mk.inj hshow
  rw [claim false _ a ⟨0, 0⟩ run (by decide), hwritten] at hloaded
  cases hloaded

end MiniKafka.Cluster
