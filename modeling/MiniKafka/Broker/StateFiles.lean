import MiniKafka.Cluster.AssignmentRestart
import MiniKafka.Cluster.RaftStateFile
import MiniKafka.Group.CommittedOffsets

/-!
# State files after a crash

`persist_state`, `persist_assignments` and `persist_offsets` truncate their file and write
the new text over it. A process that dies in between leaves the first bytes of the new
text, and the loaders take these for a file.
-/

namespace MiniKafka.Broker

open Cluster Common Foundations MiniKafka.Group TextStream

/-- The text that is written for a state, and what is loaded from a file. -/
structure StateFile (α : Type) where
  text : α → Bytes
  load : Bytes → α

/-- A crash after the first `k` bytes of the new text loses neither state. -/
def StateFile.AtomicAt {α : Type} (f : StateFile α) (old new : α) (k : Nat) : Prop :=
  f.load ((f.text new).take k) = old ∨ f.load ((f.text new).take k) = new

instance {α : Type} [DecidableEq α] (f : StateFile α) (old new : α) (k : Nat) :
    Decidable (f.AtomicAt old new k) :=
  inferInstanceAs (Decidable (_ ∨ _))

/-- The term and the vote of `raft_state`. -/
def raftState : StateFile RaftFile where
  text := RaftFile.text
  load file := (RaftState.loadState (parseRaftState file)).persistState

def clusterAssignments (vars : LoadVars) : StateFile Assignments where
  text := Assignments.persistAssignments
  load file := Assignments.loadAssignments vars (some file)

/-- The file of a group, read into a state that has loaded nothing. -/
def groupOffsets : StateFile OffsetMap where
  text := offsetsText
  load file := (({} : GroupOffsets).loadOffsetsIfNeeded (some file)).offsets

/-- What the first `k` bytes leave of the offsets: the entries whose lines are whole, and the
next one with the first digits of its offset, if there are any. -/
def offsetsLeft : List (TopicPartition × UInt64) → Nat → List (TopicPartition × UInt64)
  | [], _ => []
  | (key, offset) :: entries, k =>
      let length := (offsetLine (key, offset)).text.length
      if length ≤ k then (key, offset) :: offsetsLeft entries (k - length)
      else if length - 1 - k < (decimal offset.toNat).length then
        [(key, UInt64.ofNat (offset.toNat / 10 ^ (length - 1 - k)))]
      else []

/-- What the first `j` bytes behind the name leave of an entry, if they leave three numbers.
The ids that are left are filled up to the counts, and a missing count of the isr is the one of
the entry before. -/
def entryLeft (vars : LoadVars) (e : TopicPartition × PartitionAssignment) (j : Nat) :
    Option (TopicPartition × PartitionAssignment) :=
  match cutSpaced (assignmentNumbers e.1.2 e.2) j with
  | _ :: _ :: count :: ns =>
      let ids := ns.map UInt32.ofNat
      let last := (ids.take count).getLast?.getD vars.id
      let isr :=
        match ids.drop count with
        | [] => List.replicate vars.isrCount.toNat last
        | isrCount :: isr => filledUp isrCount.toNat last isr
      some (e.1, ⟨e.2.leaderId, filledUp count vars.id ids, isr⟩)
  | _ => none

/-- What the first `k` bytes leave of the assignments: the entries whose lines are whole, and
what is left of the next one. -/
def assignmentsLeft : LoadVars → List (TopicPartition × PartitionAssignment) → Nat →
    List (TopicPartition × PartitionAssignment)
  | _, [], _ => []
  | vars, e :: entries, k =>
      let length := (assignmentLine e).text.length
      if length ≤ k then e :: assignmentsLeft (vars.after e.2) entries (k - length)
      else (entryLeft vars e (k - e.1.1.length)).toList

/-- The cut is in the last line, and what it leaves of the entry fills up to it. -/
def LastFilled : LoadVars → List (TopicPartition × PartitionAssignment) → Nat → Prop
  | _, [], _ => False
  | vars, e :: entries, k =>
      let length := (assignmentLine e).text.length
      if length ≤ k then LastFilled (vars.after e.2) entries (k - length)
      else entries = [] ∧ entryLeft vars e (k - e.1.1.length) = some e

instance decidableLastFilled : ∀ vars entries k, Decidable (LastFilled vars entries k)
  | _, [], _ => .isFalse id
  | vars, e :: entries, k =>
      let rest := decidableLastFilled (vars.after e.2) entries
        (k - (assignmentLine e).text.length)
      if h : (assignmentLine e).text.length ≤ k then
        decidable_of_iff (LastFilled (vars.after e.2) entries (k - (assignmentLine e).text.length))
          (by rw [LastFilled, if_pos h])
      else
        decidable_of_iff (entries = [] ∧ entryLeft vars e (k - e.1.1.length) = some e)
          (by rw [LastFilled, if_neg h])

/-- The names that the first `k` bytes reach are words. -/
def OffsetsReadable (new : OffsetMap) (k : Nat) : Prop :=
  ∀ e ∈ reached offsetLine new.toList k, Token e.1.1

/-- The names that the first `k` bytes reach are words, and the lists fit their counts. -/
def AssignmentsReadable (new : Assignments) (k : Nat) : Prop :=
  ∀ e ∈ reached assignmentLine new.toList k, Token e.1.1 ∧ e.2.Counted

instance (new : OffsetMap) (k : Nat) : Decidable (OffsetsReadable new k) :=
  inferInstanceAs (Decidable (∀ e ∈ reached offsetLine new.toList k, Token e.1.1))

instance (new : Assignments) (k : Nat) : Decidable (AssignmentsReadable new k) :=
  inferInstanceAs
    (Decidable (∀ e ∈ reached assignmentLine new.toList k, Token e.1.1 ∧ e.2.Counted))

/-- The condition under which a crash in `persist_offsets` keeps a state. -/
def OffsetsKept (old new : OffsetMap) (k : Nat) : Prop :=
  OffsetsReadable new k ∧
    ((offsetsText new).length ≤ k + 1 ∨ old.toList = offsetsLeft new.toList k)

/-- The condition under which a crash in `persist_assignments` keeps a state. -/
def AssignmentsKept (vars : LoadVars) (old new : Assignments) (k : Nat) : Prop :=
  AssignmentsReadable new k ∧
    (new.persistAssignments.length ≤ k + 1 ∨ LastFilled vars new.toList k ∨
      old.toList = assignmentsLeft vars new.toList k)

instance (old new : OffsetMap) (k : Nat) : Decidable (OffsetsKept old new k) :=
  inferInstanceAs (Decidable (_ ∧ _))

instance (vars : LoadVars) (old new : Assignments) (k : Nat) :
    Decidable (AssignmentsKept vars old new k) :=
  inferInstanceAs (Decidable (_ ∧ _))

variable {k : Nat} {vars : LoadVars}

section Raft

variable {old new : RaftFile}

theorem load_raftState (range : new.InRange) :
    raftState.load (new.text.take k) =
      if k ≤ new.voteStart then ⟨0, -1⟩
      else ⟨new.term, new.votedFor.tdiv (10 ^ (new.text.length - 1 - k) : Nat)⟩ := by
  simp only [raftState, parseRaftState_take range]
  split <;> rfl

/-- A crash in `persist_state` restores a state exactly if the text was written up to its last
newline, or the defaults are loaded and one of the states is the default, or the old state has
the new term and the vote that the cut leaves. -/
theorem raftState_atomic_iff (range : new.InRange) :
    raftState.AtomicAt old new k ↔
      new.text.length ≤ k + 1 ∨ (k ≤ new.voteStart ∧ (old = ⟨0, -1⟩ ∨ new = ⟨0, -1⟩)) ∨
      (new.voteStart < k ∧
        old = ⟨new.term, new.votedFor.tdiv (10 ^ (new.text.length - 1 - k) : Nat)⟩) := by
  have hlength := new.length_text
  have hpos := List.length_pos_of_ne_nil (decimal_ne_nil new.votedFor.natAbs)
  have hload := load_raftState range (k := k)
  change raftState.load (new.text.take k) = old ∨ raftState.load (new.text.take k) = new ↔ _
  rw [hload]
  rcases Nat.lt_or_ge new.voteStart k with hk | hk
  · rw [if_neg (by omega), RaftFile.cut_eq_iff hk]
    constructor
    · rintro (hold | hwhole)
      · exact .inr (.inr ⟨hk, hold.symm⟩)
      · exact .inl hwhole
    · rintro (hwhole | ⟨hle, -⟩ | ⟨-, hold⟩)
      · exact .inr hwhole
      · omega
      · exact .inl hold.symm
  · rw [if_pos hk]
    constructor
    · rintro (hold | hnew)
      · exact .inr (.inl ⟨hk, .inl hold.symm⟩)
      · exact .inr (.inl ⟨hk, .inr hnew.symm⟩)
    · rintro (hwhole | ⟨-, hold | hnew⟩ | ⟨hlt, -⟩)
      · omega
      · exact .inl hold.symm
      · exact .inr hnew.symm
      · omega

end Raft

section Offsets

variable {old new : OffsetMap} {entries : List (TopicPartition × UInt64)}

/-- A cut of two numbers that leaves digits of the second one. -/
theorem cutSpaced_pair {p o j : Nat} (h : (decimal p).length + 2 < j)
    (hj : j ≤ (decimal p).length + 2 + (decimal o).length) :
    cutSpaced [p, o] j = [p, o / 10 ^ ((decimal p).length + 2 + (decimal o).length - j)] := by
  rw [cutSpaced, if_neg (by omega), if_neg (by omega), cutSpaced, if_neg (by omega)]
  split
  · congr 4
    omega
  · rw [show (decimal p).length + 2 + (decimal o).length - j = 0 by omega, Nat.pow_zero,
      Nat.div_one]
    rfl

theorem length_cutSpaced_pair {p o j : Nat} (h : j ≤ (decimal p).length + 2) :
    (cutSpaced [p, o] j).length ≤ 1 := by
  rw [cutSpaced]
  split
  · exact Nat.zero_le _
  · split
    · exact Nat.le_refl _
    · rw [cutSpaced, if_pos (by omega)]
      exact Nat.le_refl _

theorem values_offsets :
    offsetReader.values () (cutLines (entries.map offsetLine) k) = offsetsLeft entries k := by
  induction entries generalizing k with
  | nil => rfl
  | cons e entries ih =>
      obtain ⟨⟨topic, partition⟩, offset⟩ := e
      have hlength : (offsetLine ((topic, partition), offset)).text.length =
          topic.length + ((decimal partition.toNat).length + 2 +
            (decimal offset.toNat).length) + 1 := by
        simp [Line.text, offsetLine, spaced]
        omega
      have hvalue : ∀ n, offsetReader.value () ⟨topic, [partition.toNat, n]⟩ =
          some (((topic, partition), UInt64.ofNat n), ()) := by
        intro n
        simp [offsetReader]
      rw [List.map_cons, cutLines, offsetsLeft]
      split
      · have hwhole := hvalue offset.toNat
        rw [UInt64.ofNat_toNat] at hwhole
        rw [LineReader.values, offsetLine, hwhole]
        exact congrArg _ ih
      · next hk =>
          rw [hlength] at hk ⊢
          change offsetReader.values () [⟨topic, cutSpaced [partition.toNat, offset.toNat]
            (k - topic.length)⟩] = _
          rcases Nat.lt_or_ge ((decimal partition.toNat).length + 2) (k - topic.length) with
            hdigits | hdigits
          · -- the cut is inside of the offset or behind it
            have hcut : (decimal partition.toNat).length + 2 + (decimal offset.toNat).length -
                (k - topic.length) = topic.length + ((decimal partition.toNat).length + 2 +
                  (decimal offset.toNat).length) + 1 - 1 - k := by
              omega
            rw [cutSpaced_pair hdigits (by omega), if_pos (by omega), LineReader.values, hvalue,
              hcut]
            rfl
          · have hshort := length_cutSpaced_pair (o := offset.toNat) hdigits
            rw [if_neg (by omega), LineReader.values]
            rcases hnumbers : cutSpaced [partition.toNat, offset.toNat] (k - topic.length) with
              _ | ⟨p, _ | ⟨o, rest⟩⟩
            · rfl
            · rfl
            · rw [hnumbers] at hshort
              simp at hshort

/-- The whole file, up to its last newline, and no other cut leaves the entries as they are. -/
theorem offsetsLeft_eq_self :
    offsetsLeft entries k = entries ↔ (linesText (entries.map offsetLine)).length ≤ k + 1 := by
  induction entries generalizing k with
  | nil => simp [offsetsLeft, linesText]
  | cons e entries ih =>
      obtain ⟨key, offset⟩ := e
      have htotal : (linesText ((offsetLine (key, offset)) :: entries.map offsetLine)).length =
          (offsetLine (key, offset)).text.length +
            (linesText (entries.map offsetLine)).length := by
        simp [linesText]
      rw [List.map_cons, htotal, offsetsLeft]
      split
      · rw [List.cons_inj_right, ih]
        omega
      · next hk =>
          have hrest : (linesText (entries.map offsetLine)).length = 0 ↔ entries = [] :=
            length_linesText_eq_zero
          split
          · next hcut =>
              have hle : offset.toNat / 10 ^ ((offsetLine (key, offset)).text.length - 1 - k) <
                  2 ^ 64 := (Nat.div_le_self _ _).trans_lt offset.toNat_lt
              have hoffset : UInt64.ofNat (offset.toNat /
                  10 ^ ((offsetLine (key, offset)).text.length - 1 - k)) = offset ↔
                  (offsetLine (key, offset)).text.length - 1 - k = 0 := by
                rw [← div_pow_eq_self_iff hcut, ← UInt64.toNat_inj,
                  UInt64.toNat_ofNat_of_lt' hle]
              rw [List.cons.injEq, Prod.mk.injEq, hoffset]
              constructor
              · rintro ⟨⟨-, hzero⟩, hnone⟩
                rw [hrest.mpr hnone.symm]
                omega
              · intro hwhole
                refine ⟨⟨rfl, by omega⟩, (hrest.mp ?_).symm⟩
                omega
          · next hcut =>
              have hpos := List.length_pos_of_ne_nil (decimal_ne_nil offset.toNat)
              refine iff_of_false (List.cons_ne_nil _ _).symm ?_
              omega

theorem ordered_offsetsLeft :
    (offsetsLeft new.toList k).Pairwise fun e e' => compare e.1 e'.1 = .lt := by
  apply ordered_of_sublist new
  rw [← values_offsets]
  apply offsetReader.keys_cutLines
  intro _ e ns a _ hcut hvalue
  rcases ns with _ | ⟨p, _ | ⟨o, rest⟩⟩
  · cases hvalue
  · cases hvalue
  · obtain ⟨rfl, -⟩ := Prod.mk.inj (Option.some.inj hvalue)
    cases hcut with
    | cons _ => simp [offsetLine]

theorem load_groupOffsets (readable : OffsetsReadable new k) :
    groupOffsets.load ((offsetsText new).take k) =
      Std.ExtTreeMap.ofList (offsetsLeft new.toList k) := by
  rw [← values_offsets, ← parseOffsets_take readable]
  exact foldl_insert_eq_ofList

/-- A map with a name that is no word is not loaded from any file. -/
theorem load_groupOffsets_ne (unreadable : ¬ OffsetsReadable new k) (file : Bytes) :
    groupOffsets.load file ≠ new := by
  intro heq
  apply unreadable
  intro e he
  have hoffset := Std.ExtTreeMap.mem_toList_iff_getElem?_eq_some.mp (mem_of_reached he)
  rw [← heq] at hoffset
  rcases mem_of_getElem?_foldl hoffset with hmem | hempty
  · exact parseOffsets_token hmem
  · simp at hempty

/-- Where the names are words, a crash in `persist_offsets` restores a state exactly if the
text was written up to its last newline, or the old offsets are those that the cut leaves. -/
theorem groupOffsets_atomic_iff (readable : OffsetsReadable new k) :
    groupOffsets.AtomicAt old new k ↔
      (offsetsText new).length ≤ k + 1 ∨ old.toList = offsetsLeft new.toList k := by
  have hload := load_groupOffsets readable
  change groupOffsets.load ((offsetsText new).take k) = old ∨
    groupOffsets.load ((offsetsText new).take k) = new ↔ _
  rw [hload, ofList_eq_iff ordered_offsetsLeft, ofList_eq_iff ordered_offsetsLeft, offsetsText_eq,
    ← offsetsLeft_eq_self, eq_comm (a := new.toList)]
  exact or_comm

end Offsets

section Assignments

variable {old new : Assignments} {entries : List (TopicPartition × PartitionAssignment)}

/-- What is left of a line is what the loop makes of it. -/
theorem assignmentOf_cut (e : TopicPartition × PartitionAssignment) (j : Nat) :
    (Cluster.assignmentOf vars ⟨e.1.1, cutSpaced (assignmentNumbers e.1.2 e.2) j⟩).map Prod.fst =
      entryLeft vars e j := by
  have hcut : Shortened (cutSpaced (assignmentNumbers e.1.2 e.2) j) _ := shortened_cutSpaced
  rw [entryLeft]
  rcases hns : cutSpaced (assignmentNumbers e.1.2 e.2) j with _ | ⟨p, _ | ⟨l, _ | ⟨count, ns⟩⟩⟩
  · rfl
  · rfl
  · rfl
  · rw [hns] at hcut
    -- the first two of three numbers are whole
    obtain ⟨hp, hl⟩ : p = e.1.2.toNat ∧ l = e.2.leaderId.toNat := by
      cases hcut with
      | cons hcut =>
      cases hcut with
      | cons hcut => exact ⟨rfl, rfl⟩
    simp only [Cluster.assignmentOf, takeIds_eq, hp, hl, UInt32.ofNat_toNat, Option.map_some,
      ← List.map_drop]
    cases ns.drop count with
    | nil => simp [takeNumber, filledUp]
    | cons n ns => rfl

theorem values_assignments
    (counted : ∀ e ∈ reached assignmentLine entries k, e.2.Counted) :
    assignmentReader.values vars (cutLines (entries.map assignmentLine) k) =
      assignmentsLeft vars entries k := by
  induction entries generalizing vars k with
  | nil => rfl
  | cons e entries ih =>
      rw [List.map_cons, cutLines, assignmentsLeft]
      split
      · next hk =>
          have hpos := (assignmentLine e).text_pos
          rw [reached, if_neg (by omega)] at counted
          obtain ⟨hcounted, hrest⟩ := List.forall_mem_cons.mp counted
          have hvalue : assignmentReader.value vars (assignmentLine e) = some (e, vars.after e.2) :=
            assignmentOf_line vars hcounted
          rw [LineReader.values, hvalue]
          exact congrArg _ (ih hrest)
      · rw [← assignmentOf_cut, LineReader.values_singleton]
        rfl

theorem ordered_assignmentsLeft :
    (assignmentsLeft vars new.toList k).Pairwise fun e e' => compare e.1 e'.1 = .lt := by
  apply ordered_of_sublist new
  generalize new.toList = entries
  induction entries generalizing vars k with
  | nil => exact List.Sublist.refl _
  | cons e entries ih =>
      rw [assignmentsLeft]
      split
      · exact ih.cons_cons _
      · rw [entryLeft]
        split
        · exact (List.nil_sublist _).cons_cons _
        · exact List.nil_sublist _

/-- The text up to its last newline leaves the entries as they are, and no other cut does but
one in the last line whose missing ids are filled in again. -/
theorem assignmentsLeft_eq_self
    (counted : ∀ e ∈ reached assignmentLine entries k, e.2.Counted) :
    assignmentsLeft vars entries k = entries ↔
      (linesText (entries.map assignmentLine)).length ≤ k + 1 ∨ LastFilled vars entries k := by
  induction entries generalizing vars k with
  | nil => simp [assignmentsLeft, linesText]
  | cons e entries ih =>
      have htotal : (linesText (assignmentLine e :: entries.map assignmentLine)).length =
          (assignmentLine e).text.length +
            (linesText (entries.map assignmentLine)).length := by
        simp [linesText]
      have hpos := (assignmentLine e).text_pos
      rw [List.map_cons, htotal, assignmentsLeft, LastFilled]
      split
      · next hk =>
          rw [reached, if_neg (by omega)] at counted
          rw [List.cons_inj_right, ih (List.forall_mem_cons.mp counted).2]
          apply or_congr_left
          omega
      · next hk =>
          have hself : (entryLeft vars e (k - e.1.1.length)).toList = e :: entries ↔
              entries = [] ∧ entryLeft vars e (k - e.1.1.length) = some e := by
            cases entryLeft vars e (k - e.1.1.length) with
            | none => simp
            | some left => simp [eq_comm, and_comm]
          rw [hself]
          refine ⟨Or.inr, fun h => h.elim (fun hwhole => ⟨?_, ?_⟩) id⟩
          · have hrest : (linesText (entries.map assignmentLine)).length = 0 := by omega
            exact length_linesText_eq_zero.mp hrest
          · -- of this line only the newline is missing
            have htext : (assignmentLine e).text.length =
                e.1.1.length + (spaced (assignmentNumbers e.1.2 e.2)).length + 1 := by
              simp only [Line.text, assignmentLine, List.length_append, List.length_singleton]
            have hnumbers : 0 < (spaced (assignmentNumbers e.1.2 e.2)).length := Nat.succ_pos _
            rw [reached, if_neg (by omega)] at counted
            rw [← assignmentOf_cut, cutSpaced_of_length_le (by omega)]
            exact congrArg _ (assignmentOf_line vars (List.forall_mem_cons.mp counted).1)

theorem load_clusterAssignments (readable : AssignmentsReadable new k) :
    (clusterAssignments vars).load (new.persistAssignments.take k) =
      Std.ExtTreeMap.ofList (assignmentsLeft vars new.toList k) := by
  rw [← values_assignments fun e he => (readable e he).2, ← parseAssignments_take readable]
  exact foldl_insert_eq_ofList

/-- A map with a name that is no word, or with a list that is longer than its count, is not
loaded from any file. -/
theorem load_clusterAssignments_ne (unreadable : ¬ AssignmentsReadable new k) (file : Bytes) :
    (clusterAssignments vars).load file ≠ new := by
  intro heq
  apply unreadable
  intro e he
  have hpa := Std.ExtTreeMap.mem_toList_iff_getElem?_eq_some.mp (mem_of_reached he)
  rw [← heq] at hpa
  rcases mem_of_getElem?_foldl hpa with hmem | hempty
  · exact ⟨parseAssignments_token hmem, loadAssignments_counted e.1 e.2 hpa⟩
  · simp at hempty

/-- Where the lines can be read, a crash in `persist_assignments` restores a state exactly if
the text was written up to its last newline, or what is missing of the last line is filled in
again, or the old assignments are those that the cut leaves. -/
theorem clusterAssignments_atomic_iff (readable : AssignmentsReadable new k) :
    (clusterAssignments vars).AtomicAt old new k ↔
      new.persistAssignments.length ≤ k + 1 ∨ LastFilled vars new.toList k ∨
        old.toList = assignmentsLeft vars new.toList k := by
  have hload : (clusterAssignments vars).load (new.persistAssignments.take k) = _ :=
    load_clusterAssignments readable
  change (clusterAssignments vars).load (new.persistAssignments.take k) = old ∨
    (clusterAssignments vars).load (new.persistAssignments.take k) = new ↔ _
  rw [hload, ofList_eq_iff ordered_assignmentsLeft, ofList_eq_iff ordered_assignmentsLeft,
    persistAssignments_eq, ← or_assoc,
    ← assignmentsLeft_eq_self fun e he => (readable e he).2, eq_comm (a := new.toList)]
  exact or_comm

end Assignments

/-- A crash in the middle of a rewrite keeps the old or the new state if the first bytes of the
new text leave one of them. Only where they reach a line that is not read back from its whole
file either can the old state be met in another way, and the new state is lost there. -/
theorem state_files_atomic (k : Nat) :
    (∀ old new : RaftFile, new.InRange →
      (raftState.AtomicAt old new k ↔
        new.text.length ≤ k + 1 ∨ (k ≤ new.voteStart ∧ (old = ⟨0, -1⟩ ∨ new = ⟨0, -1⟩)) ∨
        (new.voteStart < k ∧
          old = ⟨new.term, new.votedFor.tdiv (10 ^ (new.text.length - 1 - k) : Nat)⟩))) ∧
    (∀ (vars : LoadVars) (old new : Assignments),
      (AssignmentsKept vars old new k → (clusterAssignments vars).AtomicAt old new k) ∧
      ((clusterAssignments vars).AtomicAt old new k → AssignmentsKept vars old new k ∨
        ¬ AssignmentsReadable new k ∧
          (clusterAssignments vars).load (new.persistAssignments.take k) ≠ new)) ∧
    ∀ old new : OffsetMap,
      (OffsetsKept old new k → groupOffsets.AtomicAt old new k) ∧
      (groupOffsets.AtomicAt old new k → OffsetsKept old new k ∨
        ¬ OffsetsReadable new k ∧ groupOffsets.load ((offsetsText new).take k) ≠ new) := by
  refine ⟨fun _ _ => raftState_atomic_iff, fun vars old new => ⟨?_, fun h => ?_⟩,
    fun old new => ⟨?_, fun h => ?_⟩⟩
  · rintro ⟨readable, kept⟩
    exact (clusterAssignments_atomic_iff readable).mpr kept
  · by_cases readable : AssignmentsReadable new k
    · exact Or.inl ⟨readable, (clusterAssignments_atomic_iff readable).mp h⟩
    · exact Or.inr ⟨readable, load_clusterAssignments_ne readable _⟩
  · rintro ⟨readable, kept⟩
    exact (groupOffsets_atomic_iff readable).mpr kept
  · by_cases readable : OffsetsReadable new k
    · exact Or.inl ⟨readable, (groupOffsets_atomic_iff readable).mp h⟩
    · exact Or.inr ⟨readable, load_groupOffsets_ne readable _⟩

def oneAssignment : Assignments := (∅ : Assignments).insert ([116], 0) ⟨2, [1, 2], [2]⟩

def oneCommit (offset : UInt64) : OffsetMap := (∅ : OffsetMap).insert ([116], 0) offset

/-- A vote without its newline, an isr that the last replica fills, and an offset that is cut
to the old one. -/
theorem state_files_atomic_cuts :
    raftState.AtomicAt ⟨5, -1⟩ ⟨5, 12⟩ 4 ∧ (clusterAssignments ⟨0, 0⟩).AtomicAt ∅ oneAssignment 13 ∧
      groupOffsets.AtomicAt (oneCommit 12) (oneCommit 123) 6 := by
  refine ⟨?_, ?_, ?_⟩
  · exact ((state_files_atomic 4).1 ⟨5, -1⟩ ⟨5, 12⟩ (by decide)).mpr (by decide)
  · exact ((state_files_atomic 13).2.1 ⟨0, 0⟩ ∅ oneAssignment).1 (by decide)
  · exact ((state_files_atomic 6).2.2 (oneCommit 12) (oneCommit 123)).1 (by decide)

/-- A crash right after the truncation loses the term and the vote, the assignments and the
offsets; a later one can leave a vote for another broker. -/
theorem state_files_not_atomic :
    (¬ ∀ old new : RaftFile, ∀ k, old.InRange → new.InRange → raftState.AtomicAt old new k) ∧
    (¬ ∀ old new : RaftFile, ∀ k, old.InRange → new.InRange → old.term ≤ new.term →
      old.term ≤ (raftState.load (new.text.take k)).term) ∧
    (¬ ∀ old new : RaftFile, ∀ k, old.InRange → new.InRange →
      (raftState.load (new.text.take k)).term = new.term →
      (raftState.load (new.text.take k)).votedFor ∈ [old.votedFor, new.votedFor]) ∧
    (¬ ∀ vars old new k, (clusterAssignments vars).AtomicAt old new k) ∧
    ¬ ∀ old new k, groupOffsets.AtomicAt old new k := by
  refine ⟨fun claim => ?_, fun claim => ?_, fun claim => ?_, fun claim => ?_, fun claim => ?_⟩
  · exact absurd (claim ⟨5, 2⟩ ⟨6, -1⟩ 0 (by decide) (by decide)) (by decide)
  · exact absurd (claim ⟨5, 2⟩ ⟨6, -1⟩ 0 (by decide) (by decide) (by decide)) (by decide)
  · exact absurd (claim ⟨5, -1⟩ ⟨5, 12⟩ 3 (by decide) (by decide) (by decide)) (by decide)
  · have hload := claim ⟨0, 0⟩ oneAssignment oneAssignment 0
    have hempty : ((clusterAssignments ⟨0, 0⟩).load
        ((clusterAssignments ⟨0, 0⟩).text oneAssignment |>.take 0)).toList.length = 0 := by decide
    rw [or_self_iff.mp hload] at hempty
    exact absurd hempty (by decide)
  · have hload := claim (oneCommit 1) (oneCommit 1) 0
    have hempty : (groupOffsets.load ((groupOffsets.text (oneCommit 1)).take 0)).toList.length =
        0 := by decide
    rw [or_self_iff.mp hload] at hempty
    exact absurd hempty (by decide)

end MiniKafka.Broker
