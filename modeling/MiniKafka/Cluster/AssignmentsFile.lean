import MiniKafka.Cluster.AssignmentInvariant
import MiniKafka.Common.Codec
import MiniKafka.Foundations.NumberLine
import MiniKafka.Foundations.Table

/-!
# The routing table's file

`persist_assignments` writes a line for each partition, with counted lists and no escaping,
and `load_assignments` reads it back word by word. The loop's variables `isrCount` and `id`
live outside of it and have no initial value.
-/

namespace MiniKafka.Cluster

open Common Foundations TextStream

/-- The variables that a turn of the loop may read before it writes them. -/
structure LoadVars where
  isrCount : UInt32
  id : BrokerId
  deriving DecidableEq, Repr

/-- A counted loop of `in >> id`. -/
def readIds : Nat → BrokerId → TextStream → List BrokerId × BrokerId × TextStream
  | 0, id, s => ([], id, s)
  | count + 1, id, s =>
      let (id, s) := s.number getU32 id
      let (ids, last, s) := readIds count id s
      (id :: ids, last, s)

/-- One turn of the loop that loads assignments. -/
def readAssignment (vars : LoadVars) (s : TextStream) :
    Option ((TopicPartition × PartitionAssignment) × LoadVars × TextStream) :=
  let (topic, s) := s.word []
  let (partitionId, s) := s.number getU32 0
  let (leaderId, s) := s.number getU32 0
  let (replicaCount, s) := s.number getU32 0
  if s.fail then none
  else
    let (replicas, id, s) := readIds replicaCount.toNat vars.id s
    let (isrCount, s) := s.number getU32 vars.isrCount
    let (isr, id, s) := readIds isrCount.toNat id s
    some (((topic, partitionId), ⟨leaderId, replicas, isr⟩), ⟨isrCount, id⟩, s)

/-- The entries that the loop reads from a file. -/
def parseAssignments (vars : LoadVars) (file : Bytes) :
    List (TopicPartition × PartitionAssignment) :=
  readEntries readAssignment (file.length + 1) vars ⟨file, false, false⟩

namespace Assignments

def loadAssignments (vars : LoadVars) : Option Bytes → Assignments
  | none => ∅
  | some file => (parseAssignments vars file).foldl (fun a e => a.insert e.1 e.2) ∅

/-- What `persist_assignments` writes. -/
def persistAssignments (a : Assignments) : Bytes :=
  a.toList.flatMap fun (key, pa) =>
    key.1 ++ [32] ++ decimal key.2.toNat ++ [32] ++ decimal pa.leaderId.toNat ++ [32] ++
      decimal pa.replicas.length ++ (pa.replicas.flatMap fun id => [32] ++ decimal id.toNat) ++
      [32] ++ decimal pa.isr.length ++ (pa.isr.flatMap fun id => [32] ++ decimal id.toNat) ++
      [10]

end Assignments

section Lines

/-- The numbers of an entry, with the counts before the lists. -/
def assignmentNumbers (partitionId : UInt32) (pa : PartitionAssignment) : List Nat :=
  partitionId.toNat :: pa.leaderId.toNat :: pa.replicas.length ::
    (pa.replicas.map (·.toNat) ++ pa.isr.length :: pa.isr.map (·.toNat))

def assignmentLine (e : TopicPartition × PartitionAssignment) : Line :=
  ⟨e.1.1, assignmentNumbers e.1.2 e.2⟩

theorem persistAssignments_eq (a : Assignments) :
    a.persistAssignments = linesText (a.toList.map assignmentLine) := by
  rw [Assignments.persistAssignments, linesText, List.flatMap_map]
  congr 1
  funext e
  simp [Line.text, assignmentLine, assignmentNumbers, spaced, List.flatMap_map]

/-- The next of the numbers that are left, or the old value of the variable. -/
def takeNumber (old : UInt32) : List Nat → UInt32 × List Nat
  | [] => (old, [])
  | n :: ns => (UInt32.ofNat n, ns)

def takeIds : Nat → BrokerId → List Nat → List BrokerId × BrokerId × List Nat
  | 0, id, ns => ([], id, ns)
  | count + 1, id, ns =>
      let (id, ns) := takeNumber id ns
      let (ids, last, ns) := takeIds count id ns
      (id :: ids, last, ns)

/-- What the loop makes of a line. Where numbers are missing the variables keep their
values: a list is filled up with the last id, and the count of the isr is the one before. -/
def assignmentOf (vars : LoadVars) (l : Line) :
    Option ((TopicPartition × PartitionAssignment) × LoadVars) :=
  match l.numbers with
  | partitionId :: leaderId :: replicaCount :: ns =>
      let (replicas, id, ns) := takeIds replicaCount vars.id ns
      let (isrCount, ns) := takeNumber vars.isrCount ns
      let (isr, id, _) := takeIds isrCount.toNat id ns
      some (((l.word, UInt32.ofNat partitionId), ⟨UInt32.ofNat leaderId, replicas, isr⟩),
        ⟨isrCount, id⟩)
  | _ => none

/-- `count` ids of which some are there: the last one stands for those that are missing. -/
def filledUp (count : Nat) (last : BrokerId) (ids : List BrokerId) : List BrokerId :=
  ids.take count ++ List.replicate (count - ids.length) (ids.getLast?.getD last)

/-- The variables behind the line of an entry. -/
def LoadVars.after (vars : LoadVars) (pa : PartitionAssignment) : LoadVars :=
  ⟨UInt32.ofNat pa.isr.length, (pa.replicas ++ pa.isr).getLast?.getD vars.id⟩

variable {ids : List BrokerId} {id : BrokerId} {ns : List Nat} {tail : List UInt8}
  {s : TextStream} {count : Nat}

/-- The loop over the numbers takes the first ones, and leaves the last id it took. -/
theorem takeIds_eq (count : Nat) (id : BrokerId) (ns : List Nat) :
    takeIds count id ns = (filledUp count id (ns.map UInt32.ofNat),
      ((ns.map UInt32.ofNat).take count).getLast?.getD id, ns.drop count) := by
  induction count generalizing id ns with
  | zero => simp [takeIds, filledUp]
  | succ count ih =>
      cases ns with
      | nil => simp [takeIds, takeNumber, ih, filledUp, List.replicate_succ]
      | cons n ns => simp [takeIds, takeNumber, ih, filledUp, List.getLast?_cons]

/-- A list that is all there is read without its neighbours. -/
theorem readIds_append (ends : EndsAt isDigit tail) :
    readIds ids.length id (left (spaced (ids.map (·.toNat) ++ ns) ++ tail) false) =
      (ids, (takeIds ids.length id (ids.map (·.toNat) ++ ns)).2.1,
        left (spaced ns ++ tail) false) := by
  induction ids generalizing id with
  | nil => rfl
  | cons first ids ih =>
      simp only [List.length_cons, List.map_cons, List.cons_append, takeIds, takeNumber, readIds,
        number_spaced ends, getU32_of_lt first.toNat_lt, UInt32.ofNat_toNat, ih]

/-- The stream holds these numbers, or its reads cannot begin any more. -/
def Holds (tail : List UInt8) (ns : List Nat) (s : TextStream) : Prop :=
  s = left (spaced ns ++ tail) false ∨ ns = [] ∧ s.sentry.fail = true

theorem Holds.spent (h : Holds tail [] s) (blank : Blank tail) : s.sentry.fail = true := by
  rcases h with h | ⟨-, h⟩
  · rw [h]
    exact sentry_blank blank
  · exact h

/-- A read takes the next number, and without one it leaves the variable. -/
theorem Holds.number (h : Holds tail ns s) (blank : Blank tail) (all : ∀ n ∈ ns, n < 2 ^ 32)
    (old : UInt32) :
    (s.number getU32 old).1 = (takeNumber old ns).1 ∧
      Holds tail (takeNumber old ns).2 (s.number getU32 old).2 := by
  cases ns with
  | nil =>
      have hspent := h.spent blank
      rw [number_of_spent hspent, takeNumber]
      refine ⟨rfl, .inr ⟨rfl, ?_⟩⟩
      rw [sentry_of_fail hspent]
      exact hspent
  | cons n ns =>
      rcases h with h | ⟨h, -⟩
      · rw [h, number_spaced (endsAt_digit_of_blank blank), getU32_of_lt (all n (by simp))]
        exact ⟨rfl, .inl rfl⟩
      · cases h

theorem mem_takeNumber {old : UInt32} {n : Nat} (h : n ∈ (takeNumber old ns).2) : n ∈ ns := by
  cases ns with
  | nil => exact h
  | cons m ns => exact List.mem_cons_of_mem _ h

theorem mem_takeIds {n : Nat} (h : n ∈ (takeIds count id ns).2.2) : n ∈ ns := by
  induction count generalizing id ns with
  | zero => exact h
  | succ count ih => exact mem_takeNumber (ih h)

/-- Where numbers are missing, the loop over the stream does what the loop over the numbers
does. -/
theorem Holds.readIds (h : Holds tail ns s) (blank : Blank tail) (all : ∀ n ∈ ns, n < 2 ^ 32)
    (count : Nat) (id : BrokerId) :
    (Cluster.readIds count id s).1 = (takeIds count id ns).1 ∧
      (Cluster.readIds count id s).2.1 = (takeIds count id ns).2.1 ∧
      Holds tail (takeIds count id ns).2.2 (Cluster.readIds count id s).2.2 := by
  induction count generalizing id ns s with
  | zero => exact ⟨rfl, rfl, h⟩
  | succ count ih =>
      obtain ⟨hfirst, hnext⟩ := h.number blank all id
      obtain ⟨hids, hlast, hrest⟩ := ih hnext (fun n hn => all n (mem_takeNumber hn))
        (s.number getU32 id).1
      rw [hfirst] at hids hlast hrest
      simp only [Cluster.readIds, takeIds]
      rw [hfirst]
      exact ⟨congrArg _ hids, hlast, hrest⟩

theorem takeIds_nil : (takeIds count id []).2.2 = [] := by
  induction count with
  | zero => rfl
  | succ count ih => exact ih

/-- A list that was cut leaves nothing for what follows it. -/
theorem takeIds_shortened {whole : List Nat} (id : BrokerId)
    (h : Shortened ns (ids.map (·.toNat) ++ whole)) :
    Shortened (takeIds ids.length id ns).2.2 whole := by
  induction ids generalizing id ns with
  | nil => exact h
  | cons first ids ih =>
      cases h with
      | nil =>
          rw [takeIds_nil]
          exact .nil
      | last _ =>
          simp only [List.length_cons, takeIds, takeNumber, takeIds_nil]
          exact .nil
      | cons rest => exact ih _ rest

/-- Without a number after the word the turn fails. -/
theorem readAssignment_spent {vars : LoadVars} (h : (s.word []).2.sentry.fail = true) :
    readAssignment vars s = none := by
  simp only [readAssignment, number_of_spent h, number_of_fail h, h, if_true]

/-- Lists whose lengths fit the counts of the protocol. -/
structure PartitionAssignment.Counted (pa : PartitionAssignment) : Prop where
  replicas : pa.replicas.length < 2 ^ 32
  isr : pa.isr.length < 2 ^ 32

theorem lt_of_mem_assignmentNumbers {partitionId : UInt32} {pa : PartitionAssignment}
    (counted : pa.Counted) {n : Nat} (h : n ∈ assignmentNumbers partitionId pa) : n < 2 ^ 32 := by
  simp only [assignmentNumbers, List.mem_cons, List.mem_append, List.mem_map] at h
  rcases h with rfl | rfl | rfl | ⟨id, -, rfl⟩ | rfl | ⟨id, -, rfl⟩
  · exact partitionId.toNat_lt
  · exact pa.leaderId.toNat_lt
  · exact counted.replicas
  · exact id.toNat_lt
  · exact counted.isr
  · exact id.toNat_lt

/-- The numbers that a turn leaves after the first three. -/
def takeRest (vars : LoadVars) (replicaCount : Nat) (ns : List Nat) : List Nat :=
  let (_, id, ns) := takeIds replicaCount vars.id ns
  let (isrCount, ns) := takeNumber vars.isrCount ns
  (takeIds isrCount.toNat id ns).2.2

/-- A turn on a stream that holds at least the first three numbers. -/
theorem readAssignment_holds (vars : LoadVars) {lead word : List UInt8} {p l c : Nat}
    (hlead : Blank lead) (token : Token word) (blank : Blank tail)
    (all : ∀ n ∈ p :: l :: c :: ns, n < 2 ^ 32) :
    ∃ a vars' s', assignmentOf vars ⟨word, p :: l :: c :: ns⟩ = some (a, vars') ∧
      readAssignment vars (left (lead ++ (word ++ spaced (p :: l :: c :: ns) ++ tail)) false) =
        some (a, vars', s') ∧ Holds tail (takeRest vars c ns) s' := by
  have hends := endsAt_digit_of_blank blank
  have hc : (UInt32.ofNat c).toNat = c := UInt32.toNat_ofNat_of_lt' (all c (by simp))
  have hns : ∀ n ∈ ns, n < 2 ^ 32 := fun n hn => all n (by simp [hn])
  have hstart : Holds tail ns (left (spaced ns ++ tail) false) := .inl rfl
  -- the replicas, the count of the isr and the isr, one after the other
  obtain ⟨hreplicas, hid, hafter⟩ := hstart.readIds blank hns c vars.id
  have hcount := hafter.number blank (fun n hn => hns n (mem_takeIds hn)) vars.isrCount
  obtain ⟨hisr, hlast, hrest⟩ := hcount.2.readIds blank
    (fun n hn => hns n (mem_takeIds (mem_takeNumber hn)))
    (takeNumber vars.isrCount (takeIds c vars.id ns).2.2).1.toNat (takeIds c vars.id ns).2.1
  refine ⟨_, _, _, rfl, ?_, hrest⟩
  simp only [readAssignment, word_spaced hlead token.1 token.2 (endsAt_word_of_blank blank),
    number_spaced hends, getU32_of_lt (all p (by simp)), getU32_of_lt (all l (by simp)),
    getU32_of_lt (all c (by simp)), hc]
  simp only [left, Bool.false_eq_true, if_false]
  simp only [left] at hreplicas hid hcount hisr hlast
  rw [hreplicas, hid, hcount.1, hisr, hlast]
  rfl

/-- A turn on a line that was cut takes all of its numbers. -/
theorem takeRest_shortened {vars : LoadVars} {pa : PartitionAssignment} {partitionId : UInt32}
    (counted : pa.Counted) {p l c : Nat}
    (h : Shortened (p :: l :: c :: ns) (assignmentNumbers partitionId pa)) :
    takeRest vars c ns = [] := by
  have hnone : ∀ {ns}, Shortened ns [] → ns = [] := by
    intro ns h
    cases h
    rfl
  cases h with
  | cons h =>
  cases h with
  | cons h =>
  cases h with
  | last _ => simp only [takeRest, takeIds_nil, takeNumber]
  | cons h =>
      have hisr := takeIds_shortened vars.id h
      simp only [takeRest]
      cases hns : (takeIds pa.replicas.length vars.id ns).2.2 with
      | nil => simp only [takeNumber, takeIds_nil]
      | cons m rest =>
          rw [hns] at hisr
          simp only [takeNumber]
          cases hisr with
          | last _ => exact takeIds_nil
          | cons hrest =>
              rw [UInt32.toNat_ofNat_of_lt' counted.isr]
              apply hnone
              apply takeIds_shortened _
              rw [List.append_nil]
              exact hrest

theorem ofNat_comp_toNat :
    (UInt32.ofNat ∘ fun id : BrokerId => id.toNat) = fun id => id := by
  funext id
  exact UInt32.ofNat_toNat

/-- A whole line is worth its entry. -/
theorem assignmentOf_line (vars : LoadVars) {e : TopicPartition × PartitionAssignment}
    (counted : e.2.Counted) : assignmentOf vars (assignmentLine e) = some (e, vars.after e.2) := by
  have hcount := UInt32.toNat_ofNat_of_lt' counted.isr
  simp [assignmentOf, assignmentLine, assignmentNumbers, takeIds_eq, takeNumber, filledUp,
    ofNat_comp_toNat, hcount, LoadVars.after]

/-- A turn on a whole line leaves the stream at its end. -/
theorem readAssignment_whole (vars : LoadVars) (tail : List UInt8) {lead : List UInt8}
    {e : TopicPartition × PartitionAssignment} (hlead : Blank lead) (token : Token e.1.1)
    (counted : e.2.Counted) :
    readAssignment vars (left (lead ++ ((assignmentLine e).word ++
      spaced (assignmentLine e).numbers ++ 10 :: tail)) false) =
        some (e, vars.after e.2, left (10 :: tail) false) := by
  have hword : EndsAt (!isSpace ·) (10 :: tail) := endsAt_cons (by decide)
  have hends : EndsAt isDigit (10 :: tail) := endsAt_cons (by decide)
  have hisr : ∀ last, readIds e.2.isr.length last
      (left (spaced (e.2.isr.map (·.toNat) ++ []) ++ 10 :: tail) false) = _ :=
    fun _ => readIds_append hends
  simp only [List.append_nil] at hisr
  simp only [readAssignment, assignmentLine, assignmentNumbers,
    word_spaced hlead token.1 token.2 hword, number_spaced hends, getU32_of_lt counted.replicas,
    getU32_of_lt counted.isr, getU32_of_lt e.1.2.toNat_lt, getU32_of_lt e.2.leaderId.toNat_lt,
    UInt32.toNat_ofNat_of_lt' counted.replicas, UInt32.toNat_ofNat_of_lt' counted.isr,
    readIds_append hends, hisr, UInt32.ofNat_toNat]
  -- the last id that was read is that of the isr, or of the replicas
  simp [takeIds_eq, ofNat_comp_toNat, LoadVars.after, left]

end Lines

/-- The loop that loads assignments, as a reader of lines. -/
def assignmentReader : LineReader LoadVars (TopicPartition × PartitionAssignment) where
  read := readAssignment
  value := assignmentOf
  Whole l := ∃ e : TopicPartition × PartitionAssignment, l = assignmentLine e ∧ Token e.1.1 ∧
    e.2.Counted
  value_word _ _ := rfl
  read_whole := by
    rintro vars l lead tail ⟨e, rfl, token, counted⟩ hlead
    exact ⟨e, vars.after e.2, assignmentOf_line vars counted,
      readAssignment_whole vars tail hlead token counted⟩
  read_spent h := readAssignment_spent (word_spent h)
  read_word := by
    rintro _ l lead word tail ⟨e, rfl, token, -⟩ hlead htail hsub
    exact readAssignment_spent
      (word_blank_spent hlead (fun b hb => token.2 b (hsub b hb)) htail)
  read_cut := by
    rintro vars l lead ns tail ⟨e, rfl, token, counted⟩ hlead htail hcut hns
    have all := hcut.lt fun n hn => lt_of_mem_assignmentNumbers counted hn
    have hword : (left (lead ++ (e.1.1 ++ spaced ns ++ tail)) false).word [] = _ :=
      word_spaced hlead token.1 token.2 (endsAt_word_of_blank htail)
    have hends := endsAt_digit_of_blank htail
    have hspent := sentry_blank htail
    match ns, hns with
    | [p], _ =>
        refine .inl ⟨rfl, ?_⟩
        simp only [readAssignment, assignmentLine, hword, number_spaced hends,
          getU32_of_lt (all p (by simp)), spaced_nil, List.nil_append, number_of_spent hspent,
          number_of_fail hspent, hspent, if_true]
    | [p, l], _ =>
        refine .inl ⟨rfl, ?_⟩
        simp only [readAssignment, assignmentLine, hword, number_spaced hends,
          getU32_of_lt (all p (by simp)), getU32_of_lt (all l (by simp)), spaced_nil,
          List.nil_append, number_of_spent hspent, hspent, if_true]
    | p :: l :: c :: ns, _ =>
        obtain ⟨a, vars', s, hvalue, hread, hholds⟩ := readAssignment_holds vars hlead token htail
          all
        rw [takeRest_shortened counted hcut] at hholds
        exact .inr ⟨a, vars', s, hvalue, hholds.spent htail, hread⟩

end MiniKafka.Cluster
