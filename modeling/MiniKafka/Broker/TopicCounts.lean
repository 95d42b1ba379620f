import MiniKafka.Broker.StandaloneLogs

/-!
# The partition counts of a broker without peers

The count of a topic is kept twice: as a number in its file `.partitions`, written once by the
first CreateTopic, and in `topics_`, filled from the file or with the default. Clients send
their records by this count, so what matters is that Metadata goes on answering the same one.
-/

namespace MiniKafka.Broker

open Cluster Common Foundations Protocol

variable {γ : Type} {cfg : BrokerConfig} {groups : Service γ} {restart : γ → γ}
  {s t u : Standalone γ} {topic : Topic}

/-- The number that a CreateTopic writes, and how many of its digits. -/
abbrev Written := UInt32 × Nat

/-- What an event would write to the file of a topic. -/
def StandaloneEvent.creates (topic : Topic) : StandaloneEvent → Option Written
  | .call .createTopic req =>
      if req.topic = topic then
        some (req.numPartitions, (decimal req.numPartitions.toNat).length)
      else none
  | .tornCreateTopic req bytes =>
      if req.topic = topic then some (req.numPartitions, bytes) else none
  | _ => none

/-- The first CreateTopic of a topic; the others find its file. -/
def firstCreate (topic : Topic) (visits : List (Standalone γ × StandaloneEvent)) :
    Option Written :=
  visits.findSome? fun v => v.2.creates topic

def Written.file (w : Written) : Bytes := (decimal w.1.toNat).take w.2

/-- The counts that Metadata may answer: 1 for a topic that nobody created, and otherwise the
digits that were written, where a 0 counts as 1 from the first restart on. -/
def CountIs (first : Option Written) (count : UInt32) : Prop :=
  match first with
  | none => count = 1
  | some (n, digits) =>
      count.toNat = max 1 (n.toNat / 10 ^ ((decimal n.toNat).length - digits)) ∨
        n = 0 ∧ count = 0

theorem firstCreate_snoc (topic : Topic) (visits : List (Standalone γ × StandaloneEvent))
    (v : Standalone γ × StandaloneEvent) :
    firstCreate topic (visits ++ [v]) =
      (firstCreate topic visits).or (v.2.creates topic) := by
  rw [firstCreate, List.findSome?_append]
  simp [firstCreate]

/-- What is read back from a number whose first digits were written. -/
theorem readCount_file (w : Written) :
    (Standalone.readCount w.file).toNat =
      max 1 (w.1.toNat / 10 ^ ((decimal w.1.toNat).length - w.2)) := by
  obtain ⟨n, digits⟩ := w
  change (Standalone.readCount ((decimal n.toNat).take digits)).toNat = _
  have hvalue : value ((decimal n.toNat).take digits) =
      n.toNat / 10 ^ ((decimal n.toNat).length - digits) := by
    rcases Nat.le_total digits (decimal n.toNat).length with hle | hge
    · exact value_decimal_take hle
    · rw [List.take_of_length_le hge, value_decimal, Nat.sub_eq_zero_of_le hge, Nat.pow_zero,
        Nat.div_one]
  rw [← hvalue, Standalone.readCount, TextStream.number_opened]
  by_cases hnil : (decimal n.toNat).take digits = []
  · rw [hnil]
    rfl
  · have hdigits : ∀ b ∈ (decimal n.toNat).take digits, isDigit b = true := fun b hb =>
      isDigit_of_mem_decimal (List.mem_of_mem_take hb)
    have hread : (TextStream.left ([] ++ (decimal n.toNat).take digits ++ []) false).number
        Foundations.getU32 1 = _ :=
      TextStream.number_left (fun b hb => by cases hb) hnil hdigits (fun b hb => by cases hb)
    have hlt : value ((decimal n.toNat).take digits) < 2 ^ 32 := by
      rw [hvalue]
      exact (Nat.div_le_self _ _).trans_lt n.toNat_lt
    rw [List.nil_append, List.append_nil] at hread
    rw [hread, Foundations.getU32, if_pos hlt]
    generalize value ((decimal n.toNat).take digits) = v at hlt
    have hv : (UInt32.ofNat v).toNat = v := UInt32.toNat_ofNat_of_lt' hlt
    by_cases hzero : v = 0
    · subst hzero
      rfl
    · have hne : UInt32.ofNat v ≠ 0 := by
        intro heq
        rw [heq] at hv
        exact hzero hv.symm
      simp only [Bool.false_eq_true, if_false, if_neg hne, hv]
      omega

/-- The files are those of the first creations, and no other count is in `topics_`. -/
structure Counted (visits : List (Standalone γ × StandaloneEvent)) (s : Standalone γ) :
    Prop where
  files : ∀ topic, s.partitionsFiles topic = (firstCreate topic visits).map Written.file
  cached : ∀ topic count, s.topics topic = some count → CountIs (firstCreate topic visits) count

section Step

variable {visits : List (Standalone γ × StandaloneEvent)} {e : StandaloneEvent}

/-- What `partition_count_for` finds, in the cache or in the file. -/
theorem Counted.count (h : Counted visits s) (topic : Topic) :
    CountIs (firstCreate topic visits) (s.partitionCountFor topic).1 := by
  unfold Standalone.partitionCountFor
  split
  · next count hcached => exact h.cached topic count hcached
  · rw [h.files topic]
    cases firstCreate topic visits with
    | none => rfl
    | some w => exact Or.inl (readCount_file w)

/-- An event that creates nothing keeps the files, and may forget what it knows. -/
theorem Counted.keep (h : Counted visits s) (hfiles : u.partitionsFiles = s.partitionsFiles)
    (htopics : ∀ topic count, u.topics topic = some count →
      CountIs (firstCreate topic visits) count)
    (hcreates : ∀ topic, e.creates topic = none) : Counted (visits ++ [(s, e)]) u := by
  have hfirst : ∀ topic, firstCreate topic (visits ++ [(s, e)]) = firstCreate topic visits := by
    intro topic
    rw [firstCreate_snoc, hcreates, Option.or_none]
  refine ⟨fun topic => ?_, fun topic count hcount => ?_⟩
  · rw [hfiles, hfirst, h.files]
  · rw [hfirst]
    exact htopics topic count hcount

/-- A creation that finds the file of its topic changes nothing. -/
theorem Counted.again (h : Counted visits s) {w : Written}
    (hfile : (s.partitionsFiles topic).isSome)
    (hcreates : ∀ other, e.creates other = if topic = other then some w else none) :
    Counted (visits ++ [(s, e)]) s := by
  have hfirst : ∀ other, firstCreate other (visits ++ [(s, e)]) = firstCreate other visits := by
    intro other
    rw [firstCreate_snoc, hcreates]
    split
    · next heq =>
        subst heq
        rw [h.files, Option.isSome_map] at hfile
        exact Option.or_eq_left_of_isSome hfile
    · rw [Option.or_none]
  refine ⟨fun other => ?_, fun other count hcount => ?_⟩
  · rw [hfirst, h.files]
  · rw [hfirst]
    exact h.cached other count hcount

/-- The first creation decides about its topic. -/
theorem Counted.first (h : Counted visits s) {w : Written}
    (hfile : s.partitionsFiles topic = none)
    (hcreates : ∀ other, e.creates other = if topic = other then some w else none)
    (hfiles : u.partitionsFiles = (s.setPartitionsFile topic w.file).partitionsFiles)
    (hnew : ∀ count, u.topics topic = some count → CountIs (some w) count)
    (htopics : ∀ other, other ≠ topic → ∀ count, u.topics other = some count →
      s.topics other = some count) :
    Counted (visits ++ [(s, e)]) u := by
  have hnone : firstCreate topic visits = none := by
    rwa [h.files, Option.map_eq_none_iff] at hfile
  have hsame : firstCreate topic (visits ++ [(s, e)]) = some w := by
    rw [firstCreate_snoc, hcreates, hnone, if_pos rfl]
    rfl
  have hother : ∀ other, other ≠ topic →
      firstCreate other (visits ++ [(s, e)]) = firstCreate other visits := by
    intro other hne
    rw [firstCreate_snoc, hcreates, if_neg hne.symm, Option.or_none]
  refine ⟨fun other => ?_, fun other count hcount => ?_⟩
  · rw [hfiles]
    by_cases heq : other = topic
    · subst heq
      rw [hsame]
      exact Function.update_self _ _ _
    · rw [hother other heq, ← h.files]
      exact Function.update_of_ne heq _ _
  · by_cases heq : other = topic
    · subst heq
      rw [hsame]
      exact hnew count hcount
    · rw [hother other heq]
      exact h.cached other count (htopics other heq count hcount)

/-- A number that is written whole is answered as it is. -/
theorem countIs_whole (n : UInt32) : CountIs (some (n, (decimal n.toNat).length)) n := by
  by_cases hzero : n = 0
  · exact Or.inr ⟨hzero, hzero⟩
  · refine Or.inl ?_
    have hpos : n.toNat ≠ 0 := fun h => hzero (UInt32.toNat_inj.mp h)
    rw [Nat.sub_self, Nat.pow_zero, Nat.div_one]
    omega

theorem Counted.metadata (h : Counted visits s) (req : MetadataRequest) :
    Counted (visits ++ [(s, .call .metadata req)]) (s.partitionCountFor req.topic).2 := by
  have hcount := h.count req.topic
  unfold Standalone.partitionCountFor at hcount ⊢
  cases hcached : s.topics req.topic with
  | some count => exact h.keep rfl h.cached fun _ => rfl
  | none =>
      simp only [hcached] at hcount ⊢
      refine h.keep rfl ?_ fun _ => rfl
      intro topic count htopic
      by_cases heq : topic = req.topic
      · subst heq
        simp only [Function.update_self, Option.some.injEq] at htopic
        rwa [← htopic]
      · simp only [Function.update_of_ne heq] at htopic
        exact h.cached topic count htopic

theorem Counted.createTopic (h : Counted visits s) (req : CreateTopicRequest) :
    Counted (visits ++ [(s, .call .createTopic req)]) (s.handleCreateTopic req).2 := by
  have hcreates : ∀ other, (StandaloneEvent.call .createTopic req).creates other =
      if req.topic = other then
        some (req.numPartitions, (decimal req.numPartitions.toNat).length)
      else none := fun _ => rfl
  unfold Standalone.handleCreateTopic
  dsimp only
  split
  · next hfile => exact h.again hfile hcreates
  · next hfile =>
      rw [Option.not_isSome_iff_eq_none] at hfile
      refine h.first hfile hcreates ?_ ?_ ?_
      · rw [Written.file, List.take_length]
      · intro count hcount
        simp only [Function.update_self, Option.some.injEq] at hcount
        subst hcount
        exact countIs_whole req.numPartitions
      · intro other hne count hcount
        simp only [Function.update_of_ne hne] at hcount
        exact hcount

/-- Opening a partition leaves the topics alone. -/
theorem getOrCreatePartition_topics (s : Standalone γ) (key : TopicPartition) :
    (s.getOrCreatePartition key).2.partitionsFiles = s.partitionsFiles ∧
      (s.getOrCreatePartition key).2.topics = s.topics := by
  unfold Standalone.getOrCreatePartition
  split <;> exact ⟨rfl, rfl⟩

theorem Counted.step (h : Counted visits s)
    (hstep : standaloneStep cfg groups restart s e = some u) :
    Counted (visits ++ [(s, e)]) u := by
  cases e with
  | call t m =>
      obtain rfl := Option.some.inj hstep
      cases t with
      | metadata => exact h.metadata m
      | createTopic => exact h.createTopic m
      | produce =>
          obtain ⟨hfiles, htopics⟩ := getOrCreatePartition_topics s (m.topic, m.partitionId)
          refine h.keep hfiles (fun topic count hcount => ?_) fun _ => rfl
          exact h.cached topic count (htopics ▸ hcount)
      | fetch | replicate =>
          obtain ⟨hfiles, htopics⟩ := getOrCreatePartition_topics s (m.topic, m.partitionId)
          refine h.keep hfiles (fun topic count hcount => ?_) fun _ => rfl
          exact h.cached topic count (htopics ▸ hcount)
      | findCoordinator | joinGroup | syncGroup | heartbeat | leaveGroup | commitOffset
      | fetchOffset | requestVote | controllerHeartbeat | brokerHeartbeat | leaderAndISR
      | isrUpdate => exact h.keep rfl h.cached fun _ => rfl
  | readFetch req | readReplica req =>
      obtain rfl := Option.some.inj hstep
      obtain ⟨hfiles, htopics⟩ := getOrCreatePartition_topics s (req.topic, req.partitionId)
      refine h.keep hfiles (fun topic count hcount => ?_) fun _ => rfl
      exact h.cached topic count (htopics ▸ hcount)
  | answerFetch read =>
      obtain ⟨answered, hanswer, rfl⟩ := Option.map_eq_some_iff.mp hstep
      obtain ⟨hfiles, htopics, -⟩ := answerFetch_keeps hanswer
      refine h.keep hfiles (fun topic count hcount => ?_) fun _ => rfl
      exact h.cached topic count (htopics ▸ hcount)
  | tornProduce req cut =>
      obtain rfl := Option.some.inj hstep
      obtain ⟨hfiles, htopics⟩ := getOrCreatePartition_topics s (req.topic, req.partitionId)
      refine h.keep hfiles (fun topic count hcount => ?_) fun _ => rfl
      exact h.cached topic count (htopics ▸ hcount)
  | tornRecover key cut =>
      simp only [standaloneStep, Standalone.tornRecover] at hstep
      split at hstep
      · cases hstep
      · obtain rfl := Option.some.inj hstep
        exact h.keep rfl h.cached fun _ => rfl
  | tornCreateTopic req bytes =>
      simp only [standaloneStep, Standalone.tornCreateTopic] at hstep
      split at hstep
      · cases hstep
      · next hfile =>
          obtain rfl := Option.some.inj hstep
          rw [Option.not_isSome_iff_eq_none] at hfile
          exact h.first (w := (req.numPartitions, bytes)) hfile (fun _ => rfl) rfl
            (fun _ hcached => by cases hcached) fun _ _ _ hcached => by cases hcached
  | crash =>
      obtain rfl := Option.some.inj hstep
      exact h.keep rfl (fun _ _ hcached => by cases hcached) fun _ => rfl

end Step

end MiniKafka.Broker
