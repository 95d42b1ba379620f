import MiniKafka.Broker.StandaloneLogs
import MiniKafka.Broker.StateFiles
import MiniKafka.Group.ForwardCommits
import MiniKafka.Group.OffsetStore

/-!
# The calls about offsets

The two handlers of a group coordinator that commit and answer offsets, and what can be said of
all the offsets a group has, in memory and in its file, wherever the process ends: a cut off
file has lost offsets and digits of one, but it has none that is greater than what was written.
-/

namespace MiniKafka.Broker

open Cluster Common Foundations MiniKafka.Group Protocol TextStream

/-- The coordinator of a broker: `membership` are its calls that have nothing to do with
offsets, on their own part of the state. -/
def coordinator {μ : Type} (membership : Service μ) : Service (μ × OffsetStore)
  | .commitOffset, req, (m, s) =>
      (.ok (⟨.none⟩ : ErrorResponse), (m, (s.step (.commitOffset req)).getD s))
  | .fetchOffset, req, (m, s) =>
      let offset := s.fetched req.groupId (req.topic, req.partitionId)
      (.ok (⟨.none, Int64.ofInt offset⟩ : FetchOffsetResponse),
        (m, (s.step (.fetchOffset req.groupId (req.topic, req.partitionId))).getD s))
  | t, req, (m, s) =>
      let (answer, m) := membership t req m
      (answer, (m, s))

/-- The next process has nothing in memory. -/
def coordinatorRestart {μ : Type} (restart : μ → μ) : μ × OffsetStore → μ × OffsetStore
  | (m, s) => (restart m, (s.step .restart).getD s)

/-- A process that ends while it writes the offsets of a commit leaves the first bytes of their
text. -/
def tornCommit (s : OffsetStore) (request : CommitOffsetRequest) (bytes : Nat) : OffsetStore :=
  let file := offsetsFile request.groupId
  let committed := (s.groups request.groupId).commitOffset (s.files file)
    (request.topic, request.partitionId) request.offset
  { s with files := Function.update s.files file (some (committed.2.take bytes)) }

/-- What holds of every offset of a group, whether it is in memory or in the file. -/
structure AllOffsets (P : TopicPartition → Nat → Prop) (g : GroupOffsets)
    (file : Option Bytes) : Prop where
  memory : ∀ (key : TopicPartition) (offset : UInt64), g.offsets[key]? = some offset →
    Token key.1 ∧ P key offset.toNat
  disk : ∀ text, file = some text → ∀ e ∈ parseOffsets text, Token e.1.1 ∧ P e.1 e.2.toNat

section Stored

variable {P Q : TopicPartition → Nat → Prop} {g : GroupOffsets} {file : Option Bytes}
  {key : TopicPartition} {offset : UInt64}

theorem AllOffsets.imp (h : AllOffsets P g file) (hPQ : ∀ key n, P key n → Q key n) :
    AllOffsets Q g file where
  memory key offset hentry := (h.memory key offset hentry).imp_right (hPQ _ _)
  disk text htext e he := (h.disk text htext e he).imp_right (hPQ _ _)

theorem allOffsets_start : AllOffsets P {} none where
  memory key offset h := by simp at h
  disk := nofun

theorem AllOffsets.load (h : AllOffsets P g file) :
    AllOffsets P (g.loadOffsetsIfNeeded file) file := by
  refine ⟨?_, h.disk⟩
  unfold GroupOffsets.loadOffsetsIfNeeded
  split
  · exact h.memory
  · cases file with
    | none => exact h.memory
    | some text =>
        intro key offset hentry
        rcases mem_of_getElem?_foldl hentry with hnew | hold
        · exact h.disk text rfl _ hnew
        · exact h.memory key offset hold

/-- What a commit writes over the entries that were loaded. -/
theorem AllOffsets.committed (h : AllOffsets P g file) (token : Token key.1)
    (hoffset : P key offset.toNat) :
    ∀ other o, (g.commitOffset file key offset).1.offsets[other]? = some o →
      Token other.1 ∧ P other o.toNat := by
  intro other o hentry
  simp only [GroupOffsets.commitOffset, getElem?_insert_ite] at hentry
  split at hentry
  · next heq =>
      obtain rfl := Option.some.inj hentry
      obtain rfl := heq
      exact ⟨token, hoffset⟩
  · exact h.load.memory other o hentry

theorem tokens_of_memory
    (h : ∀ other o, g.offsets[other]? = some o → Token other.1 ∧ P other o.toNat) :
    ∀ key ∈ g.offsets, Token key.1 := by
  intro key hkey
  obtain ⟨o, ho⟩ := Option.isSome_iff_exists.mp (Std.ExtTreeMap.mem_iff_isSome_getElem?.mp hkey)
  exact (h key o ho).1

theorem AllOffsets.commit (h : AllOffsets P g file) (key : TopicPartition) (token : Token key.1)
    (hoffset : P key offset.toNat) :
    AllOffsets P (g.commitOffset file key offset).1
      (some (g.commitOffset file key offset).2) := by
  have hmemory := h.committed token hoffset
  refine ⟨hmemory, ?_⟩
  rintro text htext e he
  obtain rfl := Option.some.inj htext
  have htokens := tokens_of_memory hmemory
  change e ∈ parseOffsets (offsetsText (g.commitOffset file key offset).1.offsets) at he
  rw [parseOffsets_offsetsText htokens] at he
  exact hmemory e.1 e.2 (Std.ExtTreeMap.mem_toList_iff_getElem?_eq_some.mp he)

theorem mem_offsetsLeft {entries : List (TopicPartition × UInt64)} {k : Nat}
    {e : TopicPartition × UInt64} (h : e ∈ offsetsLeft entries k) :
    ∃ o, (e.1, o) ∈ entries ∧ e.2.toNat ≤ o.toNat := by
  induction entries generalizing k with
  | nil => cases h
  | cons entry rest ih =>
      obtain ⟨key, offset⟩ := entry
      rw [offsetsLeft] at h
      split at h
      · rcases List.mem_cons.mp h with rfl | h
        · exact ⟨offset, List.mem_cons_self, Nat.le_refl _⟩
        · obtain ⟨o, ho, hle⟩ := ih h
          exact ⟨o, List.mem_cons_of_mem _ ho, hle⟩
      · split at h
        · rw [List.mem_singleton.mp h]
          refine ⟨offset, List.mem_cons_self, ?_⟩
          rw [UInt64.toNat_ofNat']
          exact (Nat.mod_le _ _).trans (Nat.div_le_self _ _)
        · cases h

/-- A cut off commit leaves smaller offsets, so what all smaller offsets inherit is kept. -/
theorem AllOffsets.torn (h : AllOffsets P g file) (down : ∀ key n n', n' ≤ n → P key n →
    P key n') (key : TopicPartition) (token : Token key.1) (hoffset : P key offset.toNat)
    (bytes : Nat) :
    AllOffsets P g (some ((g.commitOffset file key offset).2.take bytes)) := by
  refine ⟨h.memory, ?_⟩
  rintro text htext e he
  obtain rfl := Option.some.inj htext
  have hmemory := h.committed token hoffset
  change e ∈ parseOffsets
    ((offsetsText (g.commitOffset file key offset).1.offsets).take bytes) at he
  rw [parseOffsets_take fun _ => token_of_reached (tokens_of_memory hmemory), values_offsets]
    at he
  obtain ⟨o, ho, hle⟩ := mem_offsetsLeft he
  obtain ⟨htoken, hP⟩ := hmemory e.1 o (Std.ExtTreeMap.mem_toList_iff_getElem?_eq_some.mp ho)
  exact ⟨htoken, down _ _ _ hle hP⟩

end Stored

/-! ## All groups -/

/-- What holds of every offset of every group. -/
def AllStored (P : GroupId → TopicPartition → Nat → Prop) (s : OffsetStore) : Prop :=
  ∀ groupId, FileGroup groupId →
    AllOffsets (P groupId) (s.groups groupId) (s.files (offsetsFile groupId))

section Store

variable {P Q : GroupId → TopicPartition → Nat → Prop} {s : OffsetStore} {groupId : GroupId}
  {request : CommitOffsetRequest}

theorem allStored_start : AllStored P {} := fun _ _ => allOffsets_start

theorem AllStored.imp (h : AllStored P s) (hPQ : ∀ groupId key n, P groupId key n →
    Q groupId key n) : AllStored Q s := fun groupId hgroup =>
  (h groupId hgroup).imp (hPQ groupId)

/-- Another group has another file. -/
theorem update_file {α : Type} {group other : GroupId} (hgroup : FileGroup group)
    (hother : FileGroup other) (hne : other ≠ group) (files : Bytes → α) (file : α) :
    Function.update files (offsetsFile group) file (offsetsFile other) =
      files (offsetsFile other) := by
  apply Function.update_of_ne
  intro heq
  exact hne (offsetsFile_inj hother hgroup heq)

theorem AllStored.commit (h : AllStored P s) (hgroup : FileGroup request.groupId)
    (token : Token request.topic) (hoffset : P request.groupId request.key request.offset.toNat) :
    AllStored P ((s.step (.commitOffset request)).getD s) := by
  intro other hother
  change AllOffsets (P other) (Function.update s.groups request.groupId _ other)
    (Function.update s.files (offsetsFile request.groupId) _ (offsetsFile other))
  by_cases heq : other = request.groupId
  · subst heq
    rw [Function.update_self, Function.update_self]
    exact (h _ hgroup).commit request.key token hoffset
  · rw [Function.update_of_ne heq, update_file hgroup hother heq]
    exact h other hother

theorem AllStored.torn (h : AllStored P s) (down : ∀ groupId key n n', n' ≤ n →
    P groupId key n → P groupId key n') (hgroup : FileGroup request.groupId)
    (token : Token request.topic) (hoffset : P request.groupId request.key request.offset.toNat)
    (bytes : Nat) : AllStored P (tornCommit s request bytes) := by
  intro other hother
  change AllOffsets (P other) (s.groups other)
    (Function.update s.files (offsetsFile request.groupId) _ (offsetsFile other))
  by_cases heq : other = request.groupId
  · subst heq
    rw [Function.update_self]
    exact (h _ hgroup).torn (down _) request.key token hoffset bytes
  · rw [update_file hgroup hother heq]
    exact h other hother

theorem AllStored.fetch (h : AllStored P s) {key : TopicPartition} :
    AllStored P ((s.step (.fetchOffset groupId key)).getD s) := by
  intro other hother
  change AllOffsets (P other) (Function.update s.groups groupId _ other)
    (s.files (offsetsFile other))
  by_cases heq : other = groupId
  · subst heq
    rw [Function.update_self]
    exact (h _ hother).load
  · rw [Function.update_of_ne heq]
    exact h other hother

theorem AllStored.restart (h : AllStored P s) :
    AllStored P ((s.step .restart).getD s) := fun other hother =>
  ⟨allOffsets_start.memory, (h other hother).disk⟩

/-- What a FetchOffset answers is -1 or an offset of the group, as a signed number. -/
theorem AllStored.fetched (h : AllStored P s) (hgroup : FileGroup groupId)
    (key : TopicPartition) :
    s.fetched groupId key = -1 ∨ ∃ offset : UInt64, s.fetched groupId key = toI64 offset ∧
      P groupId key offset.toNat := by
  have hload := (h groupId hgroup).load
  rw [OffsetStore.fetched, GroupOffsets.fetchOffset]
  dsimp only
  cases hentry : ((s.groups groupId).loadOffsetsIfNeeded
    (s.files (offsetsFile groupId))).offsets[key]? with
  | none => exact Or.inl rfl
  | some offset => exact Or.inr ⟨offset, rfl, (hload.memory key offset hentry).2⟩

end Store

section Broker

variable {μ : Type} {cfg : BrokerConfig} {membership : Service μ} {restart : μ → μ}
  {P : GroupId → TopicPartition → Nat → Prop} {s s' : Standalone (μ × OffsetStore)}

/-- A call that commits an offset. -/
def StandaloneEvent.isCommit : StandaloneEvent → Bool
  | .call .commitOffset _ => true
  | _ => false

theorem getOrCreatePartition_groups {γ : Type} (s : Standalone γ) (key : TopicPartition) :
    (s.getOrCreatePartition key).2.groupCoordinator = s.groupCoordinator := by
  unfold Standalone.getOrCreatePartition
  split <;> rfl

theorem AllStored.of_eq (h : AllStored P s.groupCoordinator.2)
    (hgroups : s'.groupCoordinator = s.groupCoordinator) :
    AllStored P s'.groupCoordinator.2 := hgroups ▸ h

/-- Only commits bring new offsets into the coordinator. -/
theorem AllStored.standaloneStep {e : StandaloneEvent} (h : AllStored P s.groupCoordinator.2)
    (notCommit : e.isCommit = false)
    (hstep : standaloneStep cfg (coordinator membership) (coordinatorRestart restart) s e =
      some s') : AllStored P s'.groupCoordinator.2 := by
  cases e with
  | call t m =>
      obtain rfl := Option.some.inj hstep
      cases t with
      | produce | fetch | replicate => exact h.of_eq (getOrCreatePartition_groups s _)
      | metadata =>
          apply h.of_eq
          change (s.partitionCountFor _).2.groupCoordinator = _
          unfold Standalone.partitionCountFor
          split <;> rfl
      | createTopic =>
          apply h.of_eq
          change (s.handleCreateTopic m).2.groupCoordinator = _
          unfold Standalone.handleCreateTopic
          dsimp only
          split <;> rfl
      | commitOffset => cases notCommit
      | fetchOffset => exact h.fetch
      | findCoordinator | joinGroup | syncGroup | heartbeat | leaveGroup | requestVote
      | controllerHeartbeat | brokerHeartbeat | leaderAndISR | isrUpdate => exact h
  | readFetch req | readReplica req =>
      obtain rfl := Option.some.inj hstep
      exact h.of_eq (getOrCreatePartition_groups s _)
  | answerFetch read =>
      obtain ⟨answered, hanswer, rfl⟩ := Option.map_eq_some_iff.mp hstep
      exact h.of_eq (answerFetch_keeps hanswer).2.2
  | tornProduce req cut =>
      obtain rfl := Option.some.inj hstep
      exact h.of_eq (getOrCreatePartition_groups s _)
  | tornRecover key cut =>
      simp only [Broker.standaloneStep, Standalone.tornRecover] at hstep
      split at hstep
      · cases hstep
      · obtain rfl := Option.some.inj hstep
        exact h
  | tornCreateTopic req bytes =>
      simp only [Broker.standaloneStep, Standalone.tornCreateTopic] at hstep
      split at hstep
      · cases hstep
      · obtain rfl := Option.some.inj hstep
        exact h.restart
  | crash =>
      obtain rfl := Option.some.inj hstep
      exact h.restart

end Broker

end MiniKafka.Broker
