import MiniKafka.Foundations.Run
import MiniKafka.Group.CommittedOffsets

/-!
# When committed offsets go forward

One group and its offsets file under any order of commits and fetches. `commit_offset`
writes the offset of the request over the one before without a look at it, whoever sent
the request.
-/

namespace MiniKafka.Group

open Cluster Common Foundations

structure GroupStore where
  group : GroupOffsets := {}
  file : Option Bytes := none

inductive OffsetCall
  | commitOffset (request : CommitOffsetRequest)
  | fetchOffset (key : TopicPartition)

def CommitOffsetRequest.key (request : CommitOffsetRequest) : TopicPartition :=
  (request.topic, request.partitionId)

namespace GroupStore

variable (s : GroupStore) (key : TopicPartition)

def step : OffsetCall → Option GroupStore
  | .commitOffset request =>
      let committed := s.group.commitOffset s.file request.key request.offset
      some ⟨committed.1, some committed.2⟩
  | .fetchOffset key => some { s with group := (s.group.fetchOffset s.file key).1 }

/-- What a `fetch_offset` call is answered. -/
def fetched : Int := (s.group.fetchOffset s.file key).2

/-- The entry of the partition in the map, loaded if it is not. -/
def stored : Option UInt64 := (s.group.loadOffsetsIfNeeded s.file).offsets[key]?

end GroupStore

/-- A commit for the partition is not below what is stored, and not below -1. -/
def CommitsForward (key : TopicPartition) (s : GroupStore) : OffsetCall → Prop
  | .commitOffset request => request.key = key →
      ((s.stored key).map toI64).getD (-1) ≤ toI64 request.offset
  | .fetchOffset _ => True

instance decidableCommitsForward (key : TopicPartition) (s : GroupStore) :
    ∀ call, Decidable (CommitsForward key s call)
  | .commitOffset _ => inferInstanceAs (Decidable (_ → _))
  | .fetchOffset _ => .isTrue trivial

variable {s s' : GroupStore} {key : TopicPartition}

/-- A commit is what the next fetch of its partition answers, and changes no other. -/
theorem fetched_commit {request : CommitOffsetRequest}
    (h : s.step (.commitOffset request) = some s') :
    s'.fetched key = if request.key = key then toI64 request.offset else s.fetched key := by
  obtain rfl := Option.some.inj h
  simp only [GroupStore.fetched, GroupOffsets.fetchOffset, GroupOffsets.load_commit]
  simp only [GroupOffsets.commitOffset, getElem?_insert_ite]
  split <;> rfl

theorem fetched_fetch {other : TopicPartition} (h : s.step (.fetchOffset other) = some s') :
    s'.fetched key = s.fetched key := by
  obtain rfl := Option.some.inj h
  simp only [GroupStore.fetched, GroupOffsets.fetchOffset, GroupOffsets.load_load]

/-- What fetches of a partition are answered never falls in a run exactly when every commit
for it is at or above what is stored. -/
theorem fetched_monotone_iff {visits : List (GroupStore × OffsetCall)}
    (run : Run GroupStore.step s visits s') :
    (visits.map (fun v => v.1.fetched key) ++ [s'.fetched key]).Pairwise (· ≤ ·) ↔
      Guarded (CommitsForward key) visits := by
  rw [run.monotone_iff fun s => s.fetched key]
  apply forall₂_congr
  intro v hv
  obtain ⟨_, _, u, -, -, hstep⟩ := run.visited hv
  obtain ⟨t, call⟩ := v
  have hone : (∀ w, t.step call = some w → t.fetched key ≤ w.fetched key) ↔
      t.fetched key ≤ u.fetched key := by
    constructor
    · intro h
      exact h u hstep
    · intro h w hw
      rw [← Option.some.inj (hstep.symm.trans hw)]
      exact h
  rw [hone]
  cases call with
  | commitOffset request =>
      rw [fetched_commit hstep, CommitsForward]
      split
      · next hkey => exact ⟨fun h _ => h, fun h => h hkey⟩
      · next hkey => exact ⟨fun _ h => absurd h hkey, fun _ => le_refl _⟩
  | fetchOffset other =>
      rw [fetched_fetch hstep]
      exact ⟨fun _ => trivial, fun _ => le_refl _⟩

/-- The commits of a run in order. -/
def commits (visits : List (GroupStore × OffsetCall)) : List CommitOffsetRequest :=
  visits.filterMap fun v =>
    match v.2 with
    | .commitOffset request => some request
    | .fetchOffset _ => none

/-- A commit of the `seq`-th member, for partition 0 of the topic `t`. -/
def commitFrom (seq : Nat) (generationId : UInt32) (offset : UInt64) : OffsetCall :=
  .commitOffset ⟨[103], memberIdOf [103] seq, generationId, [116], 0, offset⟩

theorem fetched_monotone_handover :
    ∃ visits s, Run GroupStore.step {} visits s ∧
      (visits.map (fun v => v.1.fetched ([116], 0)) ++ [s.fetched ([116], 0)]).Pairwise
        (· ≤ ·) ∧ s.fetched ([116], 0) = 20 := by
  have seen : (execute GroupStore.step {} [commitFrom 0 1 5, commitFrom 0 1 10,
      .fetchOffset ([116], 0), commitFrom 1 2 20]).map (fun s => s.fetched ([116], 0)) =
      some 20 := by decide
  obtain ⟨s, run, hfetched⟩ := run_showing seen
  exact ⟨_, s, run, (fetched_monotone_iff run).mpr (by decide), hfetched⟩

/-- A commit of the former owner that arrives after one of the new owner takes the offset
back. -/
theorem fetched_goes_back :
    ¬ ∀ (visits : List (GroupStore × OffsetCall)) (s : GroupStore) (key : TopicPartition),
      Run GroupStore.step {} visits s →
      (commits visits).Pairwise (fun request request' =>
        request.memberId = request'.memberId → request.key = request'.key →
          request.offset < request'.offset) →
      (visits.map (fun v => v.1.fetched key) ++ [s.fetched key]).Pairwise (· ≤ ·) := by
  intro claim
  have seen : (execute GroupStore.step {} [commitFrom 0 1 5, commitFrom 1 2 20,
      commitFrom 0 1 10]).map (fun s => s.fetched ([116], 0)) = some 10 := by decide
  obtain ⟨s, run, hfetched⟩ := run_showing seen
  have hmono := claim _ s ([116], 0) run (by decide)
  rw [hfetched] at hmono
  exact absurd hmono (by decide)

end MiniKafka.Group
