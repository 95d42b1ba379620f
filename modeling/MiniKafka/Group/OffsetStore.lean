import MiniKafka.Foundations.Run
import MiniKafka.Group.CommittedOffsets

/-!
# Committed offsets over restarts

The offsets of all groups with their files. For each group the memory and the file stand
for one map: the commits so far, whether they are loaded or not.
-/

namespace MiniKafka.Group

open Cluster Common Foundations TextStream

/-- The text `.offsets`. -/
def offsetsSuffix : Bytes := [46, 111, 102, 102, 115, 101, 116, 115]

/-- The file of a group in `__consumer_offsets`. A path ends where its string has a NUL. -/
def offsetsFile (groupId : GroupId) : Bytes :=
  (groupId ++ offsetsSuffix).takeWhile fun b => b ≠ 0

/-- The coordinator's groups, and the directory of their files. -/
structure OffsetStore where
  groups : GroupId → GroupOffsets := fun _ => {}
  files : Bytes → Option Bytes := fun _ => none

inductive StoreCall
  | commitOffset (request : CommitOffsetRequest)
  | fetchOffset (groupId : GroupId) (key : TopicPartition)
  | restart

namespace OffsetStore

variable (s : OffsetStore)

def step : StoreCall → Option OffsetStore
  | .commitOffset request =>
      let file := offsetsFile request.groupId
      let committed := (s.groups request.groupId).commitOffset (s.files file)
        (request.topic, request.partitionId) request.offset
      some
        { groups := Function.update s.groups request.groupId committed.1
          files := Function.update s.files file (some committed.2) }
  | .fetchOffset groupId key =>
      let g := ((s.groups groupId).fetchOffset (s.files (offsetsFile groupId)) key).1
      some { s with groups := Function.update s.groups groupId g }
  | .restart => some { s with groups := fun _ => {} }

/-- What a `fetch_offset` call is answered. -/
def fetched (groupId : GroupId) (key : TopicPartition) : Int :=
  ((s.groups groupId).fetchOffset (s.files (offsetsFile groupId)) key).2

end OffsetStore

/-- A group id that names one file of the directory. -/
def FileGroup (groupId : GroupId) : Prop := 47 ∉ groupId ∧ 0 ∉ groupId

instance (groupId : GroupId) : Decidable (FileGroup groupId) :=
  inferInstanceAs (Decidable (_ ∧ _))

/-- The calls with group ids, topics and offsets that the files can hold. -/
def Storable (_ : OffsetStore) : StoreCall → Prop
  | .commitOffset request =>
      FileGroup request.groupId ∧ Token request.topic ∧ request.offset.toNat < 2 ^ 63
  | .fetchOffset groupId _ => FileGroup groupId
  | .restart => True

instance decidableStorable (s : OffsetStore) : ∀ call, Decidable (Storable s call)
  | .commitOffset _ => inferInstanceAs (Decidable (_ ∧ _ ∧ _))
  | .fetchOffset groupId _ => inferInstanceAs (Decidable (FileGroup groupId))
  | .restart => .isTrue trivial

/-- The latest commit of a run for exactly this group, topic and partition. -/
def latestCommit (groupId : GroupId) (key : TopicPartition)
    (visits : List (OffsetStore × StoreCall)) : Option UInt64 :=
  visits.foldl (fun latest v =>
    match v.2 with
    | .commitOffset request =>
        if request.groupId = groupId ∧ (request.topic, request.partitionId) = key then
          some request.offset
        else latest
    | _ => latest) none

/-- A group's memory and its file stand for a map of commits. -/
structure Stands (g : GroupOffsets) (file : Option Bytes) (commits : OffsetMap) : Prop where
  loaded : g.offsetsLoaded = true → g.offsets = commits
  unloaded : g.offsetsLoaded = false → g.offsets = ∅
  file : file = some (offsetsText commits) ∨ file = none ∧ commits = ∅
  tokens : ∀ key ∈ commits, Token key.1

variable {g : GroupOffsets} {file : Option Bytes} {commits : OffsetMap} {key : TopicPartition}
  {groupId other : GroupId} {s s' : OffsetStore}

theorem stands_start : Stands {} none ∅ where
  loaded h := by cases h
  unloaded _ := rfl
  file := .inr ⟨rfl, rfl⟩
  tokens key h := by simp at h

/-- Loaded or not, the map is what the next call sees. -/
theorem Stands.load (h : Stands g file commits) :
    (g.loadOffsetsIfNeeded file).offsets = commits := by
  unfold GroupOffsets.loadOffsetsIfNeeded
  split
  · next hloaded => exact h.loaded hloaded
  · next hloaded =>
      have hempty := h.unloaded (Bool.not_eq_true _ ▸ hloaded)
      rcases h.file with hfile | ⟨hfile, hcommits⟩
      · rw [hfile, hempty]
        simp only
        rw [parseOffsets_offsetsText h.tokens, foldl_insert_eq_ofList, ofList_toList]
      · rw [hfile, hcommits]
        exact hempty

theorem Stands.fetch (h : Stands g file commits) :
    Stands (g.fetchOffset file key).1 file commits where
  loaded _ := h.load
  unloaded hnot := by
    rw [GroupOffsets.fetchOffset, g.load_loaded file] at hnot
    cases hnot
  file := h.file
  tokens := h.tokens

theorem Stands.commit (h : Stands g file commits) (token : Token key.1) {offset : UInt64} :
    Stands (g.commitOffset file key offset).1 (some (g.commitOffset file key offset).2)
      (commits.insert key offset) where
  loaded _ := by
    rw [GroupOffsets.commitOffset, h.load]
  unloaded hnot := by
    rw [GroupOffsets.commitOffset] at hnot
    rw [show (g.loadOffsetsIfNeeded file).offsetsLoaded = true from g.load_loaded file] at hnot
    cases hnot
  file := by
    left
    rw [GroupOffsets.commitOffset, h.load]
  tokens other hother := by
    rcases Std.ExtTreeMap.mem_insert.mp hother with heq | hold
    · rw [← Std.compare_eq_iff_eq.mp heq]
      exact token
    · exact h.tokens other hold

/-- A restarted coordinator stands for the same commits. -/
theorem Stands.restart (h : Stands g file commits) : Stands {} file commits where
  loaded hloaded := by cases hloaded
  unloaded _ := rfl
  file := h.file
  tokens := h.tokens

theorem offsetsFile_inj (h : FileGroup groupId) (h' : FileGroup other)
    (heq : offsetsFile groupId = offsetsFile other) : groupId = other := by
  have hwhole : ∀ {gid : GroupId}, FileGroup gid → offsetsFile gid = gid ++ offsetsSuffix := by
    intro gid hgid
    apply List.takeWhile_eq_self_iff.mpr
    intro b hb
    rw [decide_eq_true_eq]
    rintro rfl
    rcases List.mem_append.mp hb with hb | hb
    · exact hgid.2 hb
    · exact absurd hb (by decide)
  rw [hwhole h, hwhole h'] at heq
  exact List.append_cancel_right heq

/-- Every group stands for its latest commits. -/
def StoreInv (visits : List (OffsetStore × StoreCall)) (s : OffsetStore) : Prop :=
  ∀ groupId, FileGroup groupId → ∃ commits : OffsetMap,
    (∀ key, commits[key]? = latestCommit groupId key visits) ∧
    Stands (s.groups groupId) (s.files (offsetsFile groupId)) commits

theorem latestCommit_snoc {visits : List (OffsetStore × StoreCall)} {call : StoreCall} :
    latestCommit groupId key (visits ++ [(s, call)]) =
      match call with
      | .commitOffset request =>
          if request.groupId = groupId ∧ (request.topic, request.partitionId) = key then
            some request.offset
          else latestCommit groupId key visits
      | _ => latestCommit groupId key visits := by
  simp only [latestCommit, List.foldl_append, List.foldl_cons, List.foldl_nil]

theorem StoreInv.step {visits : List (OffsetStore × StoreCall)} {call : StoreCall}
    (inv : StoreInv visits s) (storable : Storable s call) (h : s.step call = some s') :
    StoreInv (visits ++ [(s, call)]) s' := by
  intro groupId hgroup
  obtain ⟨commits, hlatest, hstands⟩ := inv groupId hgroup
  cases call with
  | commitOffset request =>
      obtain ⟨hfileGroup, htoken, -⟩ := storable
      obtain rfl := Option.some.inj h
      by_cases hsame : request.groupId = groupId
      · subst hsame
        refine ⟨commits.insert (request.topic, request.partitionId) request.offset, ?_, ?_⟩
        · intro key
          rw [latestCommit_snoc, getElem?_insert_ite, hlatest key]
          simp only [true_and]
        · simp only [Function.update_self]
          exact hstands.commit htoken
      · refine ⟨commits, ?_, ?_⟩
        · intro key
          rw [latestCommit_snoc, hlatest key]
          simp only [hsame, false_and, if_false]
        · have hfile : offsetsFile groupId ≠ offsetsFile request.groupId := by
            intro heq
            exact hsame (offsetsFile_inj hgroup hfileGroup heq).symm
          simp only [Function.update_of_ne (Ne.symm hsame), Function.update_of_ne hfile]
          exact hstands
  | fetchOffset other key =>
      obtain rfl := Option.some.inj h
      refine ⟨commits, fun key => by rw [latestCommit_snoc]; exact hlatest key, ?_⟩
      by_cases hsame : other = groupId
      · subst hsame
        simp only [Function.update_self]
        exact hstands.fetch
      · simp only [Function.update_of_ne (Ne.symm hsame)]
        exact hstands
  | restart =>
      obtain rfl := Option.some.inj h
      refine ⟨commits, fun key => by rw [latestCommit_snoc]; exact hlatest key, ?_⟩
      exact hstands.restart

/-- The offsets of storable commits fit `int64_t`. -/
theorem latestCommit_lt {visits : List (OffsetStore × StoreCall)}
    (storable : Guarded Storable visits) {offset : UInt64}
    (h : latestCommit groupId key visits = some offset) : offset.toNat < 2 ^ 63 := by
  induction visits using List.reverseRecOn with
  | nil => cases h
  | append_singleton visits v ih =>
      obtain ⟨s, call⟩ := v
      obtain ⟨hbefore, hcall⟩ := guarded_snoc.mp storable
      rw [latestCommit_snoc] at h
      cases call with
      | commitOffset request =>
          simp only at h
          split at h
          · obtain rfl := Option.some.inj h
            exact hcall.2.2
          · exact ih hbefore h
      | fetchOffset other key => exact ih hbefore h
      | restart => exact ih hbefore h

theorem storeInv_run {visits : List (OffsetStore × StoreCall)}
    (run : Run OffsetStore.step {} visits s) (storable : Guarded Storable visits) :
    StoreInv visits s := by
  induction run with
  | refl => exact fun groupId _ => ⟨∅, fun key => by simp [latestCommit], stands_start⟩
  | tail run h ih =>
      obtain ⟨hbefore, hcall⟩ := guarded_snoc.mp storable
      exact (ih hbefore).step hcall h

/-- Over any commits, fetches and restarts, a fetch is answered the latest commit for exactly
its group, topic and partition, and -1 where there is none. -/
theorem fetched_latest {visits : List (OffsetStore × StoreCall)}
    (run : Run OffsetStore.step {} visits s) (storable : Guarded Storable visits)
    (hgroup : FileGroup groupId) (key : TopicPartition) :
    s.fetched groupId key =
      ((latestCommit groupId key visits).map fun offset => (offset.toNat : Int)).getD (-1) := by
  obtain ⟨commits, hlatest, hstands⟩ := storeInv_run run storable groupId hgroup
  rw [OffsetStore.fetched, GroupOffsets.fetchOffset]
  simp only [hstands.load, hlatest key]
  cases hcommit : latestCommit groupId key visits with
  | none => rfl
  | some offset => exact toI64_of_lt (latestCommit_lt storable hcommit)

/-- Two groups commit, the coordinator restarts, and another partition is committed before the
first fetch. -/
def acrossRestart : List StoreCall :=
  [.commitOffset ⟨[103], [], 1, [116], 0, 40⟩, .commitOffset ⟨[104], [], 1, [116], 0, 7⟩,
    .restart, .commitOffset ⟨[103], [], 2, [116], 1, 12⟩]

theorem fetched_latest_restarted :
    ∃ visits s, Run OffsetStore.step {} visits s ∧
      s.fetched [103] ([116], 0) = 40 ∧ s.fetched [103] ([116], 2) = -1 := by
  have seen : (execute OffsetStore.step {} acrossRestart).isSome := by decide
  obtain ⟨s, hs⟩ := Option.isSome_iff_exists.mp seen
  have run := run_of_execute hs
  have hstorable : Guarded Storable (trace OffsetStore.step {} acrossRestart) := by
    decide
  refine ⟨_, s, run, ?_, ?_⟩
  · rw [fetched_latest run hstorable ⟨by decide, by decide⟩]
    decide
  · rw [fetched_latest run hstorable ⟨by decide, by decide⟩]
    decide

end MiniKafka.Group
