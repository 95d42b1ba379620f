import MiniKafka.Common.Codec
import MiniKafka.Foundations.Decimal
import Mathlib

/-!
# One consumer group

The state that a group's mutex guards, and what each critical section of the coordinator
makes of it. The blocking calls `join_group` and `sync_group` have two: the one up to the
wait on the condition variable, and the one after it.
-/

namespace MiniKafka.Group

open Common Foundations

abbrev GroupId := Bytes

abbrev MemberId := Bytes

instance : Std.TransOrd MemberId := List.instTransOrd

instance : Std.LawfulEqOrd MemberId := List.instLawfulEqOrd

/-- The error codes that the group calls answer. -/
inductive ErrorCode
  | none
  | requestTimedOut
  | unknownMemberId
  | rebalanceInProgress
  deriving DecidableEq, Repr

structure MemberState where
  sessionTimeoutMs : UInt32
  lastHeartbeatMs : UInt64
  deriving DecidableEq, Repr

/-- `std::map` keyed by member id. -/
abbrev MemberMap (α : Type) := Std.ExtTreeMap MemberId α

structure SyncGroupAssignment where
  memberId : MemberId
  partitions : List UInt32
  deriving DecidableEq, Repr

structure JoinGroupResponse where
  errorCode : ErrorCode := .none
  generationId : UInt32
  memberId : MemberId
  leaderId : MemberId
  members : List MemberId
  deriving DecidableEq, Repr

structure SyncGroupResponse where
  errorCode : ErrorCode
  partitions : List UInt32
  deriving DecidableEq, Repr

def kRebalanceWindowMs : UInt64 := 1000

/-- The text `-member-`. -/
def memberInfix : Bytes := [45, 109, 101, 109, 98, 101, 114, 45]

/-- `generate_member_id` with the number it takes from `nextMemberSeq_`. -/
def memberIdOf (groupId : GroupId) (seq : Nat) : MemberId :=
  groupId ++ memberInfix ++ decimal seq

/-- What a posted list leaves in the map: its last entry for a member. -/
def assignmentOf (assignments : List SyncGroupAssignment) : MemberMap (List UInt32) :=
  assignments.foldl (fun assignment a => assignment.insert a.memberId a.partitions) ∅

structure GroupState where
  generationId : UInt32 := 0
  topic : Bytes := []
  leaderId : MemberId := []
  members : MemberMap MemberState := ∅
  /-- A join window is open. -/
  rebalanceInProgress : Bool := false
  needsRebalance : Bool := false
  joinDeadlineMs : UInt64 := 0
  syncReady : Bool := false
  assignment : MemberMap (List UInt32) := ∅

def MemberState.stale (st : MemberState) (now : UInt64) : Bool :=
  now - st.lastHeartbeatMs > st.sessionTimeoutMs.toUInt64

namespace GroupState

variable (g : GroupState)

/-- The first section of `join_group` under the mutex, which reads the clock when it opens
a window and for the member's first heartbeat. -/
def enterJoin (topic : Bytes) (memberId : MemberId) (sessionTimeoutMs : UInt32)
    (openedMs nowMs : UInt64) : GroupState :=
  let g := { g with topic := topic }
  let g :=
    if g.rebalanceInProgress then g
    else { g with
      rebalanceInProgress := true
      members := ∅
      joinDeadlineMs := openedMs + kRebalanceWindowMs }
  { g with members := g.members.insert memberId ⟨sessionTimeoutMs, nowMs⟩ }

/-- The first thread after the deadline makes the next generation. -/
def finalize : GroupState :=
  { g with
    generationId := g.generationId + 1
    leaderId := g.members.keys.head?.getD []
    rebalanceInProgress := false
    needsRebalance := false
    syncReady := false
    assignment := ∅ }

/-- The second section of `join_group` begins with the window closed. -/
def closeWindow : GroupState := if g.rebalanceInProgress then g.finalize else g

def joinResponse (memberId : MemberId) : JoinGroupResponse where
  generationId := g.generationId
  memberId := memberId
  leaderId := g.leaderId
  members := g.members.keys

def syncResponse (memberId : MemberId) : SyncGroupResponse where
  errorCode := .none
  partitions := (g.assignment[memberId]?).getD []

def postAssignments (assignments : List SyncGroupAssignment) : GroupState :=
  { g with
    assignment := assignmentOf assignments
    syncReady := true }

/-- The first section of `sync_group`; it answers `none` where the call goes on to wait. -/
def enterSync (memberId : MemberId) (generationId : UInt32)
    (assignments : List SyncGroupAssignment) : GroupState × Option SyncGroupResponse :=
  if generationId ≠ g.generationId then (g, some ⟨.rebalanceInProgress, []⟩)
  else if memberId ∉ g.members then (g, some ⟨.unknownMemberId, []⟩)
  else if assignments ≠ [] then
    let g := g.postAssignments assignments
    (g, some (g.syncResponse memberId))
  else if g.syncReady then (g, some (g.syncResponse memberId))
  else (g, none)

/-- The second section of `sync_group`; the wait goes on where it answers `none`. -/
def wakeSync (memberId : MemberId) (generationAtEntry : UInt32) (timedOut : Bool) :
    Option SyncGroupResponse :=
  if g.syncReady ∨ g.generationId ≠ generationAtEntry then
    if g.generationId ≠ generationAtEntry then some ⟨.rebalanceInProgress, []⟩
    else some (g.syncResponse memberId)
  else if timedOut then some ⟨.requestTimedOut, []⟩
  else none

/-- The members that the sweep of a heartbeat evicts. -/
def evicted (memberId : MemberId) (nowMs : UInt64) : List MemberId :=
  (g.members.toList.filter fun (id, st) => id ≠ memberId ∧ st.stale nowMs).map Prod.fst

def sweep (memberId : MemberId) (nowMs : UInt64) : GroupState :=
  { g with
    members := (g.evicted memberId nowMs).foldl (fun members id => members.erase id) g.members
    needsRebalance := g.needsRebalance || !(g.evicted memberId nowMs).isEmpty }

def beat (memberId : MemberId) (st : MemberState) (nowMs : UInt64) : GroupState :=
  { g with members := g.members.insert memberId { st with lastHeartbeatMs := nowMs } }

/-- A heartbeat that is answered without an error. -/
def Accepts (memberId : MemberId) (generationId : UInt32) : Prop :=
  memberId ∈ g.members ∧ generationId = g.generationId ∧ g.needsRebalance = false

instance (memberId : MemberId) (generationId : UInt32) :
    Decidable (g.Accepts memberId generationId) :=
  inferInstanceAs (Decidable (_ ∧ _ ∧ _))

/-- `heartbeat`, which reads the clock for the member and again for the sweep. -/
def heartbeat (memberId : MemberId) (generationId : UInt32) (beatMs sweepMs : UInt64) :
    GroupState × ErrorCode :=
  match g.members[memberId]? with
  | none => (g, .unknownMemberId)
  | some st =>
      if generationId ≠ g.generationId ∨ g.needsRebalance then (g, .rebalanceInProgress)
      else ((g.beat memberId st beatMs).sweep memberId sweepMs, .none)

def leaveGroup (memberId : MemberId) : GroupState :=
  if memberId ∈ g.members then
    { g with members := g.members.erase memberId, needsRebalance := true }
  else g

end GroupState

section Lemmas

variable {g : GroupState} {groupId : GroupId} {seq seq' : Nat} {id memberId : MemberId}
  {st : MemberState} {topic : Bytes} {sessionTimeoutMs : UInt32} {nowMs openedMs : UInt64}
  {generationId : UInt32}

/-- An open window is closed by finalizing the group. -/
theorem GroupState.closeWindow_cases (g : GroupState) :
    (g.rebalanceInProgress = true ∧ g.closeWindow = g.finalize) ∨
      (g.rebalanceInProgress = false ∧ g.closeWindow = g) := by
  unfold closeWindow
  split
  · next hopen => exact .inl ⟨hopen, rfl⟩
  · next hopen => exact .inr ⟨Bool.not_eq_true _ ▸ hopen, rfl⟩

/-- Two strings agree if they do up to a separator that does not occur after it. -/
theorem append_sep_inj {α : Type} {sep : α} {x y s t : List α} (hs : sep ∉ s) (ht : sep ∉ t)
    (h : x ++ sep :: s = y ++ sep :: t) : x = y ∧ s = t := by
  have hshort : ∀ {u v : List α}, sep ∉ u → ∀ c, sep :: u = c ++ sep :: v → c = [] ∧ u = v := by
    intro u v hu c hc
    cases c with
    | nil => exact ⟨rfl, List.tail_eq_of_cons_eq hc⟩
    | cons first c =>
        exfalso
        apply hu
        rw [List.tail_eq_of_cons_eq hc]
        simp
  rcases List.append_eq_append_iff.mp h with ⟨c, hy, hc⟩ | ⟨c, hx, hc⟩
  · obtain ⟨hnil, hst⟩ := hshort hs c hc
    exact ⟨by rw [hy, hnil, List.append_nil], hst⟩
  · obtain ⟨hnil, hst⟩ := hshort ht c hc
    exact ⟨by rw [hx, hnil, List.append_nil], hst.symm⟩

/-- The number of a member id can be read back from it, whatever the group. -/
theorem memberIdOf_injective {groupId' : GroupId}
    (h : memberIdOf groupId seq = memberIdOf groupId' seq') :
    groupId = groupId' ∧ seq = seq' := by
  have hdash : ∀ n, (45 : UInt8) ∉ decimal n := by
    intro n hmem
    exact absurd (isDigit_of_mem_decimal hmem) (by decide)
  have hsplit : ∀ (gid : GroupId) n, memberIdOf gid n =
      (gid ++ [45, 109, 101, 109, 98, 101, 114]) ++ 45 :: decimal n := by
    intro gid n
    simp [memberIdOf, memberInfix]
  rw [hsplit, hsplit] at h
  obtain ⟨hgroup, hseq⟩ := append_sep_inj (hdash seq) (hdash seq') h
  exact ⟨List.append_cancel_right hgroup, decimal_injective hseq⟩

/-- Sorted key lists with the same members are the same. -/
theorem keys_congr {α β : Type} {m : MemberMap α} {m' : MemberMap β}
    (h : ∀ id, id ∈ m ↔ id ∈ m') : m.keys = m'.keys := by
  have hperm : m.keys.Perm m'.keys := by
    apply (List.perm_ext_iff_of_nodup Std.ExtTreeMap.nodup_keys Std.ExtTreeMap.nodup_keys).mpr
    intro id
    rw [Std.ExtTreeMap.mem_keys, Std.ExtTreeMap.mem_keys, h id]
  refine hperm.eq_of_pairwise ?_ Std.ExtTreeMap.ordered_keys Std.ExtTreeMap.ordered_keys
  intro a b _ _ hab hba
  have hswap : compare a b = (compare b a).swap := Std.OrientedCmp.eq_swap
  rw [hswap, hba] at hab
  cases hab

theorem mem_foldl_erase {members : MemberMap MemberState} {gone : List MemberId} :
    id ∈ gone.foldl (fun members id => members.erase id) members ↔
      id ∈ members ∧ id ∉ gone := by
  induction gone generalizing members with
  | nil => simp
  | cons other rest ih =>
      rw [List.foldl_cons, ih, Std.ExtTreeMap.mem_erase, List.mem_cons]
      simp only [ne_eq, Std.compare_eq_iff_eq]
      tauto

theorem mem_evicted :
    id ∈ g.evicted memberId nowMs ↔
      ∃ st, g.members[id]? = some st ∧ id ≠ memberId ∧ st.stale nowMs = true := by
  simp only [GroupState.evicted, List.mem_map, List.mem_filter, Prod.exists,
    Std.ExtTreeMap.mem_toList_iff_getElem?_eq_some, decide_eq_true_eq]
  constructor
  · rintro ⟨_, st, ⟨hst, hne, hstale⟩, rfl⟩
    exact ⟨st, hst, hne, hstale⟩
  · rintro ⟨st, hst, hne, hstale⟩
    exact ⟨id, st, ⟨hst, hne, hstale⟩, rfl⟩

theorem mem_enterJoin :
    id ∈ (g.enterJoin topic memberId sessionTimeoutMs openedMs nowMs).members ↔
      id = memberId ∨ (g.rebalanceInProgress = true ∧ id ∈ g.members) := by
  simp only [GroupState.enterJoin, Std.ExtTreeMap.mem_insert, Std.compare_eq_iff_eq]
  rw [eq_comm]
  cases g.rebalanceInProgress <;> simp

theorem GroupState.enterJoin_open :
    (g.enterJoin topic memberId sessionTimeoutMs openedMs nowMs).rebalanceInProgress = true := by
  cases h : g.rebalanceInProgress <;> simp [GroupState.enterJoin, h]

@[simp] theorem GroupState.enterJoin_generation :
    (g.enterJoin topic memberId sessionTimeoutMs openedMs nowMs).generationId =
      g.generationId := by
  cases h : g.rebalanceInProgress <;> simp [GroupState.enterJoin, h]

@[simp] theorem GroupState.enterJoin_leader :
    (g.enterJoin topic memberId sessionTimeoutMs openedMs nowMs).leaderId = g.leaderId := by
  cases h : g.rebalanceInProgress <;> simp [GroupState.enterJoin, h]


/-- Short of the largest generation, the next one is larger. -/
theorem GroupState.lt_finalize (fits : g.generationId.toNat + 1 < 2 ^ 32) :
    g.generationId < g.finalize.generationId := by
  change g.generationId < g.generationId + 1
  rw [UInt32.lt_iff_toNat_lt, UInt32.toNat_add, UInt32.toNat_one, Nat.mod_eq_of_lt fits]
  exact Nat.lt_succ_self _

/-- Members may be gone, and the generation, its leader and the window are the same. -/
structure GroupState.OnlyLoses (g g' : GroupState) : Prop where
  generation : g'.generationId = g.generationId
  leader : g'.leaderId = g.leaderId
  window : g'.rebalanceInProgress = g.rebalanceInProgress
  members : ∀ id, id ∈ g'.members → id ∈ g.members

/-- What `sync_group` answers from is the same. -/
structure GroupState.SameSync (g g' : GroupState) : Prop where
  ready : g'.syncReady = g.syncReady
  assigned : g'.assignment = g.assignment

theorem GroupState.OnlyLoses.refl (g : GroupState) : g.OnlyLoses g :=
  ⟨rfl, rfl, rfl, fun _ h => h⟩

theorem GroupState.enterJoin_sameSync :
    g.SameSync (g.enterJoin topic memberId sessionTimeoutMs openedMs nowMs) := by
  cases h : g.rebalanceInProgress <;> constructor <;> simp [GroupState.enterJoin, h]

/-- `sync_group` changes what it answers from, and nothing else. -/
theorem GroupState.enterSync_onlyLoses {assignments : List SyncGroupAssignment} :
    g.OnlyLoses (g.enterSync memberId generationId assignments).1 ∧
      (g.enterSync memberId generationId assignments).1.members = g.members := by
  unfold GroupState.enterSync
  split_ifs <;> exact ⟨⟨rfl, rfl, rfl, fun _ h => h⟩, rfl⟩

/-- `sync_group` refuses, or is given the current generation by a member and posts, answers
at once or waits. -/
theorem GroupState.enterSync_cases (g : GroupState) (memberId : MemberId)
    (generationId : UInt32) (assignments : List SyncGroupAssignment) :
    (∃ errorCode, errorCode ≠ .none ∧
      g.enterSync memberId generationId assignments = (g, some ⟨errorCode, []⟩)) ∨
    generationId = g.generationId ∧ memberId ∈ g.members ∧
      (assignments ≠ [] ∧ g.enterSync memberId generationId assignments =
          (g.postAssignments assignments,
            some ((g.postAssignments assignments).syncResponse memberId)) ∨
        assignments = [] ∧ g.syncReady = true ∧
          g.enterSync memberId generationId assignments = (g, some (g.syncResponse memberId)) ∨
        assignments = [] ∧ g.syncReady = false ∧
          g.enterSync memberId generationId assignments = (g, none)) := by
  unfold GroupState.enterSync
  split
  · exact .inl ⟨.rebalanceInProgress, by decide, rfl⟩
  · next hgen =>
      split
      · exact .inl ⟨.unknownMemberId, by decide, rfl⟩
      · next hmem =>
          refine .inr ⟨not_not.mp hgen, not_not.mp hmem, ?_⟩
          split
          · next hpost => exact .inl ⟨hpost, rfl⟩
          · next hpost =>
              split
              · next hready => exact .inr (.inl ⟨not_not.mp hpost, hready, rfl⟩)
              · next hready =>
                  exact .inr (.inr ⟨not_not.mp hpost, Bool.not_eq_true _ ▸ hready, rfl⟩)

/-- A wait ends without an error when the assignment of its own generation is there. -/
theorem GroupState.wakeSync_none {timedOut : Bool} {response : SyncGroupResponse}
    (h : g.wakeSync memberId generationId timedOut = some response)
    (hnone : response.errorCode = .none) :
    g.syncReady = true ∧ generationId = g.generationId ∧
      response = g.syncResponse memberId := by
  unfold GroupState.wakeSync at h
  split_ifs at h with hend hgen
  · obtain rfl := Option.some.inj h
    cases hnone
  · obtain rfl := Option.some.inj h
    exact ⟨hend.resolve_right hgen, (not_not.mp hgen).symm, rfl⟩
  · obtain rfl := Option.some.inj h
    cases hnone

theorem mem_beat (h : g.members[memberId]? = some st) :
    id ∈ (g.beat memberId st nowMs).members ↔ id ∈ g.members := by
  simp only [GroupState.beat, Std.ExtTreeMap.mem_insert, Std.compare_eq_iff_eq]
  refine ⟨fun hid => hid.elim (fun heq => ?_) fun hid => hid, .inr⟩
  rw [← heq, Std.ExtTreeMap.mem_iff_isSome_getElem?, h]
  rfl

/-- The members a sweep of the group evicts are those stale before the beat. -/
theorem mem_evicted_beat {sweepMs : UInt64} :
    id ∈ (g.beat memberId st nowMs).evicted memberId sweepMs ↔
      id ∈ g.evicted memberId sweepMs := by
  simp only [mem_evicted, GroupState.beat, Std.ExtTreeMap.getElem?_insert,
    Std.compare_eq_iff_eq]
  constructor
  · rintro ⟨st', hst, hne, hstale⟩
    rw [if_neg fun h => hne h.symm] at hst
    exact ⟨st', hst, hne, hstale⟩
  · rintro ⟨st', hst, hne, hstale⟩
    refine ⟨st', ?_, hne, hstale⟩
    rw [if_neg fun h => hne h.symm]
    exact hst

theorem GroupState.heartbeat_onlyLoses {beatMs sweepMs : UInt64} :
    g.OnlyLoses (g.heartbeat memberId generationId beatMs sweepMs).1 := by
  unfold GroupState.heartbeat
  split
  · exact .refl g
  · next st hst =>
      split
      · exact .refl g
      · refine ⟨rfl, rfl, rfl, fun id hid => ?_⟩
        exact (mem_beat hst).mp (mem_foldl_erase.mp hid).1

theorem GroupState.heartbeat_sameSync {beatMs sweepMs : UInt64} :
    g.SameSync (g.heartbeat memberId generationId beatMs sweepMs).1 := by
  unfold GroupState.heartbeat
  split
  · exact ⟨rfl, rfl⟩
  · split <;> exact ⟨rfl, rfl⟩

/-- What a heartbeat leaves of the members: all but those its sweep evicts. -/
theorem GroupState.mem_heartbeat_iff {beatMs sweepMs : UInt64} :
    id ∈ (g.heartbeat memberId generationId beatMs sweepMs).1.members ↔
      id ∈ g.members ∧
        (g.Accepts memberId generationId → id ∉ g.evicted memberId sweepMs) := by
  unfold GroupState.heartbeat
  split
  · next hnone =>
      have hrefused : ¬ g.Accepts memberId generationId := by
        intro haccepts
        have hmem := haccepts.1
        rw [Std.ExtTreeMap.mem_iff_isSome_getElem?, hnone] at hmem
        cases hmem
      simp [hrefused]
  · next st hst =>
      have hmem : memberId ∈ g.members := by
        rw [Std.ExtTreeMap.mem_iff_isSome_getElem?, hst]
        rfl
      split
      · next hgen =>
          have hrefused : ¬ g.Accepts memberId generationId := by
            intro haccepts
            rw [haccepts.2.1, haccepts.2.2] at hgen
            simp at hgen
          simp [hrefused]
      · next hgen =>
          have haccepts : g.Accepts memberId generationId := by
            simp only [not_or, not_not, Bool.not_eq_true] at hgen
            exact ⟨hmem, hgen⟩
          have hbeat : id ∈ (g.beat memberId st beatMs).members ↔ id ∈ g.members :=
            mem_beat hst
          simp only [haccepts, forall_const]
          rw [← hbeat, ← mem_evicted_beat]
          exact mem_foldl_erase

/-- A heartbeat that is refused or evicts nobody keeps the membership. -/
theorem GroupState.mem_heartbeat {beatMs sweepMs : UInt64}
    (h : g.Accepts memberId generationId → g.evicted memberId sweepMs = []) :
    id ∈ (g.heartbeat memberId generationId beatMs sweepMs).1.members ↔ id ∈ g.members := by
  rw [mem_heartbeat_iff, and_iff_left_iff_imp]
  intro _ haccepts
  rw [h haccepts]
  exact List.not_mem_nil

theorem GroupState.leaveGroup_onlyLoses : g.OnlyLoses (g.leaveGroup memberId) := by
  unfold GroupState.leaveGroup
  split
  · refine ⟨rfl, rfl, rfl, fun id hid => ?_⟩
    exact Std.ExtTreeMap.mem_of_mem_erase hid
  · exact .refl g

theorem GroupState.leaveGroup_sameSync : g.SameSync (g.leaveGroup memberId) := by
  unfold GroupState.leaveGroup
  split <;> exact ⟨rfl, rfl⟩

theorem GroupState.leaveGroup_eq (h : memberId ∉ g.members) : g.leaveGroup memberId = g :=
  if_neg h

theorem GroupState.heartbeat_none {beatMs sweepMs : UInt64} :
    (g.heartbeat memberId generationId beatMs sweepMs).2 = .none ↔
      g.Accepts memberId generationId := by
  unfold GroupState.heartbeat GroupState.Accepts
  rw [Std.ExtTreeMap.mem_iff_isSome_getElem?]
  cases hst : g.members[memberId]? with
  | none => simp
  | some st =>
      by_cases hgen : generationId = g.generationId <;> cases hneeds : g.needsRebalance <;>
        simp [hgen]

end Lemmas

end MiniKafka.Group
