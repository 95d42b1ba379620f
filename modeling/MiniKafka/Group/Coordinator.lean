import MiniKafka.Foundations.Run
import MiniKafka.Group.GroupState

/-!
# The group coordinator

All groups of one coordinator, with the calls that are between two of their critical
sections and the answers that were given. Every event is one critical section, so a run
is an interleaving of any number of calls. The number of the next member id is a `uint64_t`,
and no process lives to make the id after which it would start again at zero: the model has
no step there.
-/

namespace MiniKafka.Group

open Common Foundations

structure JoinGroupRequest where
  groupId : GroupId
  topic : Bytes
  sessionTimeoutMs : UInt32
  deriving DecidableEq, Repr

/-- A `join_group` call that has its member id and not yet the group's mutex. -/
structure JoinCall where
  request : JoinGroupRequest
  memberId : MemberId
  deriving DecidableEq, Repr

/-- A `join_group` call in its wait. -/
structure JoinWait where
  groupId : GroupId
  memberId : MemberId
  deadlineMs : UInt64
  deriving DecidableEq, Repr

/-- A `JoinGroupResponse` with the group that was joined. -/
structure Joined where
  groupId : GroupId
  response : JoinGroupResponse
  deriving DecidableEq, Repr

structure SyncGroupRequest where
  groupId : GroupId
  memberId : MemberId
  generationId : UInt32
  assignments : List SyncGroupAssignment
  deriving DecidableEq, Repr

/-- A `SyncGroupResponse` with the request it answers. -/
structure Synced where
  request : SyncGroupRequest
  response : SyncGroupResponse
  deriving DecidableEq, Repr

structure Coordinator where
  groups : GroupId → GroupState := fun _ => {}
  nextMemberSeq : UInt64 := 0
  /-- The calls of `join_group` before and in their wait, and of `sync_group` in theirs. -/
  joinCalls : List JoinCall := []
  joinWaits : List JoinWait := []
  syncWaits : List SyncGroupRequest := []
  /-- What was answered, and the requests that came with assignments, newest first. -/
  joined : List Joined := []
  posts : List SyncGroupRequest := []
  synced : List Synced := []

inductive Event
  | generateMemberId (request : JoinGroupRequest)
  | enterJoin (call : JoinCall) (openedMs nowMs : UInt64)
  /-- A wait ends at a notification or at its deadline. -/
  | wakeJoin (wait : JoinWait) (nowMs : UInt64)
  | enterSync (request : SyncGroupRequest)
  | wakeSync (request : SyncGroupRequest) (timedOut : Bool)
  | heartbeat (groupId : GroupId) (memberId : MemberId) (generationId : UInt32)
      (beatMs sweepMs : UInt64)
  | leaveGroup (groupId : GroupId) (memberId : MemberId)

namespace Coordinator

variable (c : Coordinator)

def setGroup (groupId : GroupId) (g : GroupState) : Coordinator :=
  { c with groups := Function.update c.groups groupId g }

def step : Event → Option Coordinator
  | .generateMemberId request =>
      if c.nextMemberSeq.toNat + 1 < 2 ^ 64 then
        some { c with
          nextMemberSeq := c.nextMemberSeq + 1
          joinCalls := ⟨request, memberIdOf request.groupId c.nextMemberSeq.toNat⟩ ::
            c.joinCalls }
      else none
  | .enterJoin call openedMs nowMs =>
      if call ∈ c.joinCalls then
        let groupId := call.request.groupId
        let g := (c.groups groupId).enterJoin call.request.topic call.memberId
          call.request.sessionTimeoutMs openedMs nowMs
        some { c.setGroup groupId g with
          joinCalls := c.joinCalls.erase call
          joinWaits := ⟨groupId, call.memberId, g.joinDeadlineMs⟩ :: c.joinWaits }
      else none
  | .wakeJoin wait nowMs =>
      if wait ∈ c.joinWaits ∧
          ((c.groups wait.groupId).rebalanceInProgress = false ∨ wait.deadlineMs ≤ nowMs) then
        let g := (c.groups wait.groupId).closeWindow
        some { c.setGroup wait.groupId g with
          joinWaits := c.joinWaits.erase wait
          joined := ⟨wait.groupId, g.joinResponse wait.memberId⟩ :: c.joined }
      else none
  | .enterSync request =>
      let entered := (c.groups request.groupId).enterSync request.memberId
        request.generationId request.assignments
      let c := { c.setGroup request.groupId entered.1 with
        posts := if request.assignments = [] then c.posts else request :: c.posts }
      match entered.2 with
      | some response => some { c with synced := ⟨request, response⟩ :: c.synced }
      | none => some { c with syncWaits := request :: c.syncWaits }
  | .wakeSync request timedOut =>
      if request ∈ c.syncWaits then
        ((c.groups request.groupId).wakeSync request.memberId request.generationId
          timedOut).map fun response =>
            { c with
              syncWaits := c.syncWaits.erase request
              synced := ⟨request, response⟩ :: c.synced }
      else none
  | .heartbeat groupId memberId generationId beatMs sweepMs =>
      some (c.setGroup groupId
        ((c.groups groupId).heartbeat memberId generationId beatMs sweepMs).1)
  | .leaveGroup groupId memberId =>
      some (c.setGroup groupId ((c.groups groupId).leaveGroup memberId))

/-- The member ids that were handed to a `join_group` call. -/
def memberIds : List MemberId :=
  c.joinCalls.map (·.memberId) ++ c.joinWaits.map (·.memberId) ++
    c.joined.map (·.response.memberId)

/-- A `join_group` call of the group is in its wait as this member. -/
def Waits (groupId : GroupId) (memberId : MemberId) : Prop :=
  ∃ w ∈ c.joinWaits, w.groupId = groupId ∧ w.memberId = memberId

instance (groupId : GroupId) (memberId : MemberId) : Decidable (c.Waits groupId memberId) :=
  List.decidableBEx (fun w : JoinWait => w.groupId = groupId ∧ w.memberId = memberId) c.joinWaits

def NoneWaits (groupId : GroupId) : Prop := ∀ w ∈ c.joinWaits, w.groupId ≠ groupId

instance (groupId : GroupId) : Decidable (c.NoneWaits groupId) :=
  List.decidableBAll (fun w : JoinWait => w.groupId ≠ groupId) c.joinWaits

def Answered (groupId : GroupId) (response : JoinGroupResponse) : Prop :=
  ⟨groupId, response⟩ ∈ c.joined

end Coordinator

/-- The group whose critical section an event is. -/
def Event.groupId : Event → GroupId
  | .generateMemberId request => request.groupId
  | .enterJoin call _ _ => call.request.groupId
  | .wakeJoin wait _ => wait.groupId
  | .enterSync request | .wakeSync request _ => request.groupId
  | .heartbeat groupId _ _ _ _ | .leaveGroup groupId _ => groupId

section Steps

variable {c c' : Coordinator} {groupId : GroupId} {memberId : MemberId}
  {response : JoinGroupResponse}

theorem Coordinator.NoneWaits.not_waits (h : c.NoneWaits groupId) : ¬ c.Waits groupId memberId := by
  rintro ⟨w, hw, hgroup, -⟩
  exact h w hw hgroup

/-- What `generate_member_id` leaves. -/
theorem step_generateMemberId {request : JoinGroupRequest}
    (h : c.step (.generateMemberId request) = some c') :
    c'.nextMemberSeq.toNat = c.nextMemberSeq.toNat + 1 ∧
      c' = { c with
        nextMemberSeq := c.nextMemberSeq + 1
        joinCalls := ⟨request, memberIdOf request.groupId c.nextMemberSeq.toNat⟩ ::
          c.joinCalls } := by
  simp only [Coordinator.step, Option.ite_none_right_eq_some, Option.some.injEq] at h
  obtain ⟨hfits, rfl⟩ := h
  refine ⟨?_, rfl⟩
  rw [UInt64.toNat_add, UInt64.toNat_one, Nat.mod_eq_of_lt hfits]

/-- What `enterJoin` leaves. -/
theorem step_enterJoin {call : JoinCall} {openedMs nowMs : UInt64}
    (h : c.step (.enterJoin call openedMs nowMs) = some c') :
    call ∈ c.joinCalls ∧ c'.nextMemberSeq = c.nextMemberSeq ∧ c'.joined = c.joined ∧
      c'.joinCalls = c.joinCalls.erase call ∧
      (∃ deadlineMs, c'.joinWaits = ⟨call.request.groupId, call.memberId, deadlineMs⟩ ::
        c.joinWaits) ∧
      c'.groups = Function.update c.groups call.request.groupId
        ((c.groups call.request.groupId).enterJoin call.request.topic call.memberId
          call.request.sessionTimeoutMs openedMs nowMs) ∧
      c'.syncWaits = c.syncWaits ∧ c'.posts = c.posts ∧ c'.synced = c.synced := by
  simp only [Coordinator.step, Option.ite_none_right_eq_some, Option.some.injEq] at h
  obtain ⟨hcall, rfl⟩ := h
  exact ⟨hcall, rfl, rfl, rfl, ⟨_, rfl⟩, rfl, rfl, rfl, rfl⟩

/-- What `wakeJoin` leaves. -/
theorem step_wakeJoin {wait : JoinWait} {nowMs : UInt64}
    (h : c.step (.wakeJoin wait nowMs) = some c') :
    wait ∈ c.joinWaits ∧ c'.nextMemberSeq = c.nextMemberSeq ∧ c'.joinCalls = c.joinCalls ∧
      c'.joinWaits = c.joinWaits.erase wait ∧
      c'.joined = ⟨wait.groupId, (c.groups wait.groupId).closeWindow.joinResponse
        wait.memberId⟩ :: c.joined ∧
      c'.groups = Function.update c.groups wait.groupId
        (c.groups wait.groupId).closeWindow ∧
      c'.syncWaits = c.syncWaits ∧ c'.posts = c.posts ∧ c'.synced = c.synced := by
  simp only [Coordinator.step, Option.ite_none_right_eq_some, Option.some.injEq] at h
  obtain ⟨⟨hwait, -⟩, rfl⟩ := h
  exact ⟨hwait, rfl, rfl, rfl, rfl, rfl, rfl, rfl, rfl⟩

/-- A `sync_group` call changes one group and no `join_group` call. -/
theorem step_enterSync {request : SyncGroupRequest}
    (h : c.step (.enterSync request) = some c') :
    c'.nextMemberSeq = c.nextMemberSeq ∧ c'.joinCalls = c.joinCalls ∧
      c'.joinWaits = c.joinWaits ∧ c'.joined = c.joined ∧
      c'.groups = Function.update c.groups request.groupId
        ((c.groups request.groupId).enterSync request.memberId request.generationId
          request.assignments).1 ∧
      c'.posts = (if request.assignments = [] then c.posts else request :: c.posts) ∧
      c'.synced = (((c.groups request.groupId).enterSync request.memberId request.generationId
        request.assignments).2.map (Synced.mk request)).toList ++ c.synced ∧
      ∀ w ∈ c'.syncWaits, w ∈ c.syncWaits ∨ w = request ∧
        ((c.groups request.groupId).enterSync request.memberId request.generationId
          request.assignments).2 = none := by
  simp only [Coordinator.step] at h
  split at h
  · next response hresponse =>
      obtain rfl := Option.some.inj h
      exact ⟨rfl, rfl, rfl, rfl, rfl, rfl, by rw [hresponse]; rfl, fun w hw => .inl hw⟩
  · next hresponse =>
      obtain rfl := Option.some.inj h
      refine ⟨rfl, rfl, rfl, rfl, rfl, rfl, by rw [hresponse]; rfl, ?_⟩
      intro w hw
      rcases List.mem_cons.mp hw with hw | hw
      · exact .inr ⟨hw, hresponse⟩
      · exact .inl hw

theorem step_wakeSync {request : SyncGroupRequest} {timedOut : Bool}
    (h : c.step (.wakeSync request timedOut) = some c') :
    request ∈ c.syncWaits ∧ ∃ response,
      (c.groups request.groupId).wakeSync request.memberId request.generationId timedOut =
        some response ∧
      c' = { c with
        syncWaits := c.syncWaits.erase request
        synced := ⟨request, response⟩ :: c.synced } := by
  simp only [Coordinator.step, Option.ite_none_right_eq_some] at h
  obtain ⟨hwait, h⟩ := h
  obtain ⟨response, hresponse, heq⟩ := Option.map_eq_some_iff.mp h
  exact ⟨hwait, response, hresponse, heq.symm⟩

/-- An answer of a group is the one just given, or was given before. -/
theorem answered_cons {answer : Joined} {r : JoinGroupResponse}
    (hjoined : c'.joined = answer :: c.joined) (hr : c'.Answered groupId r) :
    (groupId = answer.groupId ∧ r = answer.response) ∨ c.Answered groupId r := by
  rw [Coordinator.Answered, hjoined] at hr
  rcases List.mem_cons.mp hr with rfl | hr
  · exact .inl ⟨rfl, rfl⟩
  · exact .inr hr

/-- A step leaves every other group, its waiting calls and its answers alone. -/
theorem step_frame {e : Event} (h : c.step e = some c') (hne : groupId ≠ e.groupId) :
    c'.groups groupId = c.groups groupId ∧
      (∀ m, c'.Waits groupId m → c.Waits groupId m) ∧
      ∀ r, c'.Answered groupId r → c.Answered groupId r := by
  cases e with
  | generateMemberId request =>
      obtain ⟨-, rfl⟩ := step_generateMemberId h
      exact ⟨rfl, fun _ => id, fun _ => id⟩
  | enterJoin call openedMs nowMs =>
      obtain ⟨-, -, hjoined, -, ⟨deadlineMs, hwaits⟩, hgroups, -⟩ := step_enterJoin h
      refine ⟨?_, ?_, ?_⟩
      · rw [hgroups]
        exact Function.update_of_ne hne _ _
      · rintro m ⟨w, hw, hgroup, hm⟩
        rw [hwaits] at hw
        rcases List.mem_cons.mp hw with hw | hw
        · rw [hw] at hgroup
          exact absurd hgroup.symm hne
        · exact ⟨w, hw, hgroup, hm⟩
      · intro r hr
        rwa [Coordinator.Answered, hjoined] at hr
  | wakeJoin wait nowMs =>
      obtain ⟨-, -, -, hwaits, hjoined, hgroups, -⟩ := step_wakeJoin h
      refine ⟨?_, ?_, ?_⟩
      · rw [hgroups]
        exact Function.update_of_ne hne _ _
      · rintro m ⟨w, hw, hm⟩
        rw [hwaits] at hw
        exact ⟨w, List.mem_of_mem_erase hw, hm⟩
      · intro r hr
        exact (answered_cons hjoined hr).resolve_left fun hgiven => hne hgiven.1
  | enterSync request =>
      obtain ⟨-, -, hwaits, hjoined, hgroups, -⟩ := step_enterSync h
      refine ⟨?_, ?_, ?_⟩
      · rw [hgroups]
        exact Function.update_of_ne hne _ _
      · intro m hm
        rwa [Coordinator.Waits, hwaits] at hm
      · intro r hr
        rwa [Coordinator.Answered, hjoined] at hr
  | wakeSync request timedOut =>
      obtain ⟨-, response, -, rfl⟩ := step_wakeSync h
      exact ⟨rfl, fun _ => id, fun _ => id⟩
  | heartbeat gid memberId generationId beatMs sweepMs =>
      obtain rfl := Option.some.inj h
      exact ⟨Function.update_of_ne hne _ _, fun _ => id, fun _ => id⟩
  | leaveGroup gid memberId =>
      obtain rfl := Option.some.inj h
      exact ⟨Function.update_of_ne hne _ _, fun _ => id, fun _ => id⟩

/-- What holds of every group, of its waiting calls and its answers, is kept by a step if
the step keeps it for the group it is in. -/
theorem step_forall {I : GroupState → (MemberId → Prop) → (JoinGroupResponse → Prop) → Prop}
    (mono : ∀ {g waits waits' answered answered'}, (∀ m, waits' m → waits m) →
      (∀ r, answered' r → answered r) → I g waits answered → I g waits' answered')
    (inv : ∀ groupId, I (c.groups groupId) (c.Waits groupId) (c.Answered groupId)) {e : Event}
    (h : c.step e = some c')
    (acted : I (c'.groups e.groupId) (c'.Waits e.groupId) (c'.Answered e.groupId)) :
    ∀ groupId, I (c'.groups groupId) (c'.Waits groupId) (c'.Answered groupId) := by
  intro groupId
  by_cases hgroup : groupId = e.groupId
  · rw [hgroup]
    exact acted
  · obtain ⟨hsame, hwaits, hanswered⟩ := step_frame h hgroup
    rw [hsame]
    exact mono hwaits hanswered (inv groupId)

end Steps

/-- The group `g` of the example runs, on the topic `t`. -/
def consumers : GroupId := [103]

def joinConsumers : JoinGroupRequest := ⟨consumers, [116], 10000⟩

/-- The member ids that the coordinator makes for the group, in order. -/
def consumer (seq : Nat) : MemberId := memberIdOf consumers seq

/-- The first two members are in their wait, until 1000. -/
def twoWait : List Event :=
  [.generateMemberId joinConsumers, .generateMemberId joinConsumers,
    .enterJoin ⟨joinConsumers, consumer 0⟩ 0 0, .enterJoin ⟨joinConsumers, consumer 1⟩ 0 0]

end MiniKafka.Group
