import MiniKafka.Group.MemberIdentity
import MiniKafka.Protocol.RoundTrip

/-!
# The answers of `JoinGroup` on the wire

A member id is the group's id with a suffix, so it is longer than the string the client sent.
`put_string` writes the length of a string in 16 bits and does not check that it fits.
-/

namespace MiniKafka.Broker

open Common Foundations
open MiniKafka.Group

/-- The codes of the coordinator as they are sent. -/
def wireCode : ErrorCode → Protocol.ErrorCode
  | .none => .none
  | .requestTimedOut => .requestTimedOut
  | .unknownMemberId => .unknownMemberId
  | .rebalanceInProgress => .rebalanceInProgress

/-- The response that `handle_join_group` encodes. -/
def wireResponse (resp : JoinGroupResponse) : Protocol.JoinGroupResponse where
  errorCode := wireCode resp.errorCode
  generationId := resp.generationId
  memberId := resp.memberId
  leaderId := resp.leaderId
  members := resp.members

/-- The payload is read back as the response it was made from, to its end. -/
def Decodable (resp : Protocol.JoinGroupResponse) : Prop :=
  ∃ pos, Protocol.decodeJoinGroupResponse.run ⟨Protocol.encodeJoinGroupResponse resp, 0⟩ =
    .ok (resp, ⟨[], pos⟩)

/-- If the id was made for this group, the group's id leaves room for the suffix. -/
def LeavesRoom (groupId : GroupId) (id : MemberId) : Prop :=
  ∀ seq, id = memberIdOf groupId seq → groupId.length + 8 + (decimal seq).length < 2 ^ 16

/-- What the second section of `join_group` meets: the ids it is going to answer leave room,
and their number fits. -/
structure AnswerFits (groupId : GroupId) (g : GroupState) (memberId : MemberId) : Prop where
  own : LeavesRoom groupId memberId
  members : ∀ id ∈ g.members, LeavesRoom groupId id
  /-- The leader of an open window is going to be one of its members. -/
  leader : g.rebalanceInProgress = false → LeavesRoom groupId g.leaderId
  count : g.members.keys.length < 2 ^ 32

variable {c c' : Coordinator} {groupId : GroupId} {memberId : MemberId} {wait : JoinWait}
  {resp : Protocol.JoinGroupResponse}

section Wire

theorem getString_yields : Yields getString Protocol.StringFits := by
  refine Yields.skip fun n => ?_
  intro input s next hraw
  unfold Protocol.StringFits
  rw [getRaw_length hraw]
  exact n.toNat_lt

theorem joinGroupResponse_yields :
    Yields Protocol.decodeJoinGroupResponse Protocol.JoinGroupResponse.Fits := by
  have hmembers : Yields (getCounted getString) fun members =>
      Protocol.CountFits members ∧ ∀ m ∈ members, Protocol.StringFits m := by
    refine Yields.skip fun count => ?_
    intro input members next hrun
    obtain ⟨hlen, hfits⟩ := readEach_yields getString_yields count.toNat input members next hrun
    refine ⟨?_, hfits⟩
    unfold Protocol.CountFits
    rw [hlen]
    exact count.toNat_lt
  refine Yields.skip fun errorCode => Yields.skip fun generationId => ?_
  refine getString_yields.bind fun memberId hmember => ?_
  refine getString_yields.bind fun leaderId hleader => ?_
  refine hmembers.bind fun members ⟨hcount, hfits⟩ => ?_
  exact .pure ⟨hmember, hleader, hcount, hfits⟩

/-- A response is decodable exactly when its lengths fit their fields. -/
theorem decodable_iff : Decodable resp ↔ resp.Fits := by
  constructor
  · intro ⟨pos, hrun⟩
    exact joinGroupResponse_yields _ resp _ hrun
  · intro hfits
    have hreads := (Protocol.joinGroupResponse_delimits hfits).reads [] 0
    rw [List.append_nil] at hreads
    exact ⟨_, hreads⟩

theorem decodable_own {g : GroupState}
    (h : Decodable (wireResponse (g.joinResponse memberId))) : memberId.length < 2 ^ 16 :=
  (decodable_iff.mp h).memberId

end Wire

section Ids

theorem leavesRoom_iff (h : Generated c groupId memberId) :
    LeavesRoom groupId memberId ↔ Protocol.StringFits memberId := by
  obtain ⟨seq, -, heq⟩ := h
  have hlength : memberId.length = groupId.length + 8 + (decimal seq).length := by
    rw [heq, memberIdOf, List.length_append, List.length_append]
    rfl
  unfold Protocol.StringFits
  rw [hlength]
  constructor
  · intro hroom
    exact hroom seq heq
  · intro hfits seq' heq'
    rw [← (memberIdOf_injective (heq.symm.trans heq')).2]
    exact hfits

/-- The leader of a group is nobody, or a member id that was made for it. -/
def LeaderGenerated (c : Coordinator) : Prop :=
  ∀ groupId, (c.groups groupId).leaderId = [] ∨
    Generated c groupId (c.groups groupId).leaderId

theorem leaderGenerated_start : LeaderGenerated {} := fun _ => Or.inl rfl

/-- A group whose leader is not moved, in a process that goes on numbering. -/
theorem LeaderGenerated.kept (inv : LeaderGenerated c)
    (hseq : c.nextMemberSeq.toNat ≤ c'.nextMemberSeq.toNat)
    (hleader : ∀ groupId, (c'.groups groupId).leaderId = (c.groups groupId).leaderId) :
    LeaderGenerated c' := by
  intro groupId
  rw [hleader]
  exact (inv groupId).imp_right fun h => h.mono hseq

theorem closeWindow_leader {g : GroupState} :
    g.closeWindow.leaderId = [] ∨ g.closeWindow.leaderId ∈ g.members ∨
      g.rebalanceInProgress = false ∧ g.closeWindow.leaderId = g.leaderId := by
  unfold GroupState.closeWindow
  split
  · cases hkeys : g.members.keys with
    | nil =>
        left
        simp only [GroupState.finalize, hkeys]
        rfl
    | cons first rest =>
        right
        left
        simp only [GroupState.finalize, hkeys]
        change first ∈ g.members
        rw [← Std.ExtTreeMap.mem_keys, hkeys]
        exact List.mem_cons_self
  · next hclosed => exact Or.inr (Or.inr ⟨Bool.not_eq_true _ ▸ hclosed, rfl⟩)

theorem LeaderGenerated.step {e : Event} (inv : LeaderGenerated c) (ids : IdentityInv c)
    (h : c.step e = some c') : LeaderGenerated c' := by
  have hupdate : ∀ {gid : GroupId} {g' : GroupState},
      c'.groups = Function.update c.groups gid g' → g'.leaderId = (c.groups gid).leaderId →
        ∀ groupId, (c'.groups groupId).leaderId = (c.groups groupId).leaderId := by
    intro gid g' hgroups hleader groupId
    rw [hgroups]
    by_cases hgroup : groupId = gid
    · rw [hgroup, Function.update_self]
      exact hleader
    · rw [Function.update_of_ne hgroup]
  cases e with
  | generateMemberId request =>
      obtain ⟨hseq, rfl⟩ := step_generateMemberId h
      exact inv.kept (by omega) fun _ => rfl
  | enterJoin call openedMs nowMs =>
      obtain ⟨-, hseq, -, -, -, hgroups, -⟩ := step_enterJoin h
      exact inv.kept (by rw [hseq]) (hupdate hgroups GroupState.enterJoin_leader)
  | wakeJoin wait nowMs =>
      obtain ⟨-, hseq, -, -, -, hgroups, -⟩ := step_wakeJoin h
      have hgen : ∀ {gid m}, Generated c gid m → Generated c' gid m :=
        fun h => h.mono (by rw [hseq])
      intro groupId
      rw [hgroups]
      by_cases hgroup : groupId = wait.groupId
      · rw [hgroup, Function.update_self]
        rcases closeWindow_leader with hnil | hmem | ⟨-, hold⟩
        · exact Or.inl hnil
        · exact Or.inr (hgen (ids.members _ _ hmem))
        · rw [hold]
          exact (inv wait.groupId).imp_right hgen
      · rw [Function.update_of_ne hgroup]
        exact (inv groupId).imp_right hgen
  | enterSync request =>
      obtain ⟨hseq, -, -, -, hgroups, -⟩ := step_enterSync h
      exact inv.kept (by rw [hseq])
        (hupdate hgroups GroupState.enterSync_onlyLoses.1.leader)
  | wakeSync request timedOut =>
      obtain ⟨-, response, -, rfl⟩ := step_wakeSync h
      exact inv
  | heartbeat gid memberId generationId beatMs sweepMs =>
      obtain rfl := Option.some.inj h
      exact inv.kept (Nat.le_refl _) (hupdate rfl GroupState.heartbeat_onlyLoses.leader)
  | leaveGroup gid memberId =>
      obtain rfl := Option.some.inj h
      exact inv.kept (Nat.le_refl _) (hupdate rfl GroupState.leaveGroup_onlyLoses.leader)

theorem leaderGenerated_of_run {visits : List (Coordinator × Event)}
    (run : Run Coordinator.step {} visits c) : IdentityInv c ∧ LeaderGenerated c :=
  run.always (I := fun c => IdentityInv c ∧ LeaderGenerated c)
    ⟨identityInv_start, leaderGenerated_start⟩
    fun _ _ _ inv h => ⟨inv.1.step h, inv.2.step inv.1 h⟩

theorem closeWindow_members {g : GroupState} : g.closeWindow.members = g.members := by
  unfold GroupState.closeWindow
  split <;> rfl

end Ids

/-- In every state a coordinator reaches, the answer of a `join_group` call is decodable
exactly when the ids of the group leave room for their suffixes. -/
theorem join_answer_decodable_iff {visits : List (Coordinator × Event)}
    (run : Run Coordinator.step {} visits c) (hwait : wait ∈ c.joinWaits) :
    Decodable (wireResponse
        ((c.groups wait.groupId).closeWindow.joinResponse wait.memberId)) ↔
      AnswerFits wait.groupId (c.groups wait.groupId) wait.memberId := by
  obtain ⟨ids, leaders⟩ := leaderGenerated_of_run run
  have hown := ids.waits wait hwait
  have hmembers := ids.members wait.groupId
  have hleader : (c.groups wait.groupId).leaderId = [] ∨
      (LeavesRoom wait.groupId (c.groups wait.groupId).leaderId ↔
        Protocol.StringFits (c.groups wait.groupId).leaderId) :=
    (leaders wait.groupId).imp_right leavesRoom_iff
  have hempty : Protocol.StringFits [] := Nat.two_pow_pos 16
  rw [decodable_iff]
  constructor
  · intro hfits
    have hlist : ∀ id ∈ (c.groups wait.groupId).members, Protocol.StringFits id := by
      intro id hid
      apply hfits.members
      rw [← closeWindow_members] at hid
      exact Std.ExtTreeMap.mem_keys.mpr hid
    constructor
    · exact (leavesRoom_iff hown).mpr hfits.memberId
    · intro id hid
      exact (leavesRoom_iff (hmembers id hid)).mpr (hlist id hid)
    · intro hclosed
      have hsame : (c.groups wait.groupId).closeWindow = c.groups wait.groupId := by
        rw [GroupState.closeWindow, hclosed, if_neg Bool.false_ne_true]
      have hfit : Protocol.StringFits (c.groups wait.groupId).leaderId := by
        rw [← hsame]
        exact hfits.leaderId
      rcases hleader with hnil | hroom
      · intro seq heq
        rw [hnil] at heq
        have hlength := congrArg List.length heq
        simp [memberIdOf, memberInfix] at hlength
      · exact hroom.mpr hfit
    · rw [← closeWindow_members]
      exact hfits.count
  · intro hfits
    constructor
    · exact (leavesRoom_iff hown).mp hfits.own
    · change Protocol.StringFits (c.groups wait.groupId).closeWindow.leaderId
      rcases closeWindow_leader with hnil | hmem | ⟨hclosed, hold⟩
      · rw [hnil]
        exact hempty
      · exact (leavesRoom_iff (hmembers _ hmem)).mp (hfits.members _ hmem)
      · rw [hold]
        rcases hleader with hnil | hroom
        · rw [hnil]
          exact hempty
        · exact hroom.mp (hfits.leader hclosed)
    · change (c.groups wait.groupId).closeWindow.members.keys.length < 2 ^ 32
      rw [closeWindow_members]
      exact hfits.count
    · intro id hid
      have hmem : id ∈ (c.groups wait.groupId).members := by
        rw [← closeWindow_members]
        exact Std.ExtTreeMap.mem_keys.mp hid
      exact (leavesRoom_iff (hmembers id hmem)).mp (hfits.members id hmem)

/-- A call that joins alone, up to its wait. -/
def joinAlone (request : JoinGroupRequest) : List Event :=
  [.generateMemberId request, .enterJoin ⟨request, memberIdOf request.groupId 0⟩ 0 0]

theorem joinAlone_run (request : JoinGroupRequest) :
    ∃ visits c, Run Coordinator.step {} visits c ∧
      visits.map Prod.snd = joinAlone request ∧
      ⟨request.groupId, memberIdOf request.groupId 0, kRebalanceWindowMs⟩ ∈ c.joinWaits ∧
      (c.groups request.groupId).rebalanceInProgress = true ∧
      (c.groups request.groupId).members.keys = [memberIdOf request.groupId 0] := by
  let called : Coordinator :=
    { nextMemberSeq := 1, joinCalls := [⟨request, memberIdOf request.groupId 0⟩] }
  have hmake : Coordinator.step {} (.generateMemberId request) = some called := rfl
  have henter : called.step (.enterJoin ⟨request, memberIdOf request.groupId 0⟩ 0 0) =
      some _ := if_pos List.mem_cons_self
  refine ⟨_, _, Run.head hmake (Run.head henter Run.refl), rfl, List.mem_cons_self, ?_, ?_⟩
  · simp only [Coordinator.setGroup, Function.update_self]
    exact GroupState.enterJoin_open
  · simp only [Coordinator.setGroup, Function.update_self]
    change (Std.ExtTreeMap.insert ∅ (memberIdOf request.groupId 0) _ : MemberMap _).keys = _
    rw [← Std.ExtTreeMap.ofList_singleton, ← Std.ExtTreeMap.map_fst_toList_eq_keys,
      toList_ofList_of_ordered (List.pairwise_singleton _ _)]
    rfl

theorem join_answer_decodable_consumers :
    ∃ visits c, Run Coordinator.step {} visits c ∧
      Decodable (wireResponse ((c.groups consumers).closeWindow.joinResponse (consumer 0))) := by
  obtain ⟨visits, c, run, -, hwait, hopen, hkeys⟩ := joinAlone_run joinConsumers
  have hroom : LeavesRoom consumers (consumer 0) := by
    intro seq heq
    have hseq : 0 = seq := (memberIdOf_injective heq).2
    rw [← hseq]
    decide
  refine ⟨visits, c, run, (join_answer_decodable_iff run hwait).mpr ⟨hroom, ?_, ?_, ?_⟩⟩
  · intro id hid
    rw [← Std.ExtTreeMap.mem_keys, hkeys, List.mem_singleton] at hid
    rw [hid]
    exact hroom
  · intro hclosed
    rw [hopen] at hclosed
    cases hclosed
  · rw [hkeys]
    decide

/-- The longest group id that a request can carry. -/
def longestGroupId : GroupId := List.replicate 65535 103

/-- Its member ids do not fit the field: the length is cut, and the rest of the id is read
as the fields behind it. -/
theorem long_group_not_decodable :
    ¬ ∀ (visits : List (Coordinator × Event)) (c : Coordinator) (wait : JoinWait),
      Run Coordinator.step {} visits c →
      (∀ v ∈ visits, ∀ request, v.2 = .generateMemberId request →
        Protocol.JoinGroupRequestFits request) →
      wait ∈ c.joinWaits →
        Decodable (wireResponse
          ((c.groups wait.groupId).closeWindow.joinResponse wait.memberId)) := by
  intro claim
  obtain ⟨visits, c, run, hevents, hwait, -⟩ := joinAlone_run ⟨longestGroupId, [116], 10000⟩
  have hlength : longestGroupId.length = 65535 := by
    rw [longestGroupId, List.length_replicate]
  have hrequests : ∀ v ∈ visits, ∀ request, v.2 = .generateMemberId request →
      Protocol.JoinGroupRequestFits request := by
    intro v hv request hrequest
    have hmem := List.mem_map_of_mem (f := Prod.snd) hv
    rw [hevents, hrequest] at hmem
    rcases List.mem_cons.mp hmem with heq | hmem
    · rw [Event.generateMemberId.injEq] at heq
      rw [heq]
      constructor
      · unfold Protocol.StringFits
        rw [hlength]
        decide
      · unfold Protocol.StringFits
        decide
    · rcases List.mem_singleton.mp hmem
  have hown := decodable_own (claim visits c _ run hrequests hwait)
  have hinfix : memberInfix.length = 8 := rfl
  simp only [memberIdOf, List.length_append, hlength, hinfix] at hown
  omega

end MiniKafka.Broker
