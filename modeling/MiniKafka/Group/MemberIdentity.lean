import MiniKafka.Group.Coordinator

/-!
# Member identities over process lifetimes

A member id carries the number it was made with, and `nextMemberSeq_` starts at zero in
every process: ids are unique among the `join_group` calls of one process, and a restarted
coordinator makes them again. A member is in the group before its `join_group` call has
returned; a pair with its id can be accepted before it is issued only in that wait.
-/

namespace MiniKafka.Group

open Foundations

variable {c c' : Coordinator} {groupId : GroupId} {memberId : MemberId}

/-- The running process made the id, for a call of this group. -/
def Generated (c : Coordinator) (groupId : GroupId) (memberId : MemberId) : Prop :=
  ∃ seq < c.nextMemberSeq.toNat, memberId = memberIdOf groupId seq

/-- The running process answered a `join_group` call of this group with this pair. -/
def Issued (c : Coordinator) (groupId : GroupId) (memberId : MemberId)
    (generationId : UInt32) : Prop :=
  ∃ j ∈ c.joined, j.groupId = groupId ∧ j.response.memberId = memberId ∧
    j.response.generationId = generationId

/-- The pair of a request that the group accepts: its generation is installed, and its member
id was made by this process and is a member's. The pair is the answer of the `join_group` call
with this id, unless that call is still in its wait. -/
structure Recognized (c : Coordinator) (groupId : GroupId) (memberId : MemberId)
    (generationId : UInt32) : Prop where
  installed : generationId = (c.groups groupId).generationId
  member : memberId ∈ (c.groups groupId).members
  generated : Generated c groupId memberId
  agrees : ∀ j ∈ c.joined, j.response.memberId = memberId →
    j.groupId = groupId ∧ j.response.generationId = generationId
  issued : ¬ c.Waits groupId memberId → Issued c groupId memberId generationId

/-- The coordinator of a broker over its restarts, with what earlier processes answered. The
`sync_group` calls that went into their wait when no `join_group` call was in its wait as their
member are timely; nothing the broker does depends on them. -/
structure Lifetimes where
  coordinator : Coordinator := {}
  timely : List SyncGroupRequest := []
  earlier : List Joined := []

inductive LifetimeEvent
  | call (e : Event)
  | restart

/-- The timely `sync_group` call of a section, if it is the entry of one. -/
def Coordinator.timely (c : Coordinator) : Event → List SyncGroupRequest
  | .enterSync request =>
      if ((c.groups request.groupId).enterSync request.memberId request.generationId
          request.assignments).2.isNone ∧ ¬ c.Waits request.groupId request.memberId then
        [request]
      else []
  | _ => []

/-- A restart keeps the offset files, and nothing of the members. -/
def Lifetimes.step (s : Lifetimes) : LifetimeEvent → Option Lifetimes
  | .call e => (s.coordinator.step e).map fun c =>
      { s with coordinator := c, timely := s.coordinator.timely e ++ s.timely }
  | .restart => some ⟨{}, [], s.coordinator.joined ++ s.earlier⟩

/-- The identities of one process lifetime. -/
structure UniqueIdentities (s : Lifetimes) : Prop where
  /-- No two `join_group` calls were answered with the same member id. -/
  unique : s.coordinator.joined.Pairwise fun j j' =>
    j.response.memberId ≠ j'.response.memberId
  heartbeat : ∀ groupId memberId generationId beatMs sweepMs,
    ((s.coordinator.groups groupId).heartbeat memberId generationId beatMs sweepMs).2 = .none →
      Recognized s.coordinator groupId memberId generationId
  /-- `sync_group` answers an error, or it recognizes the pair and answers or waits. -/
  sync : ∀ groupId memberId generationId assignments,
    (∀ response, ((s.coordinator.groups groupId).enterSync memberId generationId
      assignments).2 = some response → response.errorCode = .none) →
        Recognized s.coordinator groupId memberId generationId
  wake : ∀ request ∈ s.coordinator.syncWaits, ∀ timedOut response,
    (s.coordinator.groups request.groupId).wakeSync request.memberId request.generationId
      timedOut = some response → response.errorCode = .none →
        request.generationId = (s.coordinator.groups request.groupId).generationId ∧
          Generated s.coordinator request.groupId request.memberId ∧
          (request ∈ s.timely →
            Issued s.coordinator request.groupId request.memberId request.generationId)

/-- Ids are made from different numbers, every member waits for its answer or has it, and who
has an answer is a member of a closed group only with its generation. -/
structure IdentityInv (c : Coordinator) : Prop where
  nodup : c.memberIds.Nodup
  calls : ∀ call ∈ c.joinCalls, Generated c call.request.groupId call.memberId
  waits : ∀ w ∈ c.joinWaits, Generated c w.groupId w.memberId
  joined : ∀ j ∈ c.joined, Generated c j.groupId j.response.memberId
  members : ∀ groupId, ∀ m ∈ (c.groups groupId).members, Generated c groupId m
  attended : ∀ groupId, ∀ m ∈ (c.groups groupId).members, c.Waits groupId m ∨
    ∃ j ∈ c.joined, j.groupId = groupId ∧ j.response.memberId = m
  syncWaits : ∀ request ∈ c.syncWaits, Generated c request.groupId request.memberId
  current : ∀ j ∈ c.joined, j.response.memberId ∈ (c.groups j.groupId).members →
    (c.groups j.groupId).rebalanceInProgress = false ∧
      j.response.generationId = (c.groups j.groupId).generationId

theorem identityInv_start : IdentityInv {} where
  nodup := List.nodup_nil
  calls _ h := by cases h
  waits _ h := by cases h
  joined _ h := by cases h
  members groupId m h := by
    change m ∈ (∅ : MemberMap MemberState) at h
    simp at h
  attended groupId m h := by
    change m ∈ (∅ : MemberMap MemberState) at h
    simp at h
  syncWaits _ h := by cases h
  current _ h := by cases h

theorem Generated.mono (h : Generated c groupId memberId)
    (hle : c.nextMemberSeq.toNat ≤ c'.nextMemberSeq.toNat) : Generated c' groupId memberId := by
  obtain ⟨seq, hseq, heq⟩ := h
  exact ⟨seq, hseq.trans_le hle, heq⟩

theorem Generated.group {other : GroupId} (h : Generated c groupId memberId)
    (hother : Generated c other memberId) : other = groupId := by
  obtain ⟨seq, -, heq⟩ := h
  obtain ⟨seq', -, heq'⟩ := hother
  exact (memberIdOf_injective (heq'.symm.trans heq)).1

/-- The id that is made next was not made before. -/
theorem IdentityInv.fresh (inv : IdentityInv c) (groupId : GroupId) :
    memberIdOf groupId c.nextMemberSeq.toNat ∉ c.memberIds := by
  have hnot : ∀ other, ¬ Generated c other (memberIdOf groupId c.nextMemberSeq.toNat) := by
    rintro other ⟨seq, hseq, heq⟩
    have hsame := (memberIdOf_injective heq).2
    omega
  intro hmem
  simp only [Coordinator.memberIds, List.mem_append, List.mem_map] at hmem
  rcases hmem with (⟨call, hcall, heq⟩ | ⟨w, hw, heq⟩) | ⟨j, hj, heq⟩
  · exact hnot _ (heq ▸ inv.calls call hcall)
  · exact hnot _ (heq ▸ inv.waits w hw)
  · exact hnot _ (heq ▸ inv.joined j hj)

/-- A section in which members of one group may go and no call of `join_group` moves. -/
theorem IdentityInv.quiet (inv : IdentityInv c) {g' : GroupState}
    (hseq : c'.nextMemberSeq = c.nextMemberSeq) (hcalls : c'.joinCalls = c.joinCalls)
    (hwaits : c'.joinWaits = c.joinWaits) (hjoined : c'.joined = c.joined)
    (hgroups : c'.groups = Function.update c.groups groupId g')
    (loses : (c.groups groupId).OnlyLoses g')
    (hsync : ∀ request ∈ c'.syncWaits, request ∈ c.syncWaits ∨
      Generated c request.groupId request.memberId) : IdentityInv c' := by
  have hgen : ∀ {gid m}, Generated c gid m → Generated c' gid m :=
    fun h => h.mono (by rw [hseq])
  have hgroup : ∀ gid, (c.groups gid).OnlyLoses (c'.groups gid) := by
    intro gid
    rw [hgroups]
    by_cases heq : gid = groupId
    · rw [heq, Function.update_self]
      exact loses
    · rw [Function.update_of_ne heq]
      exact .refl _
  constructor
  case nodup =>
    rw [Coordinator.memberIds, hcalls, hwaits, hjoined]
    exact inv.nodup
  case calls =>
    rw [hcalls]
    exact fun call h => hgen (inv.calls call h)
  case waits =>
    rw [hwaits]
    exact fun w h => hgen (inv.waits w h)
  case joined =>
    rw [hjoined]
    exact fun j h => hgen (inv.joined j h)
  case members =>
    exact fun gid m h => hgen (inv.members gid m ((hgroup gid).members m h))
  case attended =>
    intro gid m h
    rw [Coordinator.Waits, hwaits, hjoined]
    exact inv.attended gid m ((hgroup gid).members m h)
  case syncWaits =>
    intro request h
    rcases hsync request h with hold | hnew
    · exact hgen (inv.syncWaits request hold)
    · exact hgen hnew
  case current =>
    intro j hj hmem
    rw [hjoined] at hj
    rw [(hgroup j.groupId).window, (hgroup j.groupId).generation]
    exact inv.current j hj ((hgroup j.groupId).members _ hmem)

/-- A call that takes the group's mutex with its id. -/
theorem IdentityInv.enterJoin (inv : IdentityInv c) {call : JoinCall} {openedMs nowMs : UInt64}
    (h : c.step (.enterJoin call openedMs nowMs) = some c') : IdentityInv c' := by
  obtain ⟨hcall, hseq, hjoined, hcalls, ⟨deadlineMs, hwaits⟩, hgroups, hsync, -⟩ :=
    step_enterJoin h
  have hgen : ∀ {gid m}, Generated c gid m → Generated c' gid m :=
    fun h => h.mono (by rw [hseq])
  have hnew : ∀ j ∈ c.joined, j.response.memberId ≠ call.memberId := by
    intro j hj heq
    have hapart := (List.nodup_append.mp inv.nodup).2.2
    exact hapart call.memberId (List.mem_append_left _ (List.mem_map_of_mem hcall))
      j.response.memberId (List.mem_map_of_mem hj) heq.symm
  constructor
  case nodup =>
    have hperm : c'.memberIds.Perm c.memberIds := by
      simp only [Coordinator.memberIds, hcalls, hwaits, hjoined, List.map_cons]
      apply List.Perm.append_right
      refine List.perm_middle.trans ?_
      exact ((List.perm_cons_erase hcall).map (·.memberId)).symm.append_right _
    exact hperm.nodup_iff.mpr inv.nodup
  case calls =>
    rw [hcalls]
    exact fun other h => hgen (inv.calls other (List.mem_of_mem_erase h))
  case waits =>
    rw [hwaits]
    exact List.forall_mem_cons.mpr ⟨hgen (inv.calls call hcall), fun w h => hgen (inv.waits w h)⟩
  case joined =>
    rw [hjoined]
    exact fun j h => hgen (inv.joined j h)
  case members =>
    intro gid m hm
    rw [hgroups] at hm
    by_cases hgroup : gid = call.request.groupId
    · rw [hgroup, Function.update_self] at hm
      rw [hgroup]
      rcases mem_enterJoin.mp hm with hm | ⟨-, hm⟩
      · rw [hm]
        exact hgen (inv.calls call hcall)
      · exact hgen (inv.members _ m hm)
    · rw [Function.update_of_ne hgroup] at hm
      exact hgen (inv.members gid m hm)
  case attended =>
    intro gid m hm
    have hold : m ∈ (c.groups gid).members → c'.Waits gid m ∨
        ∃ j ∈ c'.joined, j.groupId = gid ∧ j.response.memberId = m := by
      intro hmem
      rw [hjoined]
      refine (inv.attended gid m hmem).imp_left fun ⟨w, hw, hat⟩ => ⟨w, ?_, hat⟩
      rw [hwaits]
      exact List.mem_cons_of_mem _ hw
    rw [hgroups] at hm
    by_cases hgroup : gid = call.request.groupId
    · subst hgroup
      rw [Function.update_self] at hm
      rcases mem_enterJoin.mp hm with hm | ⟨-, hm⟩
      · left
        refine ⟨⟨call.request.groupId, call.memberId, deadlineMs⟩, ?_, rfl, hm.symm⟩
        rw [hwaits]
        exact List.mem_cons_self
      · exact hold hm
    · rw [Function.update_of_ne hgroup] at hm
      exact hold hm
  case syncWaits =>
    rw [hsync]
    exact fun request h => hgen (inv.syncWaits request h)
  case current =>
    intro j hj hmem
    rw [hjoined] at hj
    rw [hgroups] at hmem ⊢
    by_cases hgroup : j.groupId = call.request.groupId
    · rw [hgroup, Function.update_self] at hmem
      -- with the window open nobody has an answer
      rcases mem_enterJoin.mp hmem with heq | ⟨hopen, hmem⟩
      · exact absurd heq (hnew j hj)
      · rw [← hgroup] at hmem hopen
        rw [(inv.current j hj hmem).1] at hopen
        cases hopen
    · rw [Function.update_of_ne hgroup] at hmem ⊢
      exact inv.current j hj hmem

theorem IdentityInv.wakeJoin (inv : IdentityInv c) {wait : JoinWait} {nowMs : UInt64}
    (h : c.step (.wakeJoin wait nowMs) = some c') : IdentityInv c' := by
  obtain ⟨hwait, hseq, hcalls, hwaits, hjoined, hgroups, hsync, -⟩ := step_wakeJoin h
  have hgen : ∀ {gid m}, Generated c gid m → Generated c' gid m :=
    fun h => h.mono (by rw [hseq])
  have hclosed : (c.groups wait.groupId).closeWindow.rebalanceInProgress = false ∧
      (c.groups wait.groupId).closeWindow.members = (c.groups wait.groupId).members := by
    rcases (c.groups wait.groupId).closeWindow_cases with ⟨-, hclose⟩ | ⟨hshut, hclose⟩
    · rw [hclose]
      exact ⟨rfl, rfl⟩
    · rw [hclose]
      exact ⟨hshut, rfl⟩
  constructor
  case nodup =>
    have hperm : c'.memberIds.Perm c.memberIds := by
      simp only [Coordinator.memberIds, hcalls, hwaits, hjoined, List.map_cons]
      refine List.perm_middle.trans ?_
      have hmove := ((List.perm_cons_erase hwait).map (·.memberId)).append_left
        (c.joinCalls.map (·.memberId))
      exact ((hmove.trans List.perm_middle).append_right _).symm
    exact hperm.nodup_iff.mpr inv.nodup
  case calls =>
    rw [hcalls]
    exact fun call h => hgen (inv.calls call h)
  case waits =>
    rw [hwaits]
    exact fun w h => hgen (inv.waits w (List.mem_of_mem_erase h))
  case joined =>
    rw [hjoined]
    exact List.forall_mem_cons.mpr ⟨hgen (inv.waits wait hwait), fun j h => hgen (inv.joined j h)⟩
  case members =>
    intro gid m hm
    rw [hgroups] at hm
    by_cases hgroup : gid = wait.groupId
    · rw [hgroup, Function.update_self, hclosed.2] at hm
      rw [hgroup]
      exact hgen (inv.members _ m hm)
    · rw [Function.update_of_ne hgroup] at hm
      exact hgen (inv.members gid m hm)
  case attended =>
    intro gid m hm
    have hmem : m ∈ (c.groups gid).members := by
      rw [hgroups] at hm
      by_cases hgroup : gid = wait.groupId
      · rw [hgroup, Function.update_self, hclosed.2] at hm
        rwa [hgroup]
      · rwa [Function.update_of_ne hgroup] at hm
    rw [Coordinator.Waits, hwaits, hjoined]
    rcases inv.attended gid m hmem with ⟨w, hw, hgid, hm⟩ | ⟨j, hj, hanswer⟩
    · by_cases heq : w = wait
      · rw [heq] at hgid hm
        exact Or.inr ⟨_, List.mem_cons_self, hgid, hm⟩
      · exact Or.inl ⟨w, (List.mem_erase_of_ne heq).mpr hw, hgid, hm⟩
    · exact Or.inr ⟨j, List.mem_cons_of_mem _ hj, hanswer⟩
  case syncWaits =>
    rw [hsync]
    exact fun request h => hgen (inv.syncWaits request h)
  case current =>
    rw [hjoined, hgroups]
    intro j hj hmem
    rcases List.mem_cons.mp hj with hj | hj
    · rw [hj, Function.update_self]
      exact ⟨hclosed.1, rfl⟩
    · by_cases hgroup : j.groupId = wait.groupId
      · rw [hgroup, Function.update_self, hclosed.2, ← hgroup] at hmem
        obtain ⟨hshut, hgen⟩ := inv.current j hj hmem
        rw [hgroup] at hshut hgen ⊢
        rw [Function.update_self]
        refine ⟨hclosed.1, ?_⟩
        rw [GroupState.closeWindow, hshut]
        exact hgen
      · rw [Function.update_of_ne hgroup] at hmem ⊢
        exact inv.current j hj hmem

theorem IdentityInv.step {e : Event} (inv : IdentityInv c) (h : c.step e = some c') :
    IdentityInv c' := by
  cases e with
  | generateMemberId request =>
      have hfresh := inv.fresh request.groupId
      obtain ⟨hseq, hmade⟩ := step_generateMemberId h
      have hgen : ∀ {gid m}, Generated c gid m → Generated c' gid m :=
        fun h => h.mono (by omega)
      subst hmade
      refine ⟨List.nodup_cons.mpr ⟨hfresh, inv.nodup⟩, ?_, fun w h => hgen (inv.waits w h),
        fun j h => hgen (inv.joined j h), fun gid m h => hgen (inv.members gid m h),
        inv.attended, fun request h => hgen (inv.syncWaits request h), inv.current⟩
      intro call h
      rcases List.mem_cons.mp h with h | h
      · rw [h]
        exact ⟨_, hseq ▸ Nat.lt_succ_self _, rfl⟩
      · exact hgen (inv.calls call h)
  | enterJoin call openedMs nowMs => exact inv.enterJoin h
  | wakeJoin wait nowMs => exact inv.wakeJoin h
  | enterSync request =>
      obtain ⟨hseq, hcalls, hwaits, hjoined, hgroups, -, -, hsync⟩ := step_enterSync h
      apply inv.quiet hseq hcalls hwaits hjoined hgroups GroupState.enterSync_onlyLoses.1
      intro w hw
      rcases hsync w hw with hold | ⟨hw, hnone⟩
      · exact .inl hold
      · rw [hw]
        right
        rcases GroupState.enterSync_cases (c.groups request.groupId) request.memberId
          request.generationId request.assignments with
          ⟨errorCode, herror, heq⟩ | ⟨-, hmem, -⟩
        · rw [heq] at hnone
          cases hnone
        · exact inv.members _ _ hmem
  | wakeSync request timedOut =>
      obtain ⟨-, response, -, rfl⟩ := step_wakeSync h
      refine ⟨inv.nodup, inv.calls, inv.waits, inv.joined, inv.members, inv.attended, ?_,
        inv.current⟩
      exact fun w hw => inv.syncWaits w (List.mem_of_mem_erase hw)
  | heartbeat groupId memberId generationId beatMs sweepMs =>
      obtain rfl := Option.some.inj h
      exact inv.quiet rfl rfl rfl rfl rfl GroupState.heartbeat_onlyLoses fun w hw => .inl hw
  | leaveGroup groupId memberId =>
      obtain rfl := Option.some.inj h
      exact inv.quiet rfl rfl rfl rfl rfl GroupState.leaveGroup_onlyLoses fun w hw => .inl hw

/-- An accepted pair is recognized. -/
theorem IdentityInv.recognized (inv : IdentityInv c) {generationId : UInt32}
    (hmem : memberId ∈ (c.groups groupId).members)
    (hgen : generationId = (c.groups groupId).generationId) :
    Recognized c groupId memberId generationId := by
  have hgenerated := inv.members groupId memberId hmem
  have hagrees : ∀ j ∈ c.joined, j.response.memberId = memberId →
      j.groupId = groupId ∧ j.response.generationId = generationId := by
    intro j hj heq
    have hgroup : j.groupId = groupId := hgenerated.group (heq ▸ inv.joined j hj)
    refine ⟨hgroup, ?_⟩
    rw [hgen, ← hgroup]
    apply (inv.current j hj ?_).2
    rw [hgroup, heq]
    exact hmem
  refine ⟨hgen, hmem, hgenerated, hagrees, ?_⟩
  intro hout
  obtain ⟨j, hj, hgroup, heq⟩ := (inv.attended groupId memberId hmem).resolve_left hout
  exact ⟨j, hj, hgroup, heq, (hagrees j hj heq).2⟩

/-- A pair that `sync_group` takes without an error is recognized. -/
theorem IdentityInv.enterSync (inv : IdentityInv c) {generationId : UInt32}
    {assignments : List SyncGroupAssignment}
    (h : ∀ response, ((c.groups groupId).enterSync memberId generationId assignments).2 =
      some response → response.errorCode = .none) :
    Recognized c groupId memberId generationId := by
  rcases GroupState.enterSync_cases (c.groups groupId) memberId generationId assignments with
    ⟨errorCode, herror, heq⟩ | ⟨hgen, hmem, -⟩
  · rw [heq] at h
    exact absurd (h _ rfl) herror
  · exact inv.recognized hmem hgen

/-- What was answered stays answered. -/
theorem step_joined {e : Event} (h : c.step e = some c') : c.joined ⊆ c'.joined := by
  cases e with
  | generateMemberId request =>
      obtain ⟨-, rfl⟩ := step_generateMemberId h
      exact List.Subset.refl _
  | enterJoin call openedMs nowMs =>
      obtain ⟨-, -, hjoined, -⟩ := step_enterJoin h
      rw [hjoined]
      exact List.Subset.refl _
  | wakeJoin wait nowMs =>
      obtain ⟨-, -, -, -, hjoined, -⟩ := step_wakeJoin h
      rw [hjoined]
      exact List.subset_cons_self _ _
  | enterSync request =>
      obtain ⟨-, -, -, hjoined, -⟩ := step_enterSync h
      rw [hjoined]
      exact List.Subset.refl _
  | wakeSync request timedOut =>
      obtain ⟨-, response, -, rfl⟩ := step_wakeSync h
      exact List.Subset.refl _
  | heartbeat gid memberId generationId beatMs sweepMs =>
      obtain rfl := Option.some.inj h
      exact List.Subset.refl _
  | leaveGroup gid memberId =>
      obtain rfl := Option.some.inj h
      exact List.Subset.refl _

/-- A timely call presents a pair that was issued. -/
theorem IdentityInv.timely (inv : IdentityInv c) {e : Event} {request : SyncGroupRequest}
    (h : request ∈ c.timely e) :
    Issued c request.groupId request.memberId request.generationId := by
  cases e with
  | enterSync entering =>
      simp only [Coordinator.timely, List.mem_ite_nil_right, List.mem_singleton] at h
      obtain ⟨⟨hnone, hout⟩, rfl⟩ := h
      have hwaits : ∀ response, ((c.groups request.groupId).enterSync request.memberId
          request.generationId request.assignments).2 = some response →
            response.errorCode = .none := by
        intro response hresponse
        rw [hresponse] at hnone
        cases hnone
      exact (inv.enterSync hwaits).issued hout
  | generateMemberId | enterJoin | wakeJoin | wakeSync | heartbeat | leaveGroup => cases h

/-- What one process lifetime keeps. -/
structure LifetimeInv (s : Lifetimes) : Prop where
  identity : IdentityInv s.coordinator
  timely : ∀ request ∈ s.timely,
    Issued s.coordinator request.groupId request.memberId request.generationId

theorem lifetimeInv_start {earlier : List Joined} : LifetimeInv ⟨{}, [], earlier⟩ where
  identity := identityInv_start
  timely _ h := by cases h

theorem LifetimeInv.step {s s' : Lifetimes} {e : LifetimeEvent} (inv : LifetimeInv s)
    (h : s.step e = some s') : LifetimeInv s' := by
  cases e with
  | call e =>
      obtain ⟨c, hc, rfl⟩ := Option.map_eq_some_iff.mp h
      refine ⟨inv.identity.step hc, ?_⟩
      intro request hrequest
      have hissued : Issued s.coordinator request.groupId request.memberId
          request.generationId := by
        rcases List.mem_append.mp hrequest with hnew | hold
        · exact inv.identity.timely hnew
        · exact inv.timely request hold
      obtain ⟨j, hj, hpair⟩ := hissued
      exact ⟨j, step_joined hc hj, hpair⟩
  | restart =>
      obtain rfl := Option.some.inj h
      exact lifetimeInv_start

theorem LifetimeInv.uniqueIdentities {s : Lifetimes} (inv : LifetimeInv s) :
    UniqueIdentities s where
  unique := by
    have hjoined := (List.nodup_append.mp inv.identity.nodup).2.1
    exact List.pairwise_map.mp hjoined
  heartbeat groupId memberId generationId beatMs sweepMs h := by
    obtain ⟨hmem, hgen, -⟩ := GroupState.heartbeat_none.mp h
    exact inv.identity.recognized hmem hgen
  sync groupId memberId generationId assignments h := inv.identity.enterSync h
  wake request hrequest timedOut response h hnone :=
    ⟨(GroupState.wakeSync_none h hnone).2.1, inv.identity.syncWaits request hrequest,
      inv.timely request⟩

/-- In every run with any number of restarts, the identities of the running process are
unique among its own, and only what it issued is accepted. -/
theorem identities_unique {visits : List (Lifetimes × LifetimeEvent)} {s : Lifetimes}
    (run : Run Lifetimes.step {} visits s) : UniqueIdentities s :=
  (run.always (I := LifetimeInv) lifetimeInv_start
    fun _ _ _ inv hstep => inv.step hstep).uniqueIdentities

/-- One member joins alone and is answered. -/
def joinsAlone : List LifetimeEvent :=
  [.call (.generateMemberId joinConsumers), .call (.enterJoin ⟨joinConsumers, consumer 0⟩ 0 0),
    .call (.wakeJoin ⟨consumers, consumer 0, 1000⟩ 1000)]

theorem identities_unique_restarted :
    ∃ visits s, Run Lifetimes.step {} visits s ∧ s.earlier ≠ [] ∧ s.timely ≠ [] ∧
      UniqueIdentities s := by
  have seen : (execute Lifetimes.step {} (joinsAlone ++ [.restart] ++ joinsAlone ++
      [.call (.enterSync ⟨consumers, consumer 0, 1, []⟩)])).map
        (fun s => (s.earlier.length, s.timely.length)) = some (1, 1) := by
    decide
  obtain ⟨s, run, hlength⟩ := run_showing seen
  obtain ⟨hearlier, htimely⟩ := Prod.mk.inj hlength
  refine ⟨_, s, run, ?_, ?_, identities_unique run⟩
  · exact List.ne_nil_of_length_pos (by omega)
  · exact List.ne_nil_of_length_pos (by omega)

/-- A restarted coordinator answers another call with a pair that a call before had. -/
theorem identity_reissued :
    ¬ ∀ (visits : List (Lifetimes × LifetimeEvent)) (s : Lifetimes),
      Run Lifetimes.step {} visits s →
      (s.coordinator.joined ++ s.earlier).Pairwise fun j j' =>
        (j.response.memberId, j.response.generationId) ≠
          (j'.response.memberId, j'.response.generationId) := by
  intro claim
  have seen : (execute Lifetimes.step {} (joinsAlone ++ [.restart] ++ joinsAlone)).map
      (fun s => s.coordinator.joined ++ s.earlier) =
      some (List.replicate 2
        ⟨consumers, ⟨.none, 1, consumer 0, consumer 0, [consumer 0]⟩⟩) := by
    decide
  obtain ⟨s, run, hjoined⟩ := run_showing seen
  have hapart := claim _ s run
  rw [hjoined] at hapart
  exact absurd hapart (by decide)

end MiniKafka.Group
