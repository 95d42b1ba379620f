import MiniKafka.Group.Coordinator
import MiniKafka.Group.RangeAssignment

/-!
# One assignment for each generation

Clients that post as `mk-consume` does: the member that its `JoinGroupResponse` names the
leader posts the range assignment of the members it was told, once. All answers of a
generation name one leader, so a generation has at most one posted assignment, and every
`SyncGroup` of the generation is answered from it.
-/

namespace MiniKafka.Group

open Foundations

variable {g g' : GroupState} {c c' : Coordinator} {groupId : GroupId}
  {answered answered' : JoinGroupResponse → Prop}

/-- The members the client decodes, whose count is 32 bits on the wire. -/
def JoinGroupResponse.received (r : JoinGroupResponse) : List MemberId :=
  r.members.take (UInt32.ofNat r.members.length).toNat

/-- The post of the leader that was answered `r`. -/
structure LeaderPost (c : Coordinator) (request : SyncGroupRequest) (r : JoinGroupResponse)
    (partitionCount : UInt32) : Prop where
  answered : c.Answered request.groupId r
  own : r.memberId = request.memberId
  leads : r.leaderId = request.memberId
  generation : r.generationId = request.generationId
  positive : 1 ≤ partitionCount
  computed : request.assignments = rangeAssignments r.received partitionCount

/-- The post that this answer allows was not sent before. -/
def FirstPost (c : Coordinator) (request : SyncGroupRequest) : Prop :=
  ∀ p ∈ c.posts, p.groupId = request.groupId → p.memberId = request.memberId →
    p.generationId ≠ request.generationId

/-- Assignments are posted by leaders, once for each answer, and a window is closed with a
generation that is larger. -/
def PostsAsLeader (c : Coordinator) : Event → Prop
  | .enterSync request => request.assignments ≠ [] →
      FirstPost c request ∧ ∃ r partitionCount, LeaderPost c request r partitionCount
  | .wakeJoin wait _ =>
      (c.groups wait.groupId).rebalanceInProgress = true →
        (c.groups wait.groupId).generationId.toNat + 1 < 2 ^ 32
  | _ => True

/-- What the clients of a coordinator are assigned. -/
structure ExclusiveAssignment (c : Coordinator) : Prop where
  /-- An answer is the member's slice of the assignment posted for its generation. -/
  posted : ∀ s ∈ c.synced, s.response.errorCode = .none →
    ∃ p ∈ c.posts, p.groupId = s.request.groupId ∧
      p.generationId = s.request.generationId ∧
      s.response.partitions = slice p.assignments s.request.memberId
  unique : ∀ p ∈ c.posts, ∀ p' ∈ c.posts, p.groupId = p'.groupId →
    p.generationId = p'.generationId → p = p'
  disjoint : ∀ s ∈ c.synced, ∀ s' ∈ c.synced, s.response.errorCode = .none →
    s'.response.errorCode = .none → s.request.groupId = s'.request.groupId →
    s.request.generationId = s'.request.generationId →
    s.request.memberId ≠ s'.request.memberId →
    List.Disjoint s.response.partitions s'.response.partitions
  /-- The slices of the members listed to the leader are the partitions of the topic. -/
  cover : ∀ p ∈ c.posts, ∃ r partitionCount, LeaderPost c p r partitionCount ∧
    ∀ q, (∃ m ∈ r.received, q ∈ slice p.assignments m) ↔ q < partitionCount

/-- The answers of a generation name one leader, which is the group's while the generation
is installed. -/
structure LeaderInv (g : GroupState) (answered : JoinGroupResponse → Prop) : Prop where
  past : ∀ r, answered r → r.generationId ≤ g.generationId
  current : ∀ r, answered r → r.generationId = g.generationId → r.leaderId = g.leaderId
  agree : ∀ r r', answered r → answered r' → r.generationId = r'.generationId →
    r.leaderId = r'.leaderId
  listed : ∀ r, answered r → r.members.Nodup

theorem LeaderInv.mono (inv : LeaderInv g answered) (sub : ∀ r, answered' r → answered r) :
    LeaderInv g answered' where
  past r hr := inv.past r (sub r hr)
  current r hr := inv.current r (sub r hr)
  agree r r' hr hr' := inv.agree r r' (sub r hr) (sub r' hr')
  listed r hr := inv.listed r (sub r hr)

theorem leaderInv_start : LeaderInv {} (fun _ => False) :=
  ⟨fun _ h => h.elim, fun _ h => h.elim, fun _ _ h => h.elim, fun _ h => h.elim⟩

theorem LeaderInv.congr (inv : LeaderInv g answered)
    (generation : g'.generationId = g.generationId) (leader : g'.leaderId = g.leaderId) :
    LeaderInv g' answered := by
  refine ⟨?_, ?_, inv.agree, inv.listed⟩
  · rw [generation]
    exact inv.past
  · rw [generation, leader]
    exact inv.current

theorem LeaderInv.finalize (inv : LeaderInv g answered)
    (fits : g.generationId.toNat + 1 < 2 ^ 32) : LeaderInv g.finalize answered := by
  have hpast : ∀ r, answered r → r.generationId < g.finalize.generationId := by
    intro r hr
    exact UInt32.lt_of_le_of_lt (inv.past r hr) (GroupState.lt_finalize fits)
  refine ⟨fun r hr => UInt32.le_of_lt (hpast r hr), ?_, inv.agree, inv.listed⟩
  intro r hr heq
  exact absurd heq (UInt32.ne_of_lt (hpast r hr))

theorem LeaderInv.answer (inv : LeaderInv g answered) (memberId : MemberId) :
    LeaderInv g fun r => r = g.joinResponse memberId ∨ answered r := by
  have hcurrent : ∀ r, r = g.joinResponse memberId ∨ answered r →
      r.generationId = g.generationId → r.leaderId = g.leaderId := by
    intro r hr hgen
    rcases hr with hr | hr
    · rw [hr]
      rfl
    · exact inv.current r hr hgen
  constructor
  · intro r hr
    rcases hr with hr | hr
    · rw [hr]
      exact UInt32.le_refl _
    · exact inv.past r hr
  · exact hcurrent
  · intro r r' hr hr' hgen
    rcases hr with hr | hr
    · rw [hcurrent r' hr' (by rw [← hgen, hr]; rfl), hr]
      rfl
    · rcases hr' with hr' | hr'
      · rw [hcurrent r (.inr hr) (by rw [hgen, hr']; rfl), hr']
        rfl
      · exact inv.agree r r' hr hr' hgen
  · intro r hr
    rcases hr with hr | hr
    · rw [hr]
      exact Std.ExtTreeMap.nodup_keys
    · exact inv.listed r hr

def LeadersInv (c : Coordinator) : Prop :=
  ∀ groupId, LeaderInv (c.groups groupId) (c.Answered groupId)

theorem leadersInv_start : LeadersInv {} := by
  intro groupId
  apply leaderInv_start.mono
  intro r hr
  cases hr

theorem LeadersInv.step {e : Event} (policy : PostsAsLeader c e) (inv : LeadersInv c)
    (h : c.step e = some c') : LeadersInv c' := by
  apply step_forall (I := fun g _ answered => LeaderInv g answered)
    (fun _ sub inv => inv.mono sub) inv h
  have old := inv e.groupId
  cases e with
  | generateMemberId request =>
      obtain ⟨-, rfl⟩ := step_generateMemberId h
      exact old
  | enterJoin call openedMs nowMs =>
      obtain ⟨-, -, hjoined, -, -, hgroups, -⟩ := step_enterJoin h
      rw [hgroups, Event.groupId, Function.update_self]
      apply (old.congr GroupState.enterJoin_generation GroupState.enterJoin_leader).mono
      intro r hr
      rwa [Coordinator.Answered, hjoined] at hr
  | wakeJoin wait nowMs =>
      obtain ⟨-, -, -, -, hjoined, hgroups, -⟩ := step_wakeJoin h
      rw [hgroups, Event.groupId, Function.update_self]
      have hclosed : LeaderInv (c.groups wait.groupId).closeWindow
          (c.Answered wait.groupId) := by
        rcases (c.groups wait.groupId).closeWindow_cases with ⟨hopen, hclose⟩ | ⟨-, hclose⟩
        · rw [hclose]
          exact old.finalize (policy hopen)
        · rw [hclose]
          exact old
      apply (hclosed.answer wait.memberId).mono
      intro r hr
      exact (answered_cons hjoined hr).imp_left And.right
  | enterSync request =>
      obtain ⟨-, -, -, hjoined, hgroups, -⟩ := step_enterSync h
      have hsync : (c.groups request.groupId).OnlyLoses ((c.groups request.groupId).enterSync
          request.memberId request.generationId request.assignments).1 ∧ _ :=
        GroupState.enterSync_onlyLoses
      rw [hgroups, Event.groupId, Function.update_self]
      apply (old.congr hsync.1.generation hsync.1.leader).mono
      intro r hr
      rwa [Coordinator.Answered, hjoined] at hr
  | wakeSync request timedOut =>
      obtain ⟨-, response, -, rfl⟩ := step_wakeSync h
      exact old
  | heartbeat groupId memberId generationId beatMs sweepMs =>
      obtain rfl := Option.some.inj h
      simp only [Coordinator.setGroup, Event.groupId, Function.update_self]
      have hloses : (c.groups groupId).OnlyLoses ((c.groups groupId).heartbeat memberId
          generationId beatMs sweepMs).1 :=
        GroupState.heartbeat_onlyLoses
      exact old.congr hloses.generation hloses.leader
  | leaveGroup groupId memberId =>
      obtain rfl := Option.some.inj h
      simp only [Coordinator.setGroup, Event.groupId, Function.update_self]
      have hloses : (c.groups groupId).OnlyLoses ((c.groups groupId).leaveGroup memberId) :=
        GroupState.leaveGroup_onlyLoses
      exact old.congr hloses.generation hloses.leader

/-- What a group answers from is the assignment that was posted for its generation. -/
def ReadyFrom (c : Coordinator) (groupId : GroupId) : Prop :=
  ∃ p ∈ c.posts, p.groupId = groupId ∧
    p.generationId = (c.groups groupId).generationId ∧
    (c.groups groupId).assignment = assignmentOf p.assignments

/-- A response is the slice of an assignment that was posted for its generation. -/
def FromPost (c : Coordinator) (s : Synced) : Prop :=
  ∃ p ∈ c.posts, p.groupId = s.request.groupId ∧
    p.generationId = s.request.generationId ∧
    s.response.partitions = slice p.assignments s.request.memberId

/-- The posts, the assignments that groups hold and the answers given from them. -/
structure PostInv (c : Coordinator) : Prop where
  posted : ∀ p ∈ c.posts, p.assignments ≠ [] ∧
    ∃ r partitionCount, LeaderPost c p r partitionCount
  unique : ∀ p ∈ c.posts, ∀ p' ∈ c.posts, p.groupId = p'.groupId →
    p.generationId = p'.generationId → p = p'
  ready : ∀ groupId, (c.groups groupId).syncReady = true → ReadyFrom c groupId
  synced : ∀ s ∈ c.synced, s.response.errorCode = .none → FromPost c s

theorem postInv_start : PostInv {} where
  posted _ h := by cases h
  unique _ h := by cases h
  ready _ h := by cases h
  synced _ h := by cases h

theorem LeaderPost.mono {request : SyncGroupRequest} {r : JoinGroupResponse}
    {partitionCount : UInt32} (post : LeaderPost c request r partitionCount)
    (sub : c.joined ⊆ c'.joined) : LeaderPost c' request r partitionCount :=
  { post with answered := sub post.answered }

theorem FromPost.mono {s : Synced} (h : FromPost c s) (sub : c.posts ⊆ c'.posts) :
    FromPost c' s := by
  obtain ⟨p, hp, hrest⟩ := h
  exact ⟨p, sub hp, hrest⟩

/-- What the group answers from is the same, or is gone. -/
def KeepsSync (g g' : GroupState) : Prop :=
  g'.syncReady = true → g.SameSync g' ∧ g'.generationId = g.generationId

theorem KeepsSync.refl (g : GroupState) : KeepsSync g g := fun _ => ⟨⟨rfl, rfl⟩, rfl⟩

theorem KeepsSync.update (h : KeepsSync (c.groups groupId) g')
    (hgroups : c'.groups = Function.update c.groups groupId g') (other : GroupId) :
    KeepsSync (c.groups other) (c'.groups other) := by
  rw [hgroups]
  by_cases hother : other = groupId
  · rw [hother, Function.update_self]
    exact h
  · rw [Function.update_of_ne hother]
    exact .refl _

/-- Nothing is posted, and what is answered comes from a post. -/
theorem PostInv.quiet (inv : PostInv c) (hposts : c'.posts = c.posts)
    (sub : c.joined ⊆ c'.joined)
    (hsynced : ∀ s ∈ c'.synced, s ∈ c.synced ∨
      (s.response.errorCode = .none → FromPost c s))
    (hgroups : ∀ groupId, KeepsSync (c.groups groupId) (c'.groups groupId)) :
    PostInv c' where
  posted p hp := by
    rw [hposts] at hp
    obtain ⟨hne, r, partitionCount, hpost⟩ := inv.posted p hp
    exact ⟨hne, r, partitionCount, hpost.mono sub⟩
  unique := by
    rw [hposts]
    exact inv.unique
  ready groupId hready := by
    obtain ⟨hsame, hgen⟩ := hgroups groupId hready
    rw [hsame.ready] at hready
    obtain ⟨p, hp, hgroup, hpgen, hassign⟩ := inv.ready groupId hready
    refine ⟨p, ?_, hgroup, ?_, ?_⟩
    · rwa [hposts]
    · rw [hgen]
      exact hpgen
    · rw [hsame.assigned]
      exact hassign
  synced s hs hnone := by
    have hfrom : FromPost c s := by
      rcases hsynced s hs with hold | hnew
      · exact inv.synced s hold hnone
      · exact hnew hnone
    apply hfrom.mono
    rw [hposts]
    exact List.Subset.refl _

/-- Two posts of one generation come from one leader, which posts once. -/
theorem PostInv.fresh (inv : PostInv c) (leaders : LeadersInv c) {request : SyncGroupRequest}
    (first : FirstPost c request) {r : JoinGroupResponse} {partitionCount : UInt32}
    (post : LeaderPost c request r partitionCount) {p : SyncGroupRequest} (hp : p ∈ c.posts)
    (hgroup : p.groupId = request.groupId) : p.generationId ≠ request.generationId := by
  obtain ⟨-, r', _, hpost⟩ := inv.posted p hp
  intro hgen
  have hleader : r'.leaderId = r.leaderId := by
    apply (leaders request.groupId).agree r' r
    · rw [← hgroup]
      exact hpost.answered
    · exact post.answered
    · rw [hpost.generation, post.generation, hgen]
  apply first p hp hgroup _ hgen
  rw [← hpost.leads, ← post.leads, hleader]

/-- A group that answers answers from a post. -/
theorem ReadyFrom.response {request : SyncGroupRequest} (h : ReadyFrom c request.groupId)
    (hgen : request.generationId = (c.groups request.groupId).generationId) :
    FromPost c ⟨request, (c.groups request.groupId).syncResponse request.memberId⟩ := by
  obtain ⟨p, hp, hgroup, hpgen, hassign⟩ := h
  refine ⟨p, hp, hgroup, hpgen.trans hgen.symm, ?_⟩
  simp only [GroupState.syncResponse, slice, hassign]

/-- A post, whether the group takes it or not. -/
theorem PostInv.post (inv : PostInv c) (leaders : LeadersInv c) {request : SyncGroupRequest}
    (hne : request.assignments ≠ []) (policy : PostsAsLeader c (.enterSync request))
    (h : c.step (.enterSync request) = some c') : PostInv c' := by
  obtain ⟨-, -, -, hjoined, hgroups, hposts, hsynced, -⟩ := step_enterSync h
  obtain ⟨first, r, partitionCount, post⟩ := policy hne
  rw [if_neg hne] at hposts
  have hsub : c.posts ⊆ c'.posts := by
    rw [hposts]
    exact List.subset_cons_self _ _
  have hjsub : c.joined ⊆ c'.joined := by
    rw [hjoined]
    exact List.Subset.refl _
  have hother : ∀ groupId, groupId ≠ request.groupId →
      c'.groups groupId = c.groups groupId := by
    intro groupId hgroup
    rw [hgroups, Function.update_of_ne hgroup]
  have hkeeps : ∀ groupId, c'.groups groupId = c.groups groupId →
      (c'.groups groupId).syncReady = true → ReadyFrom c' groupId := by
    intro groupId hsame hready
    rw [hsame] at hready
    obtain ⟨p, hp, hrest⟩ := inv.ready groupId hready
    refine ⟨p, hsub hp, ?_⟩
    rw [hsame]
    exact hrest
  have hposted : ∀ p ∈ c'.posts, p.assignments ≠ [] ∧
      ∃ r partitionCount, LeaderPost c' p r partitionCount := by
    intro p hp
    rw [hposts] at hp
    rcases List.mem_cons.mp hp with hp | hp
    · rw [hp]
      exact ⟨hne, r, partitionCount, post.mono hjsub⟩
    · obtain ⟨hpne, r', partitionCount', hpost⟩ := inv.posted p hp
      exact ⟨hpne, r', partitionCount', hpost.mono hjsub⟩
  have hunique : ∀ p ∈ c'.posts, ∀ p' ∈ c'.posts, p.groupId = p'.groupId →
      p.generationId = p'.generationId → p = p' := by
    intro p hp p' hp' hgroup hgen
    rw [hposts] at hp hp'
    rcases List.mem_cons.mp hp with hp | hp <;> rcases List.mem_cons.mp hp' with hp' | hp'
    · rw [hp, hp']
    · rw [hp] at hgroup hgen
      exact absurd hgen.symm (inv.fresh leaders first post hp' hgroup.symm)
    · rw [hp'] at hgroup hgen
      exact absurd hgen (inv.fresh leaders first post hp hgroup)
    · exact inv.unique p hp p' hp' hgroup hgen
  have hold : ∀ s ∈ c.synced, s.response.errorCode = .none → FromPost c' s :=
    fun s hs hnone => (inv.synced s hs hnone).mono hsub
  rcases GroupState.enterSync_cases (c.groups request.groupId) request.memberId
    request.generationId request.assignments with
    ⟨errorCode, herror, heq⟩ | ⟨hgen, -, ⟨-, heq⟩ | ⟨hnil, -⟩ | ⟨hnil, -⟩⟩
  · refine ⟨hposted, hunique, ?_, ?_⟩
    · intro groupId
      apply hkeeps
      by_cases hgroup : groupId = request.groupId
      · rw [hgroup, hgroups, Function.update_self, heq]
      · exact hother groupId hgroup
    · intro s hs hnone
      rw [hsynced, heq] at hs
      rcases List.mem_cons.mp hs with hs | hs
      · rw [hs] at hnone
        exact absurd hnone herror
      · exact hold s hs hnone
  · have hready : ReadyFrom c' request.groupId := by
      refine ⟨request, ?_, rfl, ?_, ?_⟩
      · rw [hposts]
        exact List.mem_cons_self
      · rw [hgroups, Function.update_self, heq]
        exact hgen
      · rw [hgroups, Function.update_self, heq]
        rfl
    refine ⟨hposted, hunique, ?_, ?_⟩
    · intro groupId hgroupReady
      by_cases hgroup : groupId = request.groupId
      · rw [hgroup]
        exact hready
      · exact hkeeps groupId (hother groupId hgroup) hgroupReady
    · intro s hs hnone
      rw [hsynced, heq] at hs
      rcases List.mem_cons.mp hs with hs | hs
      · rw [hs]
        have hnow : c'.groups request.groupId =
            (c.groups request.groupId).postAssignments request.assignments := by
          rw [hgroups, Function.update_self, heq]
        have hresponse := hready.response (by rw [hnow]; exact hgen)
        rwa [hnow] at hresponse
      · exact hold s hs hnone
  · exact absurd hnil hne
  · exact absurd hnil hne

/-- A group that stays as it is gives one more answer. -/
theorem PostInv.oneAnswer (inv : PostInv c) {groupId : GroupId} {answer : Synced}
    (hposts : c'.posts = c.posts) (sub : c.joined ⊆ c'.joined)
    (hgroups : c'.groups = Function.update c.groups groupId (c.groups groupId))
    (hsynced : c'.synced = answer :: c.synced)
    (hanswer : answer.response.errorCode = .none → FromPost c answer) : PostInv c' := by
  apply inv.quiet hposts sub _ ((KeepsSync.refl _).update hgroups)
  intro s hs
  rw [hsynced] at hs
  rcases List.mem_cons.mp hs with rfl | hs
  · exact .inr hanswer
  · exact .inl hs

/-- A request without assignments. -/
theorem PostInv.ask (inv : PostInv c) {request : SyncGroupRequest}
    (hnil : request.assignments = []) (h : c.step (.enterSync request) = some c') :
    PostInv c' := by
  obtain ⟨-, -, -, hjoined, hgroups, hposts, hsynced, -⟩ := step_enterSync h
  rw [if_pos hnil] at hposts
  have hsub : c.joined ⊆ c'.joined := by
    rw [hjoined]
    exact List.Subset.refl _
  rcases GroupState.enterSync_cases (c.groups request.groupId) request.memberId
    request.generationId request.assignments with
    ⟨errorCode, herror, heq⟩ | ⟨hgen, -, ⟨hne, -⟩ | ⟨-, hready, heq⟩ | ⟨-, -, heq⟩⟩
  · rw [heq] at hgroups hsynced
    exact inv.oneAnswer hposts hsub hgroups hsynced fun hnone => absurd hnone herror
  · exact absurd hnil hne
  · rw [heq] at hgroups hsynced
    exact inv.oneAnswer hposts hsub hgroups hsynced fun _ => (inv.ready _ hready).response hgen
  · rw [heq] at hgroups hsynced
    apply inv.quiet hposts hsub _ ((KeepsSync.refl _).update hgroups)
    intro s hs
    rw [hsynced] at hs
    exact .inl hs

theorem PostInv.step {e : Event} (policy : PostsAsLeader c e) (leaders : LeadersInv c)
    (inv : PostInv c) (h : c.step e = some c') : PostInv c' := by
  cases e with
  | generateMemberId request =>
      obtain ⟨-, rfl⟩ := step_generateMemberId h
      exact inv.quiet rfl (List.Subset.refl _) (fun s hs => .inl hs) fun _ => .refl _
  | enterJoin call openedMs nowMs =>
      obtain ⟨-, -, hjoined, -, -, hgroups, -, hposts, hsynced⟩ := step_enterJoin h
      apply inv.quiet hposts
      · rw [hjoined]
        exact List.Subset.refl _
      · intro s hs
        rw [hsynced] at hs
        exact .inl hs
      · apply KeepsSync.update _ hgroups
        exact fun _ => ⟨GroupState.enterJoin_sameSync, GroupState.enterJoin_generation⟩
  | wakeJoin wait nowMs =>
      obtain ⟨-, -, -, -, hjoined, hgroups, -, hposts, hsynced⟩ := step_wakeJoin h
      apply inv.quiet hposts
      · rw [hjoined]
        exact List.subset_cons_self _ _
      · intro s hs
        rw [hsynced] at hs
        exact .inl hs
      · apply KeepsSync.update _ hgroups
        rcases (c.groups wait.groupId).closeWindow_cases with ⟨-, hclose⟩ | ⟨-, hclose⟩
        · rw [hclose]
          intro hready
          cases hready
        · rw [hclose]
          exact .refl _
  | enterSync request =>
      by_cases hnil : request.assignments = []
      · exact inv.ask hnil h
      · exact inv.post leaders hnil policy h
  | wakeSync request timedOut =>
      obtain ⟨-, response, hresponse, rfl⟩ := step_wakeSync h
      refine inv.quiet ?_ (List.Subset.refl _) ?_ fun _ => .refl _
      · rfl
      · intro s hs
        rcases List.mem_cons.mp hs with hs | hs
        · rw [hs]
          refine .inr fun hnone => ?_
          obtain ⟨hready, hgen, rfl⟩ := GroupState.wakeSync_none hresponse hnone
          exact (inv.ready _ hready).response hgen
        · exact .inl hs
  | heartbeat groupId memberId generationId beatMs sweepMs =>
      obtain rfl := Option.some.inj h
      refine inv.quiet ?_ (List.Subset.refl _) (fun s hs => .inl hs) ?_
      · rfl
      · apply KeepsSync.update _ rfl
        exact fun _ =>
          ⟨GroupState.heartbeat_sameSync, GroupState.heartbeat_onlyLoses.generation⟩
  | leaveGroup groupId memberId =>
      obtain rfl := Option.some.inj h
      refine inv.quiet ?_ (List.Subset.refl _) (fun s hs => .inl hs) ?_
      · rfl
      · apply KeepsSync.update _ rfl
        exact fun _ =>
          ⟨GroupState.leaveGroup_sameSync, GroupState.leaveGroup_onlyLoses.generation⟩

/-- The members a leader was told are distinct and fit its division. -/
theorem received_nodup {r : JoinGroupResponse} (h : r.members.Nodup) : r.received.Nodup :=
  h.sublist (List.take_sublist _ _)

theorem received_length (r : JoinGroupResponse) : r.received.length < 2 ^ 32 := by
  have hlt := (UInt32.ofNat r.members.length).toNat_lt
  exact lt_of_le_of_lt (List.length_take_le _ _) hlt

/-- In every run in which clients post as leaders do, the partitions of a topic are assigned
completely and to one member each, in every generation of every group. -/
theorem assignment_exclusive {visits : List (Coordinator × Event)}
    (run : Run Coordinator.step {} visits c) (policy : Guarded PostsAsLeader visits) :
    ExclusiveAssignment c := by
  have inv : LeadersInv c ∧ PostInv c := by
    apply run.invariant policy (I := fun c => LeadersInv c ∧ PostInv c)
      ⟨leadersInv_start, postInv_start⟩
    intro t e u hpolicy hinv hstep
    exact ⟨hinv.1.step hpolicy hstep, hinv.2.step hpolicy hinv.1 hstep⟩
  obtain ⟨leaders, posts⟩ := inv
  refine ⟨posts.synced, posts.unique, ?_, ?_⟩
  · intro s hs s' hs' hnone hnone' hgroup hgen hmember
    obtain ⟨p, hp, hpgroup, hpgen, hslice⟩ := posts.synced s hs hnone
    obtain ⟨p', hp', hpgroup', hpgen', hslice'⟩ := posts.synced s' hs' hnone'
    have hsame : p' = p := by
      apply posts.unique p' hp' p hp
      · rw [hpgroup, hpgroup', hgroup]
      · rw [hpgen, hpgen', hgen]
    obtain ⟨-, r, partitionCount, hpost⟩ := posts.posted p hp
    have hnodup := received_nodup ((leaders p.groupId).listed r hpost.answered)
    rw [hslice, hslice', hsame, hpost.computed]
    exact rangeAssignments_disjoint (received_length r) hnodup hmember
  · intro p hp
    obtain ⟨hne, r, partitionCount, hpost⟩ := posts.posted p hp
    refine ⟨r, partitionCount, hpost, ?_⟩
    intro q
    have hreceived : r.received ≠ [] := by
      intro hnil
      apply hne
      rw [hpost.computed, hnil]
      rfl
    have hnodup := received_nodup ((leaders p.groupId).listed r hpost.answered)
    rw [hpost.computed]
    exact rangeAssignments_cover hreceived (received_length r) hnodup

/-- The policy for a topic with a known number of partitions, which can be checked. -/
def PostsFor (partitionCount : UInt32) (c : Coordinator) : Event → Prop
  | .enterSync request => request.assignments ≠ [] →
      FirstPost c request ∧ ∃ j ∈ c.joined, j.groupId = request.groupId ∧
        j.response.memberId = request.memberId ∧ j.response.leaderId = request.memberId ∧
        j.response.generationId = request.generationId ∧ 1 ≤ partitionCount ∧
        request.assignments = rangeAssignments j.response.received partitionCount
  | .wakeJoin wait _ =>
      (c.groups wait.groupId).rebalanceInProgress = true →
        (c.groups wait.groupId).generationId.toNat + 1 < 2 ^ 32
  | _ => True

instance (c : Coordinator) (request : SyncGroupRequest) : Decidable (FirstPost c request) :=
  List.decidableBAll (fun p : SyncGroupRequest => p.groupId = request.groupId →
    p.memberId = request.memberId → p.generationId ≠ request.generationId) c.posts

instance decidablePostsFor (partitionCount : UInt32) (c : Coordinator) :
    ∀ e, Decidable (PostsFor partitionCount c e)
  | .enterSync request =>
      have : Decidable (∃ j ∈ c.joined, j.groupId = request.groupId ∧
          j.response.memberId = request.memberId ∧ j.response.leaderId = request.memberId ∧
          j.response.generationId = request.generationId ∧ 1 ≤ partitionCount ∧
          request.assignments = rangeAssignments j.response.received partitionCount) :=
        List.decidableBEx _ c.joined
      inferInstanceAs (Decidable (_ → _ ∧ _))
  | .wakeJoin _ _ => inferInstanceAs (Decidable (_ → _))
  | .generateMemberId _ | .enterJoin _ _ _ | .wakeSync _ _ | .heartbeat _ _ _ _ _
  | .leaveGroup _ _ => .isTrue trivial

theorem PostsFor.postsAsLeader {partitionCount : UInt32} {e : Event}
    (h : PostsFor partitionCount c e) : PostsAsLeader c e := by
  cases e with
  | enterSync request =>
      intro hne
      obtain ⟨hfirst, j, hj, hgroup, hown, hleads, hgen, hpos, hcomputed⟩ := h hne
      have hanswered : c.Answered request.groupId j.response := by
        rw [← hgroup]
        exact hj
      exact ⟨hfirst, j.response, partitionCount, hanswered, hown, hleads, hgen, hpos,
        hcomputed⟩
  | wakeJoin wait nowMs => exact h
  | _ => trivial

/-- Two members join; the follower asks before the leader posts four partitions. -/
def leaderPosts : List Event :=
  twoWait ++ [.wakeJoin ⟨consumers, consumer 0, 1000⟩ 1000,
    .wakeJoin ⟨consumers, consumer 1, 1000⟩ 1001,
    .enterSync ⟨consumers, consumer 1, 1, []⟩,
    .enterSync ⟨consumers, consumer 0, 1, [⟨consumer 0, [0, 1]⟩, ⟨consumer 1, [2, 3]⟩]⟩,
    .wakeSync ⟨consumers, consumer 1, 1, []⟩ false]

theorem assignment_exclusive_two :
    ∃ visits c, Run Coordinator.step {} visits c ∧
      c.synced.map (·.response) = [⟨.none, [2, 3]⟩, ⟨.none, [0, 1]⟩] ∧
      ExclusiveAssignment c := by
  have seen : (execute Coordinator.step {} leaderPosts).map
      (fun c => c.synced.map (·.response)) = some [⟨.none, [2, 3]⟩, ⟨.none, [0, 1]⟩] := by
    decide
  obtain ⟨c, run, hsynced⟩ := run_showing seen
  have hpolicy : Guarded (PostsFor 4) (trace Coordinator.step {} leaderPosts) := by decide
  exact ⟨_, c, run, hsynced,
    assignment_exclusive run fun v hv => (hpolicy v hv).postsAsLeader⟩

end MiniKafka.Group
