import MiniKafka.Group.Coordinator

/-!
# What a generation's members are told

The thread that closes a window answers in the same critical section, and every other
member reads the group in a section of its own. The answers of a generation agree as long
as nothing moves the group while a member that joined it has not read its answer.
-/

namespace MiniKafka.Group

open Foundations

variable {g g' : GroupState} {c c' : Coordinator} {groupId : GroupId}
  {waits waits' : MemberId → Prop} {answered answered' : JoinGroupResponse → Prop}

/-- The answers of a group list their own member, are led by the smallest one and agree on
each generation. -/
structure ConsistentGenerations (answered : JoinGroupResponse → Prop) : Prop where
  own : ∀ r, answered r → r.memberId ∈ r.members
  smallest : ∀ r, answered r →
    r.leaderId ∈ r.members ∧ ∀ m ∈ r.members, (compare r.leaderId m).isLE
  same : ∀ r r', answered r → answered r' → r.generationId = r'.generationId →
    r.members = r'.members ∧ r.leaderId = r'.leaderId

/-- A group with the members in their wait and the answers it gave. -/
structure GenerationInv (g : GroupState) (waits : MemberId → Prop)
    (answered : JoinGroupResponse → Prop) : Prop where
  waiting : ∀ m, waits m → m ∈ g.members
  past : ∀ r, answered r → r.generationId ≤ g.generationId
  leader : g.rebalanceInProgress = false → ∀ m, waits m →
    g.leaderId = g.members.keys.head?.getD []
  current : g.rebalanceInProgress = false → ∀ m, waits m → ∀ r, answered r →
    r.generationId = g.generationId → r.members = g.members.keys ∧ r.leaderId = g.leaderId
  consistent : ConsistentGenerations answered

theorem ConsistentGenerations.mono (h : ConsistentGenerations answered)
    (sub : ∀ r, answered' r → answered r) : ConsistentGenerations answered' where
  own r hr := h.own r (sub r hr)
  smallest r hr := h.smallest r (sub r hr)
  same r r' hr hr' := h.same r r' (sub r hr) (sub r' hr')

/-- Fewer members may wait. -/
theorem GenerationInv.mono (inv : GenerationInv g waits answered)
    (hwaits : ∀ m, waits' m → waits m) (sub : ∀ r, answered' r → answered r) :
    GenerationInv g waits' answered' where
  waiting m hm := inv.waiting m (hwaits m hm)
  past r hr := inv.past r (sub r hr)
  leader hclosed m hm := inv.leader hclosed m (hwaits m hm)
  current hclosed m hm r hr := inv.current hclosed m (hwaits m hm) r (sub r hr)
  consistent := inv.consistent.mono sub

theorem generationInv_start :
    GenerationInv {} (fun _ => False) (fun _ => False) where
  waiting _ h := h.elim
  past _ h := h.elim
  leader _ _ h := h.elim
  current _ _ h := h.elim
  consistent := ⟨fun _ h => h.elim, fun _ h => h.elim, fun _ _ h => h.elim⟩

/-- Entering a window that is open, or opening one that nobody waits for. -/
theorem GenerationInv.enterJoin (inv : GenerationInv g waits answered)
    (fresh : g.rebalanceInProgress = true ∨ ∀ m, ¬ waits m) {topic : Common.Bytes}
    {memberId : MemberId} {sessionTimeoutMs : UInt32} {openedMs nowMs : UInt64} :
    GenerationInv (g.enterJoin topic memberId sessionTimeoutMs openedMs nowMs)
      (fun m => m = memberId ∨ waits m) answered where
  waiting := by
    intro m hm
    apply mem_enterJoin.mpr
    rcases hm with hm | hm
    · exact .inl hm
    · rcases fresh with hopen | hnone
      · exact .inr ⟨hopen, inv.waiting m hm⟩
      · exact absurd hm (hnone m)
  past := by
    intro r hr
    rw [GroupState.enterJoin_generation]
    exact inv.past r hr
  leader hclosed := by
    rw [GroupState.enterJoin_open] at hclosed
    cases hclosed
  current hclosed := by
    rw [GroupState.enterJoin_open] at hclosed
    cases hclosed
  consistent := inv.consistent

/-- The new generation is one that no answer names. -/
theorem GenerationInv.finalize (inv : GenerationInv g waits answered)
    (fits : g.generationId.toNat + 1 < 2 ^ 32) :
    GenerationInv g.finalize waits answered := by
  have hpast : ∀ r, answered r → r.generationId < g.finalize.generationId := by
    intro r hr
    exact UInt32.lt_of_le_of_lt (inv.past r hr) (GroupState.lt_finalize fits)
  refine ⟨inv.waiting, fun r hr => UInt32.le_of_lt (hpast r hr), ?_, ?_, inv.consistent⟩
  · intro _ _ _
    rfl
  · intro _ _ _ r hr heq
    exact absurd heq (UInt32.ne_of_lt (hpast r hr))

/-- A member that reads the closed group gets the answer of the generation. -/
theorem GenerationInv.answer (inv : GenerationInv g waits answered)
    (closed : g.rebalanceInProgress = false) {memberId : MemberId} (hm : waits memberId) :
    GenerationInv g waits fun r => r = g.joinResponse memberId ∨ answered r := by
  have hmem : memberId ∈ g.members.keys :=
    Std.ExtTreeMap.mem_keys.mpr (inv.waiting memberId hm)
  have hmin : g.members.minKey? = some g.leaderId := by
    rw [inv.leader closed memberId hm, Std.ExtTreeMap.minKey?_eq_head?_keys]
    cases hkeys : g.members.keys with
    | nil =>
        rw [hkeys] at hmem
        cases hmem
    | cons first rest => rfl
  have hleader := Std.ExtTreeMap.minKey?_eq_some_iff_mem_and_forall.mp hmin
  have hcurrent : ∀ r, r = g.joinResponse memberId ∨ answered r →
      r.generationId = g.generationId →
        r.members = g.members.keys ∧ r.leaderId = g.leaderId := by
    intro r hr hgen
    rcases hr with hr | hr
    · rw [hr]
      exact ⟨rfl, rfl⟩
    · exact inv.current closed memberId hm r hr hgen
  constructor
  · exact inv.waiting
  · intro r hr
    rcases hr with hr | hr
    · rw [hr]
      exact UInt32.le_refl _
    · exact inv.past r hr
  · exact inv.leader
  · intro _ _ _
    exact hcurrent
  · constructor
    · intro r hr
      rcases hr with hr | hr
      · rw [hr]
        exact hmem
      · exact inv.consistent.own r hr
    · intro r hr
      rcases hr with hr | hr
      · rw [hr]
        refine ⟨Std.ExtTreeMap.mem_keys.mpr hleader.1, ?_⟩
        intro m hm
        exact hleader.2 m (Std.ExtTreeMap.mem_keys.mp hm)
      · exact inv.consistent.smallest r hr
    · intro r r' hr hr' hgen
      rcases hr with hr | hr
      · obtain ⟨hmembers, hlead⟩ := hcurrent r' hr' (by rw [← hgen, hr]; rfl)
        rw [hmembers, hlead, hr]
        exact ⟨rfl, rfl⟩
      · rcases hr' with hr' | hr'
        · obtain ⟨hmembers, hlead⟩ := hcurrent r (.inr hr) (by rw [hgen, hr']; rfl)
          rw [hmembers, hlead, hr']
          exact ⟨rfl, rfl⟩
        · exact inv.consistent.same r r' hr hr' hgen

/-- Members may go while nobody waits. -/
theorem GenerationInv.loses (inv : GenerationInv g waits answered) (loses : g.OnlyLoses g')
    (calm : (∀ m, m ∈ g'.members ↔ m ∈ g.members) ∨ ∀ m, ¬ waits m) :
    GenerationInv g' waits answered := by
  have hpast : ∀ r, answered r → r.generationId ≤ g'.generationId := by
    intro r hr
    rw [loses.generation]
    exact inv.past r hr
  rcases calm with hsame | hnone
  · have hkeys : g'.members.keys = g.members.keys := keys_congr hsame
    refine ⟨?_, hpast, ?_, ?_, inv.consistent⟩
    · intro m hm
      exact (hsame m).mpr (inv.waiting m hm)
    · intro hclosed m hm
      rw [loses.leader, hkeys]
      exact inv.leader (loses.window.symm.trans hclosed) m hm
    · intro hclosed m hm r hr hgen
      rw [loses.leader, hkeys]
      rw [loses.generation] at hgen
      exact inv.current (loses.window.symm.trans hclosed) m hm r hr hgen
  · exact ⟨fun m hm => absurd hm (hnone m), hpast, fun _ m hm => absurd hm (hnone m),
      fun _ m hm => absurd hm (hnone m), inv.consistent⟩

/-- Nothing moves a group on while a member of it waits for its answer: no window opens, no
member leaves or is evicted. A window is closed with a generation that is larger. -/
def Settled (c : Coordinator) : Event → Prop
  | .enterJoin call _ _ =>
      (c.groups call.request.groupId).rebalanceInProgress = true ∨
        c.NoneWaits call.request.groupId
  | .wakeJoin wait _ =>
      (c.groups wait.groupId).rebalanceInProgress = true →
        (c.groups wait.groupId).generationId.toNat + 1 < 2 ^ 32
  | .heartbeat groupId memberId generationId _ sweepMs =>
      ((c.groups groupId).Accepts memberId generationId →
        (c.groups groupId).evicted memberId sweepMs = []) ∨ c.NoneWaits groupId
  | .leaveGroup groupId memberId =>
      memberId ∉ (c.groups groupId).members ∨ c.NoneWaits groupId
  | _ => True

instance decidableSettled (c : Coordinator) : ∀ e, Decidable (Settled c e)
  | .enterJoin _ _ _ => inferInstanceAs (Decidable (_ ∨ _))
  | .wakeJoin _ _ => inferInstanceAs (Decidable (_ → _))
  | .heartbeat _ _ _ _ _ => inferInstanceAs (Decidable ((_ → _) ∨ _))
  | .leaveGroup _ _ => inferInstanceAs (Decidable (_ ∨ _))
  | .generateMemberId _ | .enterSync _ | .wakeSync _ _ => .isTrue trivial

/-- The invariant of every group of the coordinator. -/
def GenerationsInv (c : Coordinator) : Prop :=
  ∀ groupId, GenerationInv (c.groups groupId) (c.Waits groupId) (c.Answered groupId)

theorem generationsInv_start : GenerationsInv {} := by
  intro groupId
  apply generationInv_start.mono
  · rintro m ⟨w, hw, -⟩
    cases hw
  · intro r hr
    cases hr

theorem GenerationsInv.step {e : Event} (settled : Settled c e) (inv : GenerationsInv c)
    (h : c.step e = some c') : GenerationsInv c' := by
  apply step_forall (fun hwaits sub inv => inv.mono hwaits sub) inv h
  have old := inv e.groupId
  cases e with
  | generateMemberId request =>
      obtain ⟨-, rfl⟩ := step_generateMemberId h
      exact old
  | enterJoin call openedMs nowMs =>
      obtain ⟨-, -, hjoined, -, ⟨deadlineMs, hwaits⟩, hgroups, -⟩ := step_enterJoin h
      rw [hgroups, Event.groupId, Function.update_self]
      apply (old.enterJoin (settled.imp_right fun hnone _ => hnone.not_waits)).mono
      · rintro m ⟨w, hw, hgroup, rfl⟩
        rw [hwaits] at hw
        rcases List.mem_cons.mp hw with hw | hw
        · rw [hw]
          exact .inl rfl
        · exact .inr ⟨w, hw, hgroup, rfl⟩
      · intro r hr
        rwa [Coordinator.Answered, hjoined] at hr
  | wakeJoin wait nowMs =>
      obtain ⟨hwait, -, -, hwaits, hjoined, hgroups, -⟩ := step_wakeJoin h
      rw [hgroups, Event.groupId, Function.update_self]
      have hclosed : GenerationInv (c.groups wait.groupId).closeWindow
          (c.Waits wait.groupId) (c.Answered wait.groupId) ∧
          (c.groups wait.groupId).closeWindow.rebalanceInProgress = false := by
        rcases (c.groups wait.groupId).closeWindow_cases with ⟨hopen, hclose⟩ | ⟨hshut, hclose⟩
        · rw [hclose]
          exact ⟨old.finalize (settled hopen), rfl⟩
        · rw [hclose]
          exact ⟨old, hshut⟩
      apply (hclosed.1.answer hclosed.2 ⟨wait, hwait, rfl, rfl⟩).mono
      · rintro m ⟨w, hw, hm⟩
        rw [hwaits] at hw
        exact ⟨w, List.mem_of_mem_erase hw, hm⟩
      · intro r hr
        exact (answered_cons hjoined hr).imp_left And.right
  | enterSync request =>
      obtain ⟨-, -, hwaits, hjoined, hgroups, -⟩ := step_enterSync h
      have hsync : (c.groups request.groupId).OnlyLoses ((c.groups request.groupId).enterSync
          request.memberId request.generationId request.assignments).1 ∧ _ :=
        GroupState.enterSync_onlyLoses
      rw [hgroups, Event.groupId, Function.update_self]
      have hkept := old.loses hsync.1 (.inl fun m => iff_of_eq (congrArg (m ∈ ·) hsync.2))
      apply hkept.mono
      · intro m hm
        rwa [Coordinator.Waits, hwaits] at hm
      · intro r hr
        rwa [Coordinator.Answered, hjoined] at hr
  | wakeSync request timedOut =>
      obtain ⟨-, response, -, rfl⟩ := step_wakeSync h
      exact old
  | heartbeat groupId memberId generationId beatMs sweepMs =>
      obtain rfl := Option.some.inj h
      simp only [Coordinator.setGroup, Event.groupId, Function.update_self]
      apply old.loses GroupState.heartbeat_onlyLoses
      exact settled.imp (fun hcalm _ => GroupState.mem_heartbeat hcalm)
        fun hnone _ => hnone.not_waits
  | leaveGroup groupId memberId =>
      obtain rfl := Option.some.inj h
      simp only [Coordinator.setGroup, Event.groupId, Function.update_self]
      apply old.loses GroupState.leaveGroup_onlyLoses
      refine settled.imp (fun hcalm m => ?_) fun hnone _ => hnone.not_waits
      exact iff_of_eq (congrArg (m ∈ ·.members) (GroupState.leaveGroup_eq hcalm))

/-- In a run in which no group is moved on while a member of it waits for its answer, the
answers of every group are consistent. -/
theorem generations_consistent {visits : List (Coordinator × Event)}
    (run : Run Coordinator.step {} visits c) (settled : Guarded Settled visits) :
    ConsistentGenerations (c.Answered groupId) := by
  have inv : GenerationsInv c := run.invariant settled generationsInv_start
    fun _ _ _ hsettled hinv hstep => hinv.step hsettled hstep
  exact (inv groupId).consistent

/-- Two members join, both read their answer, and then one leaves. -/
def bothRead : List Event :=
  twoWait ++ [.wakeJoin ⟨consumers, consumer 0, 1000⟩ 1000,
    .wakeJoin ⟨consumers, consumer 1, 1000⟩ 1001, .leaveGroup consumers (consumer 1)]

theorem generations_consistent_two :
    ∃ visits c, Run Coordinator.step {} visits c ∧
      c.joined = [⟨consumers, ⟨.none, 1, consumer 1, consumer 0, [consumer 0, consumer 1]⟩⟩,
        ⟨consumers, ⟨.none, 1, consumer 0, consumer 0, [consumer 0, consumer 1]⟩⟩] ∧
      ConsistentGenerations (c.Answered consumers) := by
  have seen : (execute Coordinator.step {} bothRead).map Coordinator.joined =
      some [⟨consumers, ⟨.none, 1, consumer 1, consumer 0, [consumer 0, consumer 1]⟩⟩,
        ⟨consumers, ⟨.none, 1, consumer 0, consumer 0, [consumer 0, consumer 1]⟩⟩] := by
    decide
  obtain ⟨c, run, hjoined⟩ := run_showing seen
  exact ⟨_, c, run, hjoined, generations_consistent run (by decide)⟩

/-- The first member has its answer and a third one opens the next window before the second
one reads: its deadline is over, so it closes that window without being in it. -/
def thirdOpens : List Event :=
  [.generateMemberId joinConsumers] ++ twoWait ++
    [.wakeJoin ⟨consumers, consumer 0, 1000⟩ 1000,
      .enterJoin ⟨joinConsumers, consumer 2⟩ 1001 1001,
      .wakeJoin ⟨consumers, consumer 1, 1000⟩ 1002]

/-- A member can be answered with a generation it is not in. -/
theorem generation_without_member :
    ¬ ∀ (visits : List (Coordinator × Event)) (c : Coordinator) (groupId : GroupId),
      Run Coordinator.step {} visits c → ConsistentGenerations (c.Answered groupId) := by
  intro claim
  have seen : (execute Coordinator.step {} thirdOpens).map Coordinator.joined =
      some [⟨consumers, ⟨.none, 2, consumer 1, consumer 2, [consumer 2]⟩⟩,
        ⟨consumers, ⟨.none, 1, consumer 0, consumer 0, [consumer 0, consumer 1]⟩⟩] := by
    decide
  obtain ⟨c, run, hjoined⟩ := run_showing seen
  have hown := (claim _ c consumers run).own ⟨.none, 2, consumer 1, consumer 2, [consumer 2]⟩
  rw [Coordinator.Answered, hjoined] at hown
  exact absurd (hown (by simp)) (by decide)

end MiniKafka.Group
