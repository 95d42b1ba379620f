import MiniKafka.Group.Coordinator

/-!
# What a successful heartbeat says about the group

A generation begins with the members that joined its window. When one of them leaves or is
evicted the group asks for a rebalance, and it does so until the next generation: an answer
without an error says that the members are still those that the generation began with.
-/

namespace MiniKafka.Group

open Foundations

/-- The generation that an event finalizes for the group, with the members it begins with. -/
def finalization (groupId : GroupId) : Coordinator × Event → Option (UInt32 × List MemberId)
  | (c, .wakeJoin wait _) =>
      let g := c.groups groupId
      if wait.groupId = groupId ∧ g.rebalanceInProgress then
        some (g.finalize.generationId, g.finalize.members.keys)
      else none
  | _ => none

/-- The generations of the group that a run finalized, in order. -/
def finalized (groupId : GroupId) (visits : List (Coordinator × Event)) :
    List (UInt32 × List MemberId) :=
  visits.filterMap (finalization groupId)

/-- A `leave_group` or a sweep that takes a member out of the group. -/
def RemovesMember (groupId : GroupId) : Coordinator × Event → Prop
  | (c, .heartbeat gid memberId generationId beatMs sweepMs) =>
      gid = groupId ∧ ∃ id ∈ (c.groups groupId).members,
        id ∉ ((c.groups groupId).heartbeat memberId generationId beatMs sweepMs).1.members
  | (c, .leaveGroup gid memberId) => gid = groupId ∧ memberId ∈ (c.groups groupId).members
  | _ => False

variable {g g' : GroupState} {c c' : Coordinator} {groupId : GroupId} {memberId : MemberId}
  {generationId : UInt32} {beatMs sweepMs : UInt64} {e : Event}
  {visits : List (Coordinator × Event)} {history : List (UInt32 × List MemberId)}

section Sections

/-- What every critical section does to the group but the one that finalizes a generation:
the generation stays, and a group that settles had the same members before. -/
structure GroupState.SameGeneration (g g' : GroupState) : Prop where
  generation : g'.generationId = g.generationId
  asked : g.needsRebalance = true → g'.needsRebalance = true
  settled : g'.rebalanceInProgress = false → g'.needsRebalance = false →
    g.rebalanceInProgress = false ∧ ∀ id, id ∈ g'.members ↔ id ∈ g.members

theorem GroupState.SameGeneration.refl (g : GroupState) : g.SameGeneration g :=
  ⟨rfl, id, fun hclosed _ => ⟨hclosed, fun _ => Iff.rfl⟩⟩

theorem GroupState.enterJoin_sameGeneration {topic : Common.Bytes} {sessionTimeoutMs : UInt32}
    {openedMs nowMs : UInt64} :
    g.SameGeneration (g.enterJoin topic memberId sessionTimeoutMs openedMs nowMs) := by
  constructor
  · exact enterJoin_generation
  · intro hneeds
    cases h : g.rebalanceInProgress <;> simp [enterJoin, h, hneeds]
  · intro hclosed
    rw [enterJoin_open] at hclosed
    cases hclosed

theorem GroupState.enterSync_sameGeneration {assignments : List SyncGroupAssignment} :
    g.SameGeneration (g.enterSync memberId generationId assignments).1 := by
  rcases enterSync_cases g memberId generationId assignments with
    ⟨_, -, h⟩ | ⟨-, -, ⟨-, h⟩ | ⟨-, -, h⟩ | ⟨-, -, h⟩⟩
  · rw [h]
    exact .refl g
  · rw [h]
    exact ⟨rfl, id, fun hclosed _ => ⟨hclosed, fun _ => Iff.rfl⟩⟩
  · rw [h]
    exact .refl g
  · rw [h]
    exact .refl g

/-- A heartbeat that evicts a member asks for a rebalance. -/
theorem GroupState.evicted_of_heartbeat
    (h : (g.heartbeat memberId generationId beatMs sweepMs).1.needsRebalance = false)
    (accepts : g.Accepts memberId generationId) : g.evicted memberId sweepMs = [] := by
  obtain ⟨hmem, hgen, hneeds⟩ := accepts
  obtain ⟨st, hst⟩ := Option.isSome_iff_exists.mp
    (Std.ExtTreeMap.mem_iff_isSome_getElem?.mp hmem)
  have haccepted : ¬ (generationId ≠ g.generationId ∨ g.needsRebalance = true) := by
    rw [hneeds, not_or, not_not]
    exact ⟨hgen, Bool.false_ne_true⟩
  simp only [heartbeat, hst, if_neg haccepted, sweep, Bool.or_eq_false_iff,
    Bool.not_eq_false', List.isEmpty_iff] at h
  apply List.eq_nil_iff_forall_not_mem.mpr
  intro id hid
  rw [← mem_evicted_beat, h.2] at hid
  cases hid

theorem GroupState.heartbeat_sameGeneration :
    g.SameGeneration (g.heartbeat memberId generationId beatMs sweepMs).1 := by
  have hloses : g.OnlyLoses (g.heartbeat memberId generationId beatMs sweepMs).1 :=
    heartbeat_onlyLoses
  constructor
  · exact hloses.generation
  · intro hneeds
    unfold heartbeat
    split
    · exact hneeds
    · split
      · exact hneeds
      · simp only [sweep, beat, hneeds, Bool.true_or]
  · intro hclosed hneeds
    rw [hloses.window] at hclosed
    exact ⟨hclosed, fun id => mem_heartbeat (evicted_of_heartbeat hneeds)⟩

theorem GroupState.leaveGroup_sameGeneration : g.SameGeneration (g.leaveGroup memberId) := by
  unfold leaveGroup
  split
  · constructor
    · rfl
    · intro _
      rfl
    · intro _ hneeds
      cases hneeds
  · exact .refl g

/-- While it asks for a rebalance, a group refuses every heartbeat. -/
theorem GroupState.heartbeat_refused (h : g.needsRebalance = true) :
    (g.heartbeat memberId generationId beatMs sweepMs).2 ≠ .none := by
  intro hnone
  obtain ⟨-, -, hneeds⟩ := heartbeat_none.mp hnone
  rw [h] at hneeds
  cases hneeds

end Sections

/-- What is done to the group by a step that finalizes no generation of it. -/
theorem step_sameGeneration (h : c.step e = some c') (hnone : finalization groupId (c, e) = none) :
    (c.groups groupId).SameGeneration (c'.groups groupId) := by
  by_cases hgroup : groupId = e.groupId
  · subst hgroup
    cases e with
    | generateMemberId request =>
        obtain ⟨-, rfl⟩ := step_generateMemberId h
        exact .refl _
    | enterJoin call openedMs nowMs =>
        obtain ⟨-, -, -, -, -, hgroups, -⟩ := step_enterJoin h
        rw [hgroups]
        simp only [Event.groupId, Function.update_self]
        exact GroupState.enterJoin_sameGeneration
    | wakeJoin wait nowMs =>
        obtain ⟨-, -, -, -, -, hgroups, -⟩ := step_wakeJoin h
        simp only [finalization, Event.groupId, true_and, ite_eq_right_iff, reduceCtorEq,
          imp_false] at hnone
        rw [hgroups]
        simp only [Event.groupId, Function.update_self, GroupState.closeWindow, if_neg hnone]
        exact .refl _
    | enterSync request =>
        obtain ⟨-, -, -, -, hgroups, -⟩ := step_enterSync h
        rw [hgroups]
        simp only [Event.groupId, Function.update_self]
        exact GroupState.enterSync_sameGeneration
    | wakeSync request timedOut =>
        obtain ⟨-, response, -, rfl⟩ := step_wakeSync h
        exact .refl _
    | heartbeat gid memberId generationId beatMs sweepMs =>
        obtain rfl := Option.some.inj h
        simp only [Event.groupId, Coordinator.setGroup, Function.update_self]
        exact GroupState.heartbeat_sameGeneration
    | leaveGroup gid memberId =>
        obtain rfl := Option.some.inj h
        simp only [Event.groupId, Coordinator.setGroup, Function.update_self]
        exact GroupState.leaveGroup_sameGeneration
  · rw [(step_frame h hgroup).1]
    exact .refl _

theorem step_finalization {entry : UInt32 × List MemberId} (h : c.step e = some c')
    (hentry : finalization groupId (c, e) = some entry) :
    c'.groups groupId = (c.groups groupId).finalize ∧
      entry = ((c.groups groupId).finalize.generationId,
        (c.groups groupId).finalize.members.keys) := by
  cases e with
  | wakeJoin wait nowMs =>
      obtain ⟨-, -, -, -, -, hgroups, -⟩ := step_wakeJoin h
      simp only [finalization, Option.ite_none_right_eq_some, Option.some.injEq] at hentry
      obtain ⟨⟨hgroup, hopen⟩, heq⟩ := hentry
      rw [hgroups, hgroup, Function.update_self, GroupState.closeWindow, if_pos hopen]
      exact ⟨rfl, heq.symm⟩
  | generateMemberId request => cases hentry
  | enterJoin call openedMs nowMs => cases hentry
  | enterSync request => cases hentry
  | wakeSync request timedOut => cases hentry
  | heartbeat gid memberId generationId beatMs sweepMs => cases hentry
  | leaveGroup gid memberId => cases hentry

section Runs

/-- A group after the generations of its history. -/
structure StableInv (g : GroupState) (history : List (UInt32 × List MemberId)) : Prop where
  count : g.generationId.toNat = history.length
  past : ∀ entry ∈ history, entry.1 ≤ g.generationId
  settled : g.rebalanceInProgress = false → g.needsRebalance = false → ∀ id ∈ g.members,
    ∀ ids, (g.generationId, ids) ∈ history ↔ ids = g.members.keys

theorem stableInv_start : StableInv {} [] := by
  constructor
  · rfl
  · intro entry hentry
    cases hentry
  · intro _ _ id hid
    exact absurd hid Std.ExtTreeMap.not_mem_empty

theorem StableInv.sameGeneration (inv : StableInv g history) (same : g.SameGeneration g') :
    StableInv g' history := by
  constructor
  · rw [same.generation]
    exact inv.count
  · rw [same.generation]
    exact inv.past
  · intro hclosed hneeds id hid ids
    obtain ⟨hbefore, hmembers⟩ := same.settled hclosed hneeds
    have hasked : g.needsRebalance = false := by
      cases hg : g.needsRebalance with
      | false => rfl
      | true =>
          rw [same.asked hg] at hneeds
          cases hneeds
    rw [same.generation, keys_congr hmembers]
    exact inv.settled hbefore hasked id ((hmembers id).mp hid) ids

/-- A new generation is one that the history does not have. -/
theorem StableInv.finalize (inv : StableInv g history)
    (fits : history.length + 1 < 2 ^ 32) :
    StableInv g.finalize
      (history ++ [(g.finalize.generationId, g.finalize.members.keys)]) := by
  have hfits : g.generationId.toNat + 1 < 2 ^ 32 := by
    rw [inv.count]
    exact fits
  have hlater : ∀ entry ∈ history, entry.1 < g.finalize.generationId := by
    intro entry hentry
    exact UInt32.lt_of_le_of_lt (inv.past entry hentry) (GroupState.lt_finalize hfits)
  constructor
  · have hnext : g.finalize.generationId = g.generationId + 1 := rfl
    rw [hnext, UInt32.toNat_add, UInt32.toNat_one, Nat.mod_eq_of_lt hfits, inv.count,
      List.length_append]
    rfl
  · intro entry hentry
    rcases List.mem_append.mp hentry with hold | hnew
    · exact UInt32.le_of_lt (hlater entry hold)
    · rw [List.mem_singleton.mp hnew]
      exact UInt32.le_refl _
  · intro _ _ _ _ ids
    rw [List.mem_append, List.mem_singleton, Prod.mk.injEq]
    constructor
    · intro hentry
      rcases hentry with hold | hnew
      · exact absurd (hlater _ hold) (UInt32.lt_irrefl _)
      · exact hnew.2
    · intro hids
      exact Or.inr ⟨rfl, hids⟩

theorem finalized_snoc :
    finalized groupId (visits ++ [(c, e)]) =
      finalized groupId visits ++ (finalization groupId (c, e)).toList := by
  unfold finalized
  rw [List.filterMap_append]
  cases h : finalization groupId (c, e) with
  | none => rw [List.filterMap_cons_none h]; rfl
  | some entry => rw [List.filterMap_cons_some h]; rfl

theorem stableInv_of_run (run : Run Coordinator.step {} visits c)
    (fits : (finalized groupId visits).length < 2 ^ 32) :
    StableInv (c.groups groupId) (finalized groupId visits) := by
  induction run with
  | refl => exact stableInv_start
  | @tail visits c e c' run h ih =>
      rw [finalized_snoc] at fits ⊢
      cases hentry : finalization groupId (c, e) with
      | none =>
          rw [hentry, Option.toList_none, List.append_nil] at fits
          rw [Option.toList_none, List.append_nil]
          exact (ih fits).sameGeneration (step_sameGeneration h hentry)
      | some entry =>
          obtain ⟨hgroup, heq⟩ := step_finalization h hentry
          rw [hentry, Option.toList_some, List.length_append, List.length_singleton] at fits
          rw [hgroup, heq, Option.toList_some]
          exact (ih (Nat.lt_of_succ_lt fits)).finalize fits

/-- Until the next generation a group that asks for a rebalance goes on to ask. -/
theorem asks_of_run (run : Run Coordinator.step c visits c')
    (asks : (c.groups groupId).needsRebalance = true)
    (hnone : finalized groupId visits = []) : (c'.groups groupId).needsRebalance = true := by
  induction run with
  | refl => exact asks
  | @tail visits c₁ e c₂ run h ih =>
      rw [finalized_snoc, List.append_eq_nil_iff, Option.toList_eq_nil_iff] at hnone
      exact (step_sameGeneration h hnone.2).asked (ih hnone.1)

theorem step_removes (h : c.step e = some c') (removes : RemovesMember groupId (c, e)) :
    (c'.groups groupId).needsRebalance = true := by
  cases e with
  | heartbeat gid memberId generationId beatMs sweepMs =>
      obtain ⟨hgroup, id, hid, hgone⟩ := removes
      obtain rfl := Option.some.inj h
      simp only [hgroup, Coordinator.setGroup, Function.update_self]
      by_contra hneeds
      apply hgone
      rw [Bool.not_eq_true] at hneeds
      exact (GroupState.mem_heartbeat (GroupState.evicted_of_heartbeat hneeds)).mpr hid
  | leaveGroup gid memberId =>
      obtain ⟨hgroup, hid⟩ := removes
      obtain rfl := Option.some.inj h
      simp only [hgroup, Coordinator.setGroup, Function.update_self, GroupState.leaveGroup,
        if_pos hid]
  | generateMemberId request => cases removes
  | enterJoin call openedMs nowMs => cases removes
  | wakeJoin wait nowMs => cases removes
  | enterSync request => cases removes
  | wakeSync request timedOut => cases removes

/-- A heartbeat that is answered without an error outside a join window meets the members
that its generation, which is the current one, began with. After a member was removed none
is answered so before the next generation. -/
theorem heartbeat_success_stable (run : Run Coordinator.step {} visits c)
    (fits : (finalized groupId visits).length < 2 ^ 32) :
    (∀ memberId generationId beatMs sweepMs,
      ((c.groups groupId).heartbeat memberId generationId beatMs sweepMs).2 = .none →
      (c.groups groupId).rebalanceInProgress = false →
        generationId = (c.groups groupId).generationId ∧
          ∀ ids, (generationId, ids) ∈ finalized groupId visits ↔
            ids = (c.groups groupId).members.keys) ∧
    ∀ before v after, visits = before ++ v :: after → RemovesMember groupId v →
      finalized groupId after = [] → ∀ memberId generationId beatMs sweepMs,
        ((c.groups groupId).heartbeat memberId generationId beatMs sweepMs).2 ≠ .none := by
  constructor
  · intro memberId generationId beatMs sweepMs hnone hclosed
    obtain ⟨hmem, hgen, hneeds⟩ := GroupState.heartbeat_none.mp hnone
    refine ⟨hgen, ?_⟩
    rw [hgen]
    exact (stableInv_of_run run fits).settled hclosed hneeds memberId hmem
  · intro before v after hvisits hremoves hnone memberId generationId beatMs sweepMs
    apply GroupState.heartbeat_refused
    rw [hvisits] at run
    obtain ⟨c₁, h, hafter⟩ := run.rest
    exact asks_of_run hafter (step_removes h hremoves) hnone

/-- The generation of two members, each of which heartbeats. -/
def bothBeat : List Event :=
  twoWait ++ [.wakeJoin ⟨consumers, consumer 0, 1000⟩ 1000,
    .heartbeat consumers (consumer 0) 1 1100 1100, .heartbeat consumers (consumer 1) 1 1200 1200]

/-- Then the second one leaves. -/
theorem heartbeat_success_stable_leave :
    ∃ visits c, Run Coordinator.step {} visits c ∧
      finalized consumers visits = [(1, [consumer 0, consumer 1])] ∧
      ∀ memberId generationId beatMs sweepMs,
        ((c.groups consumers).heartbeat memberId generationId beatMs sweepMs).2 ≠ .none := by
  have seen : (execute Coordinator.step {} bothBeat).map
      (fun c => decide (consumer 1 ∈ (c.groups consumers).members)) = some true := by decide
  obtain ⟨c, run, hmem⟩ := run_showing seen
  have hleft : Run Coordinator.step {} (trace Coordinator.step {} bothBeat ++
      [(c, .leaveGroup consumers (consumer 1))]) _ := Run.tail run rfl
  have hfinal : finalized consumers (trace Coordinator.step {} bothBeat ++
      [(c, .leaveGroup consumers (consumer 1))]) = [(1, [consumer 0, consumer 1])] := by
    have hbefore : finalized consumers (trace Coordinator.step {} bothBeat) =
        [(1, [consumer 0, consumer 1])] := by decide
    rw [finalized_snoc, hbefore]
    rfl
  refine ⟨_, _, hleft, hfinal, ?_⟩
  exact (heartbeat_success_stable hleft (by rw [hfinal]; decide)).2 _ _ [] rfl
    ⟨rfl, of_decide_eq_true hmem⟩ rfl

end Runs

end MiniKafka.Group
