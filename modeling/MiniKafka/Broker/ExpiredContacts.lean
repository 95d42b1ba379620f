import MiniKafka.Foundations.WrappingClock
import MiniKafka.Cluster.Assignments
import MiniKafka.Replication.HighWatermark
import MiniKafka.Group.Coordinator

/-!
# Contacts that are treated as expired

Three parts of a broker measure how long ago they heard from somebody: the controller of its
peers, the leader of a partition of its followers, the coordinator of a group of the members.
All of them read the wall clock, and subtract what they recorded from a later reading as an
unsigned number.
-/

namespace MiniKafka.Broker

open Cluster Foundations Replication
open MiniKafka.Group

section Peers

/-- What a controller does with `lastAliveMs_`. -/
inductive ContactEvent
  /-- A peer answered a broker heartbeat. -/
  | answered (peerId : BrokerId) (now : UInt64)
  | aliveBrokerIds (now : UInt64)

def contactStep (lastAliveMs : BrokerId → Option UInt64) :
    ContactEvent → Option (BrokerId → Option UInt64)
  | .answered peerId now => some (Function.update lastAliveMs peerId (some now))
  | .aliveBrokerIds _ => some lastAliveMs

/-- The peers that `alive_broker_ids` tests, and those that it leaves out. -/
def peerWatch (m : Membership) (selfId : BrokerId) :
    Watch (BrokerId → Option UInt64) ContactEvent BrokerId where
  tests lastAliveMs e id k := ∃ now last, e = .aliveBrokerIds now ∧ id ∈ m.allIds ∧
    id ≠ selfId ∧ lastAliveMs id = some last ∧ k = ⟨last, now, kAliveThresholdMs⟩
  expires lastAliveMs e id := ∃ now, e = .aliveBrokerIds now ∧
    id ∉ (m.aliveBrokerIds selfId lastAliveMs now).ids
  wraps := by
    intro lastAliveMs e id k ⟨now, last, he, hid, hself, hlast, hk⟩
    subst he hk
    simp only [ContactEvent.aliveBrokerIds.injEq, exists_eq_left', Membership.aliveBrokerIds,
      List.mem_filter, hid, hself, hlast, true_and, false_or, Option.any_some,
      decide_eq_true_eq]
    exact Comparison.expired_iff.symm

end Peers

section Followers

/-- The state and the reading of the clock on which an event recomputes the in-sync set. -/
def recomputes (c : LedPartition) : LeaderEvent → Option (PartitionState × UInt64)
  | .onLeaderAppend _ now | .sweep now => some (c.st, now)
  | .onReplicaFetch replicaId fetchOffset now =>
      some (c.st.recordFetch replicaId fetchOffset now, now)
  | _ => none

/-- The followers that `recompute` finds near the log end and tests for the time, and those
that it leaves out of the set. -/
def followerWatch (selfBrokerId : BrokerId) : Watch LedPartition LeaderEvent BrokerId where
  tests c e id k := ∃ st now progress last, recomputes c e = some (st, now) ∧
    id ∈ st.replicas ∧ id ≠ selfBrokerId ∧ st.followerProgress id = some progress ∧
    progress ≤ c.log.logEndOffset ∧ c.log.logEndOffset - progress ≤ kReplicaMaxLagMessages ∧
    st.lastFetchMs id = some last ∧ k = ⟨last, now, kReplicaLagTimeMs⟩
  expires c e id := ∃ st now, recomputes c e = some (st, now) ∧
    id ∉ (st.recompute selfBrokerId c.log.logEndOffset now).isr
  wraps := by
    intro c e id k
      ⟨st, now, progress, last, he, hid, hself, hprogress, hleo, hlag, hlast, hk⟩
    subst hk
    have hsync : st.inSync c.log.logEndOffset now id = true ↔
        now - last ≤ kReplicaLagTimeMs := by
      simp only [PartitionState.inSync, hprogress, hlast, decide_eq_true_eq]
      constructor
      · intro h
        exact h.1
      · intro h
        exact ⟨h, hleo, hlag⟩
    simp only [he, Option.some.injEq, Prod.mk.injEq, PartitionState.recompute]
    constructor
    · intro ⟨st', now', ⟨hst, hnow⟩, hout⟩
      subst hst hnow
      rw [PartitionState.mem_newIsr, hsync] at hout
      simp only [hid, hself, true_and, false_or] at hout
      exact Comparison.expired_iff.mpr hout
    · intro hexpired
      refine ⟨st, now, ⟨rfl, rfl⟩, ?_⟩
      rw [PartitionState.mem_newIsr, hsync]
      simp only [hid, hself, true_and, false_or]
      exact Comparison.expired_iff.mp hexpired

end Followers

section Members

/-- The members that the sweep of an accepted heartbeat tests, and those that it evicts. -/
def memberWatch : Watch Coordinator Event MemberId where
  tests c e id k := ∃ groupId memberId generationId beatMs sweepMs st,
    e = .heartbeat groupId memberId generationId beatMs sweepMs ∧
    (c.groups groupId).Accepts memberId generationId ∧ id ≠ memberId ∧
    (c.groups groupId).members[id]? = some st ∧
    k = ⟨st.lastHeartbeatMs, sweepMs, st.sessionTimeoutMs.toUInt64⟩
  expires c e id := ∃ groupId memberId generationId beatMs sweepMs,
    e = .heartbeat groupId memberId generationId beatMs sweepMs ∧
    id ∉ ((c.groups groupId).heartbeat memberId generationId beatMs sweepMs).1.members
  wraps := by
    intro c e id k ⟨groupId, memberId, generationId, beatMs, sweepMs, st, he, haccepts, hother,
      hst, hk⟩
    subst he hk
    have hmem : id ∈ (c.groups groupId).members := by
      rw [Std.ExtTreeMap.mem_iff_isSome_getElem?, hst]
      rfl
    have hstale : id ∈ (c.groups groupId).evicted memberId sweepMs ↔
        st.stale sweepMs = true := by
      rw [mem_evicted]
      constructor
      · intro ⟨st', hst', _, h⟩
        rwa [← Option.some.inj (hst.symm.trans hst')] at h
      · intro h
        exact ⟨st, hst, hother, h⟩
    have hgone : id ∉ ((c.groups groupId).heartbeat memberId generationId beatMs
        sweepMs).1.members ↔ st.stale sweepMs = true := by
      rw [GroupState.mem_heartbeat_iff, ← hstale]
      simp only [hmem, haccepts, true_and, forall_const, not_not]
    rw [MemberState.stale, decide_eq_true_eq] at hgone
    constructor
    · intro ⟨groupId', memberId', generationId', beatMs', sweepMs', he, hout⟩
      injection he with h1 h2 h3 h4 h5
      subst h1 h2 h3 h4 h5
      exact hgone.mp hout
    · intro hexpired
      exact ⟨groupId, memberId, generationId, beatMs, sweepMs, rfl, hgone.mpr hexpired⟩

end Members

/-- Whatever the clock reads, only overdue contacts are treated as expired exactly where no
contact is ahead of the reading it is tested against. -/
theorem only_overdue_expire_iff (m : Membership) (selfId selfBrokerId : BrokerId)
    (peerVisits : List ((BrokerId → Option UInt64) × ContactEvent))
    (leaderVisits : List (LedPartition × LeaderEvent))
    (groupVisits : List (Coordinator × Event)) :
    ((peerWatch m selfId).Sound peerVisits ∧ (followerWatch selfBrokerId).Sound leaderVisits ∧
        memberWatch.Sound groupVisits) ↔
      Guarded (peerWatch m selfId).NoneAhead peerVisits ∧
        Guarded (followerWatch selfBrokerId).NoneAhead leaderVisits ∧
          Guarded memberWatch.NoneAhead groupVisits :=
  and_congr (Watch.sound_iff _) (and_congr (Watch.sound_iff _) (Watch.sound_iff _))

/-- A clock that is set back by a millisecond makes a peer that just answered dead. -/
theorem peer_expired_after_clock_back :
    ¬ ∀ (m : Membership) (selfId : BrokerId)
        (visits : List ((BrokerId → Option UInt64) × ContactEvent))
        (contacts : BrokerId → Option UInt64),
      Run contactStep (fun _ => none) visits contacts → (peerWatch m selfId).Sound visits := by
  intro claim
  let m : Membership := ⟨[1, 2], by decide, by decide⟩
  have run : Run contactStep (fun _ => none)
      [(fun _ => none, .answered 2 1000),
        (Function.update (fun _ => none) 2 (some 1000), .aliveBrokerIds 999)] _ :=
    Run.head rfl (Run.head rfl Run.refl)
  have htests : (peerWatch m 1).tests (Function.update (fun _ => none) 2 (some 1000))
      (.aliveBrokerIds 999) 2 ⟨1000, 999, kAliveThresholdMs⟩ :=
    ⟨999, 1000, rfl, by decide, by decide, rfl, rfl⟩
  have hexpired : (peerWatch m 1).expires (Function.update (fun _ => none) 2 (some 1000))
      (.aliveBrokerIds 999) 2 :=
    ⟨999, rfl, by decide⟩
  have hoverdue := claim m 1 _ _ run _ (List.mem_cons_of_mem _ List.mem_cons_self) 2 _ htests
    hexpired
  exact absurd hoverdue (by unfold Comparison.Overdue; decide)

end MiniKafka.Broker
