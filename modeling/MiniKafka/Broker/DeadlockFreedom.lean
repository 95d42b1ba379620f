import MiniKafka.Broker.CallInvariant
import MiniKafka.Foundations.WaitGraph

/-!
# Deadlock freedom of the blocking calls

A fetcher that is destroyed is joined with `followersMu_` held, and waits for a leader that
may be waiting for the controller, whose broadcast waits for `followersMu_`. As long as no
report of an ISR change overlaps with the destruction of the fetcher it is made for, nor with
a broadcast of another report on the same broker, the threads can be ranked so that each
waits for threads of lower rank.
-/

namespace MiniKafka.Broker

open Cluster Foundations

/-- Every thread waits for threads of lower rank, see `waitsFor_descends`. -/
def Thread.rank (th : Thread) : Nat :=
  match th.body, th.point with
  | .fetch _ _, .await _ _ => if th.stop then 1 else 10
  | .broadcast _, .await _ _ => 4
  | .broadcast .updateIsr, .wantConn _ _ => 5
  | .broadcast .checkPartitionFailover, .wantConn _ _ => 8
  | .checkPartitionFailover, .join _ => 9
  | _, .joinFetcher _ _ _ => 2
  | _, .wantFollowers _ => 3
  | _, .join _ => 6
  | _, .await _ _ => 7
  | _, .wantConn _ _ => 8
  | _, _ => 0

section Order

variable {s s' : CallState} {t u : ThreadId} {th uh : Thread}

theorem holdsConn_iff {peer : BrokerId} :
    uh.holdsConn peer = true ↔ ∃ handler, uh.point = .await (some peer) handler := by
  unfold Thread.holdsConn
  split
  · next conn handler hpoint =>
      rw [hpoint, decide_eq_true_eq]
      constructor
      · rintro rfl
        exact ⟨handler, rfl⟩
      · rintro ⟨_, h⟩
        exact (ThreadPoint.await.inj h).1
  · next hpoint =>
      constructor
      · intro h
        cases h
      · rintro ⟨handler, h⟩
        exact absurd h (hpoint _ _)

/-- Who holds the mutex of a connection has rank 4, or calls the controller. -/
theorem rank_of_holdsConn {peer : BrokerId} (stands : Stands s.threads u uh.body uh.point)
    (h : uh.holdsConn peer = true) :
    uh.rank = 4 ∨ (uh.rank = 7 ∧ uh.callsController = true) := by
  obtain ⟨handler, hpoint⟩ := holdsConn_iff.mp h
  rw [hpoint] at stands
  obtain ⟨b, body, point, stop⟩ := uh
  subst hpoint
  cases stands with
  | sent serves => exact .inl rfl
  | called serves => exact .inr ⟨rfl, rfl⟩

/-- The rank of a thread by its number. -/
def CallState.rank (s : CallState) (t : ThreadId) : Nat := (s.threads[t]?.map Thread.rank).getD 0

theorem CallState.rank_eq (h : s.threads[t]? = some th) : s.rank t = th.rank := by
  rw [CallState.rank, h]
  rfl

/-- The rank of a thread that runs this, wherever it is. -/
theorem CallInv.rank_of_body (inv : CallInv s) {body : ThreadBody}
    (h : BodyAt s.threads u body) (bound : Nat)
    (all : ∀ b point stop, Stands s.threads u body point →
      (⟨b, body, point, stop⟩ : Thread).rank ≤ bound) : s.rank u ≤ bound := by
  obtain ⟨⟨b, _, point, stop⟩, huh, rfl⟩ := h
  rw [CallState.rank_eq huh]
  exact all b point stop (inv.stands u _ huh)

theorem rank_of_reconciles {b : BrokerId} {body : ThreadBody} {point : ThreadPoint} {stop : Bool}
    (reconciles : body.Reconciles) (stands : Stands s.threads u body point)
    (h : ∀ ids, point ≠ .join ids) : (⟨b, body, point, stop⟩ : Thread).rank ≤ 3 := by
  cases reconciles with
  | leaderAndIsr => cases stands <;> simp [Thread.rank]
  | checkPartitionFailover =>
      cases stands with
      | failover sends => exact absurd rfl (h _)
      | start | done | wantAssignments _ | wantFollowers _ | reconcile _ | joinFetcher _ _ _ =>
          simp [Thread.rank]

theorem CallState.waitsFor_iff (h : s.threads[t]? = some th) :
    s.WaitsFor t u ↔
      match th.point with
      | .wantConn peer _ =>
          ∃ uh, s.threads[u]? = some uh ∧ uh.broker = th.broker ∧ uh.holdsConn peer = true
      | .await _ handler => u = handler
      | .join threads => u ∈ threads
      | .wantFollowers _ =>
          ∃ uh, s.threads[u]? = some uh ∧ uh.broker = th.broker ∧ uh.holdsFollowers = true
      | .joinFetcher fetcher _ _ => u = fetcher
      | _ => False := by
  rw [CallState.WaitsFor, CallState.waitsFor, h, Option.any_some]
  cases th.point <;> simp [Option.any_eq_true]

/-- Who holds `followersMu_` waits for a fetcher at most. -/
theorem rank_of_holdsFollowers (stands : Stands s.threads u uh.body uh.point)
    (h : uh.holdsFollowers = true) : uh.rank ≤ 2 := by
  obtain ⟨b, body, point, stop⟩ := uh
  cases stands with
  | reconcile reconciles => cases reconciles <;> simp [Thread.rank]
  | joinFetcher reconciles joined told => cases reconciles <;> simp [Thread.rank]
  | start | done | connected | fetch _ | broadcast | sent _ | report | called _ | localUpdate _
  | update _ | failover _ | wantAssignments _ | wantFollowers _ => cases h

/-- What a fetcher waits for, if it is told to stop, waits for nothing. -/
theorem CallInv.rank_of_unreported (inv : CallInv s) {key : TopicPartition}
    (serves : BodyAt s.threads u (.handle (.replicate t key)))
    (h : s.threads[u]?.any Thread.reporting = false) : s.rank u = 0 := by
  obtain ⟨⟨b, _, point, stop⟩, huh, rfl⟩ := serves
  rw [huh] at h
  rw [CallState.rank_eq huh]
  have hstands := inv.stands u _ huh
  cases hstands with
  | start => rfl
  | done => rfl
  | report | called _ | localUpdate _ => cases h
  | wantAssignments reconciles | wantFollowers reconciles | reconcile reconciles
  | joinFetcher reconciles _ _ => cases reconciles

/-- A fetcher that is told to stop waits for nothing but the end of its fetch. -/
theorem CallInv.rank_of_told (inv : CallInv s) (joined : IsFetcher s.threads u)
    (told : ∃ fh, s.threads[u]? = some fh ∧ fh.stop = true) : s.rank u ≤ 1 := by
  obtain ⟨fh, hfh, hstop⟩ := told
  obtain ⟨key, leader, ⟨b, _, point, stop⟩, hfh', rfl⟩ := joined
  obtain rfl := Option.some.inj (hfh.symm.trans hfh')
  subst hstop
  rw [CallState.rank_eq hfh]
  have hstands := inv.stands _ _ hfh
  cases hstands with
  | start | done | connected | fetch _ => simp [Thread.rank]
  | wantAssignments reconciles | wantFollowers reconciles | reconcile reconciles
  | joinFetcher reconciles _ _ => cases reconciles

/-- Where a broker broadcasts for a report, none of its threads calls the controller. -/
theorem CallInv.not_callsController (inv : CallInv s) (ht : s.threads[t]? = some th)
    (hbroadcasts : th.broadcastsIsr = true) (huh : s.threads[u]? = some uh)
    (hbroker : uh.broker = th.broker) : uh.callsController ≠ true := by
  intro hcalls
  have hfrom : s.broadcastsFrom th.broker = true := by
    refine List.any_eq_true.mpr ⟨th, List.mem_of_getElem? ht, ?_⟩
    simp [hbroadcasts]
  have hnone := inv.apart th.broker hfrom
  rw [CallState.callsFrom, List.any_eq_false] at hnone
  have hnot := hnone uh (List.mem_of_getElem? huh)
  simp [hbroker, hcalls] at hnot

/-- Every wait goes down in rank. -/
theorem CallInv.waitsFor_descends (inv : CallInv s) (h : s.WaitsFor t u) :
    s.rank u < s.rank t := by
  cases ht : s.threads[t]? with
  | none =>
      rw [CallState.WaitsFor, CallState.waitsFor, ht] at h
      cases h
  | some th =>
      rw [CallState.waitsFor_iff ht] at h
      rw [CallState.rank_eq ht]
      have hstands := inv.stands t th ht
      obtain ⟨b, body, point, stop⟩ := th
      cases hstands with
      | start => exact h.elim
      | done => exact h.elim
      | connected => exact h.elim
      | wantAssignments _ => exact h.elim
      | reconcile _ => exact h.elim
      | fetch serves =>
          subst h
          cases stop with
          | false =>
              have hle := inv.rank_of_body serves 8 fun b point stop stands => by
                cases stands <;> simp [Thread.rank]
              exact Nat.lt_of_le_of_lt hle (by simp [Thread.rank])
          | true =>
              have hstopped : s.stopped t = true := by simp [CallState.stopped, ht]
              have hunreported := inv.unreported t hstopped
              rw [CallState.reported, ht] at hunreported
              rw [inv.rank_of_unreported serves hunreported]
              exact Nat.one_pos
      | broadcast =>
          obtain ⟨uh, huh, hbroker, hholds⟩ := h
          have hholder := rank_of_holdsConn (inv.stands u uh huh) hholds
          rw [CallState.rank_eq huh]
          rename_i origin peer entries
          cases origin with
          | checkPartitionFailover =>
              change uh.rank < 8
              omega
          | updateIsr =>
              change uh.rank < 5
              rcases hholder with hrank | ⟨-, hcalls⟩
              · omega
              · exact absurd hcalls (inv.not_callsController ht rfl huh hbroker)
      | sent serves =>
          subst h
          have hle := inv.rank_of_body serves 3 fun b point stop stands =>
            rank_of_reconciles .leaderAndIsr stands (by rintro ids rfl; cases stands)
          exact Nat.lt_succ_of_le hle
      | report =>
          obtain ⟨uh, huh, -, hholds⟩ := h
          have hholder := rank_of_holdsConn (inv.stands u uh huh) hholds
          rw [CallState.rank_eq huh]
          change uh.rank < 8
          omega
      | called serves =>
          subst h
          have hle := inv.rank_of_body serves 6 fun b point stop stands => by
            cases stands <;> simp [Thread.rank]
          exact Nat.lt_succ_of_le hle
      | localUpdate sends =>
          have hle := inv.rank_of_body (sends u h) 5 fun b point stop stands => by
            cases stands <;> simp [Thread.rank]
          exact Nat.lt_succ_of_le hle
      | update sends =>
          have hle := inv.rank_of_body (sends u h) 5 fun b point stop stands => by
            cases stands <;> simp [Thread.rank]
          exact Nat.lt_succ_of_le hle
      | failover sends =>
          have hle := inv.rank_of_body (sends u h) 8 fun b point stop stands => by
            cases stands <;> simp [Thread.rank]
          exact Nat.lt_succ_of_le hle
      | wantFollowers reconciles =>
          obtain ⟨uh, huh, -, hholds⟩ := h
          have hle := rank_of_holdsFollowers (inv.stands u uh huh) hholds
          rw [CallState.rank_eq huh]
          cases reconciles <;> exact Nat.lt_succ_of_le hle
      | joinFetcher reconciles joined told =>
          subst h
          have hle := inv.rank_of_told joined told
          cases reconciles <;> exact Nat.lt_succ_of_le hle

end Order

/-- As long as nothing overlaps, no threads wait for one another. -/
theorem no_deadlock {m : Membership} {assignments : BrokerId → Assignments}
    {visits : List (CallState × CallEvent)} {s : CallState}
    (run : Run (callStep m) (.boot m assignments) visits s)
    (apart : Guarded (NoOverlap m) visits) : ¬ Deadlocked s.WaitsFor := by
  have inv : CallInv s :=
    run.invariant apart (callInv_boot m assignments)
      fun t e u hstep inv h => callInv_step inv hstep h
  apply not_deadlocked_of_rank s.rank
  intro t u h
  exact inv.waitsFor_descends h

section Runs

/-- The brokers of the example runs. -/
def fourBrokers : Membership := ⟨[1, 2, 3, 4], by decide, by decide⟩

/-- Broker 1 is the controller and knows of a partition that broker 4 leads. -/
def ledByFour (b : BrokerId) : Assignments :=
  if b = 1 then (∅ : Assignments).insert ([116], 0) ⟨4, [4, 2, 3], [2, 3, 4]⟩ else ∅

/-- A thread of a broadcast sends its request, and is answered. -/
def delivery (t handler : ThreadId) : List CallEvent :=
  [.lockConn t, .applyLeaderAndIsr handler, .allAssignments handler, .lockFollowers handler,
    .reconcile handler, .unlockFollowers handler, .resume t]

/-- Broker 4 dies, broker 2 leads, and the fetcher of broker 3 asks it. -/
def followingTwo : List CallEvent :=
  [.checkPartitionFailover 0 false ⟨[1, 2, 3], by decide⟩] ++ delivery 4 7 ++ delivery 5 8 ++
    delivery 6 10 ++ [.resume 0, .allAssignments 0, .lockFollowers 0, .reconcile 0,
      .unlockFollowers 0, .checkStop 9, .requestFetch 9]

/-- Broker 2 seems dead, and broker 3 is told to follow another leader. -/
def leavingTwo : List CallEvent :=
  [.checkPartitionFailover 0 false ⟨[1, 3, 4], by decide⟩, .lockConn 14, .applyLeaderAndIsr 16,
    .allAssignments 16, .lockFollowers 16, .reconcile 16]

/-- Broker 2 reports fetch 12, and the controller broadcasts for it. -/
def reportOfTwo (handler : ThreadId) : List CallEvent :=
  [.replicate 12 (some [2, 3]) false (some 1), .lockConn 12, .updateIsr handler true]

end Runs

/-- A fetcher of broker 3 waits for broker 2, which waits for the controller, which waits for
its broadcast. -/
theorem no_deadlock_while_reporting :
    ∃ visits s, Run (callStep fourBrokers) (.boot fourBrokers ledByFour) visits s ∧
      s.WaitsFor 9 12 ∧ s.WaitsFor 12 13 ∧ s.WaitsFor 13 15 ∧ ¬ Deadlocked s.WaitsFor := by
  have seen : (execute (callStep fourBrokers) (.boot fourBrokers ledByFour)
      (followingTwo ++ reportOfTwo 13)).map
        (fun s => decide (s.WaitsFor 9 12 ∧ s.WaitsFor 12 13 ∧ s.WaitsFor 13 15)) = some true := by
    decide
  obtain ⟨s, run, hwaits⟩ := run_showing seen
  obtain ⟨hfetcher, hhandler, hcontroller⟩ := of_decide_eq_true hwaits
  exact ⟨_, s, run, hfetcher, hhandler, hcontroller, no_deadlock run (by decide)⟩

/-- Broker 3 joins the fetcher while its fetch is being reported: the controller's broadcast
waits for a connection whose request waits for `followersMu_` to be free. -/
theorem deadlock_of_overlap :
    ¬ ∀ (m : Membership) (assignments : BrokerId → Assignments)
      (visits : List (CallState × CallEvent)) (s : CallState),
      Run (callStep m) (.boot m assignments) visits s → ¬ Deadlocked s.WaitsFor := by
  intro claim
  have seen : (execute (callStep fourBrokers) (.boot fourBrokers ledByFour)
      (followingTwo ++ leavingTwo ++ reportOfTwo 17)).map
        (fun s => decide (s.WaitsFor 16 9 ∧ s.WaitsFor 9 12 ∧ s.WaitsFor 12 17 ∧
          s.WaitsFor 17 19 ∧ s.WaitsFor 19 14 ∧ s.WaitsFor 14 16)) = some true := by
    decide
  obtain ⟨s, run, hwaits⟩ := run_showing seen
  obtain ⟨hjoin, hfetch, hcall, hbroadcast, hconn, hresponse⟩ := of_decide_eq_true hwaits
  apply claim _ _ _ s run
  refine ⟨16, ?_⟩
  apply Relation.TransGen.head hjoin
  apply Relation.TransGen.head hfetch
  apply Relation.TransGen.head hcall
  apply Relation.TransGen.head hbroadcast
  apply Relation.TransGen.head hconn
  exact .single hresponse

end MiniKafka.Broker
