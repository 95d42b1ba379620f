import MiniKafka.Broker.BlockingCalls
import MiniKafka.Foundations.Run

/-!
# The invariant of the blocking calls

Where each thread can be, and what it then waits for. As long as no report of an ISR change
overlaps with the destruction of the fetcher it is made for, nor with a broadcast of another
report on the same broker, what is joined is not being reported, and a broker that broadcasts
for a report has no call of its own under way.
-/

namespace MiniKafka.Broker

open Cluster Foundations

/-- A thread that waits for the response to a request. -/
def ThreadPoint.awaits : ThreadPoint → Bool
  | .await _ _ => true
  | _ => false

namespace Thread

variable (th : Thread)

/-- A FETCH_REPLICA handler inside of the callback of `on_isr_change`. -/
def reporting : Bool :=
  match th.body, th.point with
  | .handle (.replicate _ _), .start | .handle (.replicate _ _), .done => false
  | .handle (.replicate _ _), _ => true
  | _, _ => false

/-- A FETCH_REPLICA handler that calls the controller. -/
def callsController : Bool :=
  match th.body, th.point with
  | .handle (.replicate _ _), .wantConn _ _ | .handle (.replicate _ _), .await _ _ => true
  | _, _ => false

/-- A thread of a broadcast that `update_isr` waits for. -/
def broadcastsIsr : Bool :=
  match th.body, th.point with
  | .broadcast .updateIsr, .done => false
  | .broadcast .updateIsr, _ => true
  | _, _ => false

end Thread

namespace CallState

variable (m : Membership) (s : CallState)

/-- The fetch that a fetcher waits for is being reported. -/
def reported (fetcher : ThreadId) : Bool :=
  s.threads[fetcher]?.any fun th =>
    match th.point with
    | .await _ handler => s.threads[handler]?.any Thread.reporting
    | _ => false

/-- The destructor of a fetcher has begun. -/
def stopped (fetcher : ThreadId) : Bool := s.threads[fetcher]?.any Thread.stop

def callsFrom (b : BrokerId) : Bool :=
  s.threads.any fun th => th.broker = b ∧ th.callsController

def broadcastsFrom (b : BrokerId) : Bool :=
  s.threads.any fun th => th.broker = b ∧ th.broadcastsIsr

/-- An event that makes a report overlap with the destruction of its fetcher, or with the
broadcast of another report on the same broker. -/
def overlaps : CallEvent → Bool
  | .replicate t changed isLeader currentLeaderId =>
      match s.threads[t]? with
      | some ⟨b, .handle (.replicate fetcher key), _, _⟩ =>
          match s.report m b key changed isLeader currentLeaderId with
          | some (.broadcast _) => s.stopped fetcher || s.callsFrom b
          | some (.call _ _) => s.stopped fetcher || s.broadcastsFrom b
          | none => false
      | _ => false
  | .updateIsr t isLeader =>
      match s.threads[t]? with
      | some ⟨b, .handle (.isrUpdate req), _, _⟩ =>
          ((s.assignments b).updateIsr isLeader req).isSome && s.callsFrom b
      | _ => false
  | .reconcile t =>
      match s.threads[t]? with
      | some ⟨b, _, .reconcile _ ((key, pa) :: _), _⟩ =>
          (s.followerChange m b key pa).destroyed.any s.reported
      | _ => false
  | .eraseFollower t key =>
      match s.threads[t]? with
      | some th => (s.followers th.broker)[key]?.any fun follower => s.reported follower.2
      | _ => false
  | _ => false

end CallState

/-- The condition on the steps of a run. -/
def NoOverlap (m : Membership) (s : CallState) (e : CallEvent) : Prop := s.overlaps m e = false

instance (m : Membership) (s : CallState) (e : CallEvent) : Decidable (NoOverlap m s e) :=
  inferInstanceAs (Decidable (_ = _))

section Threads

variable {threads threads' new : List Thread} {t u : ThreadId} {point : ThreadPoint}
  {stopped : Option ThreadId} {th th' : Thread} {body : ThreadBody}

/-- What `advance` makes of thread `u`. -/
def moved (t : ThreadId) (point : ThreadPoint) (stopped : Option ThreadId) (u : ThreadId)
    (th : Thread) : Thread :=
  { th with
    point := if u = t then point else th.point
    stop := th.stop || decide (stopped = some u) }

theorem getElem?_advance (h : threads[u]? = some th) :
    (advance threads t point stopped new)[u]? = some (moved t point stopped u th) := by
  have hlt := (List.getElem?_eq_some_iff.mp h).1
  rw [advance, List.getElem?_append_left (by simpa using hlt), List.getElem?_mapIdx, h]
  rfl

theorem advance_cases (h : (advance threads t point stopped new)[u]? = some th') :
    (∃ th, threads[u]? = some th ∧ th' = moved t point stopped u th) ∨
      ∃ i, u = threads.length + i ∧ new[i]? = some th' := by
  rcases Nat.lt_or_ge u threads.length with hu | hu
  · left
    have hth := List.getElem?_eq_getElem hu
    rw [getElem?_advance hth] at h
    exact ⟨_, hth, (Option.some.inj h).symm⟩
  · right
    rw [advance, List.getElem?_append_right (by simpa using hu), List.length_mapIdx] at h
    exact ⟨u - threads.length, (Nat.add_sub_of_le hu).symm, h⟩

theorem getElem?_advance_new {i : Nat} (h : new[i]? = some th) :
    (advance threads t point stopped new)[threads.length + i]? = some th := by
  rw [advance, List.getElem?_append_right (by simp), List.length_mapIdx, Nat.add_sub_cancel_left]
  exact h

/-- There is a thread of this number, and this is what it runs. -/
def BodyAt (threads : List Thread) (t : ThreadId) (body : ThreadBody) : Prop :=
  ∃ th, threads[t]? = some th ∧ th.body = body

def IsFetcher (threads : List Thread) (t : ThreadId) : Prop :=
  ∃ key leader, BodyAt threads t (.fetch key leader)

theorem BodyAt.advance (h : BodyAt threads u body) :
    BodyAt (advance threads t point stopped new) u body := by
  obtain ⟨th, hth, hbody⟩ := h
  exact ⟨_, getElem?_advance hth, hbody⟩

theorem IsFetcher.advance (h : IsFetcher threads u) :
    IsFetcher (advance threads t point stopped new) u := by
  obtain ⟨key, leader, hbody⟩ := h
  exact ⟨key, leader, hbody.advance⟩

/-- The threads that call `reconcile_replication`. -/
inductive ThreadBody.Reconciles : ThreadBody → Prop
  | leaderAndIsr {entries : List LeaderAndISREntry} : Reconciles (.handle (.leaderAndIsr entries))
  | checkPartitionFailover : Reconciles .checkPartitionFailover

/-- Where a thread can be, and what it waits for there. -/
inductive Stands (threads : List Thread) (t : ThreadId) : ThreadBody → ThreadPoint → Prop
  | start {body : ThreadBody} : Stands threads t body .start
  | done {body : ThreadBody} : Stands threads t body .done
  | connected {key : TopicPartition} {leader : BrokerId} :
      Stands threads t (.fetch key leader) .connected
  | fetch {key key' : TopicPartition} {leader : BrokerId} {handler : ThreadId}
      (serves : BodyAt threads handler (.handle (.replicate t key'))) :
      Stands threads t (.fetch key leader) (.await none handler)
  | broadcast {origin : Origin} {peer : BrokerId} {entries : List LeaderAndISREntry} :
      Stands threads t (.broadcast origin) (.wantConn peer (.leaderAndIsr entries))
  | sent {origin : Origin} {peer : BrokerId} {handler : ThreadId}
      {entries : List LeaderAndISREntry}
      (serves : BodyAt threads handler (.handle (.leaderAndIsr entries))) :
      Stands threads t (.broadcast origin) (.await (some peer) handler)
  | report {fetcher : ThreadId} {key : TopicPartition} {peer : BrokerId}
      {req : IsrUpdateRequest} :
      Stands threads t (.handle (.replicate fetcher key)) (.wantConn peer (.isrUpdate req))
  | called {fetcher handler : ThreadId} {key : TopicPartition} {peer : BrokerId}
      {req : IsrUpdateRequest} (serves : BodyAt threads handler (.handle (.isrUpdate req))) :
      Stands threads t (.handle (.replicate fetcher key)) (.await (some peer) handler)
  | localUpdate {fetcher : ThreadId} {key : TopicPartition} {ids : List ThreadId}
      (sends : ∀ u ∈ ids, BodyAt threads u (.broadcast .updateIsr)) :
      Stands threads t (.handle (.replicate fetcher key)) (.join ids)
  | update {req : IsrUpdateRequest} {ids : List ThreadId}
      (sends : ∀ u ∈ ids, BodyAt threads u (.broadcast .updateIsr)) :
      Stands threads t (.handle (.isrUpdate req)) (.join ids)
  | failover {ids : List ThreadId}
      (sends : ∀ u ∈ ids, BodyAt threads u (.broadcast .checkPartitionFailover)) :
      Stands threads t .checkPartitionFailover (.join ids)
  | wantAssignments {body : ThreadBody} (reconciles : body.Reconciles) :
      Stands threads t body .wantAssignments
  | wantFollowers {body : ThreadBody} {assignments : AllAssignments}
      (reconciles : body.Reconciles) :
      Stands threads t body (.wantFollowers assignments)
  | reconcile {body : ThreadBody} {assignments todo : AllAssignments}
      (reconciles : body.Reconciles) :
      Stands threads t body (.reconcile assignments todo)
  | joinFetcher {body : ThreadBody} {fetcher : ThreadId} {assignments todo : AllAssignments}
      (reconciles : body.Reconciles)
      (joined : IsFetcher threads fetcher)
      (told : ∃ fh, threads[fetcher]? = some fh ∧ fh.stop = true) :
      Stands threads t body (.joinFetcher fetcher assignments todo)

/-- Threads keep what they run, and a fetcher that was told to stop stays so. -/
theorem Stands.advance {place : ThreadPoint} (h : Stands threads u body place) :
    Stands (advance threads t point stopped new) u body place := by
  cases h with
  | start => exact .start
  | done => exact .done
  | connected => exact .connected
  | fetch serves => exact .fetch serves.advance
  | broadcast => exact .broadcast
  | sent serves => exact .sent serves.advance
  | report => exact .report
  | called serves => exact .called serves.advance
  | localUpdate sends => exact .localUpdate fun u hu => (sends u hu).advance
  | update sends => exact .update fun u hu => (sends u hu).advance
  | failover sends => exact .failover fun u hu => (sends u hu).advance
  | wantAssignments reconciles => exact .wantAssignments reconciles
  | wantFollowers reconciles => exact .wantFollowers reconciles
  | reconcile reconciles => exact .reconcile reconciles
  | joinFetcher reconciles joined told =>
      obtain ⟨fh, hfh, hstop⟩ := told
      refine .joinFetcher reconciles joined.advance ⟨_, getElem?_advance hfh, ?_⟩
      simp [moved, hstop]

end Threads

/-- What holds of the threads as long as nothing overlaps. -/
structure CallInv (s : CallState) : Prop where
  stands : ∀ t th, s.threads[t]? = some th → Stands s.threads t th.body th.point
  /-- What is joined is not being reported. -/
  unreported : ∀ t, s.stopped t = true → s.reported t = false
  /-- A broker that broadcasts for a report has no call of its own to a controller. -/
  apart : ∀ b, s.broadcastsFrom b = true → s.callsFrom b = false
  followers : ∀ (b : BrokerId) (key : TopicPartition) (follower : BrokerId × ThreadId),
    (s.followers b)[key]? = some follower → IsFetcher s.threads follower.2

section Steps

variable {s s' : CallState} {t u : ThreadId} {th uh : Thread} {point : ThreadPoint}
  {stopped : Option ThreadId} {new : List Thread} {b : BrokerId}

theorem moved_self : moved t point stopped t th =
    { th with point := point, stop := th.stop || decide (stopped = some t) } := by
  rw [moved, if_pos rfl]

theorem moved_of_ne (h : u ≠ t) : moved t point stopped u th =
    { th with stop := th.stop || decide (stopped = some u) } := by
  rw [moved, if_neg h]

theorem any_threads_iff {p : Thread → Bool} {threads : List Thread} :
    threads.any p = true ↔ ∃ (u : ThreadId) (uh : Thread), threads[u]? = some uh ∧ p uh = true := by
  rw [List.any_eq_true]
  constructor
  · rintro ⟨uh, hmem, hp⟩
    obtain ⟨u, hu⟩ := List.mem_iff_getElem?.mp hmem
    exact ⟨u, uh, hu, hp⟩
  · rintro ⟨u, uh, hu, hp⟩
    exact ⟨uh, List.mem_of_getElem? hu, hp⟩

theorem callsFrom_iff : s.callsFrom b = true ↔
    ∃ (u : ThreadId) (uh : Thread),
      s.threads[u]? = some uh ∧ uh.broker = b ∧ uh.callsController = true := by
  simp only [CallState.callsFrom, any_threads_iff, decide_eq_true_eq]

theorem broadcastsFrom_iff : s.broadcastsFrom b = true ↔
    ∃ (u : ThreadId) (uh : Thread),
      s.threads[u]? = some uh ∧ uh.broker = b ∧ uh.broadcastsIsr = true := by
  simp only [CallState.broadcastsFrom, any_threads_iff, decide_eq_true_eq]

theorem stopped_iff : s.stopped t = true ↔ ∃ th, s.threads[t]? = some th ∧ th.stop = true := by
  rw [CallState.stopped, Option.any_eq_true]

theorem reported_iff : s.reported t = true ↔ ∃ th conn handler hh, s.threads[t]? = some th ∧
    th.point = .await conn handler ∧ s.threads[handler]? = some hh ∧ hh.reporting = true := by
  rw [CallState.reported, Option.any_eq_true]
  constructor
  · rintro ⟨th, hth, h⟩
    split at h
    · next conn handler hpoint =>
        obtain ⟨hh, hhh, hreporting⟩ := (Option.any_eq_true _ _).mp h
        exact ⟨th, conn, handler, hh, hth, hpoint, hhh, hreporting⟩
    · cases h
  · rintro ⟨th, conn, handler, hh, hth, hpoint, hhh, hreporting⟩
    refine ⟨th, hth, ?_⟩
    rw [hpoint]
    exact (Option.any_eq_true _ _).mpr ⟨hh, hhh, hreporting⟩

theorem reporting_of_callsController (h : th.callsController = true) : th.reporting = true := by
  obtain ⟨b, body, point, stop⟩ := th
  unfold Thread.callsController at h
  split at h
  · next hbody hpoint =>
      simp only at hbody hpoint
      subst hbody hpoint
      rfl
  · next hbody hpoint =>
      simp only at hbody hpoint
      subst hbody hpoint
      rfl
  · cases h

/-- Who waits for a FETCH_REPLICA handler is the fetcher it serves. -/
theorem Stands.serves {threads : List Thread} {body : ThreadBody} {conn : Option BrokerId}
    {handler : ThreadId} (h : Stands threads t body (.await conn handler)) :
    ∃ hbody, BodyAt threads handler hbody ∧
      ∀ f key, hbody = .handle (.replicate f key) → f = t := by
  cases h with
  | fetch serves =>
      refine ⟨_, serves, ?_⟩
      intro f key heq
      cases heq
      rfl
  | sent serves =>
      refine ⟨_, serves, ?_⟩
      intro f key heq
      cases heq
  | called serves =>
      refine ⟨_, serves, ?_⟩
      intro f key heq
      cases heq

/-- What a step has to respect: thread `t` moves to a place where it can be, a fetcher that is
told to stop is not being reported, and what begins does not overlap. -/
structure Respects (s s' : CallState) (t : ThreadId) (th : Thread) (point : ThreadPoint)
    (stopped : Option ThreadId) (new : List Thread) : Prop where
  here : Stands s'.threads t th.body point
  fresh : ∀ (i : Nat) (nh : Thread), new[i]? = some nh →
    Stands s'.threads (s.threads.length + i) nh.body nh.point ∧ nh.stop = false ∧
      nh.reporting = false
  awaits : ∀ conn handler, point = .await conn handler → s.threads.length ≤ handler
  reports : ({ th with point := point } : Thread).reporting = true → th.reporting = true ∨
    stopped = none ∧ ∃ f key, th.body = .handle (.replicate f key) ∧ s.stopped f = false
  stops : ∀ f, stopped = some f → s.reported f = false
  calls : ({ th with point := point } : Thread).callsController = true →
    th.callsController = true ∨ s.broadcastsFrom th.broker = false
  broadcasts : ({ th with point := point } : Thread).broadcastsIsr = true →
    th.broadcastsIsr = true
  begins : ∀ nh ∈ new, nh.broadcastsIsr = true → nh.broker = th.broker ∧
    s.callsFrom th.broker = false ∧
      ({ th with point := point } : Thread).callsController = false
  followers : ∀ (b : BrokerId) (key : TopicPartition) (follower : BrokerId × ThreadId),
    (s'.followers b)[key]? = some follower → IsFetcher s'.threads follower.2

theorem CallInv.unreported_advance (inv : CallInv s) (ht : s.threads[t]? = some th)
    (hthreads : s'.threads = advance s.threads t point stopped new)
    (respects : Respects s s' t th point stopped new) (v : ThreadId)
    (hstopped : s'.stopped v = true) : s'.reported v = false := by
  by_contra hreported
  rw [Bool.not_eq_false] at hreported
  obtain ⟨vh', hvh', hstop⟩ := stopped_iff.mp hstopped
  obtain ⟨vh'', conn, handler, hh', hvh'', hpoint, hhh', hreporting⟩ := reported_iff.mp hreported
  obtain rfl := Option.some.inj (hvh'.symm.trans hvh'')
  rw [hthreads] at hvh' hhh'
  rcases advance_cases hvh' with ⟨vh, hvh, rfl⟩ | ⟨i, -, hi⟩
  · have hhandler : s.threads.length ≤ handler → False := by
      -- a new handler does not report yet
      intro hle
      rcases advance_cases hhh' with ⟨hh, hhh, -⟩ | ⟨i, -, hi⟩
      · exact absurd (List.getElem?_eq_some_iff.mp hhh).1 (Nat.not_lt_of_le hle)
      · rw [(respects.fresh i _ hi).2.2] at hreporting
        cases hreporting
    have hvt : v ≠ t := by
      rintro rfl
      rw [moved_self] at hpoint
      exact hhandler (respects.awaits _ _ hpoint)
    rw [moved_of_ne hvt] at hstop hpoint
    have hunreported : s.reported v = false := by
      rcases (Bool.or_eq_true _ _).mp hstop with hstop | hstop
      · exact inv.unreported v (stopped_iff.mpr ⟨vh, hvh, hstop⟩)
      · exact respects.stops v (of_decide_eq_true hstop)
    have hstands := inv.stands v vh hvh
    rw [hpoint] at hstands
    obtain ⟨hbody, ⟨hh, hhh, rfl⟩, hserves⟩ := hstands.serves
    rw [getElem?_advance hhh] at hhh'
    obtain rfl := Option.some.inj hhh'
    have hwas : hh.reporting = false := by
      by_contra h
      rw [Bool.not_eq_false] at h
      rw [reported_iff.mpr ⟨vh, conn, handler, hh, hvh, hpoint, hhh, h⟩] at hunreported
      cases hunreported
    by_cases hht : handler = t
    · -- the handler begins to report, for a fetcher that is not stopped
      subst hht
      obtain rfl := Option.some.inj (hhh.symm.trans ht)
      rw [moved_self] at hreporting
      rcases respects.reports hreporting with h | ⟨hnone, f, key, hbody, hrunning⟩
      · rw [hwas] at h
        cases h
      · obtain rfl := hserves f key hbody
        rcases (Bool.or_eq_true _ _).mp hstop with hstop | hstop
        · rw [stopped_iff.mpr ⟨vh, hvh, hstop⟩] at hrunning
          cases hrunning
        · rw [hnone] at hstop
          cases hstop
    · rw [moved_of_ne hht] at hreporting
      change hh.reporting = true at hreporting
      rw [hwas] at hreporting
      cases hreporting
  · rw [(respects.fresh i _ hi).2.1] at hstop
    cases hstop

theorem CallInv.apart_advance (inv : CallInv s) (ht : s.threads[t]? = some th)
    (hthreads : s'.threads = advance s.threads t point stopped new)
    (respects : Respects s s' t th point stopped new) (b : BrokerId)
    (hbroadcasts : s'.broadcastsFrom b = true) : s'.callsFrom b = false := by
  by_contra hcalls
  rw [Bool.not_eq_false] at hcalls
  obtain ⟨u, uh', hu', rfl, hub⟩ := broadcastsFrom_iff.mp hbroadcasts
  obtain ⟨v, vh', hv', hbroker, hvc⟩ := callsFrom_iff.mp hcalls
  rw [hthreads] at hu' hv'
  -- the caller was there before the step, or it is thread `t`
  have hcaller : s.callsFrom uh'.broker = true ∨
      (({ th with point := point } : Thread).callsController = true ∧ th.broker = uh'.broker) := by
    rcases advance_cases hv' with ⟨vh, hv, rfl⟩ | ⟨i, -, hi⟩
    · by_cases hvt : v = t
      · subst hvt
        obtain rfl := Option.some.inj (hv.symm.trans ht)
        rw [moved_self] at hvc hbroker
        exact .inr ⟨hvc, hbroker⟩
      · rw [moved_of_ne hvt] at hvc hbroker
        exact .inl (callsFrom_iff.mpr ⟨v, vh, hv, hbroker, hvc⟩)
    · have hreporting := reporting_of_callsController hvc
      rw [(respects.fresh i _ hi).2.2] at hreporting
      cases hreporting
  rcases advance_cases hu' with ⟨uh, hu, rfl⟩ | ⟨i, -, hi⟩
  · have hbefore : s.broadcastsFrom uh.broker = true := by
      refine broadcastsFrom_iff.mpr ⟨u, uh, hu, rfl, ?_⟩
      by_cases hut : u = t
      · subst hut
        obtain rfl := Option.some.inj (hu.symm.trans ht)
        rw [moved_self] at hub
        exact respects.broadcasts hub
      · rw [moved_of_ne hut] at hub
        exact hub
    have hnone := inv.apart uh.broker hbefore
    change s.callsFrom uh.broker = true ∨ _ ∧ th.broker = uh.broker at hcaller
    rcases hcaller with hcaller | ⟨hcaller, hsame⟩
    · rw [hnone] at hcaller
      cases hcaller
    · rcases respects.calls hcaller with hcalled | hnot
      · rw [← hsame, ← Bool.not_eq_true] at hnone
        exact hnone (callsFrom_iff.mpr ⟨t, th, ht, rfl, hcalled⟩)
      · rw [hsame, hbefore] at hnot
        cases hnot
  · obtain ⟨hsame, hnone, hnot⟩ := respects.begins uh' (List.mem_of_getElem? hi) hub
    rcases hcaller with hcaller | ⟨hcaller, -⟩
    · rw [hsame, hnone] at hcaller
      cases hcaller
    · rw [hnot] at hcaller
      cases hcaller

theorem CallInv.advance (inv : CallInv s) (ht : s.threads[t]? = some th)
    (hthreads : s'.threads = Broker.advance s.threads t point stopped new)
    (respects : Respects s s' t th point stopped new) : CallInv s' where
  stands := by
    intro u uh' hu'
    rw [hthreads] at hu'
    rcases advance_cases hu' with ⟨uh, hu, rfl⟩ | ⟨i, rfl, hi⟩
    · by_cases hut : u = t
      · subst hut
        obtain rfl := Option.some.inj (hu.symm.trans ht)
        rw [moved_self]
        exact respects.here
      · rw [moved_of_ne hut, hthreads]
        exact (inv.stands u uh hu).advance
    · exact (respects.fresh i uh' hi).1
  unreported := inv.unreported_advance ht hthreads respects
  apart := inv.apart_advance ht hthreads respects
  followers := respects.followers

/-- A thread that goes to a place where it neither waits for a response nor reports. -/
theorem CallInv.move (inv : CallInv s) (ht : s.threads[t]? = some th)
    (hthreads : s'.threads = Broker.advance s.threads t point none [])
    (hfollowers : s'.followers = s.followers) (here : Stands s.threads t th.body point)
    (awaits : point.awaits = false)
    (reports : ({ th with point := point } : Thread).reporting = false)
    (broadcasts : ({ th with point := point } : Thread).broadcastsIsr = false) : CallInv s' := by
  refine inv.advance ht hthreads
    { here := by rw [hthreads]; exact here.advance
      fresh := ?fresh
      awaits := ?awaits
      reports := fun h => ?reports
      stops := ?stops
      calls := fun h => ?calls
      broadcasts := fun h => ?broadcasts
      begins := ?begins
      followers := fun b key follower h => ?followers }
  case fresh =>
    intro i nh h
    cases h
  case awaits =>
    rintro conn handler rfl
    cases awaits
  case reports =>
    rw [reports] at h
    cases h
  case stops =>
    intro f h
    cases h
  case calls =>
    rw [reporting_of_callsController h] at reports
    cases reports
  case broadcasts =>
    rw [broadcasts] at h
    cases h
  case begins =>
    intro nh h
    cases h
  case followers =>
    rw [hfollowers] at h
    rw [hthreads]
    exact (inv.followers b key follower h).advance

/-- A thread that sends a request and waits for its handler. -/
theorem CallInv.send (inv : CallInv s) (ht : s.threads[t]? = some th) {conn : Option BrokerId}
    {handler : Thread}
    (hthreads : s'.threads =
      Broker.advance s.threads t (.await conn s.threads.length) none [handler])
    (hfollowers : s'.followers = s.followers)
    (here : ∀ threads, BodyAt threads s.threads.length handler.body →
      Stands threads t th.body (.await conn s.threads.length))
    (started : handler.point = .start ∧ handler.stop = false ∧ handler.reporting = false ∧
      handler.broadcastsIsr = false)
    (reports : ({ th with point := .await conn s.threads.length } : Thread).reporting = true →
      th.callsController = true)
    (broadcasts : ({ th with point := .await conn s.threads.length } : Thread).broadcastsIsr =
      true → th.broadcastsIsr = true) : CallInv s' := by
  obtain ⟨hstart, hstop, hquiet, hno⟩ := started
  have hnew : ∀ i nh, [handler][i]? = some nh → i = 0 ∧ nh = handler := by
    intro i nh h
    cases i with
    | zero => exact ⟨rfl, (Option.some.inj h).symm⟩
    | succ i => cases h
  refine inv.advance ht hthreads
    { here := ?here
      fresh := ?fresh
      awaits := ?awaits
      reports := fun h => .inl (reporting_of_callsController (reports h))
      stops := ?stops
      calls := fun h => .inl (reports (reporting_of_callsController h))
      broadcasts := broadcasts
      begins := ?begins
      followers := fun b key follower h => ?followers }
  case here =>
    apply here
    rw [hthreads]
    exact ⟨handler, getElem?_advance_new (i := 0) rfl, rfl⟩
  case fresh =>
    intro i nh h
    obtain ⟨rfl, rfl⟩ := hnew i nh h
    rw [hstart]
    exact ⟨.start, hstop, hquiet⟩
  case awaits =>
    intro conn' handler' h
    exact (ThreadPoint.await.inj h).2.le
  case stops =>
    intro f h
    cases h
  case begins =>
    intro nh h hb
    obtain rfl := List.mem_singleton.mp h
    rw [hno] at hb
    cases hb
  case followers =>
    rw [hfollowers] at h
    rw [hthreads]
    exact (inv.followers b key follower h).advance

theorem CallInv.broadcast (inv : CallInv s) (ht : s.threads[t]? = some th) {m : Membership}
    {origin : Origin} {d : Decision}
    (here : ∀ threads ids, (∀ u ∈ ids, BodyAt threads u (.broadcast origin)) →
      Stands threads t th.body (.join ids))
    (reports : ∀ ids, ({ th with point := .join ids } : Thread).reporting = true →
      ∃ f key, th.body = .handle (.replicate f key) ∧ s.stopped f = false)
    (begins : origin = .updateIsr → s.callsFrom th.broker = false) :
    CallInv (s.broadcastLeaderAndIsr m t th.broker origin d) := by
  have hnew : ∀ nh ∈ (m.peerIds th.broker).map fun peer =>
      ({ broker := th.broker
         body := .broadcast origin
         point := .wantConn peer (.leaderAndIsr d.wireEntries) } : Thread),
      nh.broker = th.broker ∧ nh.body = .broadcast origin ∧ nh.stop = false ∧
        ∃ peer, nh.point = .wantConn peer (.leaderAndIsr d.wireEntries) := by
    intro nh h
    obtain ⟨peer, -, rfl⟩ := List.mem_map.mp h
    exact ⟨rfl, rfl, rfl, peer, rfl⟩
  have hquiet : ∀ ids, ({ th with point := .join ids } : Thread).callsController = false ∧
      ({ th with point := .join ids } : Thread).broadcastsIsr = false := by
    intro ids
    have hjoin := here [] [] fun u hu => by cases hu
    obtain ⟨b, body, place, stop⟩ := th
    cases hjoin <;> exact ⟨rfl, rfl⟩
  refine inv.advance ht rfl
    { here := ?here
      fresh := ?fresh
      awaits := ?awaits
      reports := fun h => .inr ⟨rfl, reports _ h⟩
      stops := ?stops
      calls := ?calls
      broadcasts := ?broadcasts
      begins := ?begins
      followers := fun b key follower h => (inv.followers b key follower h).advance }
  case here =>
    apply here
    intro u hu
    obtain ⟨i, hi, rfl⟩ := List.mem_map.mp hu
    rw [List.mem_range] at hi
    have hget := List.getElem?_eq_getElem hi
    exact ⟨_, getElem?_advance_new hget, (hnew _ (List.mem_of_getElem? hget)).2.1⟩
  case fresh =>
    intro i nh h
    obtain ⟨-, hbody, hstop, peer, hpoint⟩ := hnew nh (List.mem_of_getElem? h)
    refine ⟨?_, hstop, ?_⟩
    · rw [hbody, hpoint]
      exact .broadcast
    · rw [Thread.reporting, hbody]
  case awaits =>
    intro conn handler h
    cases h
  case stops =>
    intro f h
    cases h
  case calls =>
    intro h
    rw [(hquiet _).1] at h
    cases h
  case broadcasts =>
    intro h
    rw [(hquiet _).2] at h
    cases h
  case begins =>
    intro nh h hb
    obtain ⟨hbroker, hbody, -, -⟩ := hnew nh h
    refine ⟨hbroker, begins ?_, (hquiet _).1⟩
    rw [Thread.broadcastsIsr, hbody] at hb
    cases origin with
    | updateIsr => rfl
    | checkPartitionFailover => cases hb

/-- Who reconciles neither reports nor broadcasts, wherever it stands. -/
theorem ThreadBody.Reconciles.quiet (reconciles : th.body.Reconciles) (place : ThreadPoint) :
    ({ th with point := place } : Thread).reporting = false ∧
      ({ th with point := place } : Thread).callsController = false ∧
        ({ th with point := place } : Thread).broadcastsIsr = false := by
  obtain ⟨b, body, place', stop⟩ := th
  cases reconciles <;> exact ⟨rfl, rfl, rfl⟩

theorem mem_toList_getElem? {started : Option Thread} {i : Nat}
    (h : started.toList[i]? = some th) : th ∈ started :=
  Option.mem_toList.mp (List.mem_of_getElem? h)

/-- After an iteration `followers_` holds what it held, or the fetcher that was started. -/
theorem CallInv.followers_changeFollower (inv : CallInv s) {key : TopicPartition}
    {c : FollowerChange} {assignments todo : AllAssignments}
    (started : ∀ nh ∈ c.started, ∃ leader, nh.body = .fetch key leader)
    (follower : ∀ f ∈ c.follower, IsFetcher s.threads f.2 ∨
      f.2 = s.threads.length ∧ c.started.isSome)
    {b' : BrokerId} {key' : TopicPartition} {f : BrokerId × ThreadId}
    (h : ((s.changeFollower t b key c assignments todo).followers b')[key']? = some f) :
    IsFetcher (s.changeFollower t b key c assignments todo).threads f.2 := by
  change IsFetcher (Broker.advance _ _ _ _ _) _
  change (Function.update s.followers b _ b')[key']? = some f at h
  by_cases hb : b' = b
  · subst hb
    rw [Function.update_self, Std.ExtTreeMap.getElem?_alter] at h
    split at h
    · rcases follower f h with hold | ⟨hnew, hsome⟩
      · exact hold.advance
      · obtain ⟨nh, hnh⟩ := Option.isSome_iff_exists.mp hsome
        obtain ⟨leader, hbody⟩ := started nh hnh
        rw [hnew]
        have hget : c.started.toList[0]? = some nh := by
          rw [hnh]
          rfl
        exact ⟨key, leader, nh, getElem?_advance_new hget, hbody⟩
    · exact (inv.followers _ key' f h).advance
  · rw [Function.update_of_ne hb] at h
    exact (inv.followers b' key' f h).advance

theorem CallInv.changeFollower (inv : CallInv s) (ht : s.threads[t]? = some th)
    {key : TopicPartition} {c : FollowerChange} {assignments todo : AllAssignments}
    (reconciles : th.body.Reconciles)
    (started : ∀ nh ∈ c.started, (∃ leader, nh.body = .fetch key leader) ∧ nh.point = .start ∧
      nh.stop = false)
    (follower : ∀ f ∈ c.follower, IsFetcher s.threads f.2 ∨
      f.2 = s.threads.length ∧ c.started.isSome)
    (destroyed : ∀ f ∈ c.destroyed, IsFetcher s.threads f ∧ s.reported f = false) :
    CallInv (s.changeFollower t th.broker key c assignments todo) := by
  have quiet := reconciles.quiet
  refine inv.advance ht rfl
    { here := ?here
      fresh := ?fresh
      awaits := ?awaits
      reports := fun h => absurd h (Bool.eq_false_iff.mp (quiet _).1)
      stops := fun f h => (destroyed f h).2
      calls := fun h => absurd h (Bool.eq_false_iff.mp (quiet _).2.1)
      broadcasts := fun h => absurd h (Bool.eq_false_iff.mp (quiet _).2.2)
      begins := ?begins
      followers := fun b key' f h =>
        inv.followers_changeFollower (fun nh hnh => (started nh hnh).1) follower h }
  case here =>
    change Stands (Broker.advance _ _ _ _ _) _ _ _
    split
    · next f hf =>
        obtain ⟨hfetcher, -⟩ := destroyed f hf
        refine .joinFetcher reconciles hfetcher.advance ?_
        obtain ⟨key', leader, fh, hfh, -⟩ := hfetcher
        exact ⟨_, getElem?_advance hfh, by simp [moved, hf]⟩
    · exact .reconcile reconciles
  case fresh =>
    intro i nh h
    obtain ⟨⟨leader, hbody⟩, hpoint, hstop⟩ := started nh (mem_toList_getElem? h)
    refine ⟨?_, hstop, ?_⟩
    · rw [hpoint]
      exact .start
    · rw [Thread.reporting, hbody]
  case awaits =>
    intro conn handler h
    split at h <;> cases h
  case begins =>
    intro nh h hb
    obtain ⟨⟨leader, hbody⟩, -, -⟩ := started nh (Option.mem_toList.mp h)
    rw [Thread.broadcastsIsr, hbody] at hb
    cases hb

/-- A FETCH_REPLICA handler that is going to call the controller. -/
theorem CallInv.callController (inv : CallInv s) {stop : Bool} {fetcher : ThreadId}
    {key : TopicPartition} {controllerId : BrokerId} {req : IsrUpdateRequest}
    (ht : s.threads[t]? = some ⟨b, .handle (.replicate fetcher key), .start, stop⟩)
    (running : s.stopped fetcher = false) (apart : s.broadcastsFrom b = false) :
    CallInv (s.move t (.wantConn controllerId (.isrUpdate req))) := by
  refine inv.advance ht rfl
    { here := .report
      fresh := ?fresh
      awaits := ?awaits
      reports := fun _ => .inr ⟨rfl, fetcher, key, rfl, running⟩
      stops := ?stops
      calls := fun _ => .inr apart
      broadcasts := ?broadcasts
      begins := ?begins
      followers := fun b key follower h => (inv.followers b key follower h).advance }
  case fresh =>
    intro i nh h
    cases h
  case awaits =>
    intro conn handler h
    cases h
  case stops =>
    intro f h
    cases h
  case broadcasts =>
    intro h
    cases h
  case begins =>
    intro nh h
    cases h

/-- A thread that ends a turn of its loop, or its only work. -/
theorem CallInv.rest (inv : CallInv s) (ht : s.threads[t]? = some th) :
    CallInv (s.move t th.rest) := by
  obtain ⟨b, body, point, stop⟩ := th
  cases body with
  | fetch key leader => exact inv.move ht rfl rfl .start rfl rfl rfl
  | checkPartitionFailover => exact inv.move ht rfl rfl .start rfl rfl rfl
  | handle req =>
      refine inv.move ht rfl rfl .done rfl ?_ rfl
      cases req <;> rfl
  | broadcast origin =>
      refine inv.move ht rfl rfl .done rfl rfl ?_
      cases origin <;> rfl

/-- A thread in `reconcile_replication` that goes on there. -/
theorem CallInv.moveReconciles (inv : CallInv s) (ht : s.threads[t]? = some th)
    (reconciles : th.body.Reconciles) (here : Stands s.threads t th.body point)
    (awaits : point.awaits = false) : CallInv (s.move t point) := by
  obtain ⟨reports, -, broadcasts⟩ := reconciles.quiet point
  exact inv.move ht rfl rfl here awaits reports broadcasts

/-- A partition is led from now on, or its fetcher is recreated, or nothing changes. -/
theorem followerChange_cases (m : Membership) (key : TopicPartition) (pa : PartitionAssignment) :
    s.followerChange m b key pa =
        { follower := none, destroyed := (s.followers b)[key]?.map (·.2) } ∨
      s.followerChange m b key pa =
        { started := some { broker := b, body := .fetch key pa.leaderId }
          follower := some (pa.leaderId, s.threads.length)
          destroyed := (s.followers b)[key]?.map (·.2) } ∨
      s.followerChange m b key pa = { follower := (s.followers b)[key]? } := by
  simp only [CallState.followerChange]
  split
  · exact .inl rfl
  · split
    · exact .inr (.inl rfl)
    · exact .inr (.inr rfl)

/-- The fetcher of an iteration is one of `followers_` or the one that starts. -/
theorem CallInv.followerChange (inv : CallInv s) (ht : s.threads[t]? = some th) {m : Membership}
    {key : TopicPartition} {pa : PartitionAssignment} {assignments todo : AllAssignments}
    (reconciles : th.body.Reconciles)
    (unreported : ∀ f ∈ (s.followerChange m th.broker key pa).destroyed, s.reported f = false) :
    CallInv (s.changeFollower t th.broker key (s.followerChange m th.broker key pa) assignments
      todo) := by
  have hold : ∀ f ∈ (s.followers th.broker)[key]?.map (·.2), IsFetcher s.threads f := by
    intro f hf
    obtain ⟨follower, hfollower, rfl⟩ := Option.map_eq_some_iff.mp hf
    exact inv.followers th.broker key follower hfollower
  refine inv.changeFollower ht reconciles ?_ ?_ (fun f hf => ⟨?_, unreported f hf⟩)
  · intro nh h
    rcases followerChange_cases m key pa with hc | hc | hc <;> rw [hc] at h
    · cases h
    · obtain rfl := Option.some.inj h
      exact ⟨⟨_, rfl⟩, rfl, rfl⟩
    · cases h
  · intro f h
    rcases followerChange_cases m key pa with hc | hc | hc <;> rw [hc] at h ⊢
    · cases h
    · obtain rfl := Option.some.inj h
      exact .inr ⟨rfl, rfl⟩
    · exact .inl (inv.followers th.broker key f h)
  · rcases followerChange_cases m key pa with hc | hc | hc <;> rw [hc] at hf
    · exact hold f hf
    · exact hold f hf
    · cases hf

end Steps

/-! ## The events -/

section Events

variable {m : Membership} {s s' : CallState} {t : ThreadId}

theorem CallInv.checkStop (inv : CallInv s) (h : callStep m s (.checkStop t) = some s') :
    CallInv s' := by
  simp only [callStep] at h
  split at h
  · next b key leader stop ht =>
      obtain rfl := Option.some.inj h
      cases stop with
      | true => exact inv.move ht rfl rfl .done rfl rfl rfl
      | false => exact inv.move ht rfl rfl .connected rfl rfl rfl
  · cases h

theorem CallInv.requestFetch (inv : CallInv s) (h : callStep m s (.requestFetch t) = some s') :
    CallInv s' := by
  simp only [callStep] at h
  split at h
  · next b key leader stop ht =>
      obtain rfl := Option.some.inj h
      refine inv.send ht rfl rfl (fun threads hserves => .fetch hserves) ⟨rfl, rfl, rfl, rfl⟩
        ?_ ?_
      · intro hreporting
        cases hreporting
      · intro hbroadcasts
        cases hbroadcasts
  · cases h

theorem CallInv.replicate (inv : CallInv s) {changed : Option (List BrokerId)} {isLeader : Bool}
    {currentLeaderId : Option BrokerId}
    (apart : NoOverlap m s (.replicate t changed isLeader currentLeaderId))
    (h : callStep m s (.replicate t changed isLeader currentLeaderId) = some s') :
    CallInv s' := by
  simp only [callStep] at h
  split at h
  · next b fetcher key stop ht =>
      rw [NoOverlap, CallState.overlaps, ht] at apart
      simp only at apart
      split at h
      · next d hreport =>
          rw [hreport, Bool.or_eq_false_iff] at apart
          obtain rfl := Option.some.inj h
          refine inv.broadcast ht (fun threads ids hsends => .localUpdate hsends) ?_ ?_
          · intro ids _
            exact ⟨fetcher, key, rfl, apart.1⟩
          · intro _
            exact apart.2
      · next controllerId req hreport =>
          rw [hreport, Bool.or_eq_false_iff] at apart
          obtain rfl := Option.some.inj h
          exact inv.callController ht apart.1 apart.2
      · obtain rfl := Option.some.inj h
        exact inv.rest ht
  · cases h

theorem CallInv.updateIsr (inv : CallInv s) {isLeader : Bool}
    (apart : NoOverlap m s (.updateIsr t isLeader))
    (h : callStep m s (.updateIsr t isLeader) = some s') : CallInv s' := by
  simp only [callStep] at h
  split at h
  · next b req stop ht =>
      rw [NoOverlap, CallState.overlaps, ht] at apart
      simp only at apart
      split at h
      · next d hd =>
          rw [hd] at apart
          obtain rfl := Option.some.inj h
          refine inv.broadcast ht (fun threads ids hsends => .update hsends) ?_ ?_
          · intro ids hreporting
            cases hreporting
          · intro _
            simpa using apart
      · obtain rfl := Option.some.inj h
        exact inv.rest ht
  · cases h

theorem CallInv.applyLeaderAndIsr (inv : CallInv s)
    (h : callStep m s (.applyLeaderAndIsr t) = some s') : CallInv s' := by
  simp only [callStep] at h
  split at h
  · next b entries stop ht =>
      obtain rfl := Option.some.inj h
      exact inv.move ht rfl rfl (.wantAssignments .leaderAndIsr) rfl rfl rfl
  · cases h

theorem CallInv.checkPartitionFailover (inv : CallInv s) {unclean : Bool} {alive : AliveIds}
    (h : callStep m s (.checkPartitionFailover t unclean alive) = some s') : CallInv s' := by
  simp only [callStep] at h
  split at h
  · next b stop ht =>
      split at h
      · obtain rfl := Option.some.inj h
        exact inv
      · obtain rfl := Option.some.inj h
        refine inv.broadcast ht (fun threads ids hsends => .failover hsends) ?_ ?_
        · intro ids hreporting
          cases hreporting
        · intro horigin
          cases horigin
  · cases h

theorem CallInv.lockConn (inv : CallInv s) (h : callStep m s (.lockConn t) = some s') :
    CallInv s' := by
  simp only [callStep] at h
  split at h
  · next b body peer req stop ht =>
      split at h
      · cases h
      · obtain rfl := Option.some.inj h
        have hstands := inv.stands t _ ht
        cases hstands with
        | broadcast =>
            refine inv.send ht rfl rfl (fun threads hserves => .sent hserves)
              ⟨rfl, rfl, rfl, rfl⟩ ?_ ?_
            · intro hreporting
              cases hreporting
            · rename_i origin entries
              intro hbroadcasts
              cases origin with
              | updateIsr => rfl
              | checkPartitionFailover => cases hbroadcasts
        | report =>
            refine inv.send ht rfl rfl (fun threads hserves => .called hserves)
              ⟨rfl, rfl, rfl, rfl⟩ (fun _ => rfl) ?_
            intro hbroadcasts
            cases hbroadcasts
  · cases h

theorem CallInv.allAssignments (inv : CallInv s)
    (h : callStep m s (.allAssignments t) = some s') : CallInv s' := by
  simp only [callStep] at h
  split at h
  · next b body stop ht =>
      obtain rfl := Option.some.inj h
      have hstands := inv.stands t _ ht
      cases hstands with
      | wantAssignments reconciles =>
          exact inv.moveReconciles ht reconciles (.wantFollowers reconciles) rfl
  · cases h

theorem CallInv.lockFollowers (inv : CallInv s) (h : callStep m s (.lockFollowers t) = some s') :
    CallInv s' := by
  simp only [callStep] at h
  split at h
  · next b body assignments stop ht =>
      split at h
      · cases h
      · obtain rfl := Option.some.inj h
        have hstands := inv.stands t _ ht
        cases hstands with
        | wantFollowers reconciles =>
            exact inv.moveReconciles ht reconciles (.reconcile reconciles) rfl
  · cases h

theorem CallInv.reconcile (inv : CallInv s) (apart : NoOverlap m s (.reconcile t))
    (h : callStep m s (.reconcile t) = some s') : CallInv s' := by
  simp only [callStep] at h
  split at h
  · next b body assignments key pa todo stop ht =>
      obtain rfl := Option.some.inj h
      rw [NoOverlap, CallState.overlaps, ht] at apart
      simp only at apart
      have hstands := inv.stands t _ ht
      cases hstands with
      | reconcile reconciles =>
          refine inv.followerChange ht reconciles ?_
          intro f hf
          rw [Option.any_eq_false] at apart
          exact apart f hf
  · cases h

theorem CallInv.eraseFollower (inv : CallInv s) {key : TopicPartition}
    (apart : NoOverlap m s (.eraseFollower t key))
    (h : callStep m s (.eraseFollower t key) = some s') : CallInv s' := by
  simp only [callStep] at h
  split at h
  · next b body assignments stop ht =>
      split at h
      · cases h
      · obtain ⟨follower, hfollower, rfl⟩ := Option.map_eq_some_iff.mp h
        rw [NoOverlap, CallState.overlaps, ht] at apart
        simp only at apart
        rw [hfollower] at apart
        have hstands := inv.stands t _ ht
        cases hstands with
        | reconcile reconciles =>
            refine inv.changeFollower ht reconciles ?_ ?_ ?_
            · intro nh hnh
              cases hnh
            · intro f hf
              cases hf
            · intro f hf
              obtain rfl := Option.some.inj hf
              exact ⟨inv.followers b key follower hfollower, apart⟩
  · cases h

theorem CallInv.unlockFollowers (inv : CallInv s)
    (h : callStep m s (.unlockFollowers t) = some s') : CallInv s' := by
  simp only [callStep] at h
  split at h
  · next th ht =>
      split at h
      · split at h
        · obtain rfl := Option.some.inj h
          exact inv.rest ht
        · cases h
      · cases h
  · cases h

theorem CallInv.resume (inv : CallInv s) (h : callStep m s (.resume t) = some s') :
    CallInv s' := by
  simp only [callStep] at h
  split at h
  · next th ht =>
      split at h
      -- the response is there
      · split at h
        · obtain rfl := Option.some.inj h
          exact inv.rest ht
        · cases h
      -- the threads of a broadcast have ended
      · split at h
        · split at h
          · next hbody =>
              obtain rfl := Option.some.inj h
              have hreconciles : th.body.Reconciles := by
                rw [hbody]
                exact .checkPartitionFailover
              exact inv.moveReconciles ht hreconciles (.wantAssignments hreconciles) rfl
          · obtain rfl := Option.some.inj h
            exact inv.rest ht
        · cases h
      -- the fetcher has ended
      · split at h
        · obtain rfl := Option.some.inj h
          next fetcher assignments todo hpoint _ =>
            obtain ⟨b, body, point, stop⟩ := th
            obtain rfl : point = _ := hpoint
            have hstands := inv.stands t _ ht
            cases hstands with
            | joinFetcher reconciles joined told =>
                exact inv.moveReconciles ht reconciles (.reconcile reconciles) rfl
        · cases h
      · cases h
  · cases h

theorem callInv_step {e : CallEvent} (inv : CallInv s) (apart : NoOverlap m s e)
    (h : callStep m s e = some s') : CallInv s' := by
  cases e with
  | checkStop t => exact inv.checkStop h
  | requestFetch t => exact inv.requestFetch h
  | replicate t changed isLeader currentLeaderId => exact inv.replicate apart h
  | updateIsr t isLeader => exact inv.updateIsr apart h
  | applyLeaderAndIsr t => exact inv.applyLeaderAndIsr h
  | checkPartitionFailover t unclean alive => exact inv.checkPartitionFailover h
  | lockConn t => exact inv.lockConn h
  | allAssignments t => exact inv.allAssignments h
  | lockFollowers t => exact inv.lockFollowers h
  | reconcile t => exact inv.reconcile apart h
  | eraseFollower t key => exact inv.eraseFollower apart h
  | unlockFollowers t => exact inv.unlockFollowers h
  | resume t => exact inv.resume h

theorem callInv_boot (m : Membership) (assignments : BrokerId → Assignments) :
    CallInv (.boot m assignments) := by
  have hboot : ∀ (t : ThreadId) (th : Thread),
      (CallState.boot m assignments).threads[t]? = some th →
      ∃ b, th = { broker := b, body := .checkPartitionFailover } := by
    intro t th h
    obtain ⟨b, -, rfl⟩ := List.mem_map.mp (List.mem_of_getElem? h)
    exact ⟨b, rfl⟩
  constructor
  case stands =>
    intro t th h
    obtain ⟨b, rfl⟩ := hboot t th h
    exact .start
  case unreported =>
    intro t h
    obtain ⟨th, hth, hstop⟩ := stopped_iff.mp h
    obtain ⟨b, rfl⟩ := hboot t th hth
    cases hstop
  case apart =>
    intro b h
    obtain ⟨t, th, hth, -, hbroadcasts⟩ := broadcastsFrom_iff.mp h
    obtain ⟨b', rfl⟩ := hboot t th hth
    cases hbroadcasts
  case followers =>
    intro b key follower h
    simp [CallState.boot] at h

end Events

end MiniKafka.Broker
