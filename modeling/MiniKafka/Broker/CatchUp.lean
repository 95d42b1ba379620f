import MiniKafka.Broker.SingleLeadership
import MiniKafka.Storage.ServedStore

/-!
# Followers catch up

Whatever crashes, torn writes and lost responses have done within a leadership, the fetch rounds
that get through make it good. Each gives a follower that lags at least one record more, and the
round after the last of them tells the leader that the follower has everything.
-/

namespace MiniKafka.Broker

open Cluster Foundations Common Replication Storage

/-- A round of `run_loop` that gets through. A thread that still waits for an earlier response
gives it up first. -/
def Leadership.fetchRound (c : Leadership) (f : BrokerId) (now : UInt64) :
    List LeadershipEvent :=
  match c.leader, (c.followers f).store with
  | .running p, .running q =>
      let call : FetchCall := ⟨c.nextCall, f, UInt64.ofInt q.logEndOffset, kMaxFetchBytes⟩
      let reply : FetchReply := ⟨call, p.readUpToLeo (toI64 call.fetchOffset) call.maxBytes⟩
      let rest := [.requestFetch f, .readUpToLeo call, .onReplicaFetch reply now,
        .setHighWatermark, .appendReplicated reply]
      if (c.followers f).awaiting = none then rest else .giveUp f :: rest
  | _, _ => []

/-- Rounds one after the other, each of the follower and at the time that it is listed with. -/
def fetchRounds (me : BrokerId) (maxSegBytes : BrokerId → UInt32) :
    List (BrokerId × UInt64) → Leadership → Option Leadership
  | [], c => some c
  | (f, now) :: rounds, c =>
      (execute (leadershipStep me maxSegBytes) c (c.fetchRound f now)).bind
        (fetchRounds me maxSegBytes rounds)

/-- The leader and the processes of its followers run, and no `recompute` is halfway. -/
structure Steady (me : BrokerId) (c : Leadership) (st : PartitionState) : Prop where
  leader : c.leader.isRunning
  led : c.led = some st
  idle : c.recomputing = none
  followers : ∀ f ∈ st.replicas, f ≠ me → (c.followers f).store.isRunning

/-- When the leader was last asked by each follower, after some rounds. -/
def fetchTimes (rounds : List (BrokerId × UInt64)) (times : BrokerId → Option UInt64) :
    BrokerId → Option UInt64 :=
  rounds.foldl (fun times r => Function.update times r.1 (some r.2)) times

variable {me : BrokerId} {maxSegBytes : BrokerId → UInt32} {c : Leadership}
  {log more : List Record} {held : BrokerId → List Record} {f : BrokerId} {p q : Partition}
  {st : PartitionState} {now : UInt64}

section Round

/-- The records that a round gives its follower. -/
def Leadership.fetchedBy (p q : Partition) : List Record :=
  p.readUpToLeo (toI64 (UInt64.ofInt q.logEndOffset)) kMaxFetchBytes

/-- The state after a round. -/
def Leadership.afterRound (me : BrokerId) (c : Leadership) (f : BrokerId) (now : UInt64)
    (p q : Partition) (st : PartitionState) : Leadership :=
  let st := st.recordFetch f (UInt64.ofInt q.logEndOffset).toNat now
  let r := st.recompute me p.nextOffset.toNat now
  { c.setFollower f ⟨.running (q.appendReplicated (fetchedBy p q)), none⟩ with
    leader := .running (p.setHighWatermark r.hwm)
    led := some { st with isr := r.isr }
    recomputing := none
    nextCall := c.nextCall + 1 }

/-- The five steps of a round. -/
theorem execute_fetchRound (hp : c.leader = .running p) (hled : c.led = some st)
    (idle : c.recomputing = none) (hq : (c.followers f).store = .running q) (hf : f ≠ me)
    (now : UInt64) :
    execute (leadershipStep me maxSegBytes) c (c.fetchRound f now) =
      some (c.afterRound me f now p q st) := by
  let call : FetchCall := ⟨c.nextCall, f, UInt64.ofInt q.logEndOffset, kMaxFetchBytes⟩
  let reply : FetchReply := ⟨call, Leadership.fetchedBy p q⟩
  let waiting := c.setFollower f ⟨.running q, none⟩
  have hrest : execute (leadershipStep me maxSegBytes) waiting
      [.requestFetch f, .readUpToLeo call, .onReplicaFetch reply now, .setHighWatermark,
        .appendReplicated reply] = some (c.afterRound me f now p q st) := by
    obtain ⟨leader, led, recomputing, handlers, followers, calls, replies, nextCall⟩ := c
    dsimp only at hp hled idle
    subst hp hled idle
    simp only [waiting, execute, leadershipStep, Leadership.setFollower, Function.update_self]
    rw [if_pos hf]
    simp only [call, reply, Leadership.fetchedBy, List.mem_cons_self, if_true, List.erase_cons_head]
    simp only [Leadership.startRecompute, Leadership.awaits, Function.update_self]
    rw [if_pos (decide_eq_true ⟨List.mem_cons_self, trivial⟩), List.erase_cons_head,
      Function.update_idem, Function.update_idem]
    rfl
  unfold Leadership.fetchRound
  rw [hp, hq]
  dsimp only
  split
  · next hawait =>
      have hsame : waiting = c := by
        have hfollower : (⟨.running q, none⟩ : Follower) = c.followers f := by
          rw [← hq, ← hawait]
        change c.setFollower f ⟨.running q, none⟩ = c
        rw [hfollower, Leadership.setFollower, Function.update_eq_self]
      rwa [hsame] at hrest
  · have hgiveUp : leadershipStep me maxSegBytes c (.giveUp f) = some waiting := by
      rw [leadershipStep, hq]
    rw [execute, hgiveUp]
    exact hrest

/-- The calls under way may have been issued before another one. -/
theorem FetchCall.Stands.issue {followers : BrokerId → Follower} {n : Nat} {call : FetchCall}
    (h : call.Stands followers n held) : call.Stands followers (n + 1) held :=
  ⟨h.offset_le, h.issued.trans (Nat.lt_succ_self n), h.current⟩

theorem LeadershipInv.issue (inv : LeadershipInv me maxSegBytes c log held) :
    LeadershipInv me maxSegBytes { c with nextCall := c.nextCall + 1 } log held where
  leader := inv.leader
  bounded := inv.bounded
  follower := inv.follower
  agrees := inv.agrees
  awaiting g id hid := (inv.awaiting g id hid).trans (Nat.lt_succ_self _)
  calls call hcall := (inv.calls call hcall).issue
  handlers reply hreply :=
    ⟨(inv.handlers reply hreply).call.issue, (inv.handlers reply hreply).records⟩
  replies reply hreply :=
    ⟨(inv.replies reply hreply).call.issue, (inv.replies reply hreply).records⟩
  progress := inv.progress

/-- A round gives its follower the next records of the log, some unless there are none. -/
theorem LeadershipInv.fetchedBy (inv : LeadershipInv me maxSegBytes c log held)
    (hp : c.leader = .running p) (hq : (c.followers f).store = .running q) :
    (UInt64.ofInt q.logEndOffset).toNat = (held f).length ∧
      Leadership.fetchedBy p q <+: log.drop (held f).length ∧
      (Leadership.fetchedBy p q = [] → held f = log) := by
  have hleader := inv.leader
  have hbound := inv.bounded
  have hfollower := inv.follower f
  rw [hp] at hleader hbound
  rw [hq] at hfollower
  obtain ⟨hholds, -, hlt⟩ := hleader.of_running
  obtain ⟨hmine, -, hshort⟩ := hfollower.of_running
  have hoffset : (UInt64.ofInt q.logEndOffset).toNat = (held f).length := by
    rw [hmine.logEndOffset hshort, UInt64.ofInt, UInt64.toNat_ofNat']
    omega
  have hstart : toI64 (UInt64.ofInt q.logEndOffset) = (held f).length := by
    rw [toI64_of_lt (hoffset ▸ hshort), hoffset]
  refine ⟨hoffset, ?_, fun hnil => ?_⟩
  · rw [Leadership.fetchedBy, hstart]
    exact hholds.readUpToLeo_prefix hlt hbound _ _
  · rw [Leadership.fetchedBy, hstart] at hnil
    have hall : log.length ≤ (held f).length := Nat.le_of_not_lt fun hin =>
      hholds.readUpToLeo_ne_nil hlt hbound hin _ hnil
    exact (inv.agrees f).eq_of_length_le hall

/-- What is known of the followers after a round. -/
theorem LeadershipInv.afterRound (inv : LeadershipInv me maxSegBytes c log held)
    (hmax : 1 ≤ maxSegBytes f) (hp : c.leader = .running p) (hled : c.led = some st)
    (hq : (c.followers f).store = .running q) (now : UInt64) :
    LeadershipInv me maxSegBytes (c.afterRound me f now p q st) log
      (Function.update held f (held f ++ Leadership.fetchedBy p q)) := by
  obtain ⟨hoffset, hmore, -⟩ := inv.fetchedBy hp hq
  have hfollower := inv.follower f
  rw [hq] at hfollower
  obtain ⟨hmine, hseg, hshort⟩ := hfollower.of_running
  have hlen := hmore.length_le
  have hle := (inv.agrees f).length_le
  have hlt := inv.leader.lt
  rw [List.length_drop] at hlen
  have hnum : Numbered (held f).length (Leadership.fetchedBy p q) :=
    ((storeHolds_numbered inv.leader).drop hle).part hmore
  have happended := hmine.appendReplicated (hseg ▸ hmax) hnum (by omega)
  have hstore := Store.Holds.running happended
    (Partition.appendReplicated_maxSegBytes.trans hseg) (by rw [List.length_append]; omega)
  let recorded := st.recordFetch f (UInt64.ofInt q.logEndOffset).toNat now
  let r := recorded.recompute me p.nextOffset.toNat now
  have hprogress : ∀ g n, ({ recorded with isr := r.isr } : PartitionState).followerProgress g =
      some n → n ≤ (held g).length := by
    intro g n hn
    change (st.recordFetch f _ now).followerProgress g = some n at hn
    rw [PartitionState.recordFetch_progress] at hn
    split at hn
    · next hg =>
        obtain rfl := Option.some.inj hn
        rw [hg, hoffset]
    · exact inv.progress st hled g n hn
  exact (((inv.setHighWatermark hp r.hwm).setLed hprogress none).setFollower hstore hmore).issue

end Round

section Rounds

/-- A follower has the whole log, and the leader knows. -/
def Caught (st : PartitionState) (log : List Record) (held : BrokerId → List Record)
    (f : BrokerId) : Prop :=
  held f = log ∧ st.followerProgress f = some log.length

/-- The entry of `IsrManager` after a round. -/
def recordRound (me : BrokerId) (st : PartitionState) (f : BrokerId) (now : UInt64)
    (p q : Partition) : PartitionState :=
  let st := st.recordFetch f (UInt64.ofInt q.logEndOffset).toNat now
  { st with isr := (st.recompute me p.nextOffset.toNat now).isr }

theorem Steady.afterRound (steady : Steady me c st) (p q : Partition) (f : BrokerId)
    (now : UInt64) : Steady me (c.afterRound me f now p q st) (recordRound me st f now p q) where
  leader := rfl
  led := rfl
  idle := rfl
  followers g hg hne := by
    by_cases heq : g = f
    · subst heq
      have hfollower := Function.update_self g
        (⟨.running (q.appendReplicated (Leadership.fetchedBy p q)), none⟩ : Follower) c.followers
      exact congrArg (fun follower => follower.store.isRunning) hfollower
    · have hfollower : (c.afterRound me f now p q st).followers g = c.followers g :=
        Function.update_of_ne heq _ _
      rw [hfollower]
      exact steady.followers g hg hne

/-- A round makes its follower lag less, or tells the leader that it does not lag. -/
theorem LeadershipInv.catchesUp (inv : LeadershipInv me maxSegBytes c log held)
    (hp : c.leader = .running p) (hq : (c.followers f).store = .running q) (now : UInt64)
    {g : BrokerId} {rounds : Nat}
    (enough : log.length - (held g).length < rounds + (if g = f then 1 else 0) ∨
      Caught st log held g) :
    let held' := Function.update held f (held f ++ Leadership.fetchedBy p q)
    log.length - (held' g).length < rounds ∨
      Caught (recordRound me st f now p q) log held' g := by
  intro held'
  obtain ⟨hoffset, hmore, hall⟩ := inv.fetchedBy hp hq
  have hprogress : (recordRound me st f now p q).followerProgress g =
      if g = f then some (held f).length else st.followerProgress g := by
    have hrecord : (st.recordFetch f (UInt64.ofInt q.logEndOffset).toNat now).followerProgress g =
        if g = f then some (UInt64.ofInt q.logEndOffset).toNat else st.followerProgress g :=
      PartitionState.recordFetch_progress f _
    rw [← hoffset]
    exact hrecord
  by_cases hg : g = f
  · subst hg
    rw [if_pos rfl] at enough hprogress
    have hheld' : held' g = held g ++ Leadership.fetchedBy p q := Function.update_self _ _ _
    by_cases hend : held g = log
    · -- there is nothing more to fetch, and the leader has just been told
      right
      rw [hend, List.drop_length] at hmore
      rw [Caught, hheld', hprogress, List.prefix_nil.mp hmore, List.append_nil, hend]
      exact ⟨rfl, rfl⟩
    · left
      have hsome := List.length_pos_of_ne_nil (mt hall hend)
      have hlag := enough.resolve_right fun caught => hend caught.1
      have hle := (inv.agrees g).length_le
      have hlen := hmore.length_le
      rw [List.length_drop] at hlen
      rw [hheld', List.length_append]
      omega
  · rw [if_neg hg] at enough hprogress
    have hheld' : held' g = held g := Function.update_of_ne hg _ _
    rw [Caught, hheld', hprogress]
    exact enough

theorem LeadershipInv.fetchRounds (inv : LeadershipInv me maxSegBytes c log held)
    (hmax : ∀ b, 1 ≤ maxSegBytes b) (steady : Steady me c st)
    (rounds : List (BrokerId × UInt64)) (among : ∀ r ∈ rounds, r.1 ∈ st.replicas ∧ r.1 ≠ me) :
    ∃ u st' held', fetchRounds me maxSegBytes rounds c = some u ∧
      LeadershipInv me maxSegBytes u log held' ∧ Steady me u st' ∧
      st'.replicas = st.replicas ∧ st'.lastFetchMs = fetchTimes rounds st.lastFetchMs ∧
      ∀ g, (log.length - (held g).length < rounds.countP (fun r => r.1 = g) ∨
        Caught st log held g) → Caught st' log held' g := by
  induction rounds generalizing c st held with
  | nil =>
      refine ⟨c, st, held, rfl, inv, steady, rfl, rfl, fun g enough => ?_⟩
      exact enough.resolve_left (Nat.not_lt_zero _)
  | cons r rounds ih =>
      obtain ⟨f, now⟩ := r
      obtain ⟨hf, hne⟩ := among (f, now) List.mem_cons_self
      obtain ⟨p, hp⟩ := Store.isRunning_iff.mp steady.leader
      obtain ⟨q, hq⟩ := Store.isRunning_iff.mp (steady.followers f hf hne)
      obtain ⟨u, st', held', hrest, hinv, hsteady, hreplicas, htimes, hcaught⟩ :=
        ih (inv.afterRound (hmax f) hp steady.led hq now) (steady.afterRound p q f now)
          fun r hr => among r (List.mem_cons_of_mem _ hr)
      refine ⟨u, st', held', ?_, hinv, hsteady, hreplicas, htimes, fun g enough => ?_⟩
      · rw [Broker.fetchRounds, execute_fetchRound hp steady.led steady.idle hq hne now]
        exact hrest
      · refine hcaught g (inv.catchesUp hp hq now ?_)
        have hcount : ((f, now) :: rounds).countP (fun r => r.1 = g) =
            rounds.countP (fun r => r.1 = g) + if g = f then 1 else 0 := by
          simp only [List.countP_cons, decide_eq_true_eq, eq_comm (a := f)]
        rwa [hcount] at enough

end Rounds

section Recompute

end Recompute

end MiniKafka.Broker
