import MiniKafka.Broker.ReplicaNode
import MiniKafka.Storage.PartitionRefinement
import MiniKafka.Storage.SegmentBounds

/-!
# Replication within one leadership

One broker leads a partition throughout, the others each run one fetcher thread. The
partitions are those of the storage layer, files and all, so that a crash may tear a
write on either side.
-/

namespace MiniKafka.Broker

open Cluster Foundations Common Replication Storage

/-- A FETCH_REPLICA on its connection, which `id` names. -/
structure FetchCall where
  id : Nat
  replicaId : BrokerId
  fetchOffset : UInt64
  maxBytes : UInt32
  deriving DecidableEq, Repr

/-- A call with the records the leader read for it. -/
structure FetchReply where
  call : FetchCall
  records : List Record
  deriving DecidableEq, Repr

structure Follower where
  store : Store := .stopped []
  /-- The call whose response `run_loop` waits for. -/
  awaiting : Option Nat := none

structure Leadership where
  leader : Store := .stopped []
  /-- The entry of `IsrManager`. -/
  led : Option PartitionState := none
  /-- The high watermark that a `recompute` is about to set. -/
  recomputing : Option Nat := none
  /-- The handlers between `read_up_to_leo` and `on_replica_fetch`. -/
  handlers : List FetchReply := []
  followers : BrokerId → Follower := fun _ => {}
  calls : List FetchCall := []
  replies : List FetchReply := []
  nextCall : Nat := 0

/-- A call or a reply that is never taken is lost. -/
inductive LeadershipEvent
  | leader (e : StoreEvent)
  | reconcile (replicas : List BrokerId)
  /-- `on_leader_append`, or a tick of the sweep. -/
  | recompute (now : UInt64)
  | setHighWatermark
  | readUpToLeo (call : FetchCall)
  | onReplicaFetch (reply : FetchReply) (now : UInt64)
  | requestFetch (f : BrokerId)
  /-- An exception of the socket, which is then closed. -/
  | giveUp (f : BrokerId)
  | appendReplicated (reply : FetchReply)
  | crashInAppend (reply : FetchReply) (cut : AppendCut)
  /-- A crash of a follower outside its appends, or a recovery. -/
  | follower (f : BrokerId) (e : StoreEvent)

namespace Leadership

def setFollower (c : Leadership) (f : BrokerId) (follower : Follower) : Leadership :=
  { c with followers := Function.update c.followers f follower }

/-- A process that stops loses what it kept in memory. -/
def setLeader (c : Leadership) : Store → Leadership
  | .running p => { c with leader := .running p }
  | .stopped dir =>
      { c with leader := .stopped dir, led := none, recomputing := none, handlers := [] }

/-- The in-sync set is stored and the high watermark about to be. -/
def startRecompute (c : Leadership) (selfBrokerId : BrokerId) (p : Partition)
    (st : PartitionState) (now : UInt64) : Leadership :=
  let r := st.recompute selfBrokerId p.nextOffset.toNat now
  { c with led := some { st with isr := r.isr }, recomputing := some r.hwm }

/-- The follower waits for this reply. -/
def awaits (c : Leadership) (reply : FetchReply) : Bool :=
  reply ∈ c.replies ∧ (c.followers reply.call.replicaId).awaiting = some reply.call.id

/-- What the replica of a broker has. -/
def records (c : Leadership) (selfBrokerId id : BrokerId) : List Record :=
  if id = selfBrokerId then c.leader.records else (c.followers id).store.records

end Leadership

def leadershipStep (selfBrokerId : BrokerId) (maxSegBytes : BrokerId → UInt32)
    (c : Leadership) : LeadershipEvent → Option Leadership
  | .leader e => (storeStep (maxSegBytes selfBrokerId) c.leader e).map c.setLeader
  | .reconcile replicas =>
      match c.leader, c.recomputing with
      | .running p, none =>
          let p := if c.led.isNone then p.setHighWatermark p.logEndOffset else p
          some { c with
            leader := .running p
            led := some (PartitionState.setLeading c.led replicas) }
      | _, _ => none
  | .recompute now =>
      match c.leader, c.led, c.recomputing with
      | .running p, some st, none => some (c.startRecompute selfBrokerId p st now)
      | _, _, _ => none
  | .setHighWatermark =>
      match c.leader, c.recomputing with
      | .running p, some hwm =>
          some { c with leader := .running (p.setHighWatermark hwm), recomputing := none }
      | _, _ => none
  | .readUpToLeo call =>
      match c.leader with
      | .running p =>
          if call ∈ c.calls then
            let records := p.readUpToLeo (toI64 call.fetchOffset) call.maxBytes
            some { c with calls := c.calls.erase call, handlers := ⟨call, records⟩ :: c.handlers }
          else none
      | .stopped _ => none
  | .onReplicaFetch reply now =>
      match c.leader, c.recomputing with
      | .running p, none =>
          if reply ∈ c.handlers then
            let c := { c with
              handlers := c.handlers.erase reply
              replies := reply :: c.replies }
            match c.led with
            | some st =>
                let st := st.recordFetch reply.call.replicaId reply.call.fetchOffset.toNat now
                some (c.startRecompute selfBrokerId p st now)
            | none => some c
          else none
      | _, _ => none
  | .requestFetch f =>
      match (c.followers f).store, (c.followers f).awaiting with
      | .running p, none =>
          if f ≠ selfBrokerId then
            let call := ⟨c.nextCall, f, UInt64.ofInt p.logEndOffset, kMaxFetchBytes⟩
            some { c.setFollower f ⟨.running p, some c.nextCall⟩ with
              calls := call :: c.calls
              nextCall := c.nextCall + 1 }
          else none
      | _, _ => none
  | .giveUp f => some (c.setFollower f ⟨(c.followers f).store, none⟩)
  | .appendReplicated reply =>
      match (c.followers reply.call.replicaId).store with
      | .running p =>
          if c.awaits reply then
            some { c.setFollower reply.call.replicaId
                ⟨.running (p.appendReplicated reply.records), none⟩ with
              replies := c.replies.erase reply }
          else none
      | .stopped _ => none
  | .crashInAppend reply cut =>
      match (c.followers reply.call.replicaId).store with
      | .running p =>
          if c.awaits reply then
            some { c.setFollower reply.call.replicaId
                ⟨.stopped (p.tornAppend reply.records cut), none⟩ with
              replies := c.replies.erase reply }
          else none
      | .stopped _ => none
  | .follower f e =>
      if e.written = [] then
        (storeStep (maxSegBytes f) (c.followers f).store e).map
          fun s => c.setFollower f ⟨s, none⟩
      else none

/-- The batches of the leader each came in one request frame, and their number stays
below `2 ^ 63` records. -/
def BatchesFit (c : Leadership) : LeadershipEvent → Prop
  | .leader e => OneFrame e.written ∧ c.leader.records.length + e.written.length < 2 ^ 63
  | _ => True

instance (batch : List Record) : Decidable (OneFrame batch) :=
  inferInstanceAs (Decidable (_ < _))

instance decidableBatchesFit (c : Leadership) : ∀ e, Decidable (BatchesFit c e)
  | .leader _ => inferInstanceAs (Decidable (_ ∧ _))
  | .reconcile _ | .recompute _ | .setHighWatermark | .readUpToLeo _ | .onReplicaFetch _ _
  | .requestFetch _ | .giveUp _ | .appendReplicated _ | .crashInAppend _ _
  | .follower _ _ => .isTrue trivial

/-! ## The invariant -/

/-- A call asks from a log end of its follower, and from the present one while the
follower waits for it. -/
structure FetchCall.Stands (followers : BrokerId → Follower) (nextCall : Nat)
    (held : BrokerId → List Record) (call : FetchCall) : Prop where
  offset_le : call.fetchOffset.toNat ≤ (held call.replicaId).length
  issued : call.id < nextCall
  current : (followers call.replicaId).awaiting = some call.id →
    call.fetchOffset.toNat = (held call.replicaId).length

/-- What was read for a call is a part of the log from where the call asked. -/
structure FetchReply.Stands (followers : BrokerId → Follower) (nextCall : Nat)
    (held : BrokerId → List Record) (log : List Record) (reply : FetchReply) : Prop where
  call : reply.call.Stands followers nextCall held
  records : reply.records <+: log.drop reply.call.fetchOffset.toNat

/-- The leader has `log` and each follower a part of it from its start. -/
structure LeadershipInv (selfBrokerId : BrokerId) (maxSegBytes : BrokerId → UInt32)
    (c : Leadership) (log : List Record) (held : BrokerId → List Record) : Prop where
  leader : c.leader.Holds (maxSegBytes selfBrokerId) log
  bounded : c.leader.directory.Bounded
  follower : ∀ f, (c.followers f).store.Holds (maxSegBytes f) (held f)
  agrees : ∀ f, held f <+: log
  awaiting : ∀ f id, (c.followers f).awaiting = some id → id < c.nextCall
  calls : ∀ call ∈ c.calls, call.Stands c.followers c.nextCall held
  handlers : ∀ reply ∈ c.handlers, reply.Stands c.followers c.nextCall held log
  replies : ∀ reply ∈ c.replies, reply.Stands c.followers c.nextCall held log
  progress : ∀ st, c.led = some st → ∀ f n, st.followerProgress f = some n →
    n ≤ (held f).length

variable {me : BrokerId} {maxSegBytes : BrokerId → UInt32} {c c' : Leadership}
  {log more : List Record} {held : BrokerId → List Record} {f : BrokerId}
  {call : FetchCall} {reply : FetchReply} {followers : BrokerId → Follower} {n : Nat}

theorem storeHolds_start (maxSegBytes : UInt32) : (Store.stopped []).Holds maxSegBytes [] :=
  .stopped ⟨[], .refl _, .inl ⟨rfl, rfl⟩⟩ (Nat.two_pow_pos 63)

theorem leadershipInv_start : LeadershipInv me maxSegBytes {} [] fun _ => [] where
  leader := storeHolds_start _
  bounded := by simp [Store.directory, Directory.Bounded]
  follower _ := storeHolds_start _
  agrees _ := List.prefix_refl _
  awaiting := by simp
  calls := by simp
  handlers := by simp
  replies := by simp
  progress := by simp

/-- A reply stands while the log grows. -/
theorem FetchReply.Stands.grow (h : reply.Stands followers n held log)
    (hagrees : held reply.call.replicaId <+: log) :
    reply.Stands followers n held (log ++ more) where
  call := h.call
  records := by
    rw [List.drop_append_of_le_length (h.call.offset_le.trans hagrees.length_le)]
    exact h.records.trans (List.prefix_append _ _)

/-- The log grows on the leader, which forgets what it kept in memory if it stops. -/
theorem LeadershipInv.setLeader (inv : LeadershipInv me maxSegBytes c log held) {s : Store}
    (hs : s.Holds (maxSegBytes me) (log ++ more)) (hbound : s.directory.Bounded) :
    LeadershipInv me maxSegBytes (c.setLeader s) (log ++ more) held := by
  have hagrees : ∀ f, held f <+: log ++ more :=
    fun f => (inv.agrees f).trans (List.prefix_append _ _)
  have hreplies : ∀ reply ∈ c.replies, reply.Stands c.followers c.nextCall held (log ++ more) :=
    fun reply hreply => (inv.replies reply hreply).grow (inv.agrees _)
  cases s with
  | running p =>
      have hhandlers : ∀ reply ∈ c.handlers,
          reply.Stands c.followers c.nextCall held (log ++ more) :=
        fun reply hreply => (inv.handlers reply hreply).grow (inv.agrees _)
      exact ⟨hs, hbound, inv.follower, hagrees, inv.awaiting, inv.calls, hhandlers, hreplies,
        inv.progress⟩
  | stopped dir =>
      exact ⟨hs, hbound, inv.follower, hagrees, inv.awaiting, inv.calls,
        by simp [Leadership.setLeader], hreplies, by simp [Leadership.setLeader]⟩

/-- A high watermark is no part of what a partition holds. -/
theorem LeadershipInv.setHighWatermark (inv : LeadershipInv me maxSegBytes c log held)
    {p : Partition} (hp : c.leader = .running p) (hwm : Int) :
    LeadershipInv me maxSegBytes { c with leader := .running (p.setHighWatermark hwm) }
      log held := by
  have hleader := inv.leader
  have hbound := inv.bounded
  rw [hp] at hleader hbound
  obtain ⟨hholds, hmax, hlt⟩ := hleader.of_running
  exact ⟨.running (hholds.setHighWatermark hwm) hmax hlt, hbound, inv.follower, inv.agrees,
    inv.awaiting, inv.calls, inv.handlers, inv.replies, inv.progress⟩

/-- The leader records what a call says. -/
theorem LeadershipInv.setLed (inv : LeadershipInv me maxSegBytes c log held)
    {st : PartitionState} (hst : ∀ f n, st.followerProgress f = some n → n ≤ (held f).length)
    (recomputing : Option Nat) :
    LeadershipInv me maxSegBytes { c with led := some st, recomputing := recomputing }
      log held := by
  refine ⟨inv.leader, inv.bounded, inv.follower, inv.agrees, inv.awaiting, inv.calls,
    inv.handlers, inv.replies, ?_⟩
  rintro st' ⟨⟩
  exact hst

/-! ## Followers -/

/-- A call stands while a follower that waits for nothing grows. -/
theorem FetchCall.Stands.grow (h : call.Stands followers n held) {store : Store} :
    call.Stands (Function.update followers f ⟨store, none⟩) n
      (Function.update held f (held f ++ more)) := by
  by_cases hf : call.replicaId = f
  · subst hf
    refine ⟨?_, h.issued, by simp⟩
    have hle := h.offset_le
    rw [Function.update_self, List.length_append]
    omega
  · refine ⟨?_, h.issued, ?_⟩
    · rw [Function.update_of_ne hf]
      exact h.offset_le
    · rw [Function.update_of_ne hf, Function.update_of_ne hf]
      exact h.current

/-- A follower appends a part of the log from its own log end, and waits no more. -/
theorem LeadershipInv.setFollower (inv : LeadershipInv me maxSegBytes c log held)
    {store : Store} (hstore : store.Holds (maxSegBytes f) (held f ++ more))
    (hmore : more <+: log.drop (held f).length) :
    LeadershipInv me maxSegBytes (c.setFollower f ⟨store, none⟩) log
      (Function.update held f (held f ++ more)) := by
  have hlen : ∀ g, (held g).length ≤ (Function.update held f (held f ++ more) g).length := by
    intro g
    by_cases hg : g = f
    · subst hg
      simp
    · rw [Function.update_of_ne hg]
  refine ⟨inv.leader, inv.bounded, fun g => ?_, fun g => ?_, fun g id hid => ?_,
    fun call hcall => (inv.calls call hcall).grow,
    fun reply hreply =>
      ⟨(inv.handlers reply hreply).call.grow, (inv.handlers reply hreply).records⟩,
    fun reply hreply => ⟨(inv.replies reply hreply).call.grow, (inv.replies reply hreply).records⟩,
    fun st hst g n hn => (inv.progress st hst g n hn).trans (hlen g)⟩
  · by_cases hg : g = f
    · subst hg
      simpa [Leadership.setFollower] using hstore
    · simpa [Leadership.setFollower, hg] using inv.follower g
  · by_cases hg : g = f
    · subst hg
      have hsplit := List.prefix_iff_eq_append.mp (inv.agrees g)
      rw [Function.update_self, ← hsplit]
      exact (List.prefix_append_right_inj _).mpr hmore
    · simpa [hg] using inv.agrees g
  · by_cases hg : g = f
    · subst hg
      simp [Leadership.setFollower] at hid
    · exact inv.awaiting g id (by simpa [Leadership.setFollower, hg] using hid)

/-- A follower that gives up has what it had. -/
theorem LeadershipInv.resetFollower (inv : LeadershipInv me maxSegBytes c log held)
    {store : Store} (hstore : store.Holds (maxSegBytes f) (held f)) :
    LeadershipInv me maxSegBytes (c.setFollower f ⟨store, none⟩) log held := by
  have hnone : store.Holds (maxSegBytes f) (held f ++ []) := by rwa [List.append_nil]
  have hreset := inv.setFollower hnone List.nil_prefix
  rwa [List.append_nil, Function.update_eq_self] at hreset

/-- What is not in flight any more needs no care. -/
theorem LeadershipInv.forgetReply (inv : LeadershipInv me maxSegBytes c log held)
    (reply : FetchReply) :
    LeadershipInv me maxSegBytes { c with replies := c.replies.erase reply } log held :=
  ⟨inv.leader, inv.bounded, inv.follower, inv.agrees, inv.awaiting, inv.calls, inv.handlers,
    fun r hr => inv.replies r (List.mem_of_mem_erase hr), inv.progress⟩

/-! ## Steps -/

theorem appendsFit_of_frame {s : Store} {e : StoreEvent} (hframe : OneFrame e.written)
    (hlt : s.records.length + e.written.length < 2 ^ 63) : AppendsFit s e := by
  cases s with
  | stopped dir => trivial
  | running p =>
      cases e with
      | append batch now base => exact ⟨hframe.fits, hlt⟩
      | crashInAppend batch now cut => exact ⟨hframe.fits, hlt⟩
      | crash | recover listing | crashInRecover listing cut => trivial

theorem storeHolds_numbered {maxSegBytes : UInt32} {s : Store}
    (h : s.Holds maxSegBytes log) : Numbered 0 log := by
  cases h with
  | stopped h hlt =>
      exact ((recover_holds h hlt : (Partition.recover maxSegBytes _).Holds log)).numbered
  | running h hmax hlt => exact h.numbered

theorem keeps_nil_of_written {e : StoreEvent} {part : List Record} (h : Keeps e part)
    (hwritten : e.written = []) : part = [] := by
  cases h with
  | append batch now base =>
      obtain rfl : batch = [] := hwritten
      rfl
  | @torn batch part now cut hpart =>
      obtain rfl : batch = [] := hwritten
      rw [List.prefix_nil.mp hpart, List.map_nil]
  | crash | recover listing | crashInRecover listing cut => rfl

theorem LeadershipInv.records (inv : LeadershipInv me maxSegBytes c log held) :
    c.leader.records = log ∧ ∀ f, (c.followers f).store.records = held f :=
  ⟨inv.leader.records_eq, fun f => (inv.follower f).records_eq⟩

theorem LeadershipInv.leaderStep (inv : LeadershipInv me maxSegBytes c log held)
    (hmax : 1 ≤ maxSegBytes me) {e : StoreEvent} (hfit : BatchesFit c (.leader e)) {s : Store}
    (h : storeStep (maxSegBytes me) c.leader e = some s) :
    ∃ log', LeadershipInv me maxSegBytes (c.setLeader s) log' held := by
  obtain ⟨hframe, hlt⟩ := hfit
  obtain ⟨part, hpart⟩ :=
    storeStep_extends hmax inv.leader (appendsFit_of_frame hframe hlt) h
  exact ⟨_, inv.setLeader hpart.holds (storeStep_bounded inv.leader inv.bounded hframe h)⟩

/-- What a read up to the log end answers is a part of the log from the offset asked for. -/
theorem LeadershipInv.readUpToLeo (inv : LeadershipInv me maxSegBytes c log held)
    {p : Partition} (hp : c.leader = .running p) (hcall : call ∈ c.calls) :
    (FetchReply.mk call (p.readUpToLeo (toI64 call.fetchOffset) call.maxBytes)).Stands
      c.followers c.nextCall held log := by
  have hleader := inv.leader
  have hbound := inv.bounded
  rw [hp] at hleader hbound
  obtain ⟨hholds, -, hlt⟩ := hleader.of_running
  have hstands := inv.calls call hcall
  have hoff := hstands.offset_le.trans (inv.agrees _).length_le
  refine ⟨hstands, ?_⟩
  rw [toI64_of_lt (by omega)]
  exact hholds.readUpToLeo_prefix hlt hbound call.fetchOffset.toNat call.maxBytes

theorem LeadershipInv.startRecompute (inv : LeadershipInv me maxSegBytes c log held)
    {st : PartitionState} (hst : ∀ f n, st.followerProgress f = some n → n ≤ (held f).length)
    (p : Partition) (now : UInt64) :
    LeadershipInv me maxSegBytes (c.startRecompute me p st now) log held := by
  let r := st.recompute me p.nextOffset.toNat now
  have hisr : ∀ f n, ({ st with isr := r.isr } : PartitionState).followerProgress f = some n →
      n ≤ (held f).length := hst
  exact inv.setLed hisr (some r.hwm)

/-- The progress recorded for a call is a log end of its follower. -/
theorem LeadershipInv.recordFetch (inv : LeadershipInv me maxSegBytes c log held)
    {st : PartitionState} (hled : c.led = some st) (hcall : call.Stands followers n held)
    (now : UInt64) (f : BrokerId) (m : Nat)
    (hm : (st.recordFetch call.replicaId call.fetchOffset.toNat now).followerProgress f =
      some m) : m ≤ (held f).length := by
  rw [PartitionState.recordFetch_progress] at hm
  split at hm
  · next hf =>
      obtain rfl := Option.some.inj hm
      rw [hf]
      exact hcall.offset_le
  · exact inv.progress st hled f m hm

theorem LeadershipInv.requestFetch (inv : LeadershipInv me maxSegBytes c log held)
    {p : Partition} (hp : (c.followers f).store = .running p) :
    LeadershipInv me maxSegBytes
      { c.setFollower f ⟨.running p, some c.nextCall⟩ with
        calls := ⟨c.nextCall, f, UInt64.ofInt p.logEndOffset, kMaxFetchBytes⟩ :: c.calls
        nextCall := c.nextCall + 1 } log held := by
  have hfollower := inv.follower f
  rw [hp] at hfollower
  obtain ⟨hholds, -, hlt⟩ := hfollower.of_running
  have hoff : (UInt64.ofInt p.logEndOffset).toNat = (held f).length := by
    rw [hholds.logEndOffset hlt, UInt64.ofInt, UInt64.toNat_ofNat']
    omega
  -- what was in flight for the follower before is not what it waits for now
  have hkeep : ∀ call : FetchCall, call.Stands c.followers c.nextCall held →
      call.Stands (Function.update c.followers f ⟨.running p, some c.nextCall⟩)
        (c.nextCall + 1) held := by
    intro call hcall
    refine ⟨hcall.offset_le, hcall.issued.trans (Nat.lt_succ_self _), fun hid => ?_⟩
    by_cases hf : call.replicaId = f
    · rw [hf, Function.update_self] at hid
      have hissued := hcall.issued
      have heq : c.nextCall = call.id := Option.some.inj hid
      omega
    · rw [Function.update_of_ne hf] at hid
      exact hcall.current hid
  refine ⟨inv.leader, inv.bounded, fun g => ?_, inv.agrees, fun g id hid => ?_, ?_,
    fun reply hreply => ⟨hkeep _ (inv.handlers reply hreply).call,
      (inv.handlers reply hreply).records⟩,
    fun reply hreply => ⟨hkeep _ (inv.replies reply hreply).call,
      (inv.replies reply hreply).records⟩, inv.progress⟩
  · by_cases hg : g = f
    · subst hg
      simpa [Leadership.setFollower, hp] using inv.follower g
    · simpa [Leadership.setFollower, hg] using inv.follower g
  · by_cases hg : g = f
    · subst hg
      have heq : c.nextCall = id := by simpa [Leadership.setFollower] using hid
      exact heq ▸ Nat.lt_succ_self _
    · simp only [Leadership.setFollower, Function.update_of_ne hg] at hid
      exact (inv.awaiting g id hid).trans (Nat.lt_succ_self _)
  · intro call hcall
    rcases List.mem_cons.mp hcall with rfl | hcall
    · exact ⟨hoff.le, Nat.lt_succ_self _, fun _ => hoff⟩
    · exact hkeep call (inv.calls call hcall)

/-- The reply a follower waits for continues its log. -/
theorem LeadershipInv.awaited (inv : LeadershipInv me maxSegBytes c log held)
    (hawait : c.awaits reply = true) :
    reply.records <+: log.drop (held reply.call.replicaId).length ∧
      Numbered (held reply.call.replicaId).length reply.records ∧
      (held reply.call.replicaId).length + reply.records.length < 2 ^ 63 := by
  obtain ⟨hmem, hid⟩ := of_decide_eq_true hawait
  obtain ⟨hcall, hrecords⟩ := inv.replies reply hmem
  rw [hcall.current hid] at hrecords
  obtain ⟨rest, hrest⟩ := inv.agrees reply.call.replicaId
  have hlen := hrecords.length_le
  have hlt := inv.leader.lt
  rw [List.length_drop] at hlen
  have hle := (inv.agrees reply.call.replicaId).length_le
  refine ⟨hrecords, ?_, by omega⟩
  have hnum := storeHolds_numbered inv.leader
  rw [← hrest, List.drop_left] at hrecords
  rw [← hrest, numbered_append, Nat.zero_add] at hnum
  exact hnum.2.part hrecords

theorem LeadershipInv.appendReplicated (inv : LeadershipInv me maxSegBytes c log held)
    (hmax : 1 ≤ maxSegBytes reply.call.replicaId) {p : Partition}
    (hp : (c.followers reply.call.replicaId).store = .running p)
    (hawait : c.awaits reply = true) :
    LeadershipInv me maxSegBytes
      { c.setFollower reply.call.replicaId
          ⟨.running (p.appendReplicated reply.records), none⟩ with
        replies := c.replies.erase reply } log
      (Function.update held reply.call.replicaId
        (held reply.call.replicaId ++ reply.records)) := by
  obtain ⟨hmore, hnum, hlt⟩ := inv.awaited hawait
  have hfollower := inv.follower reply.call.replicaId
  rw [hp] at hfollower
  obtain ⟨hholds, hseg, -⟩ := hfollower.of_running
  have happ := hholds.appendReplicated (hseg ▸ hmax) hnum hlt
  have hstore := Store.Holds.running happ (Partition.appendReplicated_maxSegBytes.trans hseg)
    (by rwa [List.length_append])
  exact (inv.setFollower hstore hmore).forgetReply reply

/-- Of a torn batch the follower keeps a part, which its next fetch continues. -/
theorem LeadershipInv.crashInAppend (inv : LeadershipInv me maxSegBytes c log held)
    (hmax : 1 ≤ maxSegBytes reply.call.replicaId) {p : Partition}
    (hp : (c.followers reply.call.replicaId).store = .running p)
    (hawait : c.awaits reply = true) (cut : AppendCut) :
    ∃ held', LeadershipInv me maxSegBytes
      { c.setFollower reply.call.replicaId
          ⟨.stopped (p.tornAppend reply.records cut), none⟩ with
        replies := c.replies.erase reply } log held' := by
  obtain ⟨hmore, hnum, hlt⟩ := inv.awaited hawait
  have hfollower := inv.follower reply.call.replicaId
  rw [hp] at hfollower
  obtain ⟨hholds, hseg, -⟩ := hfollower.of_running
  obtain ⟨kept, hkept, hdir⟩ := hholds.tornAppend (hseg ▸ hmax) hnum cut
  have hlen := hkept.length_le
  have hstore : Store.Holds (maxSegBytes reply.call.replicaId)
      (.stopped (p.tornAppend reply.records cut)) (held reply.call.replicaId ++ kept) :=
    .stopped hdir (by rw [List.length_append]; omega)
  exact ⟨_, (inv.setFollower hstore (hkept.trans hmore)).forgetReply reply⟩

/-- A follower that crashes or recovers has what it had. -/
theorem LeadershipInv.followerStep (inv : LeadershipInv me maxSegBytes c log held)
    (hmax : 1 ≤ maxSegBytes f) {e : StoreEvent} (hwritten : e.written = []) {s : Store}
    (h : storeStep (maxSegBytes f) (c.followers f).store e = some s) :
    LeadershipInv me maxSegBytes (c.setFollower f ⟨s, none⟩) log held := by
  have hframe : OneFrame e.written := by
    rw [hwritten]
    exact Nat.two_pow_pos 32
  have hcount : (c.followers f).store.records.length + e.written.length < 2 ^ 63 := by
    rw [(inv.follower f).records_eq, hwritten]
    exact (inv.follower f).lt
  obtain ⟨part, hpart⟩ := storeStep_extends hmax (inv.follower f)
    (appendsFit_of_frame hframe hcount) h
  have hholds := hpart.holds
  obtain rfl := keeps_nil_of_written hpart.keeps hwritten
  rw [place_nil, List.append_nil] at hholds
  exact inv.resetFollower hholds

/-- A handler records the progress of its call and lets the reply go. -/
theorem LeadershipInv.onReplicaFetch (inv : LeadershipInv me maxSegBytes c log held)
    (hreply : reply ∈ c.handlers) :
    LeadershipInv me maxSegBytes
      { c with
        handlers := c.handlers.erase reply
        replies := reply :: c.replies } log held := by
  refine ⟨inv.leader, inv.bounded, inv.follower, inv.agrees, inv.awaiting, inv.calls,
    fun r hr => inv.handlers r (List.mem_of_mem_erase hr), ?_, inv.progress⟩
  intro r hr
  rcases List.mem_cons.mp hr with rfl | hr
  · exact inv.handlers r hreply
  · exact inv.replies r hr

theorem LeadershipInv.step (inv : LeadershipInv me maxSegBytes c log held)
    (hmax : ∀ b, 1 ≤ maxSegBytes b) {e : LeadershipEvent} (hfit : BatchesFit c e)
    (h : leadershipStep me maxSegBytes c e = some c') :
    ∃ log' held', LeadershipInv me maxSegBytes c' log' held' := by
  cases e with
  | leader e =>
      obtain ⟨s, hs, rfl⟩ := Option.map_eq_some_iff.mp h
      obtain ⟨log', hinv⟩ := inv.leaderStep (hmax me) hfit hs
      exact ⟨log', held, hinv⟩
  | reconcile replicas =>
      simp only [leadershipStep] at h
      split at h
      · next p hp _ =>
          obtain rfl := Option.some.inj h
          have hst : ∀ f n, (PartitionState.setLeading c.led replicas).followerProgress f = some n →
              n ≤ (held f).length := by
            intro f n hn
            rw [PartitionState.setLeading_progress] at hn
            cases hled : c.led with
            | none => simp [hled] at hn
            | some st => exact inv.progress st hled f n (by simpa [hled] using hn)
          refine ⟨log, held, ?_⟩
          split
          · exact (inv.setHighWatermark hp p.logEndOffset).setLed hst c.recomputing
          · have hsame := inv.setLed hst c.recomputing
            rwa [hp] at hsame
      · cases h
  | recompute now =>
      simp only [leadershipStep] at h
      split at h
      · next p st hp hst _ =>
          obtain rfl := Option.some.inj h
          exact ⟨log, held, inv.startRecompute (inv.progress st hst) p now⟩
      · cases h
  | setHighWatermark =>
      simp only [leadershipStep] at h
      split at h
      · next p hwm hp _ =>
          obtain rfl := Option.some.inj h
          have hset := inv.setHighWatermark hp hwm
          exact ⟨log, held, ⟨hset.leader, hset.bounded, hset.follower, hset.agrees,
            hset.awaiting, hset.calls, hset.handlers, hset.replies, hset.progress⟩⟩
      · cases h
  | readUpToLeo call =>
      simp only [leadershipStep] at h
      split at h
      · next p hp =>
          split at h
          · next hcall =>
              obtain rfl := Option.some.inj h
              refine ⟨log, held, inv.leader, inv.bounded, inv.follower, inv.agrees,
                inv.awaiting, fun q hq => inv.calls q (List.mem_of_mem_erase hq), ?_,
                inv.replies, inv.progress⟩
              intro reply hreply
              rcases List.mem_cons.mp hreply with rfl | hreply
              · exact inv.readUpToLeo hp hcall
              · exact inv.handlers reply hreply
          · cases h
      · cases h
  | onReplicaFetch reply now =>
      simp only [leadershipStep] at h
      split at h
      · next p hp _ =>
          split at h
          · next hmem =>
              have hsent := inv.onReplicaFetch hmem
              split at h
              · next st hst =>
                  obtain rfl := Option.some.inj h
                  exact ⟨log, held, hsent.startRecompute
                    (inv.recordFetch hst (inv.handlers reply hmem).call now) p now⟩
              · obtain rfl := Option.some.inj h
                exact ⟨log, held, hsent⟩
          · cases h
      · cases h
  | requestFetch f =>
      simp only [leadershipStep] at h
      split at h
      · next p hp _ =>
          split at h
          · obtain rfl := Option.some.inj h
            exact ⟨log, held, inv.requestFetch hp⟩
          · cases h
      · cases h
  | giveUp f =>
      obtain rfl := Option.some.inj h
      exact ⟨log, held, inv.resetFollower (inv.follower f)⟩
  | appendReplicated reply =>
      simp only [leadershipStep] at h
      split at h
      · next p hp =>
          split at h
          · next hawait =>
              obtain rfl := Option.some.inj h
              exact ⟨log, _, inv.appendReplicated (hmax _) hp hawait⟩
          · cases h
      · cases h
  | crashInAppend reply cut =>
      simp only [leadershipStep] at h
      split at h
      · next p hp =>
          split at h
          · next hawait =>
              obtain rfl := Option.some.inj h
              exact ⟨log, inv.crashInAppend (hmax _) hp hawait cut⟩
          · cases h
      · cases h
  | follower f e =>
      simp only [leadershipStep] at h
      split at h
      · next hwritten =>
          obtain ⟨s, hs, rfl⟩ := Option.map_eq_some_iff.mp h
          exact ⟨log, held, inv.followerStep (hmax f) hwritten hs⟩
      · cases h

/-- The record at an offset is on the replica of a broker as it is on the leader. -/
def Leadership.Present (c : Leadership) (selfBrokerId : BrokerId) (offset : Nat)
    (id : BrokerId) : Prop :=
  offset < (c.records selfBrokerId id).length ∧
    (c.records selfBrokerId id)[offset]? = c.leader.records[offset]?

theorem LeadershipInv.present (inv : LeadershipInv me maxSegBytes c log held) {offset : Nat}
    {id : BrokerId} (hleader : offset < log.length)
    (hfollower : id ≠ me → offset < (held id).length) : c.Present me offset id := by
  obtain ⟨hlog, hheld⟩ := inv.records
  unfold Leadership.Present Leadership.records
  split
  · exact ⟨by rwa [hlog], rfl⟩
  · next hid =>
      rw [hheld, hlog]
      have hlt := hfollower hid
      refine ⟨hlt, ?_⟩
      obtain ⟨rest, hrest⟩ := inv.agrees id
      rw [← hrest, List.getElem?_append_left hlt]

/-- Within one leadership, each follower's log is a part of the leader's from its start,
the progress recorded for a follower is at most its log end, and what is below the
progress of an in-sync set is on all of its members. -/
theorem replication_within_leadership (hmax : ∀ b, 1 ≤ maxSegBytes b)
    {visits : List (Leadership × LeadershipEvent)}
    (run : Run (leadershipStep me maxSegBytes) {} visits c)
    (hfit : Guarded BatchesFit visits) :
    (∀ f, (c.followers f).store.records <+: c.leader.records) ∧
    (∀ f p, (c.followers f).store = .running p →
      p.logEndOffset = (c.followers f).store.records.length) ∧
    ∀ st, c.led = some st →
      (∀ f n, st.followerProgress f = some n → n ≤ (c.followers f).store.records.length) ∧
      (∀ offset < c.leader.records.length,
        (∀ id ∈ st.isr, id ≠ me → ∃ n, st.followerProgress id = some n ∧ offset < n) →
        ∀ id ∈ st.isr, c.Present me offset id) ∧
      ∀ leo ≤ c.leader.records.length, ∀ now, ∀ offset < (st.recompute me leo now).hwm,
        ∀ id ∈ (st.recompute me leo now).isr, c.Present me offset id := by
  obtain ⟨log, held, inv⟩ : ∃ log held, LeadershipInv me maxSegBytes c log held := by
    refine run.invariant (I := fun c => ∃ log held, LeadershipInv me maxSegBytes c log held)
      hfit ⟨_, _, leadershipInv_start⟩ ?_
    rintro t e u he ⟨log, held, inv⟩ hstep
    exact inv.step hmax he hstep
  obtain ⟨hlog, hheld⟩ := inv.records
  refine ⟨fun f => by rw [hheld, hlog]; exact inv.agrees f, fun f p hp => ?_,
    fun st hst => ⟨fun f n hn => by rw [hheld]; exact inv.progress st hst f n hn, ?_, ?_⟩⟩
  · have hfollower := inv.follower f
    rw [hp] at hfollower
    obtain ⟨hholds, -, hlt⟩ := hfollower.of_running
    rw [hheld, hholds.logEndOffset hlt]
  · intro offset hoffset hbelow id hid
    refine inv.present (hlog ▸ hoffset) fun hne => ?_
    obtain ⟨n, hn, hlt⟩ := hbelow id hid hne
    exact hlt.trans_le (inv.progress st hst id n hn)
  · intro leo hleo now offset hoffset id hid
    have hend : (st.recompute me leo now).hwm ≤ leo := PartitionState.newHwm_le_leo
    refine inv.present (by rw [← hlog]; omega) fun hne => ?_
    obtain ⟨n, hn, hle⟩ := PartitionState.recompute_progress hid hne
    have hprogress := inv.progress st hst id n hn
    omega

def firstCall : FetchCall := ⟨0, 2, 0, kMaxFetchBytes⟩

/-- Both records of the leader, the second of which the follower tears. -/
def firstReply : FetchReply := ⟨firstCall, [⟨0, 100, [1], [10]⟩, ⟨1, 100, [2], [20]⟩]⟩

/-- Broker 2 fetches from broker 1 and dies while it appends. -/
def tornFetch : List LeadershipEvent :=
  [.leader (.recover []), .reconcile [1, 2], .follower 2 (.recover []),
    .leader (.append [{ key := [1], value := [10] }, { key := [2], value := [20] }] 100 0),
    .recompute 100, .setHighWatermark, .requestFetch 2, .readUpToLeo firstCall,
    .onReplicaFetch firstReply 110, .setHighWatermark,
    .crashInAppend firstReply (.writing 40 0)]

theorem replication_within_leadership_torn :
    ∃ visits c, Run (leadershipStep 1 fun _ => 30) {} visits c ∧
      c.leader.records.length = 2 ∧ (c.followers 2).store.records.length = 1 ∧
      (c.followers 2).store.records <+: c.leader.records := by
  have hend : (execute (leadershipStep 1 fun _ => 30) {} tornFetch).map (fun c =>
      (c.leader.records.length, (c.followers 2).store.records.length)) = some (2, 1) := by
    decide +kernel
  obtain ⟨c, hc, hseen⟩ := Option.map_eq_some_iff.mp hend
  have hfit : Guarded BatchesFit (trace (leadershipStep 1 fun _ => 30) {} tornFetch) := by
    decide +kernel
  obtain ⟨hleader, hfollower⟩ := Prod.mk.inj hseen
  have run := run_of_execute hc
  exact ⟨_, c, run, hleader, hfollower,
    (replication_within_leadership (fun _ => by decide) run hfit).1 2⟩

end MiniKafka.Broker
