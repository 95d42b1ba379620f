import MiniKafka.Broker.OffsetCalls
import MiniKafka.Client.Consumer

/-!
# Consumers that share their progress

Processes of `mk-consume --group` at one broker. A member prints what it polls and commits the
position behind it, and where a partition changes hands the next member goes on from the
committed offset. A commit may be lost, be late or come from a member that the group has
replaced, and the broker may end while it writes one. No group skips a record all the same:
what is below a committed offset was printed by a member of the group.
-/

namespace MiniKafka.Client

open Broker Cluster Common Foundations MiniKafka.Group Protocol Storage TextStream

/-- The arguments of `run_group_mode` that do not change in a group's progress. -/
structure GroupArgs where
  topic : Topic
  groupId : GroupId
  offsetOverride : Option UInt64 := none
  deriving DecidableEq

/-- The topic has an ordinary name, so that no other topic shares its files, the group has a file,
which can hold the topic, and `--offset` is a signed number. -/
structure GroupArgs.Usable (args : GroupArgs) : Prop where
  name : TopicName args.topic
  group : FileGroup args.groupId
  topic : Token args.topic
  offset : ∀ offset ∈ args.offsetOverride, offset.toNat < 2 ^ 63

/-- What a process has from one join to the next. -/
structure Member where
  memberId : MemberId
  generationId : UInt32
  partitionOffsets : UInt32 → Option UInt64 := fun _ => none

def Member.setOffset (member : Member) (p : UInt32) (offset : UInt64) : Member :=
  { member with partitionOffsets := Function.update member.partitionOffsets p (some offset) }

abbrev Printed := List (GroupId × TopicPartition × Record)

/-- A broker and the processes that consume from it. A commit in flight may outlive the process
that sent it, and even the broker's, which is more than a connection allows. -/
structure Consumption (μ : Type) where
  broker : Standalone (μ × OffsetStore)
  members : Nat → Option Member := fun _ => none
  sent : List CommitOffsetRequest := []
  printed : Printed := []

/-- Which partitions a member has been assigned is left open, so it may resume any. -/
inductive GroupEvent
  | broker (e : StandaloneEvent)
  | join (m : Nat) (memberId : MemberId) (generationId : UInt32)
  | resume (m : Nat) (p : UInt32)
  | poll (m : Nat) (p : UInt32)
  | leave (m : Nat)
  | deliver (commitReq : CommitOffsetRequest)
  | tornCommit (commitReq : CommitOffsetRequest) (bytes : Nat)

namespace Consumption

variable {μ : Type} (cfg : BrokerConfig) (membership : Service μ) (args : Nat → GroupArgs)
  (s : Consumption μ)

def setMember (m : Nat) (member : Option Member) : Consumption μ :=
  { s with members := Function.update s.members m member }

/-- Where a member begins after the answer to its FetchOffset. -/
def resumed (foResp : FetchOffsetResponse) : UInt64 :=
  if 0 ≤ foResp.offset then foResp.offset.toUInt64 else 0

def resume (m : Nat) (member : Member) (p : UInt32) : Consumption μ :=
  match (args m).offsetOverride with
  | some offset => s.setMember m (some (member.setOffset p offset))
  | none =>
      let foReq : FetchOffsetRequest := ⟨(args m).groupId, (args m).topic, p⟩
      match standalone cfg (coordinator membership) .fetchOffset foReq s.broker with
      | (.ok foResp, broker) =>
          { s with broker := broker }.setMember m (some (member.setOffset p (resumed foResp)))
      | (.error _, broker) => { s with broker := broker }.setMember m none

/-- A member prints the records it has fetched, and writes a commit. -/
def receive (m : Nat) (member : Member) (p : UInt32) (offset : UInt64)
    (records : List Record) : Consumption μ :=
  let key := ((args m).topic, p)
  let next := nextPosition offset records
  let commitReq : CommitOffsetRequest :=
    ⟨(args m).groupId, member.memberId, member.generationId, key.1, key.2, next⟩
  { s with
    sent := s.sent ++ [commitReq]
    printed := s.printed ++ records.map fun rec => ((args m).groupId, key, rec)
  }.setMember m (some (member.setOffset p next))

def poll (m : Nat) (member : Member) (p : UInt32) (offset : UInt64) : Consumption μ :=
  let req : FetchRequest := ⟨(args m).topic, p, offset, kMaxFetchBytes⟩
  match standalone cfg (coordinator membership) .fetch req s.broker with
  | (.ok resp, broker) =>
      match polled resp with
      | .records records => { s with broker := broker }.receive args m member p offset records
      | _ => { s with broker := broker }
  | (.error _, broker) => { s with broker := broker }.setMember m none

/-- With the process of the broker the connections end, and nobody catches what the next calls
of the members throw. -/
def brokerStep (restart : μ → μ) (e : StandaloneEvent) : Option (Consumption μ) :=
  (standaloneStep cfg (coordinator membership) (coordinatorRestart restart) s.broker e).map
    fun broker =>
      { s with broker := broker, members := if e.isCall then s.members else fun _ => none }

def deliver (commitReq : CommitOffsetRequest) : Consumption μ :=
  { s with
    broker := (standalone cfg (coordinator membership) .commitOffset commitReq s.broker).2
    sent := s.sent.erase commitReq }

/-- The rest of the broker's end is a crash. -/
def tornCommit (commitReq : CommitOffsetRequest) (bytes : Nat) : Consumption μ :=
  let (membership, offsets) := s.broker.groupCoordinator
  { s with
    broker := { s.broker with
      groupCoordinator := (membership, Broker.tornCommit offsets commitReq bytes) }
    sent := s.sent.erase commitReq }

end Consumption

section Run

variable {μ : Type} (cfg : BrokerConfig) (membership : Service μ) (restart : μ → μ)
  (args : Nat → GroupArgs)

def groupStep (s : Consumption μ) : GroupEvent → Option (Consumption μ)
  | .broker e => s.brokerStep cfg membership restart e
  | .join m memberId generationId =>
      some (s.setMember m (some { memberId := memberId, generationId := generationId }))
  | .resume m p => (s.members m).map fun member => s.resume cfg membership args m member p
  | .poll m p => (s.members m).bind fun member =>
      (member.partitionOffsets p).map fun offset => s.poll cfg membership args m member p offset
  | .leave m => some (s.setMember m none)
  | .deliver commitReq =>
      if commitReq ∈ s.sent then some (s.deliver cfg membership commitReq) else none
  | .tornCommit commitReq bytes =>
      if commitReq ∈ s.sent then some (s.tornCommit commitReq bytes) else none

/-- What producers write fits, and commits are those of the members. -/
def GroupTakes (s : Consumption μ) : GroupEvent → Prop
  | .broker e => Takes s.broker e ∧ e.isCommit = false
  | _ => True

instance (s : Consumption μ) : (e : GroupEvent) → Decidable (GroupTakes s e)
  | .broker e => inferInstanceAs (Decidable (Takes s.broker e ∧ e.isCommit = false))
  | .join _ _ _ | .resume _ _ | .poll _ _ | .leave _ | .deliver _ | .tornCommit _ _ =>
      .isTrue trivial

end Run

/-! ## What is printed -/

section Delivered

variable (args : Nat → GroupArgs) (logs : Logs) (printed : Printed) (groupId : GroupId)
  (key : TopicPartition)

/-- A process of the group was told to begin behind this offset. -/
def Skipped (i : Nat) : Prop :=
  ∃ m, (args m).groupId = groupId ∧ (args m).topic = key.1 ∧
    ∃ offset ∈ (args m).offsetOverride, i < offset.toNat

/-- The group has printed the log up to here, where it was not told to skip it. -/
def Delivered (n : Nat) : Prop :=
  ∀ i < n, Skipped args groupId key i ∨
    ∃ rec, (groupId, key, rec) ∈ printed ∧ (logs key)[i]? = some rec

end Delivered

section Deliver

variable {args : Nat → GroupArgs} {logs logs' : Logs} {printed printed' : Printed}
  {groupId : GroupId} {key : TopicPartition} {n n' : Nat}

theorem Delivered.down (h : Delivered args logs printed groupId key n) (hle : n' ≤ n) :
    Delivered args logs printed groupId key n' := fun i hi => h i (hi.trans_le hle)

/-- Logs that grow and more that is printed keep what is delivered. -/
theorem Delivered.grow (h : Delivered args logs printed groupId key n)
    (hlogs : logs.Extends logs') (hprinted : printed ⊆ printed') :
    Delivered args logs' printed' groupId key n := by
  intro i hi
  rcases h i hi with hskipped | ⟨rec, hmem, hrec⟩
  · exact Or.inl hskipped
  · obtain ⟨hlt, rfl⟩ := List.getElem?_eq_some_iff.mp hrec
    exact Or.inr ⟨_, hprinted hmem, List.prefix_iff_getElem?.mp (hlogs key) i hlt⟩

/-- A part of the log that is printed behind what is delivered. -/
theorem Delivered.advance {records : List Record}
    (h : Delivered args logs printed groupId key n) (hpart : records <+: (logs key).drop n) :
    Delivered args logs (printed ++ records.map fun rec => (groupId, key, rec)) groupId key
      (n + records.length) := by
  intro i hi
  by_cases hlt : i < n
  · exact h.grow (Logs.extends_of_eq rfl) (List.subset_append_left _ _) i hlt
  · obtain ⟨j, rfl⟩ := Nat.exists_eq_add_of_le (Nat.le_of_not_lt hlt)
    have hj : j < records.length := by omega
    refine Or.inr ⟨records[j], ?_, ?_⟩
    · apply List.mem_append_right
      exact List.mem_map.mpr ⟨_, List.getElem_mem hj, rfl⟩
    · rw [← List.getElem?_drop]
      exact List.prefix_iff_getElem?.mp hpart j hj

end Deliver

/-- What holds of every offset that members or the coordinator go on from. -/
structure Tracks {μ : Type} (args : Nat → GroupArgs)
    (P : GroupId → TopicPartition → Nat → Prop) (s : Consumption μ) : Prop where
  positions : ∀ (m : Nat) (member : Member) (p : UInt32) (offset : UInt64),
    s.members m = some member → member.partitionOffsets p = some offset →
      offset.toNat < 2 ^ 63 ∧ P (args m).groupId ((args m).topic, p) offset.toNat
  sent : ∀ commitReq ∈ s.sent, FileGroup commitReq.groupId ∧ Token commitReq.topic ∧
    P commitReq.groupId commitReq.key commitReq.offset.toNat
  stored : AllStored P s.broker.groupCoordinator.2

/-- What a run keeps: the printed records are those of the logs, and no offset is ahead of what
its group has printed. -/
structure Delivering {μ : Type} (args : Nat → GroupArgs) (s : Consumption μ) : Prop where
  sound : s.broker.Sound
  printed : ∀ x ∈ s.printed, (s.broker.logs x.2.1)[x.2.2.offset.toNat]? = some x.2.2
  tracks : Tracks args (Delivered args s.broker.logs s.printed) s

section Tracked

variable {μ : Type} {args : Nat → GroupArgs} {P Q : GroupId → TopicPartition → Nat → Prop}
  {s : Consumption μ} {m : Nat} {member : Member} {p : UInt32} {offset : UInt64}

theorem Tracks.imp (h : Tracks args P s)
    (hPQ : ∀ groupId key n, P groupId key n → Q groupId key n) : Tracks args Q s where
  positions m member p offset hm hp := (h.positions m member p offset hm hp).imp_right (hPQ _ _ _)
  sent commitReq hsent :=
    ⟨(h.sent commitReq hsent).1, (h.sent commitReq hsent).2.1,
      hPQ _ _ _ (h.sent commitReq hsent).2.2⟩
  stored := h.stored.imp hPQ

/-- A member whose positions are all good. -/
theorem Tracks.setMember (h : Tracks args P s) (member : Option Member)
    (hmember : ∀ member' ∈ member, ∀ p offset, member'.partitionOffsets p = some offset →
      offset.toNat < 2 ^ 63 ∧ P (args m).groupId ((args m).topic, p) offset.toNat) :
    Tracks args P (s.setMember m member) where
  positions m' member' p offset hm hp := by
    simp only [Consumption.setMember] at hm
    by_cases heq : m' = m
    · subst heq
      rw [Function.update_self] at hm
      exact hmember member' hm p offset hp
    · rw [Function.update_of_ne heq] at hm
      exact h.positions m' member' p offset hm hp
  sent := h.sent
  stored := h.stored

/-- A member takes up one more position, or moves it. -/
theorem Tracks.setOffset (h : Tracks args P s) (hm : s.members m = some member)
    (hlt : offset.toNat < 2 ^ 63)
    (hoffset : P (args m).groupId ((args m).topic, p) offset.toNat) :
    Tracks args P (s.setMember m (some (member.setOffset p offset))) := by
  apply h.setMember
  rintro member' hmember' p' offset' hp'
  obtain rfl := Option.some.inj hmember'
  simp only [Member.setOffset] at hp'
  by_cases heq : p' = p
  · subst heq
    rw [Function.update_self] at hp'
    obtain rfl := Option.some.inj hp'
    exact ⟨hlt, hoffset⟩
  · rw [Function.update_of_ne heq] at hp'
    exact h.positions m member p' offset' hm hp'

end Tracked

section Steps

variable {μ : Type} {cfg : BrokerConfig} {membership : Service μ} {restart : μ → μ}
  {args : Nat → GroupArgs} {s t : Consumption μ} {m : Nat} {member : Member} {p : UInt32}
  {offset : UInt64} {logs : Logs} {printed : Printed} {groupId : GroupId}

/-- Logs that grow behind the back of the members. -/
theorem Delivering.setBroker (h : Delivering args s) {broker : Standalone (μ × OffsetStore)}
    (sound : broker.Sound) (grown : s.broker.logs.Extends broker.logs)
    (stored : AllStored (Delivered args s.broker.logs s.printed) broker.groupCoordinator.2) :
    Delivering args { s with broker := broker } where
  sound := sound
  printed x hx := by
    have hrec := h.printed x hx
    obtain ⟨hlt, heq⟩ := List.getElem?_eq_some_iff.mp hrec
    rw [← heq]
    have hlater := List.prefix_iff_getElem?.mp (grown x.2.1) _ hlt
    rw [heq] at hlater ⊢
    exact hlater
  tracks := by
    have hkept : Tracks args (Delivered args s.broker.logs s.printed)
        { s with broker := broker } := ⟨h.tracks.positions, h.tracks.sent, stored⟩
    exact hkept.imp fun groupId key n hn => hn.grow grown (List.Subset.refl _)

theorem Delivering.brokerStep (h : Delivering args s) {e : StandaloneEvent}
    (takes : GroupTakes s (.broker e)) (hstep : s.brokerStep cfg membership restart e = some t) :
    Delivering args t := by
  obtain ⟨broker, hbroker, rfl⟩ := Option.map_eq_some_iff.mp hstep
  obtain ⟨hsound, hlog⟩ := standaloneStep_logs h.sound takes.1 hbroker
  have hnext := h.setBroker hsound hlog.grows (h.tracks.stored.standaloneStep takes.2 hbroker)
  refine ⟨hnext.sound, hnext.printed, ?_, hnext.tracks.sent, hnext.tracks.stored⟩
  intro m member p offset hm hp
  dsimp only at hm
  split at hm
  · exact hnext.tracks.positions m member p offset hm hp
  · cases hm

/-- A call that is about the groups only. -/
theorem Delivering.groupCall (h : Delivering args s) (groups : μ × OffsetStore)
    (stored : AllStored (Delivered args s.broker.logs s.printed) groups.2) :
    Delivering args { s with broker := { s.broker with groupCoordinator := groups } } := by
  obtain ⟨hsound, hlogs⟩ := h.sound.same { s.broker with groupCoordinator := groups } rfl
    (List.Subset.refl _)
  exact h.setBroker hsound (Logs.extends_of_eq hlogs) stored

theorem Delivering.setOffset (h : Delivering args s) (hm : s.members m = some member)
    (hlt : offset.toNat < 2 ^ 63)
    (hoffset : Delivered args s.broker.logs s.printed (args m).groupId ((args m).topic, p)
      offset.toNat) :
    Delivering args (s.setMember m (some (member.setOffset p offset))) :=
  ⟨h.sound, h.printed, h.tracks.setOffset hm hlt hoffset⟩

theorem Delivering.dropMember (h : Delivering args s) :
    Delivering args (s.setMember m none) :=
  ⟨h.sound, h.printed, h.tracks.setMember none nofun⟩

/-- What a FetchOffset answers from is nothing, or what the group has printed. -/
theorem resumed_delivered {store : OffsetStore}
    (h : AllStored (Delivered args logs printed) store) (hgroup : FileGroup groupId)
    (key : TopicPartition) :
    let next := Consumption.resumed ⟨.none, Int64.ofInt (store.fetched groupId key)⟩
    next.toNat < 2 ^ 63 ∧ Delivered args logs printed groupId key next.toNat := by
  intro next
  have hzero : (0 : UInt64).toNat < 2 ^ 63 ∧
      Delivered args logs printed groupId key (0 : UInt64).toNat :=
    ⟨by decide, fun i hi => absurd hi (Nat.not_lt_zero i)⟩
  rcases h.fetched hgroup key with hnone | ⟨offset, hoffset, hdelivered⟩
  · have hnext : next = 0 := by
      simp only [next, hnone]
      rfl
    rw [hnext]
    exact hzero
  · have hanswer : Int64.ofInt (store.fetched groupId key) = offset.toInt64 := by
      rw [hoffset, toI64, Int64.ofInt_toInt]
    simp only [next, hanswer, Consumption.resumed]
    split
    · next hsign =>
        have hsigned : 0 ≤ toI64 offset := Int64.le_iff_toInt_le.mp hsign
        have hlt : offset.toNat < 2 ^ 63 := by
          by_contra hge
          exact absurd (toI64_of_ge (Nat.le_of_not_lt hge)) (Int.not_lt.mpr hsigned)
        exact ⟨hlt, hdelivered⟩
    · exact hzero

theorem Delivering.resume (cfg : BrokerConfig) (membership : Service μ)
    (h : Delivering args s) (usable : (args m).Usable) (hm : s.members m = some member)
    (p : UInt32) :
    Delivering args (s.resume cfg membership args m member p) ∧
      (s.resume cfg membership args m member p).broker.logs = s.broker.logs ∧
      ∃ offset, (s.resume cfg membership args m member p).members m =
        some (member.setOffset p offset) := by
  unfold Consumption.resume
  split
  · next offset hoverride =>
      refine ⟨h.setOffset hm (usable.offset offset hoverride) ?_, rfl, offset, ?_⟩
      · exact fun i hi => Or.inl ⟨m, rfl, rfl, offset, hoverride, hi⟩
      · exact Function.update_self _ _ _
  · let store := s.broker.groupCoordinator.2
    let groups := (s.broker.groupCoordinator.1,
      (store.step (.fetchOffset (args m).groupId ((args m).topic, p))).getD store)
    have hcalled : Delivering args
        { s with broker := { s.broker with groupCoordinator := groups } } :=
      h.groupCall groups h.tracks.stored.fetch
    obtain ⟨hlt, hoffset⟩ :=
      resumed_delivered h.tracks.stored usable.group ((args m).topic, p)
    exact ⟨hcalled.setOffset hm hlt hoffset, rfl, _, Function.update_self _ _ _⟩

/-- A member prints what follows its position in the log, and its commit is behind it. -/
theorem Delivering.receive (h : Delivering args s) (usable : (args m).Usable)
    (hm : s.members m = some member) (hp : member.partitionOffsets p = some offset)
    {records : List Record}
    (hpart : records <+: (s.broker.logs ((args m).topic, p)).drop offset.toNat)
    (hnext : (nextPosition offset records).toNat = offset.toNat + records.length)
    (hlt : (nextPosition offset records).toNat < 2 ^ 63) :
    Delivering args (s.receive args m member p offset records) := by
  obtain ⟨hnumbered, -⟩ := h.sound.numbered ((args m).topic, p)
  have hdelivered := (h.tracks.positions m member p offset hm hp).2.advance hpart
  rw [← hnext] at hdelivered
  have hkept : Tracks args (Delivered args s.broker.logs (s.printed ++ records.map
      fun rec => ((args m).groupId, ((args m).topic, p), rec))) s :=
    h.tracks.imp fun _ _ _ hn => hn.grow (Logs.extends_of_eq rfl) (List.subset_append_left _ _)
  refine ⟨h.sound, ?_, ?_⟩
  · intro x hx
    rcases List.mem_append.mp hx with hold | hnew
    · exact h.printed x hold
    · obtain ⟨rec, hrec, rfl⟩ := List.mem_map.mp hnew
      obtain ⟨j, hj, rfl⟩ := List.mem_iff_getElem.mp (List.mem_of_mem_drop (hpart.subset hrec))
      have hplace := hnumbered.offset_getElem hj
      rw [Nat.zero_add] at hplace
      change (s.broker.logs ((args m).topic, p))[UInt64.toNat _]? = _
      rw [hplace]
      exact List.getElem?_eq_getElem hj
  · refine Tracks.setOffset ⟨hkept.positions, ?_, hkept.stored⟩ hm hlt hdelivered
    intro commitReq hcommit
    rcases List.mem_append.mp hcommit with hold | hnew
    · exact hkept.sent commitReq hold
    · rw [List.mem_singleton.mp hnew]
      exact ⟨usable.group, usable.topic, hdelivered⟩

/-- A poll prints and moves on, unless the member is at the end of the log. -/
theorem Delivering.poll (cfg : BrokerConfig) (membership : Service μ)
    (h : Delivering args s) (usable : (args m).Usable) (hm : s.members m = some member)
    (hp : member.partitionOffsets p = some offset) :
    Delivering args (s.poll cfg membership args m member p offset) ∧
      (s.poll cfg membership args m member p offset).broker.logs = s.broker.logs ∧
      ∃ member' offset', (s.poll cfg membership args m member p offset).members m =
          some member' ∧ member'.partitionOffsets p = some offset' ∧
        ((s.broker.logs ((args m).topic, p)).length ≤ offset'.toNat ∨
          offset.toNat < offset'.toNat) := by
  let req : FetchRequest := ⟨(args m).topic, p, offset, kMaxFetchBytes⟩
  obtain ⟨hlt, -⟩ := h.tracks.positions m member p offset hm hp
  obtain ⟨hnumbered, hlen⟩ := h.sound.numbered ((args m).topic, p)
  obtain ⟨records, hfetched⟩ := fetched cfg h.sound req hlt
  obtain ⟨hpart, hend⟩ := hfetched.answers hlt
  have hcalled : Delivering args { s with broker := (s.broker.fetch cfg req).2 } :=
    h.setBroker hfetched.sound (Logs.extends_of_eq hfetched.logs)
      (h.tracks.stored.of_eq (getOrCreatePartition_groups s.broker _))
  have hpoll : s.poll cfg membership args m member p offset =
      match polled (s.broker.fetch cfg req).1 with
      | .records records =>
          { s with broker := (s.broker.fetch cfg req).2 }.receive args m member p offset records
      | _ => { s with broker := (s.broker.fetch cfg req).2 } := rfl
  rw [hpoll, hfetched.polled]
  by_cases hnil : records = []
  · rw [if_pos hnil]
    exact ⟨hcalled, hfetched.logs, member, offset, hm, hp, Or.inl (hend hnil)⟩
  · rw [if_neg hnil]
    have hcount := hpart.length_le
    have hpos := List.length_pos_of_ne_nil hnil
    rw [List.length_drop] at hcount
    have hlen' : (s.broker.logs ((args m).topic, p)).length < 2 ^ 63 := hlen
    have hcount' : records.length ≤
        (s.broker.logs ((args m).topic, p)).length - offset.toNat := hcount
    have hnext : (nextPosition offset records).toNat = offset.toNat + records.length := by
      have hmoved : nextPosition offset records = offset + UInt64.ofNat records.length :=
        hfetched.next
      rw [hmoved, UInt64.toNat_add, UInt64.toNat_ofNat']
      omega
    have hpart' : records <+: ((s.broker.fetch cfg req).2.logs ((args m).topic, p)).drop
        offset.toNat := by
      rw [hfetched.logs]
      exact hpart
    refine ⟨hcalled.receive usable hm hp hpart' hnext (by omega), hfetched.logs,
      member.setOffset p (nextPosition offset records), nextPosition offset records,
      Function.update_self _ _ _, Function.update_self _ _ _, Or.inr ?_⟩
    omega

theorem Delivering.deliver (h : Delivering args s) {commitReq : CommitOffsetRequest}
    (hsent : commitReq ∈ s.sent) :
    Delivering args (s.deliver cfg membership commitReq) := by
  obtain ⟨hgroup, htopic, hoffset⟩ := h.tracks.sent commitReq hsent
  let store := s.broker.groupCoordinator.2
  let groups := (s.broker.groupCoordinator.1, (store.step (.commitOffset commitReq)).getD store)
  have hcalled : Delivering args
      { s with broker := { s.broker with groupCoordinator := groups } } :=
    h.groupCall groups (h.tracks.stored.commit hgroup htopic hoffset)
  exact ⟨hcalled.sound, hcalled.printed, hcalled.tracks.positions,
    fun r hr => hcalled.tracks.sent r (List.mem_of_mem_erase hr), hcalled.tracks.stored⟩

theorem Delivering.tornCommit (h : Delivering args s) {commitReq : CommitOffsetRequest}
    (hsent : commitReq ∈ s.sent) (bytes : Nat) :
    Delivering args (s.tornCommit commitReq bytes) := by
  obtain ⟨hgroup, htopic, hoffset⟩ := h.tracks.sent commitReq hsent
  let groups := (s.broker.groupCoordinator.1,
    Broker.tornCommit s.broker.groupCoordinator.2 commitReq bytes)
  have hcalled : Delivering args
      { s with broker := { s.broker with groupCoordinator := groups } } :=
    h.groupCall groups
      (h.tracks.stored.torn (fun _ _ _ _ hle hn => hn.down hle) hgroup htopic hoffset bytes)
  exact ⟨hcalled.sound, hcalled.printed, hcalled.tracks.positions,
    fun r hr => hcalled.tracks.sent r (List.mem_of_mem_erase hr), hcalled.tracks.stored⟩

/-- Every event keeps all offsets behind what is printed. -/
theorem Delivering.step (h : Delivering args s) (usable : ∀ m, (args m).Usable)
    {e : GroupEvent} (takes : GroupTakes s e)
    (hstep : groupStep cfg membership restart args s e = some t) : Delivering args t := by
  cases e with
  | broker e => exact h.brokerStep takes hstep
  | join m memberId generationId =>
      obtain rfl := Option.some.inj hstep
      refine ⟨h.sound, h.printed, h.tracks.setMember _ ?_⟩
      rintro member hmember p offset hp
      obtain rfl := Option.some.inj hmember
      cases hp
  | resume m p =>
      obtain ⟨member, hm, rfl⟩ := Option.map_eq_some_iff.mp hstep
      exact (h.resume cfg membership (usable m) hm p).1
  | poll m p =>
      obtain ⟨member, hm, hp⟩ := Option.bind_eq_some_iff.mp hstep
      obtain ⟨offset, hoffset, rfl⟩ := Option.map_eq_some_iff.mp hp
      exact (h.poll cfg membership (usable m) hm hoffset).1
  | leave m =>
      obtain rfl := Option.some.inj hstep
      exact h.dropMember
  | deliver commitReq =>
      simp only [groupStep] at hstep
      split at hstep
      · next hsent =>
          obtain rfl := Option.some.inj hstep
          exact h.deliver hsent
      · cases hstep
  | tornCommit commitReq bytes =>
      simp only [groupStep] at hstep
      split at hstep
      · next hsent =>
          obtain rfl := Option.some.inj hstep
          exact h.tornCommit hsent bytes
      · cases hstep

/-- As many polls as the log has records, from anywhere, print the rest of it. -/
theorem Delivering.polls (restart : μ → μ) (h : Delivering args s)
    (usable : (args m).Usable) {polls : Nat}
    (hm : s.members m = some member) (hp : member.partitionOffsets p = some offset)
    (hpolls : (s.broker.logs ((args m).topic, p)).length ≤ offset.toNat + polls) :
    ∃ u, execute (groupStep cfg membership restart args) s
        (List.replicate polls (.poll m p)) = some u ∧ u.broker.logs = s.broker.logs ∧
      Delivered args u.broker.logs u.printed (args m).groupId ((args m).topic, p)
        (s.broker.logs ((args m).topic, p)).length := by
  induction polls generalizing s member offset with
  | zero =>
      refine ⟨s, rfl, rfl, ?_⟩
      exact (h.tracks.positions m member p offset hm hp).2.down hpolls
  | succ polls ih =>
      obtain ⟨hnext, hlogs, member', offset', hm', hp', hmoves⟩ :=
        h.poll cfg membership usable hm hp
      have hleft : ((s.poll cfg membership args m member p offset).broker.logs
          ((args m).topic, p)).length ≤ offset'.toNat + polls := by
        rw [hlogs]
        omega
      obtain ⟨u, hu, hulogs, hdelivered⟩ := ih hnext hm' hp' hleft
      rw [hlogs] at hulogs hdelivered
      refine ⟨u, ?_, hulogs, hdelivered⟩
      have hstep : groupStep cfg membership restart args s (.poll m p) =
          some (s.poll cfg membership args m member p offset) := by
        simp only [groupStep, hm, hp, Option.bind_some, Option.map_some]
      rw [List.replicate_succ, execute, hstep]
      exact hu

theorem delivering_start (args : Nat → GroupArgs) (g : μ) (clock : Nat → UInt64) :
    Delivering args { broker := { groupCoordinator := (g, {}), clock := clock } } where
  sound := Standalone.sound_start _ _
  printed _ hx := by cases hx
  tracks :=
    { positions := fun m member p offset hm _ => by cases hm
      sent := fun commitReq hsent => by cases hsent
      stored := allStored_start }

/-- No group skips a record, unless a member is told to. In every state of a run, whatever is
assigned, replaced, lost, late or cut off in it, a member that asks where to begin is sent to an
offset below which its group has printed every record. Nothing is printed that the log does not
have, and when a member begins there and the log stops growing, polls enough for the log bring
the group to the end of it. -/
theorem groups_skip_nothing {g : μ} {clock : Nat → UInt64}
    {visits : List (Consumption μ × GroupEvent)} (usable : ∀ m, (args m).Usable)
    (run : Run (groupStep cfg membership restart args)
      { broker := { groupCoordinator := (g, {}), clock := clock } } visits t)
    (takes : Guarded GroupTakes visits) :
    (∀ (foReq : FetchOffsetRequest) (foResp : FetchOffsetResponse), FileGroup foReq.groupId →
      (standalone cfg (coordinator membership) .fetchOffset foReq t.broker).1 = .ok foResp →
        Delivered args t.broker.logs t.printed foReq.groupId (foReq.topic, foReq.partitionId)
          (Consumption.resumed foResp).toNat) ∧
    (∀ x ∈ t.printed, (t.broker.logs x.2.1)[x.2.2.offset.toNat]? = some x.2.2) ∧
    ∀ (m : Nat) (p : UInt32) (polls : Nat), (t.members m).isSome →
      (t.broker.logs ((args m).topic, p)).length ≤ polls →
      ∃ u, execute (groupStep cfg membership restart args) t
          (.resume m p :: List.replicate polls (.poll m p)) = some u ∧
        u.broker.logs = t.broker.logs ∧
        Delivered args u.broker.logs u.printed (args m).groupId ((args m).topic, p)
          (t.broker.logs ((args m).topic, p)).length := by
  have hdelivering : Delivering args t :=
    run.invariant takes (delivering_start args g clock)
      fun t e u hG h hstep => h.step usable hG hstep
  refine ⟨?_, hdelivering.printed, ?_⟩
  · intro foReq foResp hgroup hanswer
    obtain rfl := Except.ok.inj hanswer
    exact (resumed_delivered hdelivering.tracks.stored hgroup _).2
  · intro m p polls hmember hpolls
    obtain ⟨member, hm⟩ := Option.isSome_iff_exists.mp hmember
    obtain ⟨hnext, hlogs, offset, hm'⟩ :=
      hdelivering.resume cfg membership (usable m) hm p
    have hleft : ((t.resume cfg membership args m member p).broker.logs
        ((args m).topic, p)).length ≤ offset.toNat + polls := by
      rw [hlogs]
      omega
    obtain ⟨u, hu, hulogs, hdelivered⟩ :=
      hnext.polls restart (usable m) hm' (Function.update_self _ _ _) hleft
    rw [hlogs] at hulogs hdelivered
    refine ⟨u, ?_, hulogs, hdelivered⟩
    have hstep : groupStep cfg membership restart args t (.resume m p) =
        some (t.resume cfg membership args m member p) := by
      simp only [groupStep, hm, Option.map_some]
    rw [execute, hstep]
    exact hu

end Steps

def oneTopic (_ : Nat) : GroupArgs := { topic := [116], groupId := [103] }

/-- One member prints two batches, but the commit of the second is cut off, and another member
takes over. -/
def cutCommit : List GroupEvent :=
  [.broker (.call .produce twoRecords), .join 0 [97] 1, .resume 0 0, .poll 0 0,
    .deliver ⟨[103], [97], 1, [116], 0, 2⟩, .broker (.call .produce twoRecords), .poll 0 0,
    .tornCommit ⟨[103], [97], 1, [116], 0, 4⟩ 4, .broker .crash, .join 1 [98] 1, .resume 1 0,
    .poll 1 0]

theorem groups_skip_nothing_cut :
    ∃ visits t foResp, Run (groupStep oneBroker noGroups id oneTopic)
        { broker := { groupCoordinator := ((), {}), clock := UInt64.ofNat } } visits t ∧
      t.printed.length = 8 ∧
      (standalone oneBroker (coordinator noGroups) .fetchOffset ⟨[103], [116], 0⟩
        t.broker).1 = .ok foResp ∧
      Delivered oneTopic t.broker.logs t.printed [103] ([116], 0)
        (Consumption.resumed foResp).toNat := by
  have seen : (execute (groupStep oneBroker noGroups id oneTopic)
      { broker := { groupCoordinator := ((), {}), clock := UInt64.ofNat } } cutCommit).map
        (fun t => t.printed.length) = some 8 := by
    decide +kernel
  obtain ⟨t, run, hlength⟩ := run_showing seen
  have takes : Guarded GroupTakes (trace (groupStep oneBroker noGroups id oneTopic)
      { broker := { groupCoordinator := ((), {}), clock := UInt64.ofNat } } cutCommit) := by
    decide +kernel
  have usable : ∀ m, (oneTopic m).Usable := fun m =>
    ⟨(by decide : TopicName [116]), (by decide : FileGroup [103]), (by decide : Token [116]),
      nofun⟩
  obtain ⟨hcommitted, -, -⟩ := groups_skip_nothing usable run takes
  exact ⟨_, t, _, run, hlength, rfl, hcommitted ⟨[103], [116], 0⟩ _ ⟨by decide, by decide⟩ rfl⟩

end MiniKafka.Client
