import MiniKafka.Cluster.AssignmentInvariant
import Mathlib.Data.Prod.Lex

/-!
# How assignment decisions reach the brokers

A controller stores a decision under its lock and sends `LEADER_AND_ISR` to its
peers after releasing it, from whichever thread made the decision. A call carries
no term and no version, and the receiver overwrites what it has. The stamps below
are not in the code: they record, for the statements, which decision a stored
assignment comes from.
-/

namespace MiniKafka.Cluster

open Foundations

/-- Decisions are ordered by the term of their controller, then by the order in which
they were stored. -/
abbrev Stamp := Nat ×ₗ Nat

structure StampedDecision where
  stamp : Stamp
  controller : BrokerId
  entries : List LeaderAndISREntry
  deriving DecidableEq

namespace StampedDecision

/-- What the decision says about a partition. -/
def about (d : StampedDecision) (key : TopicPartition) : Option PartitionAssignment :=
  Assignments.written d.entries key

/-- The two decisions name a common partition. -/
def Overlaps (d d' : StampedDecision) : Prop :=
  ∃ e ∈ d.entries, e.key ∈ d'.entries.map LeaderAndISREntry.key

instance (d d' : StampedDecision) : Decidable (d.Overlaps d') :=
  inferInstanceAs (Decidable (∃ e ∈ d.entries, _))

theorem overlaps_of_about {d d' : StampedDecision} {key : TopicPartition}
    (h : (d.about key).isSome) (h' : (d'.about key).isSome) : d.Overlaps d' := by
  obtain ⟨pa, hpa⟩ := Option.isSome_iff_exists.mp h
  obtain ⟨pa', hpa'⟩ := Option.isSome_iff_exists.mp h'
  exact ⟨_, Assignments.mem_of_written hpa,
    List.mem_map.mpr ⟨_, Assignments.mem_of_written hpa', rfl⟩⟩

end StampedDecision

structure BroadcastCluster where
  assignments : BrokerId → Assignments
  /-- Who holds the role of a leader, and the term it was elected in. -/
  leading : List (BrokerId × UInt32) := []
  /-- The threads whose leader check succeeded and whose decision is not stored yet. -/
  admitted : List (BrokerId × UInt32) := []
  /-- Receiver and content of every `LEADER_AND_ISR` call of the run. -/
  calls : List (BrokerId × StampedDecision) := []
  elected : List (BrokerId × UInt32) := []
  decisions : List StampedDecision := []
  received : List (BrokerId × StampedDecision) := []
  /-- The decision each stored assignment comes from. -/
  stamps : BrokerId → TopicPartition → Option Stamp := fun _ _ => none

inductive BroadcastEvent
  | becomeLeader (b : BrokerId) (term : UInt32)
  | stepDown (b : BrokerId) (term : UInt32)
  /-- `is_leader()`, or the role check of `run_loop`, in a section of its own. -/
  | checkLeader (b : BrokerId) (term : UInt32)
  /-- The section of an admitted thread that stores a decision. -/
  | store (b : BrokerId) (term : UInt32) (call : ControllerCall)
  | applyLeaderAndIsr (b : BrokerId) (d : StampedDecision)

/-- What the call stores and broadcasts; `none` where it broadcasts nothing. -/
def ControllerCall.decision (uncleanLeaderElectionEnable : Bool) (a : Assignments) :
    ControllerCall → Option Decision
  | .createTopic isLeader alive topic numPartitions replicationFactor =>
      (a.createTopic isLeader alive topic numPartitions replicationFactor).map Prod.snd
  | .updateIsr isLeader req => a.updateIsr isLeader req
  | .checkPartitionFailover alive =>
      let d := a.checkPartitionFailover uncleanLeaderElectionEnable alive
      if d.wireEntries = [] then none else some d

namespace BroadcastCluster

/-- Brokers that all start with the same map, and nothing sent yet. -/
def boot (a : Assignments) : BroadcastCluster := { assignments := fun _ => a }

/-- Broker `b` writes the entries of a decision into its map. -/
def write (c : BroadcastCluster) (b : BrokerId) (d : StampedDecision) : BroadcastCluster :=
  { c with
    assignments := Function.update c.assignments b
      (Assignments.applyLeaderAndIsr (c.assignments b) d.entries)
    stamps := Function.update c.stamps b fun key =>
      if (d.about key).isSome then some d.stamp else c.stamps b key }

/-- The stamp of the next decision made in a term. -/
def nextStamp (c : BroadcastCluster) (term : UInt32) : Stamp :=
  toLex (term.toNat, c.decisions.length)

end BroadcastCluster

open BroadcastCluster

def broadcastStep (m : Membership) (uncleanLeaderElectionEnable : Bool)
    (c : BroadcastCluster) : BroadcastEvent → Option BroadcastCluster
  | .becomeLeader b term =>
      -- election safety: no other broker was elected in this term
      if term ∈ c.elected.map Prod.snd then none
      else some { c with
        leading := (b, term) :: c.leading
        elected := (b, term) :: c.elected }
  | .stepDown b term => some { c with leading := c.leading.erase (b, term) }
  | .checkLeader b term =>
      if (b, term) ∈ c.leading then some { c with admitted := (b, term) :: c.admitted }
      else none
  | .store b term call =>
      if (b, term) ∈ c.admitted then
        let c := { c with admitted := c.admitted.erase (b, term) }
        match call.decision uncleanLeaderElectionEnable (c.assignments b) with
        | some d =>
            let d : StampedDecision := ⟨c.nextStamp term, b, d.wireEntries⟩
            some { c.write b d with
              calls := (m.peerIds b).map (·, d) ++ c.calls
              decisions := d :: c.decisions }
        | none => some c
      else none
  | .applyLeaderAndIsr b d =>
      if (b, d) ∈ c.calls then
        some { c.write b d with received := (b, d) :: c.received }
      else none

abbrev BroadcastRun (m : Membership) (uncleanLeaderElectionEnable : Bool) :=
  Run (broadcastStep m uncleanLeaderElectionEnable)

/-- The decision has already been written by `b`: it received it or made it. -/
def Seen (c : BroadcastCluster) (b : BrokerId) (d : StampedDecision) : Prop :=
  d ∈ c.decisions ∧ ((b, d) ∈ c.received ∨ d.controller = b)

/-- A call is handled in decision order: its receiver has not received, or made
itself, a later decision for one of the partitions of the call. -/
def InDecisionOrder (c : BroadcastCluster) : BroadcastEvent → Prop
  | .applyLeaderAndIsr b d => ∀ d' ∈ c.decisions,
      ((b, d') ∈ c.received ∨ d'.controller = b) → d'.Overlaps d → d'.stamp ≤ d.stamp
  | _ => True

instance decidableInDecisionOrder (c : BroadcastCluster) : ∀ e, Decidable (InDecisionOrder c e)
  | .applyLeaderAndIsr b d => List.decidableBAll (fun d' =>
      ((b, d') ∈ c.received ∨ d'.controller = b) → d'.Overlaps d → d'.stamp ≤ d.stamp) c.decisions
  | .becomeLeader _ _ | .stepDown _ _ | .checkLeader _ _ | .store _ _ _ => .isTrue trivial

/-- No stored assignment of `b` was replaced by an earlier decision. -/
def MovesForward (c c' : BroadcastCluster) (b : BrokerId) : Prop :=
  ∀ key s s', c.stamps b key = some s → c'.stamps b key = some s' → s ≤ s'

/-- All decisions so far were made by one controller in one term. -/
def OneController (c : BroadcastCluster) (controller : BrokerId) (term : UInt32) : Prop :=
  ∀ d ∈ c.decisions, d.controller = controller ∧ (ofLex d.stamp).1 = term.toNat

variable {m : Membership} {unclean : Bool} {c c' : BroadcastCluster} {a₀ : Assignments}
  {b v : BrokerId} {d : StampedDecision} {key : TopicPartition}

/-- What `b` stores for a partition is from the start, or comes from the seen decision
its stamp names. -/
def Backed (a₀ : Assignments) (c : BroadcastCluster) (b : BrokerId) (key : TopicPartition) :
    Prop :=
  (c.stamps b key = none ∧ (c.assignments b)[key]? = a₀[key]?) ∨
  ∃ d, Seen c b d ∧ c.stamps b key = some d.stamp ∧ (d.about key).isSome ∧
    (c.assignments b)[key]? = d.about key

structure BroadcastInv (m : Membership) (a₀ : Assignments) (c : BroadcastCluster) : Prop where
  sent : ∀ b d, (b, d) ∈ c.calls → d ∈ c.decisions
  broadcast : ∀ d ∈ c.decisions, ∀ peer ∈ m.peerIds d.controller, (peer, d) ∈ c.calls
  received : ∀ b d, (b, d) ∈ c.received → d ∈ c.decisions
  numbered : ∀ d ∈ c.decisions, (ofLex d.stamp).2 < c.decisions.length
  unique : ∀ d ∈ c.decisions, ∀ d' ∈ c.decisions, d.stamp = d'.stamp → d = d'
  backed : ∀ b key, Backed a₀ c b key

theorem write_assignments :
    ((c.write b d).assignments v)[key]? =
      if v = b then (d.about key).or (c.assignments v)[key]? else (c.assignments v)[key]? := by
  by_cases hv : v = b
  · subst hv
    simp [write, StampedDecision.about, Assignments.getElem?_applyLeaderAndIsr]
  · simp [write, hv]

theorem write_stamps :
    (c.write b d).stamps v key =
      if v = b ∧ (d.about key).isSome then some d.stamp else c.stamps v key := by
  by_cases hv : v = b
  · subst hv
    simp [write]
  · simp [write, hv]

/-- Writing a decision that is then seen keeps every stored assignment backed. -/
theorem backed_write (backed : ∀ b key, Backed a₀ c b key)
    (assignments : c'.assignments = (c.write b d).assignments)
    (stamps : c'.stamps = (c.write b d).stamps)
    (seen : ∀ v d', Seen c v d' → Seen c' v d') (new : Seen c' b d) :
    ∀ v key, Backed a₀ c' v key := by
  intro v key
  rw [Backed, assignments, stamps, write_stamps, write_assignments]
  by_cases hnew : v = b ∧ (d.about key).isSome
  · obtain ⟨rfl, hsome⟩ := hnew
    obtain ⟨pa, hpa⟩ := Option.isSome_iff_exists.mp hsome
    exact Or.inr ⟨d, new, by simp [hsome], hsome, by simp [hpa]⟩
  · have hold : (if v = b then (d.about key).or (c.assignments v)[key]?
        else (c.assignments v)[key]?) = (c.assignments v)[key]? := by
      split
      · next hv =>
          have hnone : d.about key = none := by simpa [hv] using hnew
          rw [hnone, Option.none_or]
      · rfl
    rw [if_neg hnew, hold]
    rcases backed v key with hstart | ⟨d', hseen, hrest⟩
    · exact Or.inl hstart
    · exact Or.inr ⟨d', seen v d' hseen, hrest⟩

theorem backed_frame (backed : ∀ b key, Backed a₀ c b key)
    (assignments : c'.assignments = c.assignments) (stamps : c'.stamps = c.stamps)
    (decisions : c'.decisions = c.decisions) (received : c'.received = c.received) :
    ∀ b key, Backed a₀ c' b key := by
  intro b key
  simp only [Backed, Seen, assignments, stamps, decisions, received]
  exact backed b key

/-- The step changes neither the stored assignments nor what was sent. -/
structure Quiet (c c' : BroadcastCluster) : Prop where
  assignments : c'.assignments = c.assignments
  stamps : c'.stamps = c.stamps
  calls : c'.calls = c.calls
  decisions : c'.decisions = c.decisions
  received : c'.received = c.received

/-- A step is quiet, stores and broadcasts a new decision, or handles a call. -/
theorem broadcastStep_cases {e : BroadcastEvent}
    (h : broadcastStep m unclean c e = some c') :
    Quiet c c' ∨
    (∃ b term call d, e = .store b term call ∧ d.controller = b ∧ d.stamp = c.nextStamp term ∧
      ∃ admitted, c' = { c.write b d with
        admitted := admitted
        calls := (m.peerIds b).map (·, d) ++ c.calls
        decisions := d :: c.decisions }) ∨
    ∃ b d, e = .applyLeaderAndIsr b d ∧ (b, d) ∈ c.calls ∧
      c' = { c.write b d with received := (b, d) :: c.received } := by
  cases e with
  | becomeLeader b term =>
      simp only [broadcastStep] at h
      split at h
      · cases h
      · obtain rfl := Option.some.inj h
        exact Or.inl ⟨rfl, rfl, rfl, rfl, rfl⟩
  | stepDown b term =>
      obtain rfl := Option.some.inj h
      exact Or.inl ⟨rfl, rfl, rfl, rfl, rfl⟩
  | checkLeader b term =>
      simp only [broadcastStep] at h
      split at h
      · obtain rfl := Option.some.inj h
        exact Or.inl ⟨rfl, rfl, rfl, rfl, rfl⟩
      · cases h
  | store b term call =>
      simp only [broadcastStep] at h
      split at h
      · split at h
        · next d hd =>
            obtain rfl := Option.some.inj h
            exact Or.inr (Or.inl ⟨b, term, call, ⟨c.nextStamp term, b, d.wireEntries⟩, rfl, rfl,
              rfl, c.admitted.erase (b, term), rfl⟩)
        · obtain rfl := Option.some.inj h
          exact Or.inl ⟨rfl, rfl, rfl, rfl, rfl⟩
      · cases h
  | applyLeaderAndIsr b d =>
      simp only [broadcastStep] at h
      split at h
      · next hcall =>
          obtain rfl := Option.some.inj h
          exact Or.inr (Or.inr ⟨b, d, rfl, hcall, rfl⟩)
      · cases h

theorem broadcastInv_boot (m : Membership) (a₀ : Assignments) :
    BroadcastInv m a₀ (BroadcastCluster.boot a₀) where
  sent := by simp [boot]
  broadcast := by simp [boot]
  received := by simp [boot]
  numbered := by simp [boot]
  unique := by simp [boot]
  backed _ _ := Or.inl ⟨rfl, rfl⟩

theorem BroadcastInv.step {e : BroadcastEvent} (inv : BroadcastInv m a₀ c)
    (h : broadcastStep m unclean c e = some c') : BroadcastInv m a₀ c' := by
  rcases broadcastStep_cases h with quiet | ⟨b, term, call, d, -, rfl, hstamp, admitted, rfl⟩ |
    ⟨b, d, -, hcall, rfl⟩
  · obtain ⟨hassign, hstamps, hcalls, hdec, hrec⟩ := quiet
    exact ⟨hcalls ▸ hdec ▸ inv.sent, hcalls ▸ hdec ▸ inv.broadcast,
      hrec ▸ hdec ▸ inv.received, hdec ▸ inv.numbered, hdec ▸ inv.unique,
      backed_frame inv.backed hassign hstamps hdec hrec⟩
  · -- the new decision has a number above all earlier ones
    have hnumber : (ofLex d.stamp).2 = c.decisions.length := by rw [hstamp]; rfl
    have hnew : ∀ d' ∈ c.decisions, d'.stamp ≠ d.stamp := by
      intro d' hd' heq
      have hlt := inv.numbered d' hd'
      rw [heq, hnumber] at hlt
      exact lt_irrefl _ hlt
    refine ⟨fun v d' hd' => ?_, fun d' hd' peer hpeer => ?_, fun v d' hd' => ?_,
      fun d' hd' => ?_, fun d₁ h₁ d₂ h₂ heq => ?_, ?_⟩
    · rcases List.mem_append.mp hd' with hd' | hd'
      · obtain ⟨peer, -, heq⟩ := List.mem_map.mp hd'
        exact (Prod.mk.inj heq).2 ▸ List.mem_cons_self
      · exact List.mem_cons_of_mem _ (inv.sent v d' hd')
    · rcases List.mem_cons.mp hd' with rfl | hd'
      · exact List.mem_append_left _ (List.mem_map.mpr ⟨peer, hpeer, rfl⟩)
      · exact List.mem_append_right _ (inv.broadcast d' hd' peer hpeer)
    · exact List.mem_cons_of_mem _ (inv.received v d' hd')
    · simp only [List.length_cons]
      rcases List.mem_cons.mp hd' with rfl | hd'
      · omega
      · exact Nat.lt_succ_of_lt (inv.numbered d' hd')
    · rcases List.mem_cons.mp h₁ with hd₁ | h₁ <;> rcases List.mem_cons.mp h₂ with hd₂ | h₂
      · rw [hd₁, hd₂]
      · exact absurd (hd₁ ▸ heq.symm) (hnew d₂ h₂)
      · exact absurd (hd₂ ▸ heq) (hnew d₁ h₁)
      · exact inv.unique d₁ h₁ d₂ h₂ heq
    · refine backed_write inv.backed rfl rfl (fun v d' hseen => ?_)
        ⟨List.mem_cons_self, Or.inr rfl⟩
      exact ⟨List.mem_cons_of_mem _ hseen.1, hseen.2⟩
  · have hd : d ∈ c.decisions := inv.sent b d hcall
    refine ⟨inv.sent, inv.broadcast, fun v d' hd' => ?_, inv.numbered, inv.unique, ?_⟩
    · rcases List.mem_cons.mp hd' with heq | hd'
      · exact (Prod.mk.inj heq).2 ▸ hd
      · exact inv.received v d' hd'
    · refine backed_write inv.backed rfl rfl (fun v d' hseen => ?_)
        ⟨hd, Or.inl List.mem_cons_self⟩
      exact ⟨hseen.1, hseen.2.imp_left (List.mem_cons_of_mem _)⟩

/-- Handling a call in decision order replaces nothing by an earlier decision. -/
theorem BroadcastInv.movesForward (inv : BroadcastInv m a₀ c)
    (order : InDecisionOrder c (.applyLeaderAndIsr b d))
    (h : broadcastStep m unclean c (.applyLeaderAndIsr b d) = some c') :
    MovesForward c c' b := by
  simp only [broadcastStep] at h
  split at h
  · obtain rfl := Option.some.inj h
    intro key s s' hs hs'
    change (c.write b d).stamps b key = some s' at hs'
    rw [write_stamps] at hs'
    split at hs'
    · next hnew =>
        obtain rfl := Option.some.inj hs'
        rcases inv.backed b key with ⟨hnone, -⟩ | ⟨d', ⟨hd', hseen⟩, hstamp, hsome, -⟩
        · exact absurd (hnone.symm.trans hs) (by simp)
        · obtain rfl := Option.some.inj (hstamp.symm.trans hs)
          exact order d' hd' hseen (StampedDecision.overlaps_of_about hsome hnew.2)
    · obtain rfl := Option.some.inj (hs.symm.trans hs')
      exact le_refl _
  · cases h

/-- Every broker stores the newest decision it has seen. -/
def Newest (c : BroadcastCluster) : Prop :=
  ∀ b d key, Seen c b d → (d.about key).isSome →
    ∃ s, c.stamps b key = some s ∧ d.stamp ≤ s

theorem newest_write (newest : Newest c) (stamps : c'.stamps = (c.write b d).stamps)
    (seen : ∀ v d', Seen c' v d' → Seen c v d' ∨ (v = b ∧ d' = d))
    (last : ∀ d', Seen c b d' → d'.Overlaps d → d'.stamp ≤ d.stamp) : Newest c' := by
  intro v d' key hseen hsome
  rw [stamps, write_stamps]
  rcases seen v d' hseen with hseen | ⟨rfl, rfl⟩
  · split
    · next hnew =>
        obtain ⟨rfl, hnew⟩ := hnew
        exact ⟨d.stamp, rfl, last d' hseen (StampedDecision.overlaps_of_about hsome hnew)⟩
    · exact newest v d' key hseen hsome
  · exact ⟨d'.stamp, by simp [hsome], le_refl _⟩

/-- With one controller, decision order alone keeps the newest decision everywhere. -/
theorem newest_step {controller : BrokerId} {term : UInt32} {e : BroadcastEvent}
    (inv : BroadcastInv m a₀ c) (order : InDecisionOrder c e)
    (newest : OneController c controller term → Newest c)
    (h : broadcastStep m unclean c e = some c') :
    OneController c' controller term → Newest c' := by
  intro hone
  rcases broadcastStep_cases h with quiet | ⟨b, term', call, d, -, rfl, hstamp, admitted, rfl⟩ |
    ⟨b, d, rfl, hcall, rfl⟩
  · obtain ⟨-, hstamps, -, hdec, hrec⟩ := quiet
    rw [OneController, hdec] at hone
    simpa only [Newest, Seen, hstamps, hdec, hrec] using newest hone
  · have hold : OneController c controller term := fun d' hd' =>
      hone d' (List.mem_cons_of_mem _ hd')
    refine newest_write (newest hold) rfl (fun v d' hseen => ?_) (fun d' hseen _ => ?_)
    · rcases List.mem_cons.mp hseen.1 with rfl | hd'
      · refine Or.inr ⟨?_, rfl⟩
        rcases hseen.2 with hrec | hctl
        · exact absurd (inv.numbered d' (inv.received v d' hrec)) (by
            rw [hstamp]
            exact lt_irrefl _)
        · exact hctl.symm
      · exact Or.inl ⟨hd', hseen.2⟩
    · -- both decisions carry the controller's term, and the new one the larger number
      have hterm := (hold d' hseen.1).2
      have hterm' := (hone d List.mem_cons_self).2
      have hlt := inv.numbered d' hseen.1
      rw [hstamp] at hterm' ⊢
      refine Prod.Lex.le_iff.mpr (Or.inr ⟨?_, hlt.le⟩)
      exact hterm.trans hterm'.symm
  · refine newest_write (newest hone) rfl (fun v d' hseen => ?_) (fun d' hseen hover => ?_)
    · rcases hseen.2 with hrec | hctl
      · rcases List.mem_cons.mp hrec with heq | hrec
        · exact Or.inr (Prod.mk.inj heq)
        · exact Or.inl ⟨hseen.1, Or.inl hrec⟩
      · exact Or.inl ⟨hseen.1, Or.inr hctl⟩
    · exact order d' hseen.1 hseen.2 hover

/-- Two brokers that store the newest of the same decisions agree. -/
theorem BroadcastInv.agree (inv : BroadcastInv m a₀ c) (newest : Newest c)
    (same : ∀ d, Seen c b d ↔ Seen c v d) (key : TopicPartition) :
    (c.assignments b)[key]? = (c.assignments v)[key]? := by
  rcases inv.backed b key with ⟨hb, hstart⟩ | ⟨d, hseen, hb, hsome, hassign⟩ <;>
    rcases inv.backed v key with ⟨hv, hstart'⟩ | ⟨d', hseen', hv, hsome', hassign'⟩
  · rw [hstart, hstart']
  · obtain ⟨s, hs, -⟩ := newest b d' key ((same d').mpr hseen') hsome'
    exact absurd (hb.symm.trans hs) (by simp)
  · obtain ⟨s, hs, -⟩ := newest v d key ((same d).mp hseen) hsome
    exact absurd (hv.symm.trans hs) (by simp)
  · obtain ⟨s, hs, hle⟩ := newest v d key ((same d).mp hseen) hsome
    obtain ⟨s', hs', hle'⟩ := newest b d' key ((same d').mpr hseen') hsome'
    obtain rfl := Option.some.inj (hv.symm.trans hs)
    obtain rfl := Option.some.inj (hb.symm.trans hs')
    obtain rfl := inv.unique d hseen.1 d' hseen'.1 (le_antisymm hle hle')
    rw [hassign, hassign']

/-- In a run that handles every call in decision order, no call replaces an assignment
by an earlier decision; and once all calls of a single controller are handled, every
peer stores what the controller stores. -/
theorem assignments_move_forward {visits : List (BroadcastCluster × BroadcastEvent)}
    (run : BroadcastRun m unclean (BroadcastCluster.boot a₀) visits c)
    (order : Guarded InDecisionOrder visits) :
    (∀ t b d u, (t, .applyLeaderAndIsr b d) ∈ visits →
      broadcastStep m unclean t (.applyLeaderAndIsr b d) = some u → MovesForward t u b) ∧
    ∀ controller term, OneController c controller term →
      (∀ call ∈ c.calls, call ∈ c.received) →
      ∀ peer ∈ m.peerIds controller, c.assignments peer = c.assignments controller := by
  refine ⟨fun t b d u hv h => ?_, fun controller term hone hall peer hpeer => ?_⟩
  · obtain ⟨before, after, -, -, hrun, -⟩ := run.visited hv
    have inv : BroadcastInv m a₀ t := hrun.always (broadcastInv_boot m a₀)
      fun _ _ _ hinv hstep => hinv.step hstep
    exact inv.movesForward (order _ hv) h
  · obtain ⟨inv, hnewest⟩ := run.invariant
      (I := fun c => BroadcastInv m a₀ c ∧ (OneController c controller term → Newest c))
      order ⟨broadcastInv_boot m a₀, by simp [Newest, Seen, boot]⟩
      fun _ _ _ horder hinv hstep =>
        ⟨hinv.1.step hstep, newest_step hinv.1 horder hinv.2 hstep⟩
    refine Std.ExtTreeMap.ext_getElem? fun key => inv.agree (hnewest hone) ?_ key
    -- the controller made every decision, and each of its calls was handled
    intro d
    constructor
    · intro hseen
      exact ⟨hseen.1, Or.inr (hone d hseen.1).1⟩
    · intro hseen
      have hcall := inv.broadcast d hseen.1 peer (by rwa [(hone d hseen.1).1])
      exact ⟨hseen.1, Or.inl (hall _ hcall)⟩

def twoBrokers : Membership := ⟨[1, 2], by decide, by decide⟩

/-- Controller 1 creates a topic on both brokers; the leader then reports that only it
is in sync. -/
def createThenShrink : List BroadcastEvent :=
  [.becomeLeader 1 1, .checkLeader 1 1, .checkLeader 1 1,
    .store 1 1 (.createTopic true .oneTwo [116] 1 2),
    .store 1 1 (.updateIsr true ⟨[116], 0, [1]⟩)]

def created : StampedDecision := ⟨toLex (1, 0), 1, [⟨[116], 0, 1, [1, 2], [1, 2]⟩]⟩

def shrunk : StampedDecision := ⟨toLex (1, 1), 1, [⟨[116], 0, 1, [1, 2], [1]⟩]⟩

/-- Handled in the order they were made, the two calls leave broker 2 with the report. -/
theorem assignments_move_forward_two :
    ∃ visits c, BroadcastRun twoBrokers false (BroadcastCluster.boot ∅) visits c ∧
      c.received = [(2, shrunk), (2, created)] ∧ c.assignments 2 = c.assignments 1 := by
  let events := createThenShrink ++ [.applyLeaderAndIsr 2 created, .applyLeaderAndIsr 2 shrunk]
  obtain ⟨c, hc⟩ := Option.isSome_iff_exists.mp
    (show (execute (broadcastStep twoBrokers false) (BroadcastCluster.boot ∅) events).isSome
      by decide)
  have seen : (execute (broadcastStep twoBrokers false) (BroadcastCluster.boot ∅) events).map
      (fun c => (c.received, c.calls, c.decisions)) =
      some ([(2, shrunk), (2, created)], [(2, shrunk), (2, created)], [shrunk, created]) := by
    decide
  rw [hc] at seen
  simp only [Option.map_some, Option.some.injEq, Prod.mk.injEq] at seen
  obtain ⟨hreceived, hcalls, hdecisions⟩ := seen
  refine ⟨_, c, run_of_execute hc, hreceived, ?_⟩
  refine (assignments_move_forward (run_of_execute hc) (by decide)).2 1 1 ?_ ?_ 2 (by decide)
  · rw [OneController, hdecisions]
    decide
  · rw [hcalls, hreceived]
    exact fun _ h => h

/-- The call of the creation overtaken by the call of the report: broker 2 goes back
to the creation, and stays there with every call handled. -/
theorem assignments_not_forward :
    (¬ ∀ (m : Membership) (unclean : Bool) (a₀ : Assignments)
      (visits : List (BroadcastCluster × BroadcastEvent)) (c : BroadcastCluster),
      BroadcastRun m unclean (BroadcastCluster.boot a₀) visits c →
      ∀ b d u, broadcastStep m unclean c (.applyLeaderAndIsr b d) = some u →
        MovesForward c u b) ∧
    ¬ ∀ (m : Membership) (unclean : Bool) (a₀ : Assignments)
      (visits : List (BroadcastCluster × BroadcastEvent)) (c : BroadcastCluster),
      BroadcastRun m unclean (BroadcastCluster.boot a₀) visits c →
      ∀ controller term, OneController c controller term →
        (∀ call ∈ c.calls, call ∈ c.received) →
        ∀ peer ∈ m.peerIds controller, c.assignments peer = c.assignments controller := by
  let events := createThenShrink ++ [.applyLeaderAndIsr 2 shrunk]
  let key : TopicPartition := ([116], 0)
  obtain ⟨c, hc⟩ := Option.isSome_iff_exists.mp
    (show (execute (broadcastStep twoBrokers false) (BroadcastCluster.boot ∅) events).isSome
      by decide)
  obtain ⟨u, hu⟩ := Option.isSome_iff_exists.mp
    (show ((execute (broadcastStep twoBrokers false) (BroadcastCluster.boot ∅) events).bind
      fun c => broadcastStep twoBrokers false c (.applyLeaderAndIsr 2 created)).isSome
      by decide)
  have before : (execute (broadcastStep twoBrokers false) (BroadcastCluster.boot ∅) events).map
      (fun c => c.stamps 2 key) = some (some (toLex (1, 1))) := by decide
  have after : ((execute (broadcastStep twoBrokers false) (BroadcastCluster.boot ∅) events).bind
      fun c => broadcastStep twoBrokers false c (.applyLeaderAndIsr 2 created)).map
      (fun u => (u.stamps 2 key, u.calls, u.received, u.decisions,
        (u.assignments 2)[key]?, (u.assignments 1)[key]?)) =
      some (some (toLex (1, 0)), [(2, shrunk), (2, created)], [(2, created), (2, shrunk)],
        [shrunk, created], some ⟨1, [1, 2], [1, 2]⟩, some ⟨1, [1, 2], [1]⟩) := by rfl
  rw [hu] at after
  rw [hc] at before hu
  rw [Option.bind_some] at hu
  simp only [Option.map_some, Option.some.injEq, Prod.mk.injEq] at before after
  obtain ⟨hstamp, hcalls, hreceived, hdecisions, hpeer, hcontroller⟩ := after
  have run := run_of_execute hc
  refine ⟨fun claim => ?_, fun claim => ?_⟩
  · have hle := claim _ _ _ _ c run 2 created u hu key _ _ before hstamp
    exact absurd hle (by decide)
  · have hsame := claim _ _ _ _ u (Run.tail run hu) 1 1
      (by rw [OneController, hdecisions]; decide)
      (by rw [hcalls, hreceived]; decide) 2 (by decide)
    rw [hsame, hcontroller] at hpeer
    exact absurd hpeer (by decide)

end MiniKafka.Cluster
