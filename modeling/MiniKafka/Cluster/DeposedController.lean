import MiniKafka.Cluster.ControllerRuns

/-!
# What a deposed controller says about itself

`become_leader` writes the broker's own id into `currentLeaderId_`, and `step_down` leaves it
there. The redirects of `handle_create_topic` and the ISR reports ask `is_leader` and
`current_leader_id` one after the other, each under the lock, and other sections may come in
between.
-/

namespace MiniKafka.Cluster

open Foundations

structure ControllerBroker where
  controller : Controller
  /-- The threads of the ISR callback that were told the broker is not the controller, and
  have not asked who is. -/
  reporting : Nat := 0
  /-- The threads of `handle_create_topic` for which `create_topic` refused. -/
  refused : Nat := 0
  /-- The controllers ISR reports were addressed to. -/
  reports : List Int := []
  /-- The controllers that clients were sent to, and the role the broker had at the time. -/
  redirects : List (Int × Role) := []

def ControllerBroker.boot (file : Option RaftFile) : ControllerBroker where
  controller := .boot file

inductive BrokerEvent
  | controller (e : ControllerEvent)
  /-- The ISR callback finds that the broker is not the controller. -/
  | checkReport
  /-- It asks for the controller and sends it the report. -/
  | sendReport
  /-- `create_topic` finds that the broker is not the controller. -/
  | refuseTopic
  /-- The handler asks for the controller and answers with it. -/
  | redirect
  deriving DecidableEq

/-- A process that dies takes its threads with it. -/
def ControllerEvent.survives : ControllerEvent → Bool
  | call _ => true
  | dieIn _ _ | restart => false

def brokerStep (m : Membership) (b : BrokerId) (s : ControllerBroker) :
    BrokerEvent → Option ControllerBroker
  | .controller e => (controllerStep m b s.controller e).map fun c =>
      { s with
        controller := c
        reporting := if e.survives then s.reporting else 0
        refused := if e.survives then s.refused else 0 }
  | .checkReport =>
      if s.controller.raft.role ≠ .leader then some { s with reporting := s.reporting + 1 }
      else none
  | .sendReport =>
      if 0 < s.reporting then
        let controllerId := s.controller.raft.currentLeaderId
        -- `address_of` knows the brokers of the table, also this one
        let reports :=
          if controllerId ∈ m.allIds.map idAsInt then controllerId :: s.reports else s.reports
        some { s with reporting := s.reporting - 1, reports := reports }
      else none
  | .refuseTopic =>
      if s.controller.raft.role ≠ .leader then some { s with refused := s.refused + 1 }
      else none
  | .redirect =>
      if 0 < s.refused then
        let leaderId := s.controller.raft.currentLeaderId
        let redirects :=
          if 0 ≤ leaderId then (leaderId, s.controller.raft.role) :: s.redirects
          else s.redirects
        some { s with refused := s.refused - 1, redirects := redirects }
      else none

abbrev BrokerRun (m : Membership) (b : BrokerId) := Run (brokerStep m b)

/-- A broker that takes itself for the controller is the leader. -/
def OwnClaim (b : BrokerId) (s : RaftState) : Prop :=
  s.currentLeaderId = idAsInt b → s.role = .leader

/-- Nobody is sent to this broker on the strength of an old claim. -/
structure NoStaleClaim (b : BrokerId) (s : ControllerBroker) : Prop where
  claim : OwnClaim b s.controller.raft
  redirects : ∀ r ∈ s.redirects, r.1 = idAsInt b → r.2 = .leader
  reports : idAsInt b ∉ s.reports

/-- The call does not depose the broker by `step_down`, and no peer announces this broker to
itself. -/
def KeepsClaim (b : BrokerId) (s : RaftState) : ElectionCall → Prop
  | .handleRequestVote req => s.role = .leader → req.term ≤ s.currentTerm
  | .handleControllerHeartbeat req => s.currentTerm ≤ req.term → req.leaderId ≠ b
  | .heartbeatAnswered _ resp => s.role = .leader → resp.term ≤ s.currentTerm
  | .countVote _ resp => s.role = .leader → resp.term ≤ s.currentTerm
  | _ => True

/-- Moreover the broker does not become the controller while a report is on its way to where
the controller is. -/
def KeepsNoStaleClaim (m : Membership) (b : BrokerId) (s : ControllerBroker) :
    BrokerEvent → Prop
  | .controller (.call e) => KeepsClaim b s.controller.raft e
  | .sendReport => b ∈ m.allIds → s.controller.raft.role ≠ .leader
  | _ => True

instance decidableKeepsClaim (b : BrokerId) (s : RaftState) : ∀ e, Decidable (KeepsClaim b s e)
  | .handleRequestVote req =>
      inferInstanceAs (Decidable (s.role = .leader → req.term ≤ s.currentTerm))
  | .handleControllerHeartbeat req =>
      inferInstanceAs (Decidable (s.currentTerm ≤ req.term → req.leaderId ≠ b))
  | .heartbeatAnswered _ resp =>
      inferInstanceAs (Decidable (s.role = .leader → resp.term ≤ s.currentTerm))
  | .countVote _ resp =>
      inferInstanceAs (Decidable (s.role = .leader → resp.term ≤ s.currentTerm))
  | .checkRole | .readTerm | .heartbeatUnanswered _ | .joinHeartbeats | .startElection
  | .voteUnanswered _ | .finishElection => .isTrue trivial

instance decidableKeepsNoStaleClaim (m : Membership) (b : BrokerId) (s : ControllerBroker) :
    ∀ ev, Decidable (KeepsNoStaleClaim m b s ev)
  | .controller (.call e) => decidableKeepsClaim b s.controller.raft e
  | .sendReport => inferInstanceAs (Decidable (b ∈ m.allIds → s.controller.raft.role ≠ .leader))
  | .controller (.dieIn _ _) | .controller .restart | .checkReport | .refuseTopic | .redirect =>
      .isTrue trivial

variable {m : Membership} {b : BrokerId} {s : RaftState} {e : ElectionCall}
  {sect : Section Unit}

/-- A leader knows itself as the controller. -/
def LeaderKnown (b : BrokerId) (s : RaftState) : Prop :=
  s.role = .leader → s.currentLeaderId = idAsInt b

section Claims

theorem ownClaim_load (files : List RaftFile) : OwnClaim b (Controller.load files).raft := by
  intro h
  have hnobody : idAsInt b = -1 := h.symm.trans (loadState_leaderId files.getLast?)
  exact absurd hnobody (idAsInt_ne_nobody b)

theorem leaderKnown_load (files : List RaftFile) :
    LeaderKnown b (Controller.load files).raft := by
  intro h
  have hrole : Role.follower = Role.leader := (loadState_role files.getLast?).symm.trans h
  cases hrole

/-- A section that may depose the broker, and leaves the id it knows. -/
structure MayDepose (s s' : RaftState) (deposed : Prop) [Decidable deposed] : Prop where
  role : s'.role = if deposed then .follower else s.role
  leaderId : s'.currentLeaderId = s.currentLeaderId

theorem handleRequestVote_mayDepose (s : RaftState) (req : RequestVoteRequest) :
    MayDepose s (s.handleRequestVote req).state (req.term > s.currentTerm) :=
  ⟨s.handleRequestVote_role req, s.handleRequestVote_leaderId req⟩

theorem heartbeatAnswered_mayDepose (s : RaftState) (resp : ControllerHeartbeatResponse) :
    MayDepose s (s.heartbeatAnswered resp).state (resp.term > s.currentTerm) := by
  unfold RaftState.heartbeatAnswered
  split
  · next h => exact ⟨(s.stepDown_role resp.term).trans (if_pos h).symm, s.stepDown_leaderId _⟩
  · next h => exact ⟨(if_neg h).symm, rfl⟩

theorem countVote_mayDepose (s : RaftState) (term : UInt32) (resp : RequestVoteResponse) :
    MayDepose s (s.countVote term resp).state (resp.term > s.currentTerm) := by
  unfold RaftState.countVote
  split
  · next h => exact ⟨(s.stepDown_role resp.term).trans (if_pos h).symm, s.stepDown_leaderId _⟩
  · next h => exact ⟨(if_neg h).symm, rfl⟩

section MayDepose

variable {s' : RaftState} {deposed : Prop} [Decidable deposed]

theorem MayDepose.leaderKnown (h : MayDepose s s' deposed) (known : LeaderKnown b s) :
    LeaderKnown b s' := by
  intro hrole
  rw [h.role] at hrole
  rw [h.leaderId]
  split at hrole
  · cases hrole
  · exact known hrole

theorem MayDepose.ownClaim_iff (h : MayDepose s s' deposed) (known : LeaderKnown b s)
    (own : OwnClaim b s) : OwnClaim b s' ↔ (s.role = .leader → ¬deposed) := by
  unfold OwnClaim
  rw [h.role, h.leaderId]
  constructor
  · intro hclaim hrole hdeposed
    have hfollower := hclaim (known hrole)
    rw [if_pos hdeposed] at hfollower
    cases hfollower
  · intro hkept hself
    rw [if_neg (hkept (own hself))]
    exact own hself

end MayDepose

theorem Performs.leaderKnown (h : Performs m b s e sect) (known : LeaderKnown b s) :
    LeaderKnown b sect.state := by
  cases h with
  | reads _ => exact known
  | handleRequestVote req => exact (handleRequestVote_mayDepose s req).leaderKnown known
  | handleControllerHeartbeat req =>
      unfold RaftState.handleControllerHeartbeat
      split
      · exact known
      · intro hrole
        cases hrole
  | heartbeatAnswered _ resp => exact (heartbeatAnswered_mayDepose s resp).leaderKnown known
  | startElection _ =>
      intro hrole
      cases hrole
  | countVote _ resp term => exact (countVote_mayDepose s term resp).leaderKnown known
  | finishElection term votes =>
      rcases s.finishElection_cases b m.brokerCount term votes with hkept | ⟨hwon, -⟩
      · rw [hkept]
        exact known
      · rw [hwon]
        exact fun _ => rfl

theorem handleControllerHeartbeat_ownClaim_iff (own : OwnClaim b s)
    (req : ControllerHeartbeatRequest) :
    OwnClaim b (s.handleControllerHeartbeat req).state ↔
      (s.currentTerm ≤ req.term → req.leaderId ≠ b) := by
  unfold RaftState.handleControllerHeartbeat
  split
  · next hstale =>
      refine iff_of_true own fun hle => ?_
      exact absurd hstale (UInt32.not_lt.mpr hle)
  · next hcurrent =>
      constructor
      · intro hclaim _ hself
        cases hclaim (congrArg idAsInt hself)
      · intro hother hself
        exact absurd (idAsInt_injective hself) (hother (UInt32.not_lt.mp hcurrent))

theorem ElectionCall.Reads.keepsClaim (h : e.Reads) : KeepsClaim b s e := by
  cases e <;> trivial

/-- Only a newer term in office, or an announcement of this broker by another, leaves a claim
that is not true. -/
theorem Performs.ownClaim_iff (h : Performs m b s e sect) (known : LeaderKnown b s)
    (own : OwnClaim b s) : OwnClaim b sect.state ↔ KeepsClaim b s e := by
  cases h with
  | reads h => exact iff_of_true own h.keepsClaim
  | handleRequestVote req =>
      exact ((handleRequestVote_mayDepose s req).ownClaim_iff known own).trans
        (imp_congr_right fun _ => UInt32.not_lt)
  | handleControllerHeartbeat req => exact handleControllerHeartbeat_ownClaim_iff own req
  | heartbeatAnswered _ resp =>
      exact ((heartbeatAnswered_mayDepose s resp).ownClaim_iff known own).trans
        (imp_congr_right fun _ => UInt32.not_lt)
  | startElection hrole =>
      refine iff_of_true ?_ trivial
      intro hself
      exact absurd (own hself) hrole
  | countVote _ resp term =>
      exact ((countVote_mayDepose s term resp).ownClaim_iff known own).trans
        (imp_congr_right fun _ => UInt32.not_lt)
  | finishElection term votes =>
      refine iff_of_true ?_ trivial
      rcases s.finishElection_cases b m.brokerCount term votes with hkept | ⟨hwon, -⟩
      · rw [hkept]
        exact own
      · rw [hwon]
        exact fun _ => rfl

theorem controllerStep_leaderKnown {c c' : Controller} {e : ControllerEvent}
    (known : LeaderKnown b c.raft) (h : controllerStep m b c e = some c') :
    LeaderKnown b c'.raft := by
  obtain ⟨call, sect, loop, -, hperforms, rfl⟩ | ⟨call, sect, kept, -, -, rfl⟩ | ⟨-, rfl⟩ :=
    controllerStep_cases h
  · exact hperforms.leaderKnown known
  · exact leaderKnown_load _
  · exact leaderKnown_load _

/-- In a cluster, whoever leads knows itself as the controller. -/
theorem leader_known {files : BrokerId → Option RaftFile}
    {visits : List (ElectionCluster × ElectionEvent)} {cluster : ElectionCluster}
    (run : ElectionRun m (ElectionCluster.boot files) visits cluster) (b : BrokerId) :
    LeaderKnown b (cluster.nodes b).raft := by
  obtain ⟨visits', k, hrun, hmirrors⟩ := electionRun_mirrored run b
  rw [← hmirrors.raft]
  exact hrun.always (I := fun k => LeaderKnown b k.raft) (leaderKnown_load _)
    fun t e u hknown => controllerStep_leaderKnown hknown

theorem controllerStep_ownClaim_iff {c c' : Controller} {e : ControllerEvent}
    (known : LeaderKnown b c.raft) (own : OwnClaim b c.raft)
    (h : controllerStep m b c e = some c') :
    OwnClaim b c'.raft ↔ ∀ call, e = .call call → KeepsClaim b c.raft call := by
  obtain ⟨call, sect, loop, rfl, hperforms, rfl⟩ | ⟨call, sect, kept, rfl, -, rfl⟩ |
      ⟨rfl, rfl⟩ := controllerStep_cases h
  · refine (hperforms.ownClaim_iff known own).trans ⟨?_, fun hkeeps => hkeeps call rfl⟩
    rintro hkeeps _ ⟨⟩
    exact hkeeps
  · refine iff_of_true (ownClaim_load _) ?_
    rintro _ ⟨⟩
  · refine iff_of_true (ownClaim_load _) ?_
    rintro _ ⟨⟩

end Claims

variable {t u : ControllerBroker} {ev : BrokerEvent}

/-- The other threads only read the controller. -/
theorem brokerStep_controller (h : brokerStep m b t ev = some u) :
    (∃ e, ev = .controller e ∧ controllerStep m b t.controller e = some u.controller) ∨
      u.controller = t.controller := by
  cases ev with
  | controller e =>
      obtain ⟨c, hc, rfl⟩ := Option.map_eq_some_iff.mp h
      exact Or.inl ⟨e, rfl, hc⟩
  | checkReport =>
      obtain ⟨-, heq⟩ := Option.ite_none_right_eq_some.mp h
      exact Or.inr (Option.some.inj heq ▸ rfl)
  | sendReport =>
      obtain ⟨-, heq⟩ := Option.ite_none_right_eq_some.mp h
      exact Or.inr (Option.some.inj heq ▸ rfl)
  | refuseTopic =>
      obtain ⟨-, heq⟩ := Option.ite_none_right_eq_some.mp h
      exact Or.inr (Option.some.inj heq ▸ rfl)
  | redirect =>
      obtain ⟨-, heq⟩ := Option.ite_none_right_eq_some.mp h
      exact Or.inr (Option.some.inj heq ▸ rfl)

theorem brokerStep_leaderKnown (known : LeaderKnown b t.controller.raft)
    (h : brokerStep m b t ev = some u) : LeaderKnown b u.controller.raft := by
  rcases brokerStep_controller h with ⟨e, -, hstep⟩ | hsame
  · exact controllerStep_leaderKnown known hstep
  · rw [hsame]
    exact known

theorem noStaleClaim_boot (file : Option RaftFile) : NoStaleClaim b (.boot file) where
  claim := ownClaim_load _
  redirects := by
    intro r hr
    cases hr
  reports := by
    intro hr
    cases hr

/-- A report goes to this broker exactly if it became the controller in between. -/
theorem sendReport_noStaleClaim_iff (known : LeaderKnown b t.controller.raft)
    (inv : NoStaleClaim b t) (h : brokerStep m b t .sendReport = some u) :
    NoStaleClaim b u ↔ (b ∈ m.allIds → t.controller.raft.role ≠ .leader) := by
  obtain ⟨-, heq⟩ := Option.ite_none_right_eq_some.mp h
  obtain rfl := Option.some.inj heq
  constructor
  · intro hnew hmember hrole
    apply hnew.reports
    have hself := known hrole
    have haddress : t.controller.raft.currentLeaderId ∈ m.allIds.map idAsInt := by
      rw [hself]
      exact List.mem_map_of_mem hmember
    dsimp only
    rw [if_pos haddress, hself]
    exact List.mem_cons_self
  · intro hrace
    refine ⟨inv.claim, inv.redirects, ?_⟩
    dsimp only
    split
    · next haddress =>
        intro hmem
        rcases List.mem_cons.mp hmem with hself | hold
        · rw [← hself] at haddress
          obtain ⟨id, hid, heq⟩ := List.mem_map.mp haddress
          have hmember : b ∈ m.allIds := idAsInt_injective heq ▸ hid
          exact hrace hmember (inv.claim hself.symm)
        · exact inv.reports hold
    · exact inv.reports

theorem noStaleClaim_step (known : LeaderKnown b t.controller.raft) (inv : NoStaleClaim b t)
    (h : brokerStep m b t ev = some u) : NoStaleClaim b u ↔ KeepsNoStaleClaim m b t ev := by
  cases ev with
  | controller e =>
      obtain ⟨c, hc, rfl⟩ := Option.map_eq_some_iff.mp h
      have hclaim := controllerStep_ownClaim_iff known inv.claim hc
      have hkeeps : KeepsNoStaleClaim m b t (.controller e) ↔
          ∀ call, e = .call call → KeepsClaim b t.controller.raft call := by
        cases e with
        | call call => exact ⟨fun hk _ heq => ControllerEvent.call.inj heq ▸ hk, fun hk => hk _ rfl⟩
        | dieIn _ _ => exact iff_of_true trivial (fun _ heq => by cases heq)
        | restart => exact iff_of_true trivial (fun _ heq => by cases heq)
      rw [hkeeps, ← hclaim]
      exact ⟨fun hnew => hnew.claim, fun hown => ⟨hown, inv.redirects, inv.reports⟩⟩
  | checkReport =>
      obtain ⟨-, heq⟩ := Option.ite_none_right_eq_some.mp h
      obtain rfl := Option.some.inj heq
      exact iff_of_true ⟨inv.claim, inv.redirects, inv.reports⟩ trivial
  | sendReport => exact sendReport_noStaleClaim_iff known inv h
  | refuseTopic =>
      obtain ⟨-, heq⟩ := Option.ite_none_right_eq_some.mp h
      obtain rfl := Option.some.inj heq
      exact iff_of_true ⟨inv.claim, inv.redirects, inv.reports⟩ trivial
  | redirect =>
      obtain ⟨-, heq⟩ := Option.ite_none_right_eq_some.mp h
      obtain rfl := Option.some.inj heq
      refine iff_of_true ⟨inv.claim, ?_, inv.reports⟩ trivial
      dsimp only
      split
      · intro r hr hself
        rcases List.mem_cons.mp hr with rfl | hold
        · exact inv.claim hself
        · exact inv.redirects r hold hself
      · exact inv.redirects

/-- A broker that names itself as the controller is the leader, no client is sent back to it
on an old claim, and no ISR report is addressed to it, in all states of exactly those runs in
which no newer term reaches it in office by a vote request or a response, no peer announces it
to itself, and it does not become the leader while a report is on its way. -/
theorem no_stale_claim_iff {file : Option RaftFile}
    {visits : List (ControllerBroker × BrokerEvent)}
    (run : BrokerRun m b (.boot file) visits t) :
    ((∀ v ∈ visits, NoStaleClaim b v.1) ∧ NoStaleClaim b t) ↔
      Guarded (KeepsNoStaleClaim m b) visits := by
  apply run.forall_iff_guarded (noStaleClaim_boot file)
  intro v hv inv u hstep
  obtain ⟨before, -, -, -, hrun, -⟩ := run.visited hv
  have known : LeaderKnown b v.1.controller.raft :=
    hrun.always (I := fun s => LeaderKnown b s.controller.raft) (leaderKnown_load _)
      fun t e u hknown => brokerStep_leaderKnown hknown
  exact noStaleClaim_step known inv hstep

/-- A refused client of broker 1, before its election, is told nothing. -/
theorem no_stale_claim_three : ∃ visits t,
    BrokerRun threeBrokers 1 (.boot none) visits t ∧
    (∀ v ∈ visits, NoStaleClaim 1 v.1) ∧ NoStaleClaim 1 t := by
  let events : List BrokerEvent :=
    [.refuseTopic, .redirect] ++ ownElection.map .controller
  obtain ⟨t, ht⟩ := Option.isSome_iff_exists.mp
    (show (execute (brokerStep threeBrokers 1) (.boot none) events).isSome by decide)
  have run := run_of_execute ht
  exact ⟨_, t, run, (no_stale_claim_iff run).mpr (by decide)⟩

/-- Broker 1 is elected and then asked for its vote in term 2. It follows, and sends its
client to itself. -/
theorem deposed_controller_redirects : ¬ ∀ (m : Membership) (b : BrokerId)
    (file : Option RaftFile) (visits : List (ControllerBroker × BrokerEvent))
    (t : ControllerBroker), BrokerRun m b (.boot file) visits t → NoStaleClaim b t := by
  intro claim
  have seen : (execute (brokerStep threeBrokers 1) (.boot none)
      (ownElection.map .controller ++
        [.controller (.call (.handleRequestVote ⟨2, 2⟩)), .refuseTopic, .redirect])).map
      ControllerBroker.redirects = some [(1, .follower)] := by decide
  obtain ⟨t, run, hredirects⟩ := run_showing seen
  have hself := (claim _ _ _ _ t run).redirects (1, .follower)
    (by rw [hredirects]; exact List.mem_singleton_self _) rfl
  cases hself

end MiniKafka.Cluster
