import MiniKafka.Cluster.ElectionSafety

/-!
# Which terms a controller heartbeat names

`run_loop` reads the role in one critical section and `broadcast_heartbeats`
reads the term in a later one. A leader's term is always one it was elected in;
what is sent is that term exactly when no section in between moved it.
-/

namespace MiniKafka.Cluster

open Foundations

variable {m : Membership} {c c' : ElectionCluster} {b : BrokerId}

/-- A read of the term finds the term in which the role was read. -/
def TermUnmoved (c : ElectionCluster) : ElectionEvent → Prop
  | .readTerm b => (c.nodes b).loop = .leaderChecked (c.term b)
  | _ => True

instance decidableTermUnmoved (c : ElectionCluster) : ∀ e, Decidable (TermUnmoved c e)
  | .readTerm b => inferInstanceAs (Decidable ((c.nodes b).loop = .leaderChecked (c.term b)))
  | .checkRole _ | .sendHeartbeat _ _ | .heartbeatAnswered _ _ _ | .heartbeatUnanswered _ _
  | .joinHeartbeats _ | .startElection _ | .sendVoteRequest _ _ | .countVote _ _ _
  | .voteUnanswered _ _ | .finishElection _ | .handleRequestVote _ _
  | .handleControllerHeartbeat _ _ _ | .restart _ | .restartInVote _ _ => .isTrue trivial

/-- The terms the loop of `b` holds are terms in which `b` was elected. -/
def LoopElected (elected : List (BrokerId × UInt32)) (b : BrokerId) : LoopPhase → Prop
  | .leaderChecked term | .heartbeating term _ => (b, term) ∈ elected
  | _ => True

/-- A heartbeat names its sender, in a term in which the sender became leader. -/
def Authentic (c : ElectionCluster) (sender : BrokerId) (req : ControllerHeartbeatRequest) :
    Prop :=
  req.leaderId = sender ∧ (sender, req.term) ∈ c.elected

/-- Leaders, loops and heartbeats only name terms that were won. -/
structure AuthenticInv (c : ElectionCluster) : Prop where
  office : ∀ b, (c.nodes b).raft.role = .leader → (b, c.term b) ∈ c.elected
  loop : ∀ b, LoopElected c.elected b (c.nodes b).loop
  sent : ∀ sender peer req, (sender, peer, req) ∈ c.heartbeats → Authentic c sender req

theorem LoopElected.mono {elected elected' : List (BrokerId × UInt32)} {loop : LoopPhase}
    (h : LoopElected elected b loop) (sub : elected ⊆ elected') :
    LoopElected elected' b loop := by
  cases loop with
  | leaderChecked term => exact sub h
  | heartbeating term pending => exact sub h
  | _ => trivial

theorem authenticInv_boot (files : BrokerId → Option RaftFile) :
    AuthenticInv (ElectionCluster.boot files) where
  office b h := by
    have hrole := loadState_role (files b)
    simp [ElectionCluster.boot, Node.restart, hrole] at h
  loop _ := trivial
  sent := by simp [ElectionCluster.boot]

/-- It is enough to look at the new node, the new elections and the new heartbeats. -/
theorem AuthenticInv.extend (inv : AuthenticInv c) {n : Node}
    (nodes : c'.nodes = Function.update c.nodes b n) (elected : c.elected ⊆ c'.elected)
    (office : n.raft.role = .leader → (b, n.raft.currentTerm) ∈ c'.elected)
    (loop : LoopElected c'.elected b n.loop)
    (sent : ∀ sender peer req, (sender, peer, req) ∈ c'.heartbeats →
      (sender, peer, req) ∈ c.heartbeats ∨ Authentic c' sender req) :
    AuthenticInv c' where
  office v h := by
    by_cases hv : v = b
    · subst hv
      rw [ElectionCluster.term]
      rw [nodes, Function.update_self] at h ⊢
      exact office h
    · rw [ElectionCluster.term]
      rw [nodes, Function.update_of_ne hv] at h ⊢
      exact elected (inv.office v h)
  loop v := by
    by_cases hv : v = b
    · subst hv
      rw [nodes, Function.update_self]
      exact loop
    · rw [nodes, Function.update_of_ne hv]
      exact (inv.loop v).mono elected
  sent sender peer req h := by
    rcases sent sender peer req h with hold | hnew
    · obtain ⟨hid, hwon⟩ := inv.sent sender peer req hold
      exact ⟨hid, elected hwon⟩
    · exact hnew

/-- A section that elects nobody keeps the office its broker had. -/
theorem AuthenticInv.quiet (inv : AuthenticInv c) {n : Node}
    (nodes : c'.nodes = Function.update c.nodes b n) (elected : c'.elected = c.elected)
    (office : KeepsOffice (c.nodes b).raft n.raft)
    (loop : LoopElected c.elected b n.loop) (sent : c'.heartbeats = c.heartbeats) :
    AuthenticInv c' := by
  refine inv.extend nodes (elected ▸ List.Subset.refl _) (fun h => ?_) (elected ▸ loop)
    (fun _ _ _ h => Or.inl (sent ▸ h))
  obtain ⟨hrole, hterm⟩ := office h
  rw [elected, hterm]
  exact inv.office b hrole

theorem keepsOffice_refl (s : RaftState) : KeepsOffice s s := fun h => ⟨h, rfl⟩

theorem keepsOffice_restart (s : RaftState) (file : Option RaftFile) :
    KeepsOffice s (Node.restart file).raft := by
  intro h
  rw [Node.restart, loadState_role] at h
  cases h

theorem AuthenticInv.step {e : ElectionEvent} (inv : AuthenticInv c)
    (unmoved : TermUnmoved c e) (h : electionStep m c e = some c') : AuthenticInv c' := by
  obtain ⟨-, hdoes⟩ := electionStep_does h
  cases hdoes with
  | @checkRole b _ hleads =>
      exact inv.quiet rfl rfl (keepsOffice_refl _) (inv.office b hleads) rfl
  | @readTerm b checked hloop =>
      -- the guard: the term read is the one the role was read in
      have hterm : (b, c.term b) ∈ c.elected := by
        have hchecked := inv.loop b
        rw [TermUnmoved] at unmoved
        rwa [unmoved] at hchecked
      exact inv.quiet rfl rfl (keepsOffice_refl _) hterm rfl
  | @sendHeartbeat b peer term pending hloop =>
      have hterm : (b, term) ∈ c.elected := by
        have hsending := inv.loop b
        rwa [hloop] at hsending
      refine inv.extend (Function.update_eq_self b c.nodes).symm (List.Subset.refl _)
        (inv.office b) (inv.loop b) (fun sender dest req hsent => ?_)
      rcases List.mem_cons.mp hsent with heq | hold
      · simp only [Prod.mk.injEq] at heq
        obtain ⟨rfl, rfl, rfl⟩ := heq
        exact Or.inr ⟨rfl, hterm⟩
      · exact Or.inl hold
  | @heartbeatAnswered b _ resp term pending hloop _ _ =>
      have hterm : LoopElected c.elected b (.heartbeating term pending) := hloop ▸ inv.loop b
      exact inv.quiet rfl rfl ((c.nodes b).raft.heartbeatAnswered_office resp) hterm rfl
  | @heartbeatUnanswered b _ term pending hloop =>
      have hterm : LoopElected c.elected b (.heartbeating term pending) := hloop ▸ inv.loop b
      exact inv.quiet rfl rfl (keepsOffice_refl _) hterm rfl
  | joinHeartbeats _ => exact inv.quiet rfl rfl (keepsOffice_refl _) trivial rfl
  | @startElection b =>
      exact inv.quiet rfl rfl ((c.nodes b).raft.startElection_office b) trivial rfl
  | @sendVoteRequest b =>
      exact inv.quiet (Function.update_eq_self b c.nodes).symm rfl (keepsOffice_refl _)
        (inv.loop b) rfl
  | @countVote b _ resp term =>
      exact inv.quiet rfl rfl ((c.nodes b).raft.countVote_office term resp) trivial rfl
  | voteUnanswered _ => exact inv.quiet rfl rfl (keepsOffice_refl _) trivial rfl
  | won _ _ =>
      exact inv.extend rfl (List.subset_cons_self _ _) (fun _ => List.mem_cons_self) trivial
        (fun _ _ _ h => Or.inl h)
  | @lost b _ _ _ hlost =>
      exact inv.quiet rfl rfl ((c.nodes b).raft.finishElection_office hlost) trivial rfl
  | @granted b req =>
      exact inv.quiet rfl rfl ((c.nodes b).raft.handleRequestVote_office req) (inv.loop b) rfl
  | @refused b req =>
      exact inv.quiet rfl rfl ((c.nodes b).raft.handleRequestVote_office req) (inv.loop b) rfl
  | @handleControllerHeartbeat b _ req =>
      exact inv.quiet rfl rfl ((c.nodes b).raft.handleControllerHeartbeat_office req)
        (inv.loop b) rfl
  | restart => exact inv.quiet rfl rfl (keepsOffice_restart _ _) trivial rfl
  | restartInVote _ _ => exact inv.quiet rfl rfl (keepsOffice_restart _ _) trivial rfl

/-- In a run in which the term never moves between the two reads of `run_loop`,
every heartbeat is authentic, and what makes a leader step down on a heartbeat is
a broker that became leader in the term it names. -/
theorem heartbeats_authentic {files : BrokerId → Option RaftFile}
    {visits : List (ElectionCluster × ElectionEvent)}
    (run : ElectionRun m (ElectionCluster.boot files) visits c)
    (unmoved : Guarded TermUnmoved visits) :
    (∀ sender peer req, (sender, peer, req) ∈ c.heartbeats → Authentic c sender req) ∧
    ∀ b sender req c', electionStep m c (.handleControllerHeartbeat b sender req) = some c' →
      (c.nodes b).raft.role = .leader → (c'.nodes b).raft.role ≠ .leader →
      Authentic c sender req := by
  have inv : AuthenticInv c := run.invariant unmoved (authenticInv_boot files)
    fun t e u hmove hinv h => hinv.step hmove h
  refine ⟨inv.sent, fun b sender req c' h _ _ => ?_⟩
  cases (electionStep_does h).2 with
  | handleControllerHeartbeat hsent => exact inv.sent sender b req hsent

/-- Broker 1 is elected, sends to broker 2 and is answered by it. -/
theorem heartbeats_authentic_three :
    ∃ visits c, ElectionRun threeBrokers (ElectionCluster.boot fun _ => none) visits c ∧
      (1, 2, ⟨1, 1⟩) ∈ c.heartbeats ∧
      ∀ sender peer req, (sender, peer, req) ∈ c.heartbeats → Authentic c sender req := by
  let events := firstElection ++ [.checkRole 1, .readTerm 1, .sendHeartbeat 1 2]
  obtain ⟨c, hc⟩ := Option.isSome_iff_exists.mp
    (show (execute (electionStep threeBrokers) (ElectionCluster.boot fun _ => none)
      events).isSome by decide)
  have sent : ((execute (electionStep threeBrokers) (ElectionCluster.boot fun _ => none)
      events).map ElectionCluster.heartbeats) = some [(1, 2, ⟨1, 1⟩)] := by decide
  rw [hc] at sent
  exact ⟨_, c, run_of_execute hc, by simp [Option.some.inj sent],
    (heartbeats_authentic (run_of_execute hc) (by decide)).1⟩

/-- Broker 3 asks for votes in term 2 after broker 1 read its role and before it
reads its term: broker 1 then announces itself in term 2, which broker 3 wins, and
broker 3 steps down for it. -/
def voteBetweenReads : List ElectionEvent :=
  firstElection ++
  [.startElection 3, .voteUnanswered 3 1, .voteUnanswered 3 2, .finishElection 3,
    .checkRole 1, .startElection 3, .sendVoteRequest 3 1, .handleRequestVote 1 ⟨2, 3⟩,
    .countVote 3 1 ⟨2, true⟩, .voteUnanswered 3 2, .finishElection 3, .readTerm 1,
    .sendHeartbeat 1 3]

/-- Heartbeats are not authentic in every run, and a leader elected in its term can
be deposed by a broker that was not. -/
theorem heartbeats_not_authentic :
    ¬ ∀ (m : Membership) (files : BrokerId → Option RaftFile)
      (visits : List (ElectionCluster × ElectionEvent)) (c : ElectionCluster),
      ElectionRun m (ElectionCluster.boot files) visits c →
      (∀ sender peer req, (sender, peer, req) ∈ c.heartbeats → Authentic c sender req) ∧
      ∀ b sender req c', electionStep m c (.handleControllerHeartbeat b sender req) = some c' →
        (c.nodes b).raft.role = .leader → (c'.nodes b).raft.role ≠ .leader →
        Authentic c sender req := by
  intro claim
  obtain ⟨c, hc⟩ := Option.isSome_iff_exists.mp
    (show (execute (electionStep threeBrokers) (ElectionCluster.boot fun _ => none)
      voteBetweenReads).isSome by decide)
  have seen : ((execute (electionStep threeBrokers) (ElectionCluster.boot fun _ => none)
      voteBetweenReads).map fun c => (c.heartbeats, c.elected)) =
      some ([(1, 3, ⟨2, 1⟩)], [(3, 2), (1, 1)]) := by decide
  rw [hc] at seen
  obtain ⟨hsent, hwon⟩ := Prod.mk.inj (Option.some.inj seen)
  have hauth := (claim _ _ _ c (run_of_execute hc)).1 1 3 ⟨2, 1⟩ (by simp [hsent])
  simp [Authentic, hwon] at hauth

end MiniKafka.Cluster
