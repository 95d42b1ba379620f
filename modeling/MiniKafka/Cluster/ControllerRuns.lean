import MiniKafka.Cluster.ElectionSafety

/-!
# The runs of one controller

One broker among peers that may send anything: requests and responses with any term, at any
time. A step is a critical section of the broker, its death in the middle of one, or a
restart. What a section puts into `currentTerm_` before it has written the file is seen by
nobody, for it holds `mu_` until then; so the states of a run are those between the sections.
-/

namespace MiniKafka.Cluster

open Foundations

structure Controller where
  raft : RaftState
  /-- Every file `raft_state` that was fully written, the last one is on disk. -/
  files : List RaftFile
  loop : LoopPhase := .top

/-- The constructor, on the last file. -/
def Controller.load (files : List RaftFile) : Controller where
  raft := RaftState.loadState files.getLast?
  files := files

/-- A controller that starts with a file, or with none. -/
def Controller.boot (file : Option RaftFile) : Controller := .load file.toList

/-- What the threads of the broker call or do next; the requests and the responses are
whatever the peers send. -/
inductive ElectionCall
  | handleRequestVote (req : RequestVoteRequest)
  | handleControllerHeartbeat (req : ControllerHeartbeatRequest)
  | checkRole
  | readTerm
  | heartbeatAnswered (peer : BrokerId) (resp : ControllerHeartbeatResponse)
  | heartbeatUnanswered (peer : BrokerId)
  | joinHeartbeats
  | startElection
  | countVote (peer : BrokerId) (resp : RequestVoteResponse)
  | voteUnanswered (peer : BrokerId)
  | finishElection
  deriving DecidableEq

/-- The section, without what it hands to its caller. -/
def Section.forget {α : Type} (sect : Section α) : Section Unit :=
  ⟨sect.state, sect.written, ()⟩

@[simp] theorem Section.forget_unit (sect : Section Unit) : sect.forget = sect := rfl

/-- A section that only reads. -/
def RaftState.untouched (s : RaftState) : Section Unit := ⟨s, [], ()⟩

open LoopPhase in
/-- The section that is executed and where the loop stands after it; `none` where the call is
not enabled. -/
def Controller.sectionOf (m : Membership) (b : BrokerId) (c : Controller) :
    ElectionCall → Option (Section Unit × LoopPhase)
  | .handleRequestVote req => some ((c.raft.handleRequestVote req).forget, c.loop)
  | .handleControllerHeartbeat req =>
      some ((c.raft.handleControllerHeartbeat req).forget, c.loop)
  | .checkRole =>
      if c.loop = top ∧ c.raft.role = .leader then
        some (c.raft.untouched, leaderChecked c.raft.currentTerm)
      else none
  | .readTerm =>
      match c.loop with
      | leaderChecked _ =>
          some (c.raft.untouched, heartbeating c.raft.currentTerm (m.peerIds b))
      | _ => none
  | .heartbeatAnswered peer resp =>
      match c.loop with
      | heartbeating term pending =>
          if peer ∈ pending then
            some (c.raft.heartbeatAnswered resp, heartbeating term (pending.erase peer))
          else none
      | _ => none
  | .heartbeatUnanswered peer =>
      match c.loop with
      | heartbeating term pending =>
          some (c.raft.untouched, heartbeating term (pending.erase peer))
      | _ => none
  | .joinHeartbeats =>
      match c.loop with
      | heartbeating _ [] => some (c.raft.untouched, top)
      | _ => none
  | .startElection =>
      if c.loop = top ∧ c.raft.role ≠ .leader then
        let sect := c.raft.startElection b
        some (sect, electing sect.state.currentTerm 1 (m.peerIds b))
      else none
  | .countVote peer resp =>
      match c.loop with
      | electing term votes pending =>
          if peer ∈ pending then
            let sect := c.raft.countVote term resp
            let votes := if sect.reply then votes + 1 else votes
            some (sect.forget, electing term votes (pending.erase peer))
          else none
      | _ => none
  | .voteUnanswered peer =>
      match c.loop with
      | electing term votes pending =>
          some (c.raft.untouched, electing term votes (pending.erase peer))
      | _ => none
  | .finishElection =>
      match c.loop with
      | electing term votes [] =>
          some ((c.raft.finishElection b m.brokerCount term votes).forget, top)
      | _ => none

inductive ControllerEvent
  | call (e : ElectionCall)
  /-- The broker dies in the section after it has written `kept` of its files, and restarts. -/
  | dieIn (e : ElectionCall) (kept : Nat)
  | restart
  deriving DecidableEq

def controllerStep (m : Membership) (b : BrokerId) (c : Controller) :
    ControllerEvent → Option Controller
  | .call e => (c.sectionOf m b e).map fun next =>
      { raft := next.1.state
        files := c.files ++ next.1.written
        loop := next.2 }
  | .dieIn e kept => (c.sectionOf m b e).map fun next =>
      .load (c.files ++ next.1.written.take kept)
  | .restart => some (.load c.files)

/-- The runs of broker `b`. -/
abbrev ControllerRun (m : Membership) (b : BrokerId) := Run (controllerStep m b)

/-- The calls whose section only reads the state of the election. -/
def ElectionCall.Reads : ElectionCall → Prop
  | checkRole | readTerm | heartbeatUnanswered _ | joinHeartbeats | voteUnanswered _ => True
  | _ => False

/-- The section a call executes in a state, whatever the loop remembers. -/
inductive Performs (m : Membership) (b : BrokerId) (s : RaftState) :
    ElectionCall → Section Unit → Prop
  | reads {e} (h : e.Reads) : Performs m b s e s.untouched
  | handleRequestVote (req) :
      Performs m b s (.handleRequestVote req) (s.handleRequestVote req).forget
  | handleControllerHeartbeat (req) :
      Performs m b s (.handleControllerHeartbeat req) (s.handleControllerHeartbeat req).forget
  | heartbeatAnswered (peer resp) :
      Performs m b s (.heartbeatAnswered peer resp) (s.heartbeatAnswered resp)
  | startElection (h : s.role ≠ .leader) : Performs m b s .startElection (s.startElection b)
  | countVote (peer resp term) :
      Performs m b s (.countVote peer resp) (s.countVote term resp).forget
  | finishElection (term votes) :
      Performs m b s .finishElection (s.finishElection b m.brokerCount term votes).forget

variable {m : Membership} {b : BrokerId} {c c' : Controller} {e : ElectionCall}
  {s : RaftState} {sect : Section Unit} {loop : LoopPhase}

theorem Controller.sectionOf_performs (h : c.sectionOf m b e = some (sect, loop)) :
    Performs m b c.raft e sect := by
  cases e with
  | handleRequestVote req =>
      obtain ⟨rfl, -⟩ := Prod.mk.inj (Option.some.inj h)
      exact .handleRequestVote req
  | handleControllerHeartbeat req =>
      obtain ⟨rfl, -⟩ := Prod.mk.inj (Option.some.inj h)
      exact .handleControllerHeartbeat req
  | checkRole =>
      simp only [sectionOf] at h
      split at h
      · obtain ⟨rfl, -⟩ := Prod.mk.inj (Option.some.inj h)
        exact .reads trivial
      · cases h
  | readTerm =>
      simp only [sectionOf] at h
      split at h
      · obtain ⟨rfl, -⟩ := Prod.mk.inj (Option.some.inj h)
        exact .reads trivial
      · cases h
  | heartbeatAnswered peer resp =>
      simp only [sectionOf] at h
      split at h
      · split at h
        · obtain ⟨rfl, -⟩ := Prod.mk.inj (Option.some.inj h)
          exact .heartbeatAnswered peer resp
        · cases h
      · cases h
  | heartbeatUnanswered peer =>
      simp only [sectionOf] at h
      split at h
      · obtain ⟨rfl, -⟩ := Prod.mk.inj (Option.some.inj h)
        exact .reads trivial
      · cases h
  | joinHeartbeats =>
      simp only [sectionOf] at h
      split at h
      · obtain ⟨rfl, -⟩ := Prod.mk.inj (Option.some.inj h)
        exact .reads trivial
      · cases h
  | startElection =>
      simp only [sectionOf] at h
      split at h
      · next henabled =>
          obtain ⟨rfl, -⟩ := Prod.mk.inj (Option.some.inj h)
          exact .startElection henabled.2
      · cases h
  | countVote peer resp =>
      simp only [sectionOf] at h
      split at h
      · next term votes pending _ =>
          split at h
          · obtain ⟨rfl, -⟩ := Prod.mk.inj (Option.some.inj h)
            exact .countVote peer resp term
          · cases h
      · cases h
  | voteUnanswered peer =>
      simp only [sectionOf] at h
      split at h
      · obtain ⟨rfl, -⟩ := Prod.mk.inj (Option.some.inj h)
        exact .reads trivial
      · cases h
  | finishElection =>
      simp only [sectionOf] at h
      split at h
      · next term votes _ =>
          obtain ⟨rfl, -⟩ := Prod.mk.inj (Option.some.inj h)
          exact .finishElection term votes
      · cases h

/-- Everything a step of a controller can do. -/
theorem controllerStep_cases {e : ControllerEvent} (h : controllerStep m b c e = some c') :
    (∃ call sect loop, e = .call call ∧ Performs m b c.raft call sect ∧
      c' = ⟨sect.state, c.files ++ sect.written, loop⟩) ∨
    (∃ call sect kept, e = .dieIn call kept ∧ Performs m b c.raft call sect ∧
      c' = .load (c.files ++ sect.written.take kept)) ∨
    (e = .restart ∧ c' = .load c.files) := by
  cases e with
  | call call =>
      obtain ⟨⟨sect, loop⟩, hsect, rfl⟩ := Option.map_eq_some_iff.mp h
      exact Or.inl ⟨call, sect, loop, rfl, c.sectionOf_performs hsect, rfl⟩
  | dieIn call kept =>
      obtain ⟨⟨sect, loop⟩, hsect, rfl⟩ := Option.map_eq_some_iff.mp h
      exact Or.inr (Or.inl ⟨call, sect, kept, rfl, c.sectionOf_performs hsect, rfl⟩)
  | restart => exact Or.inr (Or.inr ⟨rfl, (Option.some.inj h).symm⟩)

section Mirrors

/-- The controller stands where a broker of a cluster does, with the same file on disk. -/
structure Mirrors (k : Controller) (n : Node) : Prop where
  raft : k.raft = n.raft
  loop : k.loop = n.loop
  file : k.files.getLast? = n.raftState

variable {k : Controller} {n n' : Node} {cluster cluster' : ElectionCluster}

/-- A step of the controller, or none, takes it to the node. -/
def Follows (m : Membership) (b : BrokerId) (k : Controller) (n : Node) : Prop :=
  ∃ k', (k' = k ∨ ∃ ev, controllerStep m b k ev = some k') ∧ Mirrors k' n

theorem Mirrors.commit {α : Type} {act : Section α} (h : Mirrors k n) (e : ElectionCall)
    (hsect : k.sectionOf m b e = some (act.forget, loop)) :
    Follows m b k { n.commit act with loop := loop } := by
  refine ⟨_, Or.inr ⟨.call e, congrArg (Option.map _) hsect⟩, rfl, rfl, ?_⟩
  rw [List.getLast?_append, h.file]
  rfl

theorem Mirrors.read (h : Mirrors k n) (e : ElectionCall)
    (hsect : k.sectionOf m b e = some (n.raft.untouched, loop)) :
    Follows m b k { n with loop := loop } := by
  refine ⟨_, Or.inr ⟨.call e, congrArg (Option.map _) hsect⟩, rfl, rfl, ?_⟩
  rw [List.getLast?_append, h.file]
  rfl

theorem Mirrors.dieIn (h : Mirrors k n) (e : ElectionCall)
    (hsect : k.sectionOf m b e = some (sect, loop)) (kept : Nat) :
    Follows m b k (Node.restart ((sect.written.take kept).getLast?.or n.raftState)) := by
  refine ⟨_, Or.inr ⟨.dieIn e kept, congrArg (Option.map _) hsect⟩, ?_⟩
  rw [← h.file, ← List.getLast?_append]
  exact ⟨rfl, rfl, rfl⟩

/-- The broker's own entry of the new nodes. -/
theorem follows_update {nodes : BrokerId → Node} (h : Follows m b k n) :
    Follows m b k (Function.update nodes b n b) := by
  rw [Function.update_self]
  exact h

theorem electionStep_nodes {e : ElectionEvent} (h : electionStep m cluster e = some cluster') :
    ∃ n, cluster'.nodes = Function.update cluster.nodes e.broker n := by
  cases (electionStep_does h).2 with
  | @sendHeartbeat b => exact ⟨cluster.nodes b, (Function.update_eq_self b _).symm⟩
  | @sendVoteRequest b => exact ⟨cluster.nodes b, (Function.update_eq_self b _).symm⟩
  | _ => exact ⟨_, rfl⟩

/-- The first file of a vote in a newer term is the one of `step_down`. -/
theorem handleRequestVote_first {req : RequestVoteRequest} (newer : req.term > s.currentTerm) :
    (s.handleRequestVote req).written.take 1 = (s.stepDown req.term).written := by
  have hwritten : (s.stepDown req.term).written.length = 1 := by
    unfold RaftState.stepDown
    rw [if_pos newer]
    rfl
  have hcases := s.handleRequestVote_cases req
  rw [if_pos newer] at hcases
  rcases hcases with ⟨-, hcast⟩ | hrefused
  · rw [hcast, List.take_append_of_le_length hwritten.ge, List.take_of_length_le hwritten.le]
  · rw [hrefused, List.take_of_length_le hwritten.le]

/-- What the broker does in a step of a cluster, the controller can do among any peers. -/
theorem ElectionDoes.follows {e : ElectionEvent} (h : ElectionDoes m cluster e cluster')
    (mirrors : Mirrors k (cluster.nodes e.broker)) :
    Follows m e.broker k (cluster'.nodes e.broker) := by
  obtain ⟨raft, files, loop⟩ := k
  obtain ⟨rfl, rfl, hfile⟩ := id mirrors
  cases h with
  | @checkRole b top leads =>
      apply follows_update
      exact mirrors.read .checkRole (if_pos ⟨top, leads⟩)
  | @readTerm b _ hloop =>
      apply follows_update
      apply mirrors.read .readTerm
      simp only [Controller.sectionOf, ElectionEvent.broker, hloop]
      rfl
  | sendHeartbeat _ _ => exact ⟨_, Or.inl rfl, mirrors⟩
  | @heartbeatAnswered b peer resp _ _ hloop hwaits _ =>
      apply follows_update
      apply mirrors.commit (.heartbeatAnswered peer resp)
      simp only [Controller.sectionOf, ElectionEvent.broker, hloop, if_pos hwaits,
        Section.forget_unit]
  | @heartbeatUnanswered b peer _ _ hloop =>
      apply follows_update
      apply mirrors.read (.heartbeatUnanswered peer)
      simp only [Controller.sectionOf, ElectionEvent.broker, hloop]
  | @joinHeartbeats b _ hloop =>
      apply follows_update
      apply mirrors.read .joinHeartbeats
      simp only [Controller.sectionOf, ElectionEvent.broker, hloop]
  | @startElection b top follows =>
      apply follows_update
      exact mirrors.commit .startElection (if_pos ⟨top, follows⟩)
  | sendVoteRequest _ _ => exact ⟨_, Or.inl rfl, mirrors⟩
  | @countVote b peer resp _ _ _ hloop hwaits _ =>
      apply follows_update
      apply mirrors.commit (.countVote peer resp)
      simp only [Controller.sectionOf, ElectionEvent.broker, hloop, if_pos hwaits]
      rfl
  | @voteUnanswered b peer _ _ _ hloop =>
      apply follows_update
      apply mirrors.read (.voteUnanswered peer)
      simp only [Controller.sectionOf, ElectionEvent.broker, hloop]
  | @won b _ _ hloop _ =>
      apply follows_update
      apply mirrors.commit .finishElection
      simp only [Controller.sectionOf, ElectionEvent.broker, hloop]
  | @lost b _ _ hloop _ =>
      apply follows_update
      apply mirrors.commit .finishElection
      simp only [Controller.sectionOf, ElectionEvent.broker, hloop]
  | @granted b req _ _ =>
      apply follows_update
      exact mirrors.commit (.handleRequestVote req) rfl
  | @refused b req _ _ =>
      apply follows_update
      exact mirrors.commit (.handleRequestVote req) rfl
  | @handleControllerHeartbeat b _ req _ =>
      apply follows_update
      exact mirrors.commit (.handleControllerHeartbeat req) rfl
  | @restart b =>
      apply follows_update
      refine ⟨_, Or.inr ⟨.restart, rfl⟩, ?_, rfl, hfile⟩
      exact congrArg RaftState.loadState hfile
  | @restartInVote b req _ newer =>
      apply follows_update
      have hdied : Follows m b _ (Node.restart
          ((((cluster.nodes b).raft.handleRequestVote req).written.take 1).getLast?.or
            (cluster.nodes b).raftState)) :=
        mirrors.dieIn (.handleRequestVote req) rfl 1
      rw [handleRequestVote_first newer] at hdied
      exact hdied

theorem mirrors_boot (file : Option RaftFile) : Mirrors (.boot file) (Node.restart file) := by
  cases file with
  | none => exact ⟨rfl, rfl, rfl⟩
  | some file => exact ⟨rfl, rfl, rfl⟩

/-- In a run of a cluster each broker goes through a run of its controller. -/
theorem electionRun_mirrored {files : BrokerId → Option RaftFile}
    {visits : List (ElectionCluster × ElectionEvent)}
    (run : ElectionRun m (ElectionCluster.boot files) visits cluster) (b : BrokerId) :
    ∃ visits' k, ControllerRun m b (.boot (files b)) visits' k ∧ Mirrors k (cluster.nodes b) := by
  induction run with
  | refl => exact ⟨[], _, Run.refl, mirrors_boot (files b)⟩
  | @tail visits t e u run h ih =>
      obtain ⟨visits', k, hrun, hmirrors⟩ := ih
      by_cases hb : e.broker = b
      · obtain rfl := hb
        obtain ⟨k', rfl | ⟨ev, hstep⟩, hmirrors'⟩ := (electionStep_does h).2.follows hmirrors
        · exact ⟨visits', k', hrun, hmirrors'⟩
        · exact ⟨_, k', hrun.tail hstep, hmirrors'⟩
      · obtain ⟨n, hnodes⟩ := electionStep_nodes h
        refine ⟨visits', k, hrun, ?_⟩
        rw [hnodes, Function.update_of_ne (Ne.symm hb)]
        exact hmirrors

end Mirrors

section Terms

/-- All files of a section carry the term it leaves in memory. -/
def Section.OneTerm {α : Type} (sect : Section α) : Prop :=
  ∀ file ∈ sect.written, file.term = sect.state.currentTerm

section OneTerm

variable {α : Type} {act : Section α}

theorem oneTerm_nothing (h : act.written = []) : act.OneTerm := by
  intro file hfile
  rw [h] at hfile
  cases hfile

theorem oneTerm_persist {written : List RaftFile} {new : RaftFile}
    (h : ∀ file ∈ written, file.term = act.state.currentTerm)
    (hnew : new.term = act.state.currentTerm) (hwritten : act.written = written ++ [new]) :
    act.OneTerm := by
  intro file hfile
  rw [hwritten] at hfile
  rcases List.mem_append.mp hfile with hold | hlast
  · exact h file hold
  · rw [List.mem_singleton.mp hlast]
    exact hnew

end OneTerm

theorem RaftState.stepDown_oneTerm (s : RaftState) (newTerm : UInt32) :
    (s.stepDown newTerm).OneTerm := by
  unfold stepDown
  split
  · exact oneTerm_persist (List.forall_mem_nil _) rfl rfl
  · exact oneTerm_nothing rfl

theorem RaftState.handleRequestVote_oneTerm (s : RaftState) (req : RequestVoteRequest) :
    (s.handleRequestVote req).OneTerm := by
  have hdown : (if req.term > s.currentTerm then s.stepDown req.term
      else (⟨s, [], ()⟩ : Section Unit)).OneTerm := by
    split
    · exact s.stepDown_oneTerm req.term
    · exact oneTerm_nothing rfl
  rcases s.handleRequestVote_cases req with ⟨-, hcast⟩ | hrefused
  · rw [hcast]
    exact oneTerm_persist hdown rfl rfl
  · rw [hrefused]
    exact hdown

theorem RaftState.handleControllerHeartbeat_oneTerm (s : RaftState)
    (req : ControllerHeartbeatRequest) : (s.handleControllerHeartbeat req).OneTerm := by
  unfold handleControllerHeartbeat
  split
  · exact oneTerm_nothing rfl
  · dsimp only
    split
    · exact oneTerm_persist (List.forall_mem_nil _) rfl rfl
    · exact oneTerm_nothing rfl

theorem Performs.oneTerm (h : Performs m b s e sect) : sect.OneTerm := by
  cases h with
  | reads _ => exact oneTerm_nothing rfl
  | handleRequestVote req => exact s.handleRequestVote_oneTerm req
  | handleControllerHeartbeat req => exact s.handleControllerHeartbeat_oneTerm req
  | heartbeatAnswered _ resp =>
      unfold RaftState.heartbeatAnswered
      split
      · exact s.stepDown_oneTerm resp.term
      · exact oneTerm_nothing rfl
  | startElection _ => exact oneTerm_persist (List.forall_mem_nil _) rfl rfl
  | countVote _ resp term =>
      unfold RaftState.countVote
      split
      · exact s.stepDown_oneTerm resp.term
      · exact oneTerm_nothing rfl
  | finishElection term votes =>
      rcases s.finishElection_cases b m.brokerCount term votes with hkept | ⟨hwon, -⟩
      · rw [hkept]
        exact oneTerm_nothing rfl
      · rw [hwon]
        exact oneTerm_nothing rfl

theorem Performs.persists (h : Performs m b s e sect) : sect.Persists s := by
  cases h with
  | reads _ => rfl
  | handleRequestVote req => exact s.handleRequestVote_persists req
  | handleControllerHeartbeat req => exact s.handleControllerHeartbeat_persists req
  | heartbeatAnswered _ resp => exact s.heartbeatAnswered_persists resp
  | startElection _ => exact s.startElection_persists b
  | countVote _ resp term => exact s.countVote_persists term resp
  | finishElection term votes => exact s.finishElection_persists b m.brokerCount term votes

/-- The number that `++` wraps at. -/
def lastTerm : UInt32 := 4294967295

theorem startElection_term_le_iff :
    s.currentTerm ≤ (s.startElection b).state.currentTerm ↔ s.currentTerm ≠ lastTerm := by
  constructor
  · intro hle hlast
    have hterm : (s.startElection b).state.currentTerm = lastTerm + 1 := by rw [← hlast]; rfl
    rw [hterm, hlast] at hle
    revert hle
    decide
  · intro hlast
    exact (s.startElection_ballot b hlast).term_le

/-- Only a candidacy can lower the term, and it does so at the last one. -/
theorem Performs.term_le_iff (h : Performs m b s e sect) :
    s.currentTerm ≤ sect.state.currentTerm ↔
      (e = .startElection → s.currentTerm ≠ lastTerm) := by
  cases h with
  | startElection _ =>
      rw [startElection_term_le_iff]
      exact ⟨fun h _ => h, fun h => h rfl⟩
  | reads h =>
      refine iff_of_true (UInt32.le_refl _) ?_
      rintro rfl
      cases h
  | handleRequestVote req =>
      exact iff_of_true (s.handleRequestVote_ballot req).term_le (by simp)
  | handleControllerHeartbeat req =>
      exact iff_of_true (s.handleControllerHeartbeat_ballot req).term_le (by simp)
  | heartbeatAnswered _ resp =>
      exact iff_of_true (s.heartbeatAnswered_ballot resp).term_le (by simp)
  | countVote _ resp term =>
      exact iff_of_true (s.countVote_ballot term resp).term_le (by simp)
  | finishElection term votes =>
      exact iff_of_true (s.finishElection_ballot b m.brokerCount term votes).term_le (by simp)

/-- The process would load what it has in memory. -/
def Controller.Synced (c : Controller) : Prop :=
  (RaftState.loadState c.files.getLast?).persistState = c.raft.persistState

theorem Controller.synced_load (files : List RaftFile) : (Controller.load files).Synced := rfl

theorem Controller.Synced.term (h : c.Synced) :
    (RaftState.loadState c.files.getLast?).currentTerm = c.raft.currentTerm :=
  congrArg RaftFile.term h

/-- A section leaves its last file, if it wrote one, and otherwise the pair there was. -/
theorem Performs.synced (h : Performs m b c.raft e sect) (hsync : c.Synced) (loop : LoopPhase) :
    Controller.Synced ⟨sect.state, c.files ++ sect.written, loop⟩ := by
  have hpersists := h.persists
  unfold Section.Persists at hpersists
  unfold Controller.Synced
  cases hlast : sect.written.getLast? with
  | none =>
      rw [hlast] at hpersists
      rw [List.getLast?_eq_none_iff.mp hlast, List.append_nil]
      exact hsync.trans hpersists.symm
  | some file =>
      rw [hlast] at hpersists
      rw [List.getLast?_append, hlast, hpersists]
      rfl

theorem controllerStep_synced {e : ControllerEvent} (hsync : c.Synced)
    (h : controllerStep m b c e = some c') : c'.Synced := by
  obtain ⟨call, sect, loop, -, hperforms, rfl⟩ | ⟨call, sect, kept, -, -, rfl⟩ | ⟨-, rfl⟩ :=
    controllerStep_cases h
  · exact hperforms.synced hsync loop
  · exact Controller.synced_load _
  · exact Controller.synced_load _

/-- No candidacy begins in the last term; one that dies before its file is written has not
begun. -/
def TermFits (c : Controller) : ControllerEvent → Prop
  | .call e => e = .startElection → c.raft.currentTerm ≠ lastTerm
  | .dieIn e kept => 0 < kept → e = .startElection → c.raft.currentTerm ≠ lastTerm
  | .restart => True

instance (c : Controller) : ∀ e, Decidable (TermFits c e)
  | .call e => inferInstanceAs (Decidable (e = .startElection → c.raft.currentTerm ≠ lastTerm))
  | .dieIn e kept => inferInstanceAs
      (Decidable (0 < kept → e = .startElection → c.raft.currentTerm ≠ lastTerm))
  | .restart => .isTrue trivial

theorem Performs.startElection_written (h : Performs m b s .startElection sect) :
    sect.written ≠ [] := by
  cases h with
  | reads h => cases h
  | startElection _ => exact List.cons_ne_nil _ _

/-- After a death in a section the term is that of the files that were kept of it. -/
theorem Performs.term_kept (h : Performs m b c.raft e sect) (hsync : c.Synced) (kept : Nat) :
    let c' := Controller.load (c.files ++ sect.written.take kept)
    (∀ file ∈ sect.written.take kept, file.term = c'.raft.currentTerm) ∧
      (c.raft.currentTerm ≤ c'.raft.currentTerm ↔ TermFits c (.dieIn e kept)) := by
  intro c'
  cases hlast : (sect.written.take kept).getLast? with
  | none =>
      have hnil := List.getLast?_eq_none_iff.mp hlast
      have hterm : c'.raft.currentTerm = c.raft.currentTerm := by
        change (RaftState.loadState (c.files ++ sect.written.take kept).getLast?).currentTerm = _
        rw [hnil, List.append_nil]
        exact hsync.term
      rw [hnil]
      refine ⟨List.forall_mem_nil _, iff_of_true (hterm ▸ UInt32.le_refl _) ?_⟩
      rintro hkept rfl
      rcases List.take_eq_nil_iff.mp hnil with hzero | hwritten
      · omega
      · exact absurd hwritten h.startElection_written
  | some file =>
      have hfile : file ∈ sect.written.take kept := List.mem_of_getLast? hlast
      have hterm : c'.raft.currentTerm = sect.state.currentTerm := by
        change (RaftState.loadState (c.files ++ sect.written.take kept).getLast?).currentTerm = _
        rw [List.getLast?_append, hlast]
        exact h.oneTerm file (List.mem_of_mem_take hfile)
      have hkept : 0 < kept := by
        apply Nat.pos_of_ne_zero
        rintro rfl
        cases hlast
      rw [hterm]
      refine ⟨fun f hf => h.oneTerm f (List.mem_of_mem_take hf), ?_⟩
      rw [h.term_le_iff]
      exact ⟨fun hfits _ => hfits, fun hfits => hfits hkept⟩

/-- The files a step adds carry the term it leaves, and that is not below the old one exactly
if the step fits. -/
theorem controllerStep_term {e : ControllerEvent} (hsync : c.Synced)
    (h : controllerStep m b c e = some c') :
    (∃ written, c'.files = c.files ++ written ∧
      ∀ file ∈ written, file.term = c'.raft.currentTerm) ∧
    (c.raft.currentTerm ≤ c'.raft.currentTerm ↔ TermFits c e) := by
  obtain ⟨call, sect, loop, rfl, hperforms, rfl⟩ | ⟨call, sect, kept, rfl, hperforms, rfl⟩ |
      ⟨rfl, rfl⟩ := controllerStep_cases h
  · exact ⟨⟨sect.written, rfl, hperforms.oneTerm⟩, hperforms.term_le_iff⟩
  · obtain ⟨hfiles, hterm⟩ := hperforms.term_kept hsync kept
    exact ⟨⟨sect.written.take kept, rfl, hfiles⟩, hterm⟩
  · have hterm : (Controller.load c.files).raft.currentTerm = c.raft.currentTerm := hsync.term
    refine ⟨⟨[], (List.append_nil _).symm, List.forall_mem_nil _⟩, iff_of_true ?_ trivial⟩
    rw [hterm]
    exact UInt32.le_refl _

/-- The files on disk so far rise, up to the term in memory. -/
structure TermsRise (c : Controller) : Prop where
  synced : c.Synced
  rising : (c.files.map fun file => file.term.toNat).Pairwise (· ≤ ·)
  below : ∀ file ∈ c.files, file.term.toNat ≤ c.raft.currentTerm.toNat

theorem termsRise_boot (file : Option RaftFile) : TermsRise (.boot file) where
  synced := Controller.synced_load _
  rising := by cases file <;> simp [Controller.boot, Controller.load]
  below := by
    cases file with
    | none => exact List.forall_mem_nil _
    | some file =>
        intro f hf
        rw [List.mem_singleton.mp hf]
        exact Nat.le_refl _

theorem TermsRise.step {e : ControllerEvent} (rise : TermsRise c) (fits : TermFits c e)
    (h : controllerStep m b c e = some c') : TermsRise c' := by
  obtain ⟨⟨written, hfiles, hwritten⟩, hiff⟩ := controllerStep_term rise.synced h
  have hle := UInt32.le_iff_toNat_le.mp (hiff.mpr fits)
  have hbelow : ∀ file ∈ c'.files, file.term.toNat ≤ c'.raft.currentTerm.toNat := by
    intro file hfile
    rw [hfiles] at hfile
    rcases List.mem_append.mp hfile with hold | hnew
    · exact (rise.below file hold).trans hle
    · rw [hwritten file hnew]
  refine ⟨controllerStep_synced rise.synced h, ?_, hbelow⟩
  rw [hfiles, List.map_append, List.pairwise_append]
  refine ⟨rise.rising, ?_, ?_⟩
  · apply List.pairwise_of_forall_mem_list
    intro x hx y hy
    obtain ⟨f, hf, rfl⟩ := List.mem_map.mp hx
    obtain ⟨g, hg, rfl⟩ := List.mem_map.mp hy
    rw [hwritten f hf, hwritten g hg]
  · intro x hx y hy
    obtain ⟨f, hf, rfl⟩ := List.mem_map.mp hx
    obtain ⟨g, hg, rfl⟩ := List.mem_map.mp hy
    rw [hwritten g hg]
    exact (rise.below f hf).trans hle

/-- The term of a controller never falls, neither in memory from section to section nor in
the files it writes, exactly in the runs in which no candidacy begins in the last term. -/
theorem term_never_falls_iff {file : Option RaftFile}
    {visits : List (Controller × ControllerEvent)}
    (run : ControllerRun m b (.boot file) visits c) :
    ((visits.map (fun v => v.1.raft.currentTerm.toNat) ++
        [c.raft.currentTerm.toNat]).Pairwise (· ≤ ·) ∧
      (c.files.map fun file => file.term.toNat).Pairwise (· ≤ ·)) ↔
    Guarded TermFits visits := by
  have hsteps := run.monotone_iff fun c => c.raft.currentTerm.toNat
  have hsynced : ∀ v ∈ visits, v.1.Synced := by
    intro v hv
    obtain ⟨before, -, -, -, hrun, -⟩ := run.visited hv
    exact hrun.always (Controller.synced_load _) fun t e u => controllerStep_synced
  rw [hsteps]
  constructor
  · rintro ⟨hmemory, -⟩ v hv
    obtain ⟨-, -, u, -, -, hstep⟩ := run.visited hv
    exact (controllerStep_term (hsynced v hv) hstep).2.mp
      (UInt32.le_iff_toNat_le.mpr (hmemory v hv u hstep))
  · intro hfits
    have hrise : TermsRise c := run.invariant hfits (termsRise_boot file)
      fun t e u hfit hrise => hrise.step hfit
    refine ⟨fun v hv u hstep => ?_, hrise.rising⟩
    exact UInt32.le_iff_toNat_le.mp
      ((controllerStep_term (hsynced v hv) hstep).2.mpr (hfits v hv))

/-- Broker 1 of three asks for votes, and broker 2 gives its own. -/
def ownElection : List ControllerEvent :=
  [.call .startElection, .call (.countVote 2 ⟨1, true⟩), .call (.voteUnanswered 3),
    .call .finishElection]

theorem term_never_falls_three : ∃ visits c,
    ControllerRun threeBrokers 1 (.boot none) visits c ∧
    (visits.map (fun v => v.1.raft.currentTerm.toNat) ++
      [c.raft.currentTerm.toNat]).Pairwise (· ≤ ·) ∧
    (c.files.map fun file => file.term.toNat).Pairwise (· ≤ ·) := by
  obtain ⟨c, hc⟩ := Option.isSome_iff_exists.mp
    (show (execute (controllerStep threeBrokers 1) (.boot none) ownElection).isSome by decide)
  have run := run_of_execute hc
  exact ⟨_, c, run, (term_never_falls_iff run).mpr (by decide)⟩

/-- A candidate of the last term brings a broker there, and the broker's own candidacy wraps
its term to 0, in memory and in its file. -/
theorem term_wraps : ¬ ∀ (m : Membership) (b : BrokerId) (file : Option RaftFile)
    (visits : List (Controller × ControllerEvent)) (c : Controller),
    ControllerRun m b (.boot file) visits c →
    (visits.map (fun v => v.1.raft.currentTerm.toNat) ++
      [c.raft.currentTerm.toNat]).Pairwise (· ≤ ·) ∧
    (c.files.map fun file => file.term.toNat).Pairwise (· ≤ ·) := by
  intro claim
  have seen : (execute (controllerStep threeBrokers 1) (.boot none)
      [.call (.handleRequestVote ⟨4294967295, 2⟩), .call .startElection]).map
      Controller.files = some [⟨4294967295, -1⟩, ⟨4294967295, 2⟩, ⟨0, 1⟩] := by decide
  obtain ⟨c, run, hfiles⟩ := run_showing seen
  obtain ⟨-, hdisk⟩ := claim _ _ _ _ c run
  rw [hfiles] at hdisk
  revert hdisk
  decide

end Terms

end MiniKafka.Cluster
