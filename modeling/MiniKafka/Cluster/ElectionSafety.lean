import MiniKafka.Cluster.ElectionRuns
import MiniKafka.Foundations.Majority

/-!
# Election safety

At most one broker executes `become_leader` in a term. The invariant follows a
vote from the critical section that casts it to the election that counts it: a
vote is backed by the term and `votedFor` of its voter, which agree with the
voter's file, so neither a later section nor a restart casts another one in the
same term.
-/

namespace MiniKafka.Cluster

open Foundations

variable {m : Membership} {c c' : ElectionCluster}

/-- No broker's term has reached the largest `uint32_t`. -/
def TermsBelowMax (m : Membership) (c : ElectionCluster) : Prop :=
  ∀ b ∈ m.allIds, c.term b ≠ 4294967295

instance : Decidable (TermsBelowMax m c) :=
  List.decidableBAll (fun b => c.term b ≠ 4294967295) m.allIds

/-- The file of a broker restores the term and the vote it has in memory. -/
def Node.Synced (n : Node) : Prop :=
  (RaftState.loadState n.raftState).persistState = n.raft.persistState

theorem Node.synced_restart (file : Option RaftFile) : (Node.restart file).Synced := rfl

theorem Node.synced_commit {α : Type} {n : Node} {sect : Section α} (h : n.Synced)
    (hs : sect.Persists n.raft) : (n.commit sect).Synced := by
  unfold Section.Persists at hs
  unfold Synced commit
  cases hw : sect.written.getLast? with
  | none =>
      simp only [hw] at hs
      rw [Option.none_or, h, hs]
  | some file =>
      simp only [hw] at hs
      rw [Option.some_or, hs]
      rfl

/-- What a step does to one broker: its new node, and the vote it casts, if any. -/
structure NodeStep (c c' : ElectionCluster) (b : BrokerId) (n : Node) (cast : Option BrokerId) :
    Prop where
  nodes : c'.nodes = Function.update c.nodes b n
  synced : (c.nodes b).Synced → n.Synced
  ballot : Ballot (c.nodes b).raft n.raft cast
  votes : c'.votes = (cast.map fun v => (b, n.raft.currentTerm, v)).toList ++ c.votes
  elected : c'.elected = c.elected ∨ c'.elected = (b, n.raft.currentTerm) :: c.elected

/-- A step that leaves the state and the file of the broker alone. -/
theorem nodeStep_idle {b : BrokerId} {n : Node}
    (nodes : c'.nodes = Function.update c.nodes b n) (raft : n.raft = (c.nodes b).raft)
    (file : n.raftState = (c.nodes b).raftState) (votes : c'.votes = c.votes)
    (elected : c'.elected = c.elected) : NodeStep c c' b n none where
  nodes := nodes
  synced h := by rw [Node.Synced, raft, file]; exact h
  ballot := by rw [raft]; exact .kept rfl rfl
  votes := by simpa using votes
  elected := Or.inl elected

/-- A step that commits one critical section. -/
theorem nodeStep_commit {α : Type} {b : BrokerId} {n : Node} {sect : Section α}
    {cast : Option BrokerId} (nodes : c'.nodes = Function.update c.nodes b n)
    (raft : n.raft = sect.state)
    (file : n.raftState = ((c.nodes b).commit sect).raftState)
    (persists : sect.Persists (c.nodes b).raft)
    (ballot : Ballot (c.nodes b).raft sect.state cast)
    (votes : c'.votes = (cast.map fun v => (b, sect.state.currentTerm, v)).toList ++ c.votes)
    (elected : c'.elected = c.elected ∨ c'.elected = (b, sect.state.currentTerm) :: c.elected) :
    NodeStep c c' b n cast where
  nodes := nodes
  synced h := by
    have hcommit := Node.synced_commit h persists
    rw [Node.Synced, raft, file]
    exact hcommit
  ballot := by rw [raft]; exact ballot
  votes := by rw [raft]; exact votes
  elected := by rw [raft]; exact elected

/-- A restart keeps the persisted term and vote, or the newer term of the file. -/
theorem nodeStep_restart {b : BrokerId} {file : Option RaftFile}
    (nodes : c'.nodes = Function.update c.nodes b (Node.restart file))
    (ballot : Ballot (c.nodes b).raft (RaftState.loadState file) none)
    (votes : c'.votes = c.votes) (elected : c'.elected = c.elected) :
    NodeStep c c' b (Node.restart file) none where
  nodes := nodes
  synced _ := Node.synced_restart file
  ballot := ballot
  votes := by simpa using votes
  elected := Or.inl elected

/-- Every step is a step of one node: it casts at most one vote, for the vote it
persists, and leaves everyone else's term and vote alone. -/
theorem electionStep_node {e : ElectionEvent} (h : electionStep m c e = some c')
    (below : TermsBelowMax m c) (synced : ∀ b, (c.nodes b).Synced) :
    ∃ n cast, NodeStep c c' e.broker n cast := by
  obtain ⟨hmember, hdoes⟩ := electionStep_does h
  cases hdoes with
  | checkRole _ _ => exact ⟨_, none, nodeStep_idle rfl rfl rfl rfl rfl⟩
  | readTerm _ => exact ⟨_, none, nodeStep_idle rfl rfl rfl rfl rfl⟩
  | @sendHeartbeat b =>
      exact ⟨c.nodes b, none,
        nodeStep_idle (Function.update_eq_self b c.nodes).symm rfl rfl rfl rfl⟩
  | @heartbeatAnswered b _ resp =>
      exact ⟨_, none, nodeStep_commit rfl rfl rfl
        ((c.nodes b).raft.heartbeatAnswered_persists resp)
        ((c.nodes b).raft.heartbeatAnswered_ballot resp) rfl (Or.inl rfl)⟩
  | heartbeatUnanswered _ => exact ⟨_, none, nodeStep_idle rfl rfl rfl rfl rfl⟩
  | joinHeartbeats _ => exact ⟨_, none, nodeStep_idle rfl rfl rfl rfl rfl⟩
  | @startElection b =>
      exact ⟨_, _, nodeStep_commit rfl rfl rfl
        ((c.nodes b).raft.startElection_persists b)
        ((c.nodes b).raft.startElection_ballot b (below b hmember)) rfl (Or.inl rfl)⟩
  | @sendVoteRequest b =>
      exact ⟨c.nodes b, none,
        nodeStep_idle (Function.update_eq_self b c.nodes).symm rfl rfl rfl rfl⟩
  | @countVote b _ resp term =>
      exact ⟨_, none, nodeStep_commit rfl rfl rfl
        ((c.nodes b).raft.countVote_persists term resp)
        ((c.nodes b).raft.countVote_ballot term resp) rfl (Or.inl rfl)⟩
  | voteUnanswered _ => exact ⟨_, none, nodeStep_idle rfl rfl rfl rfl rfl⟩
  | @won b term votes =>
      exact ⟨_, none, nodeStep_commit rfl rfl rfl
        ((c.nodes b).raft.finishElection_persists b m.brokerCount term votes)
        ((c.nodes b).raft.finishElection_ballot b m.brokerCount term votes) rfl (Or.inr rfl)⟩
  | @lost b term votes =>
      exact ⟨_, none, nodeStep_commit rfl rfl rfl
        ((c.nodes b).raft.finishElection_persists b m.brokerCount term votes)
        ((c.nodes b).raft.finishElection_ballot b m.brokerCount term votes) rfl (Or.inl rfl)⟩
  | @granted b req _ hreply =>
      have hballot := (c.nodes b).raft.handleRequestVote_ballot req
      rw [if_pos hreply] at hballot
      exact ⟨_, some req.candidateId, nodeStep_commit rfl rfl rfl
        ((c.nodes b).raft.handleRequestVote_persists req) hballot rfl (Or.inl rfl)⟩
  | @refused b req _ hreply =>
      have hballot := (c.nodes b).raft.handleRequestVote_ballot req
      rw [if_neg (Bool.eq_false_iff.mp hreply)] at hballot
      exact ⟨_, none, nodeStep_commit rfl rfl rfl
        ((c.nodes b).raft.handleRequestVote_persists req) hballot rfl (Or.inl rfl)⟩
  | @handleControllerHeartbeat b _ req =>
      exact ⟨_, none, nodeStep_commit rfl rfl rfl
        ((c.nodes b).raft.handleControllerHeartbeat_persists req)
        ((c.nodes b).raft.handleControllerHeartbeat_ballot req) rfl (Or.inl rfl)⟩
  | @restart b =>
      refine ⟨_, none, nodeStep_restart rfl ?_ rfl rfl⟩
      obtain ⟨hterm, hvote⟩ := RaftFile.mk.inj (synced b)
      exact .kept hterm hvote
  | restartInVote _ hnewer =>
      refine ⟨_, none, nodeStep_restart rfl ?_ rfl rfl⟩
      -- the file is the one `step_down` wrote: the new term, and no vote
      simp only [Node.commit, RaftState.stepDown, hnewer, if_true]
      exact .raised hnewer rfl

/-- The ledger of votes agrees with the brokers: nobody votes twice in a term, and
a vote in the current term is the one its voter remembers. -/
structure VotesInv (c : ElectionCluster) : Prop where
  synced : ∀ b, (c.nodes b).Synced
  once : ∀ v t x y, (v, t, x) ∈ c.votes → (v, t, y) ∈ c.votes → x = y
  backed : ∀ v t x, (v, t, x) ∈ c.votes →
    t ≤ c.term v ∧ (t = c.term v → (c.nodes v).raft.votedFor = idAsInt x)

theorem votesInv_boot (files : BrokerId → Option RaftFile) :
    VotesInv (ElectionCluster.boot files) where
  synced b := Node.synced_restart (files b)
  once := by simp [ElectionCluster.boot]
  backed := by simp [ElectionCluster.boot]

theorem Ballot.term_le {s s' : RaftState} {cast : Option BrokerId} (h : Ballot s s' cast) :
    s.currentTerm ≤ s'.currentTerm := by
  cases h with
  | kept term _ => rw [term]; exact UInt32.le_refl _
  | raised term _ => exact UInt32.le_of_lt term
  | cast _ fresh =>
      rcases fresh with h | h
      · exact UInt32.le_of_lt h
      · rw [h.1]; exact UInt32.le_refl _

/-- A vote remembered in the old term is still remembered if the term did not move. -/
theorem Ballot.remembers {s s' : RaftState} {cast : Option BrokerId} (h : Ballot s s' cast)
    {x : BrokerId} (hx : s.votedFor = idAsInt x) (hterm : s'.currentTerm = s.currentTerm) :
    s'.votedFor = idAsInt x ∧ ∀ y ∈ cast, y = x := by
  cases h with
  | kept _ vote => exact ⟨vote.trans hx, by simp⟩
  | raised term _ => exact absurd (hterm ▸ term) (UInt32.lt_irrefl _)
  | @cast id vote fresh =>
      have hid : id = x := by
        rcases fresh with h | ⟨_, h | h⟩
        · exact absurd (hterm ▸ h) (UInt32.lt_irrefl _)
        · exact absurd (hx.symm.trans h) (idAsInt_ne_nobody x)
        · exact idAsInt_injective (h.symm.trans hx)
      exact ⟨hid ▸ vote, by simp [hid]⟩

theorem NodeStep.mem_votes {b : BrokerId} {n : Node} {cast : Option BrokerId}
    (h : NodeStep c c' b n cast) {v : BrokerId} {t : UInt32} {x : BrokerId} :
    (v, t, x) ∈ c'.votes ↔
      (v = b ∧ t = n.raft.currentTerm ∧ x ∈ cast) ∨ (v, t, x) ∈ c.votes := by
  rw [h.votes]
  cases cast <;> simp [eq_comm]

/-- The invariant of the ledger is kept by whatever one broker does. -/
theorem VotesInv.nodeStep {b : BrokerId} {n : Node} {cast : Option BrokerId}
    (inv : VotesInv c) (h : NodeStep c c' b n cast) : VotesInv c' := by
  have hself : c'.nodes b = n := by rw [h.nodes, Function.update_self]
  have hother : ∀ v, v ≠ b → c'.nodes v = c.nodes v := fun v hv => by
    rw [h.nodes, Function.update_of_ne hv]
  -- a new vote never meets an old one of the same voter in the same term
  have fresh : ∀ t x y, t = n.raft.currentTerm → x ∈ cast → (b, t, y) ∈ c.votes → x = y := by
    intro t x y ht hx hy
    obtain ⟨hle, hvote⟩ := inv.backed b t y hy
    have hterm : n.raft.currentTerm = c.term b :=
      UInt32.le_antisymm (ht ▸ hle) h.ballot.term_le
    exact (h.ballot.remembers (hvote (ht.trans hterm)) hterm).2 x hx
  constructor
  · intro v
    by_cases hv : v = b
    · rw [hv, hself]
      exact h.synced (inv.synced b)
    · rw [hother v hv]
      exact inv.synced v
  · intro v t x y hx hy
    rcases h.mem_votes.mp hx with ⟨hv, ht, hx⟩ | hx <;>
      rcases h.mem_votes.mp hy with ⟨hv', ht', hy⟩ | hy
    · exact Option.some.inj (hx.symm.trans hy)
    · exact fresh t x y ht hx (hv ▸ hy)
    · exact (fresh t y x ht' hy (hv' ▸ hx)).symm
    · exact inv.once v t x y hx hy
  · intro v t x hx
    by_cases hv : v = b
    · subst hv
      rw [ElectionCluster.term, hself]
      rcases h.mem_votes.mp hx with ⟨_, ht, hcast⟩ | hx
      · refine ⟨ht ▸ UInt32.le_refl _, fun _ => ?_⟩
        obtain rfl := hcast
        cases h.ballot with
        | cast vote _ => exact vote
      · obtain ⟨hle, hvote⟩ := inv.backed v t x hx
        refine ⟨UInt32.le_trans hle h.ballot.term_le, fun ht => ?_⟩
        have hterm : n.raft.currentTerm = c.term v :=
          UInt32.le_antisymm (ht ▸ hle) h.ballot.term_le
        exact (h.ballot.remembers (hvote (ht.trans hterm)) hterm).1
    · rcases h.mem_votes.mp hx with ⟨hb, _⟩ | hx
      · exact absurd hb hv
      · rw [ElectionCluster.term, hother v hv]
        exact inv.backed v t x hx

/-- An election in progress has counted distinct voters that are not pending any
more, and each of them voted for `b` in its term. -/
def Tally (m : Membership) (votes : List (BrokerId × UInt32 × BrokerId)) (b : BrokerId) :
    LoopPhase → Prop
  | .electing term count pending =>
      pending.Nodup ∧ (∀ v ∈ pending, v ∈ m.allIds) ∧
      ∃ q : Finset BrokerId, q ⊆ m.voters ∧ count.toNat = q.card ∧
        ∀ v ∈ q, v ∉ pending ∧ (v, term, b) ∈ votes
  | _ => True

variable {votes votes' : List (BrokerId × UInt32 × BrokerId)} {b : BrokerId}

theorem Tally.mono {loop : LoopPhase} (h : Tally m votes b loop) (sub : votes ⊆ votes') :
    Tally m votes' b loop := by
  cases loop with
  | electing term count pending =>
      obtain ⟨hnodup, hmem, q, hq, hcount, hvotes⟩ := h
      exact ⟨hnodup, hmem, q, hq, hcount, fun v hv => ⟨(hvotes v hv).1, sub (hvotes v hv).2⟩⟩
  | _ => trivial

theorem tally_start (hb : b ∈ m.allIds) {term : UInt32} (vote : (b, term, b) ∈ votes) :
    Tally m votes b (.electing term 1 (m.peerIds b)) := by
  refine ⟨m.peerIds_nodup b, fun v hv => (m.mem_peerIds.mp hv).1, {b}, ?_, rfl, ?_⟩
  · simpa using hb
  · simp [Membership.mem_peerIds, vote]

/-- A thread that returns without a vote only leaves the pending peers. -/
theorem Tally.drop {term count : UInt32} {pending : List BrokerId}
    (h : Tally m votes b (.electing term count pending)) (peer : BrokerId) :
    Tally m votes b (.electing term count (pending.erase peer)) := by
  obtain ⟨hnodup, hmem, q, hq, hcount, hvotes⟩ := h
  refine ⟨hnodup.erase peer, fun v hv => hmem v (List.mem_of_mem_erase hv), q, hq, hcount,
    fun v hv => ⟨fun hp => (hvotes v hv).1 (List.mem_of_mem_erase hp), (hvotes v hv).2⟩⟩

/-- A thread that returns with a vote adds a voter who was still pending. -/
theorem Tally.count {term count : UInt32} {pending : List BrokerId}
    (h : Tally m votes b (.electing term count pending)) {peer : BrokerId}
    (hpeer : peer ∈ pending) (vote : (peer, term, b) ∈ votes) :
    Tally m votes b (.electing term (count + 1) (pending.erase peer)) := by
  obtain ⟨hnodup, hmem, q, hq, hcount, hvotes⟩ := h
  have hnew : peer ∉ q := fun hp => (hvotes peer hp).1 hpeer
  have hgrown : insert peer q ⊆ m.voters :=
    Finset.insert_subset (m.mem_voters.mpr (hmem peer hpeer)) hq
  have hcard : (insert peer q).card = q.card + 1 := Finset.card_insert_of_notMem hnew
  have hlt := m.card_lt hgrown
  refine ⟨hnodup.erase peer, fun v hv => hmem v (List.mem_of_mem_erase hv),
    insert peer q, hgrown, ?_, ?_⟩
  · rw [UInt32.toNat_add, hcount, UInt32.toNat_one, Nat.mod_eq_of_lt (by omega), hcard]
  · intro v hv
    rcases Finset.mem_insert.mp hv with rfl | hv
    · exact ⟨hnodup.not_mem_erase, vote⟩
    · exact ⟨fun hp => (hvotes v hv).1 (List.mem_of_mem_erase hp), (hvotes v hv).2⟩

/-- Replies, counts and won elections are all covered by the ledger of votes. -/
structure CountInv (m : Membership) (c : ElectionCluster) : Prop where
  replies : ∀ v x resp, (v, x, resp) ∈ c.voteReplies → resp.voteGranted = true →
    (v, resp.term, x) ∈ c.votes
  tally : ∀ b, Tally m c.votes b (c.nodes b).loop
  won : ∀ b t, (b, t) ∈ c.elected →
    ∃ q, Majority m.voters q ∧ ∀ v ∈ q, (v, t, b) ∈ c.votes

theorem countInv_boot (files : BrokerId → Option RaftFile) :
    CountInv m (ElectionCluster.boot files) where
  replies := by simp [ElectionCluster.boot]
  tally _ := trivial
  won := by simp [ElectionCluster.boot]

/-- The invariant only grows with the ledger: it is enough to look at the new node,
the new replies and the new executions of `become_leader`. -/
theorem CountInv.extend (inv : CountInv m c) {n : Node}
    (nodes : c'.nodes = Function.update c.nodes b n) (votes : c.votes ⊆ c'.votes)
    (tally : Tally m c'.votes b n.loop)
    (replies : ∀ v x resp, (v, x, resp) ∈ c'.voteReplies → resp.voteGranted = true →
      (v, x, resp) ∈ c.voteReplies ∨ (v, resp.term, x) ∈ c'.votes)
    (won : ∀ v t, (v, t) ∈ c'.elected → (v, t) ∈ c.elected ∨
      ∃ q, Majority m.voters q ∧ ∀ w ∈ q, (w, t, v) ∈ c'.votes) : CountInv m c' where
  replies v x resp h hg := by
    rcases replies v x resp h hg with hold | hnew
    · exact votes (inv.replies v x resp hold hg)
    · exact hnew
  tally v := by
    by_cases hv : v = b
    · subst hv
      rw [nodes, Function.update_self]
      exact tally
    · rw [nodes, Function.update_of_ne hv]
      exact (inv.tally v).mono votes
  won v t h := by
    rcases won v t h with hold | hnew
    · obtain ⟨q, hq, hvotes⟩ := inv.won v t hold
      exact ⟨q, hq, fun w hw => votes (hvotes w hw)⟩
    · exact hnew

/-- A step that counts nothing new and keeps the loop out of an election. -/
theorem CountInv.quiet (inv : CountInv m c) {n : Node}
    (nodes : c'.nodes = Function.update c.nodes b n) (votes : c'.votes = c.votes)
    (tally : Tally m c.votes b n.loop) (replies : c'.voteReplies = c.voteReplies)
    (elected : c'.elected = c.elected) : CountInv m c' :=
  inv.extend nodes (votes ▸ List.Subset.refl _) (votes ▸ tally)
    (fun _ _ _ h _ => Or.inl (replies ▸ h)) (fun _ _ h => Or.inl (elected ▸ h))

theorem CountInv.step {e : ElectionEvent} (inv : CountInv m c)
    (h : electionStep m c e = some c') : CountInv m c' := by
  obtain ⟨hmember, hdoes⟩ := electionStep_does h
  cases hdoes with
  | checkRole _ _ => exact inv.quiet rfl rfl trivial rfl rfl
  | readTerm _ => exact inv.quiet rfl rfl trivial rfl rfl
  | @sendHeartbeat b =>
      exact inv.quiet (Function.update_eq_self b c.nodes).symm rfl (inv.tally b) rfl rfl
  | heartbeatAnswered _ _ _ => exact inv.quiet rfl rfl trivial rfl rfl
  | heartbeatUnanswered _ => exact inv.quiet rfl rfl trivial rfl rfl
  | joinHeartbeats _ => exact inv.quiet rfl rfl trivial rfl rfl
  | startElection _ _ =>
      exact inv.extend rfl (List.subset_cons_self _ _)
        (tally_start hmember List.mem_cons_self) (fun _ _ _ h _ => Or.inl h)
        (fun _ _ h => Or.inl h)
  | @sendVoteRequest b =>
      exact inv.quiet (Function.update_eq_self b c.nodes).symm rfl (inv.tally b) rfl rfl
  | @countVote b peer resp term count pending hloop hwaits hsent =>
      have htally : Tally m c.votes b (.electing term count pending) := hloop ▸ inv.tally b
      refine inv.quiet rfl rfl ?_ rfl rfl
      dsimp only
      split
      · next hreply =>
          obtain ⟨hterm, hgranted⟩ := (c.nodes b).raft.countVote_reply hreply
          exact htally.count hwaits (hterm ▸ inv.replies peer b resp hsent hgranted)
      · exact htally.drop peer
  | @voteUnanswered b peer term count pending hloop =>
      have htally : Tally m c.votes b (.electing term count pending) := hloop ▸ inv.tally b
      exact inv.quiet rfl rfl (htally.drop peer) rfl rfl
  | @won b term count hloop hreply =>
      have htally : Tally m c.votes b (.electing term count []) := hloop ▸ inv.tally b
      obtain ⟨hstate, hterm, hmaj⟩ := (c.nodes b).raft.finishElection_reply hreply
      refine inv.extend rfl (List.Subset.refl _) trivial
        (fun _ _ _ h _ => Or.inl h) (fun v t hv => ?_)
      rcases List.mem_cons.mp hv with heq | hv
      · -- the new leader was counted by a majority in this very term
        obtain ⟨rfl, rfl⟩ := Prod.mk.inj heq
        obtain ⟨_, _, q, hq, hcount, hvotes⟩ := htally
        refine Or.inr ⟨q, ⟨hq, ?_⟩, fun w hw => ?_⟩
        · rw [← m.toNat_majority, ← hcount]
          exact UInt32.le_iff_toNat_le.mp hmaj
        · rw [hstate]
          exact hterm ▸ (hvotes w hw).2
      · exact Or.inl hv
  | lost _ _ => exact inv.quiet rfl rfl trivial rfl rfl
  | @granted b req _ hreply =>
      have hterm := (c.nodes b).raft.handleRequestVote_term req
      refine inv.extend rfl (List.subset_cons_self _ _)
        ((inv.tally b).mono (List.subset_cons_self _ _)) (fun v x resp hv _ => ?_)
        (fun _ _ h => Or.inl h)
      rcases List.mem_cons.mp hv with heq | hv
      · simp only [Prod.mk.injEq] at heq
        obtain ⟨rfl, rfl, rfl⟩ := heq
        exact Or.inr (hterm ▸ List.mem_cons_self)
      · exact Or.inl hv
  | @refused b req _ hreply =>
      refine inv.extend rfl (List.Subset.refl _) (inv.tally b) (fun v x resp hv hg => ?_)
        (fun _ _ h => Or.inl h)
      rcases List.mem_cons.mp hv with heq | hv
      · simp only [Prod.mk.injEq] at heq
        obtain ⟨_, _, rfl⟩ := heq
        exact absurd hg (Bool.eq_false_iff.mp hreply)
      · exact Or.inl hv
  | @handleControllerHeartbeat b => exact inv.quiet rfl rfl (inv.tally b) rfl rfl
  | restart => exact inv.quiet rfl rfl trivial rfl rfl
  | restartInVote _ _ => exact inv.quiet rfl rfl trivial rfl rfl

/-- The ledger and the counts hold along every run in which no term has reached
the largest `uint32_t`. -/
theorem electionInv_run {files : BrokerId → Option RaftFile}
    {visits : List (ElectionCluster × ElectionEvent)}
    (run : ElectionRun m (ElectionCluster.boot files) visits c)
    (below : Guarded (fun t _ => TermsBelowMax m t) visits) : VotesInv c ∧ CountInv m c := by
  refine run.invariant (I := fun c => VotesInv c ∧ CountInv m c) below
    ⟨votesInv_boot files, countInv_boot files⟩ ?_
  intro t e u hbelow ⟨hvotes, hcount⟩ h
  obtain ⟨n, cast, hnode⟩ := electionStep_node h hbelow hvotes.synced
  exact ⟨hvotes.nodeStep hnode, hcount.step h⟩

/-- Two brokers never execute `become_leader` in one term. -/
theorem election_safety {files : BrokerId → Option RaftFile}
    {visits : List (ElectionCluster × ElectionEvent)}
    (run : ElectionRun m (ElectionCluster.boot files) visits c)
    (below : Guarded (fun t _ => TermsBelowMax m t) visits)
    {a b : BrokerId} {term : UInt32} (ha : (a, term) ∈ c.elected)
    (hb : (b, term) ∈ c.elected) : a = b := by
  obtain ⟨hvotes, hcount⟩ := electionInv_run run below
  obtain ⟨p, hp, hpvotes⟩ := hcount.won a term ha
  obtain ⟨q, hq, hqvotes⟩ := hcount.won b term hb
  exact unique_winner (fun v t x => (v, t, x) ∈ c.votes) hvotes.once hp hq hpvotes hqvotes

/-- The first election of three fresh brokers: broker 2 votes for broker 1, broker 3
does not answer. -/
def firstElection : List ElectionEvent :=
  [.startElection 1, .sendVoteRequest 1 2, .handleRequestVote 2 ⟨1, 1⟩,
    .countVote 1 2 ⟨1, true⟩, .voteUnanswered 1 3, .finishElection 1]

def threeBrokers : Membership := ⟨[1, 2, 3], by decide, by decide⟩

theorem election_safety_three :
    ∃ visits c, ElectionRun threeBrokers (ElectionCluster.boot fun _ => none) visits c ∧
      (1, 1) ∈ c.elected ∧ ∀ b, (b, 1) ∈ c.elected → b = 1 := by
  obtain ⟨c, hc⟩ := Option.isSome_iff_exists.mp
    (show (execute (electionStep threeBrokers) (ElectionCluster.boot fun _ => none)
      firstElection).isSome by decide)
  have won : ((execute (electionStep threeBrokers) (ElectionCluster.boot fun _ => none)
      firstElection).map ElectionCluster.elected) = some [(1, 1)] := by decide
  rw [hc] at won
  have h₁ : (1, 1) ∈ c.elected := by simp [Option.some.inj won]
  exact ⟨_, c, run_of_execute hc, h₁, fun b hb =>
    election_safety (run_of_execute hc) (by decide) hb h₁⟩

end MiniKafka.Cluster
