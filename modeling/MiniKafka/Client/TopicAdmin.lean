import MiniKafka.Client.Asking
import MiniKafka.Cluster.TopicCreation

/-!
# Creating a topic in a cluster

`mk-admin create-topic` asks a broker, and then where that broker sends it: only the controller
creates topics, and any other broker answers with the address of the controller it knows. There
are three attempts for redirects, and none for what breaks.
-/

namespace MiniKafka.Client

open Broker Cluster Common Foundations Net Protocol

/-- What `handle_create_topic` reads at a broker of a cluster: what `is_leader`,
`alive_broker_ids` and `current_leader_id` answer, which are asked one after the other and may
not fit together, and the map of the assignments. -/
structure ClusterBroker where
  isLeader : Bool
  alive : AliveIds
  currentLeaderId : Int
  assignments : Assignments

/-- The response that sends a client to the controller. -/
def controllerRedirect (peers : PeersTable) (leaderId : Int) : CreateTopicResponse :=
  if 0 ≤ leaderId then
    let controllerId := UInt32.ofInt leaderId
    let addr := peers[controllerId]?
    { errorCode := .notLeaderForPartition
      controllerId := controllerId
      controllerHost := (addr.map Address.host).getD []
      controllerPort := (addr.map fun a => a.port.toUInt32).getD 0 }
  else { errorCode := .notLeaderForPartition, controllerHost := [] }

/-- `handle_create_topic` in the cluster mode, as far as the broker's own map. -/
def ClusterBroker.handleCreateTopic (peers : PeersTable) (b : ClusterBroker)
    (req : CreateTopicRequest) : CreateTopicResponse × ClusterBroker :=
  match b.assignments.createTopic b.isLeader b.alive req.topic req.numPartitions
      req.replicationFactor with
  | none => (controllerRedirect peers b.currentLeaderId, b)
  | some (_, d) =>
      ({ errorCode := .none, controllerHost := [] }, { b with assignments := d.assignments })

/-- The brokers, and the creations of the client: the broker before and after each. -/
structure ClusterBrokers where
  brokers : BrokerId → ClusterBroker
  created : List (ClusterBroker × ClusterBroker) := []

/-- The broker that listens at an address handles a CreateTopic. -/
def ClusterBrokers.createTopic (peers : PeersTable) (id : BrokerId) (req : CreateTopicRequest)
    (c : ClusterBrokers) : CreateTopicResponse × ClusterBrokers :=
  let (resp, b) := (c.brokers id).handleCreateTopic peers req
  (resp,
    { brokers := Function.update c.brokers id b
      created := if resp.errorCode = .none then c.created ++ [(c.brokers id, b)] else c.created })

/-- What does not change in a run: the table that all brokers were given, which broker listens
at an address, and the handlers that are not about creating topics. -/
structure Deployment where
  peers : PeersTable
  listens : Address → BrokerId
  others : Address → Service ClusterBrokers

def Deployment.service (d : Deployment) (addr : Address) : Service ClusterBrokers
  | .createTopic, req, c =>
      let (resp, c) := c.createTopic d.peers (d.listens addr) req
      (.ok resp, c)
  | t, req, c => d.others addr t req c

/-- The hosts of the table fit their fields. -/
def Deployment.Fits (d : Deployment) : Prop :=
  ∀ (id : BrokerId) (a : Address), d.peers[id]? = some a → StringFits a.host

inductive CreateOutcome
  | created
  | failed (errorCode : ErrorCode)
  | gaveUp
  /-- An exception, which nothing catches. -/
  | threw
  deriving DecidableEq, Repr

/-- The brokers, and `mk-admin`. -/
structure Creating (σ : Type) extends Asking σ where
  /-- `host` and `port`. -/
  address : Address
  attempts : Nat := 0
  outcome : Option CreateOutcome := none

namespace Creating

variable {σ : Type} (service : Address → Service σ) (req : CreateTopicRequest) (s : Creating σ)

def call : Call := ⟨.createTopic, 1, req⟩

/-- The rest of an attempt, from the response on. -/
def receive : Option CreateTopicResponse → Creating σ
  | some resp =>
      if resp.errorCode = .notLeaderForPartition ∧ resp.controllerHost ≠ [] then
        { s with
          address := ⟨resp.controllerHost, resp.controllerPort.toUInt16⟩
          outcome := if s.attempts < 3 then none else some .gaveUp }
      else if resp.errorCode ≠ .none then { s with outcome := some (.failed resp.errorCode) }
      else { s with outcome := some .created }
  | none => { s with outcome := some .threw }

def attempt (f : Fate) : Creating σ :=
  let (answer, asking) := s.ask service s.address (call req).frame f
  { s with toAsking := asking, attempts := s.attempts + 1 }.receive
    (answer.bind fun resp => (decodeReply .createTopic resp).toOption)

end Creating

/-- An attempt, a broker of which something else has made another, or bytes of a closed
connection that reach a broker. -/
inductive CreateEvent
  | attempt (f : Fate)
  | elsewhere (id : BrokerId) (b : ClusterBroker)
  | late (i : Nat) (f : Fate)

def createStep (service : Address → Service ClusterBrokers) (req : CreateTopicRequest)
    (s : Creating ClusterBrokers) : CreateEvent → Option (Creating ClusterBrokers)
  | .attempt f => if s.outcome = none then some (s.attempt service req f) else none
  | .elsewhere id b => some { s with
      brokers := { s.brokers with brokers := Function.update s.brokers.brokers id b } }
  | .late i f => (s.adrift[i]?).map fun w => { s with toAsking := s.late service f i w.1 w.2 }

/-- `create_topic` succeeds at this broker. -/
def ClusterBroker.Creates (b : ClusterBroker) : Prop := b.isLeader = true ∧ b.alive.ids ≠ []

/-- A broker that was the controller has placed the partitions round the alive brokers, and has
left all others where they were. -/
def Placed (req : CreateTopicRequest) (b b' : ClusterBroker) : Prop :=
  b.isLeader = true ∧ ∃ nonempty : b.alive.ids ≠ [], ∀ key : TopicPartition,
    b'.assignments[key]? =
      if key.1 = req.topic ∧ key.2 < req.numPartitions then
        some (b.alive.roundRobin nonempty (b.alive.factor req.replicationFactor) key.2)
      else b.assignments[key]?

/-! ## What one request creates -/

section Handler

variable {d : Deployment} {req : CreateTopicRequest} {b : ClusterBroker} {c : ClusterBrokers}
  {id : BrokerId}

theorem controllerRedirect_errorCode (peers : PeersTable) (leaderId : Int) :
    (controllerRedirect peers leaderId).errorCode = .notLeaderForPartition := by
  unfold controllerRedirect
  split <;> rfl

/-- A broker creates the topic, or it changes nothing. -/
inductive Handled (peers : PeersTable) (req : CreateTopicRequest) (id : BrokerId)
    (c : ClusterBrokers) : CreateTopicResponse × ClusterBrokers → Prop
  | created (b' : ClusterBroker) (placed : Placed req (c.brokers id) b') :
      Handled peers req id c ({ errorCode := .none, controllerHost := [] },
        { brokers := Function.update c.brokers id b'
          created := c.created ++ [(c.brokers id, b')] })
  | refused (unable : ¬(c.brokers id).Creates) :
      Handled peers req id c (controllerRedirect peers (c.brokers id).currentLeaderId, c)

theorem ClusterBrokers.createTopic_handled (peers : PeersTable) (req : CreateTopicRequest)
    (id : BrokerId) (c : ClusterBrokers) : Handled peers req id c (c.createTopic peers id req) := by
  unfold ClusterBrokers.createTopic ClusterBroker.handleCreateTopic
  split
  · next result b hresult =>
      split at hresult
      · next hnone =>
          obtain ⟨rfl, rfl⟩ := Prod.mk.inj hresult
          rw [if_neg (by rw [controllerRedirect_errorCode]; decide), Function.update_eq_self]
          refine .refused fun creates => ?_
          simp [Assignments.createTopic, creates.1, creates.2] at hnone
      · next parts d hsome =>
          obtain ⟨rfl, rfl⟩ := Prod.mk.inj hresult
          rw [if_pos rfl]
          refine .created _ ?_
          cases hlead : (c.brokers id).isLeader with
          | false => simp [Assignments.createTopic, hlead] at hsome
          | true => exact ⟨hlead, createTopic_getElem? (hlead ▸ hsome)⟩

/-- What the broker that gets the request does. -/
theorem handle_create (fits : (Creating.call req).Fits) (addr : Address) (c : ClusterBrokers) :
    handle (d.service addr) (Creating.call req).frame c =
      (.ok (Reply.frame ⟨.createTopic, 1, (c.createTopic d.peers (d.listens addr) req).1⟩),
        (c.createTopic d.peers (d.listens addr) req).2) :=
  handle_frame fits

/-- A request that is got creates the topic once at most. -/
theorem created_got (fits : (Creating.call req).Fits) (addr : Address)
    (placed : ∀ x ∈ c.created, Placed req x.1 x.2) {got : List RequestFrame}
    (once : got <+: [(Creating.call req).frame]) :
    let c' := got.foldl (fun c frame => (handle (d.service addr) frame c).2) c
    (∀ x ∈ c'.created, Placed req x.1 x.2) ∧
      c'.created.length ≤ c.created.length + got.length := by
  intro c'
  rcases prefix_singleton once with rfl | rfl
  · exact ⟨placed, Nat.le_refl _⟩
  · have hc' : c' = (c.createTopic d.peers (d.listens addr) req).2 :=
      congrArg Prod.snd (handle_create fits addr c)
    have hhandled := c.createTopic_handled d.peers req (d.listens addr)
    rw [hc']
    generalize c.createTopic d.peers (d.listens addr) req = r at hhandled
    cases hhandled with
    | created b' hplaced =>
        refine ⟨fun x hx => ?_, List.length_append.le⟩
        rcases List.mem_append.mp hx with hold | hnew
        · exact placed x hold
        · rw [List.mem_singleton.mp hnew]
          exact hplaced
    | refused unable => exact ⟨placed, Nat.le_succ _⟩

/-- The response that sends the client to the controller fits its fields. -/
theorem controllerRedirect_fits (hosts : d.Fits) (leaderId : Int) :
    StringFits (controllerRedirect d.peers leaderId).controllerHost := by
  unfold controllerRedirect
  split
  · dsimp only
    cases hpeer : d.peers[UInt32.ofInt leaderId]? with
    | none => exact (by decide : StringFits [])
    | some a => exact hosts _ a hpeer
  · exact (by decide : StringFits [])

theorem createReply_fits {resp : CreateTopicResponse} (h : StringFits resp.controllerHost) :
    (responseBody (Reply.frame ⟨.createTopic, 1, resp⟩)).length < 2 ^ 32 := by
  have hlen : resp.controllerHost.length < 2 ^ 16 := h
  have hbody : (responseBody (Reply.frame ⟨.createTopic, 1, resp⟩)).length =
      16 + resp.controllerHost.length := by
    change (putU32 1 ++ encodeCreateTopicResponse resp).length = _
    simp only [encodeCreateTopicResponse, putErrorCode, putI16, putString, putU16,
      List.length_append, List.length_cons, List.length_nil, putU32_length]
    omega
  omega

end Handler

/-! ## Runs -/

section Run

variable {d : Deployment} {req : CreateTopicRequest} {s t : Creating ClusterBrokers} {f f' : Fate}

theorem Creating.receive_created {resp : CreateTopicResponse} (ok : resp.errorCode = .none) :
    s.receive (some resp) = { s with outcome := some .created } := by
  have hstay : ¬(resp.errorCode = .notLeaderForPartition ∧ resp.controllerHost ≠ []) := by
    rw [ok]
    exact fun h => absurd h.1 (by decide)
  rw [Creating.receive, if_neg hstay, if_neg (not_not_intro ok)]

/-- A refusal ends the loop, or leads to another attempt. -/
theorem Creating.receive_refused {resp : CreateTopicResponse}
    (refused : resp.errorCode = .notLeaderForPartition) :
    ∃ address outcome, s.receive (some resp) = { s with address := address, outcome := outcome } ∧
      outcome ≠ some .created ∧ outcome ≠ some .threw ∧ (outcome = none → s.attempts < 3) := by
  simp only [Creating.receive, refused, true_and]
  split
  · refine ⟨_, _, rfl, ?_⟩
    split
    · next hmore => exact ⟨nofun, nofun, fun _ => hmore⟩
    · exact ⟨by decide, by decide, nofun⟩
  · rw [if_pos (by decide)]
    exact ⟨s.address, _, rfl, by decide, by decide, nofun⟩

/-- How an attempt ends. One that is answered leaves nothing on the way that was not there
before. -/
inductive AttemptEnd (d : Deployment) (req : CreateTopicRequest) (s : Creating ClusterBrokers)
    (f : Fate) : Creating ClusterBrokers → Prop
  | threw {asking : Asking ClusterBrokers} (broken : ¬f.Clean)
      (asked : Asked d.service s.toAsking s.address (Creating.call req).frame (none, asking)) :
      AttemptEnd d req s f
        { s with toAsking := asking, attempts := s.attempts + 1, outcome := some .threw }
  | created {asking : Asking ClusterBrokers} {b : ClusterBroker}
      (placed : Placed req (s.brokers.brokers (d.listens s.address)) b)
      (brokers : asking.brokers.created =
        s.brokers.created ++ [(s.brokers.brokers (d.listens s.address), b)])
      (waiting : asking.waiting = s.waiting)
      (parts : ∀ w ∈ asking.adrift, w ∈ s.adrift ∨
        w.2 <+: framed (requestBody (Creating.call req).frame)) :
      AttemptEnd d req s f
        { s with toAsking := asking, attempts := s.attempts + 1, outcome := some .created }
  | refused {asking : Asking ClusterBrokers}
      (unable : ¬(s.brokers.brokers (d.listens s.address)).Creates)
      (brokers : asking.brokers = s.brokers) (waiting : asking.waiting = s.waiting)
      (parts : ∀ w ∈ asking.adrift, w ∈ s.adrift ∨
        w.2 <+: framed (requestBody (Creating.call req).frame)) :
      AttemptEnd d req s f
        (Creating.receive { s with toAsking := asking, attempts := s.attempts + 1 } (some
          (controllerRedirect d.peers
            (s.brokers.brokers (d.listens s.address)).currentLeaderId)))

theorem Creating.attempt_end (fits : (Creating.call req).Fits) (hosts : d.Fits)
    (s : Creating ClusterBrokers) (f : Fate) :
    AttemptEnd d req s f (s.attempt d.service req f) := by
  have hasked := s.ask_asked d.service s.address fits.frame f
  have hhandled := s.brokers.createTopic_handled d.peers req (d.listens s.address)
  have hhandle := handle_create (d := d) fits s.address s.brokers
  cases hcreate : s.brokers.createTopic d.peers (d.listens s.address) req with
  | mk resp c =>
      rw [hcreate] at hhandled hhandle
      have hhost : StringFits resp.controllerHost := by
        cases hhandled with
        | created b' placed => exact (by decide : StringFits [])
        | refused unable => exact controllerRedirect_fits hosts _
      unfold Creating.attempt
      cases hrun : s.ask d.service s.address (Creating.call req).frame f with
      | mk answer asking =>
          rw [hrun] at hasked
          cases answer with
          | none =>
              refine .threw (fun clean => ?_) hasked
              have hanswered := s.ask_clean s.address fits.frame clean (createReply_fits hhost)
                (congrArg Prod.fst hhandle)
              rw [hrun] at hanswered
              cases hanswered
          | some frame =>
              obtain ⟨answer, hanswer, -, hsame⟩ := hasked.answer frame rfl
              obtain ⟨hframe, hbrokers⟩ := Prod.mk.inj (hhandle.symm.trans hanswer)
              obtain rfl := Except.ok.inj hframe
              obtain rfl := hsame (createReply_fits hhost)
              have hdecoded : decodeReply .createTopic
                  (Reply.frame ⟨.createTopic, 1, resp⟩) = .ok resp :=
                decodeReply_frame (r := ⟨.createTopic, 1, resp⟩) hhost
              change AttemptEnd d req s f (Creating.receive _
                (decodeReply .createTopic (Reply.frame ⟨.createTopic, 1, resp⟩)).toOption)
              rw [hdecoded]
              cases hhandled with
              | created b' placed =>
                  change AttemptEnd d req s f (Creating.receive _ (some _))
                  rw [Creating.receive_created rfl]
                  exact .created placed (congrArg ClusterBrokers.created hbrokers.symm)
                    (hasked.spent rfl) hasked.parts
              | refused unable =>
                  exact .refused unable hbrokers.symm (hasked.spent rfl) hasked.parts

/-- What a run keeps. Only an attempt that threw may have left its request on the way, and only
that and one that was reported may have created anything. -/
structure CreatesOnce (req : CreateTopicRequest) (s : Creating ClusterBrokers) : Prop where
  placed : ∀ x ∈ s.brokers.created, Placed req x.1 x.2
  mine : ∀ w ∈ s.adrift, w.2 <+: framed (requestBody (Creating.call req).frame)
  once : s.brokers.created.length + s.waiting.length ≤ 1
  refused : s.outcome ≠ some .created → s.outcome ≠ some .threw →
    s.brokers.created = [] ∧ s.waiting = []
  reported : s.outcome = some .created → s.brokers.created.length = 1
  bound : s.attempts ≤ 3
  goesOn : s.outcome = none → s.attempts < 3

theorem CreatesOnce.attempt (h : CreatesOnce req s) (fits : (Creating.call req).Fits)
    (hosts : d.Fits) (running : s.outcome = none) (f : Fate) :
    CreatesOnce req (s.attempt d.service req f) := by
  obtain ⟨hcreated, hwaiting⟩ := h.refused (by rw [running]; nofun) (by rw [running]; nofun)
  have hmore : s.attempts + 1 ≤ 3 := h.goesOn running
  have hend := s.attempt_end fits hosts f
  generalize s.attempt d.service req f = u at hend
  cases hend with
  | @threw asking broken asked =>
      obtain ⟨got, left, -, hbrokers, hadrift, honce, -⟩ := asked.once
      obtain ⟨hplaced, hlength⟩ := created_got (d := d) fits s.address h.placed
        ((List.prefix_append _ _).trans honce)
      rw [← hbrokers] at hplaced hlength
      have hsmall : asking.brokers.created.length ≤ got.length := by
        rwa [hcreated, List.length_nil, Nat.zero_add] at hlength
      have hleft : asking.waiting = left.flatMap requestsIn := by
        rw [Asked.waiting hadrift, hwaiting, List.nil_append]
      have hcount := honce.length_le
      rw [List.length_append, List.length_singleton, ← hleft] at hcount
      refine ⟨hplaced, fun w hw => (asked.parts w hw).elim (h.mine w) id, ?_, nofun, nofun, hmore,
        nofun⟩
      change asking.brokers.created.length + asking.waiting.length ≤ 1
      omega
  | @created asking b placed brokers waiting parts =>
      rw [hcreated, List.nil_append] at brokers
      refine ⟨fun x hx => ?_, fun w hw => (parts w hw).elim (h.mine w) id, ?_, nofun,
        fun _ => congrArg List.length brokers, hmore, nofun⟩
      · change x ∈ asking.brokers.created at hx
        rw [brokers, List.mem_singleton] at hx
        rw [hx]
        exact placed
      · change asking.brokers.created.length + asking.waiting.length ≤ 1
        rw [brokers, waiting, hwaiting]
        exact Nat.le_refl 1
  | @refused asking unable brokers waiting parts =>
      rw [hwaiting] at waiting
      have hnone : asking.brokers.created = [] := by rw [brokers, hcreated]
      obtain ⟨address, outcome, hreceive, hnotCreated, hnotThrew, hmay⟩ :=
        Creating.receive_refused (s := { s with toAsking := asking, attempts := s.attempts + 1 })
          (controllerRedirect_errorCode d.peers _)
      rw [hreceive]
      refine ⟨fun x hx => ?_, fun w hw => (parts w hw).elim (h.mine w) id, ?_,
        fun _ _ => ⟨hnone, waiting⟩, fun hreported => absurd hreported hnotCreated, hmore, hmay⟩
      · change x ∈ asking.brokers.created at hx
        rw [hnone] at hx
        cases hx
      · change asking.brokers.created.length + asking.waiting.length ≤ 1
        rw [hnone, waiting]
        exact Nat.zero_le 1

theorem CreatesOnce.late (h : CreatesOnce req s) (fits : (Creating.call req).Fits) {i : Nat}
    {w : Address × Bytes} (hi : s.adrift[i]? = some w) (f : Fate) :
    CreatesOnce req { s with toAsking := s.late d.service f i w.1 w.2 } := by
  obtain ⟨got, hgot, -, hbrokers, hcount⟩ := s.late_got d.service f hi
  have hpart := h.mine w (List.mem_of_getElem? hi)
  obtain ⟨hplaced, hlength⟩ := created_got (d := d) fits w.1 h.placed
    (hgot.trans (requestsIn_part fits.frame hpart))
  rw [← hbrokers] at hplaced hlength
  have hall := hcount fun _ => true
  simp only [List.countP_true] at hall
  have hmine : ∀ v ∈ (s.late d.service f i w.1 w.2).adrift,
      v.2 <+: framed (requestBody (Creating.call req).frame) :=
    fun v hv => h.mine v (List.mem_of_mem_eraseIdx hv)
  generalize s.late d.service f i w.1 w.2 = asking at *
  have honce := h.once
  have hnothing : got = [] → asking.brokers = s.brokers := by
    rintro rfl
    exact hbrokers
  refine ⟨hplaced, hmine, ?_, ?_, ?_, h.bound, h.goesOn⟩
  · change asking.brokers.created.length + asking.waiting.length ≤ 1
    omega
  · intro hnotCreated hnotThrew
    obtain ⟨hcreated, hwaiting⟩ := h.refused hnotCreated hnotThrew
    rw [hwaiting, List.length_nil] at hall
    have hsame := hnothing (List.length_eq_zero_iff.mp (by omega))
    have hnone : asking.waiting = [] := List.length_eq_zero_iff.mp (by omega)
    exact ⟨(congrArg ClusterBrokers.created hsame).trans hcreated, hnone⟩
  · intro hreported
    have hone := h.reported hreported
    have hsame := hnothing (List.length_eq_zero_iff.mp (by omega))
    exact (congrArg (fun c => c.created.length) hsame).trans hone

/-- A broker that does not create topics knows which one does, and where that one listens. -/
def Deployment.KnowsController (d : Deployment) (c : ClusterBrokers) (b : ClusterBroker) : Prop :=
  ¬b.Creates ∧ ∃ id addr, b.currentLeaderId = idAsInt id ∧ d.peers[id]? = some addr ∧
    addr.host ≠ [] ∧ d.listens addr = id ∧ (c.brokers id).Creates

theorem controllerRedirect_known {id : BrokerId} {addr : Address}
    (known : d.peers[id]? = some addr) :
    controllerRedirect d.peers (idAsInt id) =
      ⟨.notLeaderForPartition, id, addr.host, addr.port.toUInt32⟩ := by
  have hlt := id.toNat_lt
  have hid : UInt32.ofInt (idAsInt id) = id := by
    rw [idAsInt, UInt32.ofInt, Int.emod_eq_of_lt (by omega) (by omega), Int.toNat_natCast,
      UInt32.ofNat_toNat]
  rw [controllerRedirect, if_pos (by rw [idAsInt]; omega), hid]
  dsimp only
  rw [known]
  rfl

/-- An unbroken attempt at a broker that creates topics is the last one. -/
theorem Creating.attempt_creates (fits : (Creating.call req).Fits) (hosts : d.Fits)
    (s : Creating ClusterBrokers) (clean : f.Clean)
    (creates : (s.brokers.brokers (d.listens s.address)).Creates) :
    (s.attempt d.service req f).outcome = some .created := by
  have hend := s.attempt_end fits hosts f
  generalize s.attempt d.service req f = u at hend
  cases hend with
  | threw broken asked => exact absurd clean broken
  | created placed brokers waiting parts => rfl
  | refused unable brokers waiting parts => exact absurd creates unable

/-- An unbroken attempt at a broker that knows the controller leads there. -/
theorem Creating.attempt_redirected (fits : (Creating.call req).Fits) (hosts : d.Fits)
    (s : Creating ClusterBrokers) (clean : f.Clean) (more : s.attempts + 1 < 3)
    (knows : d.KnowsController s.brokers (s.brokers.brokers (d.listens s.address))) :
    let t := s.attempt d.service req f
    t.outcome = none ∧ (t.brokers.brokers (d.listens t.address)).Creates := by
  obtain ⟨hfollows, id, addr, hleader, haddr, hhost, hlistens, hcreates⟩ := knows
  intro t
  have hend : AttemptEnd d req s f t := s.attempt_end fits hosts f
  generalize t = u at hend
  cases hend with
  | threw broken asked => exact absurd clean broken
  | created placed brokers waiting parts =>
      obtain ⟨hlead, nonempty, -⟩ := placed
      exact absurd ⟨hlead, nonempty⟩ hfollows
  | @refused asking unable brokers waiting parts =>
      rw [hleader, controllerRedirect_known haddr, Creating.receive, if_pos ⟨rfl, hhost⟩,
        if_pos more]
      refine ⟨rfl, ?_⟩
      have hport : addr.port.toUInt32.toUInt16 = addr.port := by simp
      change (asking.brokers.brokers (d.listens ⟨addr.host, addr.port.toUInt32.toUInt16⟩)).Creates
      rw [hport, brokers, hlistens]
      exact hcreates

/-- Whatever breaks and whoever is the controller meanwhile, one run of `mk-admin` creates the
topic at most once, also with what reaches a broker after it has ended. What it reports was
created, and if it was refused nothing was and nothing will be. Two unbroken attempts do where
the broker that is asked knows the controller, and one at the controller. -/
theorem topic_created_once {brokers : BrokerId → ClusterBroker} {address : Address}
    {visits : List (Creating ClusterBrokers × CreateEvent)} (fits : (Creating.call req).Fits)
    (hosts : d.Fits) (run : Run (createStep d.service req)
      { brokers := { brokers := brokers }, address := address } visits t) :
    t.attempts ≤ 3 ∧ t.brokers.created.length ≤ 1 ∧
      (∀ x ∈ t.brokers.created, Placed req x.1 x.2) ∧
      (t.outcome = some .created → t.brokers.created.length = 1) ∧
      (t.outcome ≠ some .created → t.outcome ≠ some .threw →
        t.brokers.created = [] ∧ t.waiting = []) ∧
      (t.outcome = none → ∀ f f', f.Clean → f'.Clean →
        ((t.brokers.brokers (d.listens t.address)).Creates →
          (t.attempt d.service req f).outcome = some .created) ∧
        (t.attempts ≤ 1 →
          d.KnowsController t.brokers (t.brokers.brokers (d.listens t.address)) →
          ∃ u, execute (createStep d.service req) t [.attempt f, .attempt f'] = some u ∧
            u.outcome = some .created)) := by
  have honce : CreatesOnce req t := by
    refine run.always ⟨nofun, nofun, Nat.zero_le 1, fun _ _ => ⟨rfl, rfl⟩, nofun,
      Nat.zero_le 3, fun _ => Nat.succ_pos 2⟩ ?_
    intro s e u h hstep
    cases e with
    | attempt f =>
        simp only [createStep] at hstep
        split at hstep
        · next running =>
            obtain rfl := Option.some.inj hstep
            exact h.attempt fits hosts running f
        · cases hstep
    | elsewhere id b =>
        obtain rfl := Option.some.inj hstep
        exact ⟨h.placed, h.mine, h.once, h.refused, h.reported, h.bound, h.goesOn⟩
    | late i f =>
        obtain ⟨w, hi, rfl⟩ := Option.map_eq_some_iff.mp hstep
        exact h.late fits hi f
  refine ⟨honce.bound, (Nat.le_add_right _ _).trans honce.once, honce.placed, honce.reported,
    honce.refused, fun running f f' clean clean' => ⟨?_, ?_⟩⟩
  · exact t.attempt_creates fits hosts clean
  · intro few knows
    obtain ⟨hnext, hcreates⟩ := t.attempt_redirected fits hosts clean (by omega) knows
    have hfirst : createStep d.service req t (.attempt f) =
        some (t.attempt d.service req f) := if_pos running
    have hsecond : createStep d.service req (t.attempt d.service req f) (.attempt f') =
        some ((t.attempt d.service req f).attempt d.service req f') := if_pos hnext
    refine ⟨_, ?_, Creating.attempt_creates fits hosts _ clean' hcreates⟩
    simp only [execute, hfirst, hsecond]

end Run

/-- The second broker listens at its entry of the table, and the first everywhere else. -/
def twoBrokers : Deployment where
  peers := .ofList twoPeers
  listens addr := if addr.host = [58, 58, 49] then 2 else 1
  others _ _ _ c := (.error (.runtime "not here"), c)

/-- A broker of the two that takes the second for the controller. -/
def besideSecond (isLeader : Bool) : ClusterBroker := ⟨isLeader, .oneTwo, 2, ∅⟩

/-- The second broker becomes the controller, and then the first is asked. -/
theorem topic_created_once_redirected :
    ∃ visits t u, Run (createStep twoBrokers.service ⟨[116], 3, 2⟩)
        { brokers := { brokers := fun _ => besideSecond false }
          address := ⟨[104], 9091⟩ } visits t ∧
      execute (createStep twoBrokers.service ⟨[116], 3, 2⟩) t [.attempt {}, .attempt {}] =
        some u ∧ u.outcome = some .created := by
  have run := Run.refl.tail (rfl : createStep twoBrokers.service ⟨[116], 3, 2⟩
    { brokers := { brokers := fun _ => besideSecond false }, address := ⟨[104], 9091⟩ }
    (.elsewhere 2 (besideSecond true)) = some _)
  have fits : (Creating.call ⟨[116], 3, 2⟩).Fits :=
    ⟨(by decide : StringFits [116]), by decide⟩
  have hosts : twoBrokers.Fits := by
    intro id a ha
    have hall : ∀ e ∈ twoPeers, StringFits e.2.host := by decide
    exact hall (id, a) ((getElem?_ofList_iff (by decide)).mp ha)
  have clean : Fate.Clean {} := ⟨rfl, nofun, rfl, nofun, rfl⟩
  have haddr : twoBrokers.peers[(2 : BrokerId)]? = some ⟨[58, 58, 49], 9092⟩ := by decide +kernel
  obtain ⟨-, -, -, -, -, hunbroken⟩ := topic_created_once fits hosts run
  obtain ⟨-, hredirected⟩ := hunbroken rfl {} {} clean clean
  obtain ⟨u, hrun, hcreated⟩ := hredirected (by decide)
    ⟨fun creates => Bool.noConfusion creates.1, 2, _, rfl, haddr, by decide, rfl, rfl,
      List.cons_ne_nil _ _⟩
  exact ⟨_, _, u, run, hrun, hcreated⟩

end MiniKafka.Client
