import MiniKafka.Client.Producer

/-!
# What a producer has produced

`mk-produce` at a broker without peers. Whatever breaks on its connections, and whatever else is
called, cut off or restarted at the broker, an offset that it reports is where the log has its
record, from then on.
-/

namespace MiniKafka.Client

open Broker Cluster Common Foundations Net Protocol Storage

section Stored

variable {γ : Type} {cfg : BrokerConfig} {groups : Service γ} {restart : γ → γ}
  {args : ProduceArgs} {b b' : Standalone γ} {s t : Producing (Standalone γ)}

/-- The log has the record at this offset. -/
def Stores (args : ProduceArgs) (b : Standalone γ) (offset : UInt64) : Prop :=
  ∃ stored, (b.logs (args.topic, args.partitionId))[offset.toNat]? = some stored ∧
    stored.producer = args.record.producer

theorem Stores.grow {offset : UInt64} (h : Stores args b offset) (grown : b.logs.Extends b'.logs) :
    Stores args b' offset := by
  obtain ⟨stored, hstored, hproducer⟩ := h
  obtain ⟨hlt, rfl⟩ := List.getElem?_eq_some_iff.mp hstored
  exact ⟨_, List.prefix_iff_getElem?.mp (grown _) _ hlt, hproducer⟩

/-- A call that the broker takes, or none. -/
theorem moved_grows {call : Call} (h : b.Sound) (takes : Takes b (.call call.type call.request))
    (fits : call.Fits) (moved : b' = b ∨
      b' = (handle (standalone cfg groups) call.frame b).2) :
    b'.Sound ∧ b.logs.Extends b'.logs := by
  rcases moved with rfl | rfl
  · exact ⟨h, Logs.extends_of_eq rfl⟩
  · rw [handle_frame fits]
    have hstep : standaloneStep cfg groups id b (.call call.type call.request) =
        some (standalone cfg groups call.type call.request b).2 := rfl
    obtain ⟨hsound, hlog⟩ := standaloneStep_logs h takes hstep
    exact ⟨hsound, hlog.grows⟩

/-- The Produce that the broker answers stores the record at the answered offset. -/
theorem produce_stores (h : b.Sound) (takes : Takes b (.call .produce args.request))
    {resp : ProduceResponse}
    (answered : standalone cfg groups .produce args.request b = (.ok resp, b')) :
    Stores args b' resp.baseOffset := by
  obtain ⟨⟨now, hlogs⟩, hresp⟩ := (call_logs cfg groups h takes).2
  rw [answered] at hlogs hresp
  obtain rfl := Except.ok.inj hresp
  let log := b.logs (args.topic, args.partitionId)
  have hlt : log.length < 2 ^ 63 := (h.numbered (args.topic, args.partitionId)).2
  have hbase : (UInt64.ofNat log.length).toNat = log.length := by
    rw [UInt64.toNat_ofNat']
    omega
  have hlog : b'.logs (args.topic, args.partitionId) =
      log ++ place log.length [args.record.timed now] := by
    change b'.logs = _ at hlogs
    rw [hlogs]
    exact Function.update_self _ _ _
  refine ⟨{ args.record.timed now with offset := UInt64.ofNat log.length }, ?_, rfl⟩
  change (b'.logs (args.topic, args.partitionId))[(UInt64.ofNat log.length).toNat]? = _
  rw [hbase, hlog, List.getElem?_append_right (Nat.le_refl _), Nat.sub_self]
  rfl

end Stored

/-! ## Runs at a standalone broker -/

section Run

variable {γ : Type} (cfg : BrokerConfig) (groups : Service γ) (restart : γ → γ)
  (args : ProduceArgs)

/-- Every address leads to the one broker. -/
def standaloneProduce : Producing (Standalone γ) → ProduceEvent StandaloneEvent →
    Option (Producing (Standalone γ)) :=
  produceStep (fun _ => standalone cfg groups) (standaloneStep cfg groups restart) args

/-- What the producer and other clients write fits. -/
def ProduceTakes (s : Producing (Standalone γ)) : ProduceEvent StandaloneEvent → Prop
  | .elsewhere e => Takes s.brokers e
  | _ => Takes s.brokers (.call .produce args.request)

instance (s : Producing (Standalone γ)) :
    (e : ProduceEvent StandaloneEvent) → Decidable (ProduceTakes args s e)
  | .elsewhere e => inferInstanceAs (Decidable (Takes s.brokers e))
  | .turn _ _ | .late _ _ =>
      inferInstanceAs (Decidable (Takes s.brokers (.call .produce args.request)))

/-- The requests of the producer. -/
inductive Mine (args : ProduceArgs) : Call → Prop
  | produce (correlationId : UInt32) : Mine args ⟨.produce, correlationId, args.request⟩
  | metadata : Mine args (Producing.metadataCall args)

/-- What a run keeps: what is under way are parts of the producer's requests, and the offset it
has reported is where its record is. -/
structure Keeping (s : Producing (Standalone γ)) : Prop where
  sound : s.brokers.Sound
  mine : ∀ w ∈ s.adrift, ∃ call, Mine args call ∧ w.2 <+: framed (requestBody call.frame)
  kept : ∀ baseOffset, s.pace.outcome = some (.produced baseOffset) →
    Stores args s.brokers baseOffset

end Run

section Kept

variable {γ : Type} {cfg : BrokerConfig} {groups : Service γ} {restart : γ → γ}
  {args : ProduceArgs} {s t : Producing (Standalone γ)} {call : Call} {f resolve : Fate}

theorem Mine.fits (h : Mine args call) (fits : args.Fits) : call.Fits := by
  cases h with
  | produce correlationId => exact ⟨fits.request, fits.frame correlationId⟩
  | metadata => exact ⟨fits.request.topic, fits.metadata⟩

/-- The Metadata request of the producer, at any broker. -/
theorem metadata_takes {b b' : Standalone γ} (takes : Takes b (.call .produce args.request)) :
    Takes b' (.call .metadata ⟨args.topic⟩) := by
  have hname : ∀ topic ∈ some args.topic, TopicName topic := by
    intro topic htopic
    obtain rfl := Option.some.inj htopic
    exact takes.named.1 (args.topic, args.partitionId) rfl
  exact ⟨⟨nofun, hname, nofun⟩, nofun⟩

theorem Mine.takes (h : Mine args call) {b : Standalone γ}
    (takes : Takes b (.call .produce args.request)) :
    Takes b (.call call.type call.request) := by
  cases h with
  | produce correlationId => exact takes
  | metadata => exact metadata_takes takes

/-- A request of the producer keeps what holds of the broker and of what is under way. -/
theorem Asked.keeps {s : Asking (Standalone γ)} {peer : Address}
    {r : Option ResponseFrame × Asking (Standalone γ)}
    (h : Asked (fun _ => standalone cfg groups) s peer call.frame r) (mine : Mine args call)
    (fits : args.Fits) (sound : s.brokers.Sound)
    (takes : Takes s.brokers (.call call.type call.request))
    (adrift : ∀ w ∈ s.adrift, ∃ call, Mine args call ∧ w.2 <+: framed (requestBody call.frame)) :
    r.2.brokers.Sound ∧ s.brokers.logs.Extends r.2.brokers.logs ∧
      ∀ w ∈ r.2.adrift, ∃ call, Mine args call ∧ w.2 <+: framed (requestBody call.frame) := by
  obtain ⟨hsound, hgrown⟩ := moved_grows sound takes (mine.fits fits) h.brokers
  refine ⟨hsound, hgrown, fun w hw => ?_⟩
  rcases h.parts w hw with hold | hnew
  · exact adrift w hold
  · exact ⟨call, mine, hnew⟩

/-- A turn stores the record where it reports it. -/
theorem Keeping.turn (h : Keeping args s) (fits : args.Fits) (running : s.pace.outcome = none)
    (takes : Takes s.brokers (.call .produce args.request)) (f resolve : Fate) :
    Keeping args (s.turn (fun _ => standalone cfg groups) args f resolve) := by
  have hkept : ∀ baseOffset,
      (s.turn (fun _ => standalone cfg groups) args f resolve).pace.outcome =
        some (.produced baseOffset) →
      Stores args (s.turn (fun _ => standalone cfg groups) args f resolve).brokers
        baseOffset := by
    intro baseOffset houtcome
    have small : ∀ p resp, (standalone cfg groups .produce args.request p).1 = .ok resp →
        StringFits resp.leaderHost := by
      rintro p resp hresp
      obtain rfl := Except.ok.inj hresp
      exact (by decide : StringFits [])
    obtain ⟨resp, hanswered, -, rfl⟩ := Producing.turn_produced fits small running houtcome
    exact produce_stores h.sound takes hanswered
  obtain ⟨r, hasked, -, hproduced⟩ := s.begin.produce_asked (fun _ => standalone cfg groups) fits f
  obtain ⟨hsound, -, hmine⟩ := hasked.keeps (Mine.produce _) fits h.sound takes h.mine
  rw [← hproduced] at hsound hmine
  have hend := s.turn_end (fun _ => standalone cfg groups) args f resolve
  generalize s.turn (fun _ => standalone cfg groups) args f resolve = u at hend hkept ⊢
  generalize (s.begin.produce (fun _ => standalone cfg groups) args f).2 = begun
    at hsound hmine hend
  cases hend with
  | produced got ok => exact ⟨hsound, hmine, hkept⟩
  | redirected got moved => exact ⟨hsound, hmine, hkept⟩
  | failed =>
      obtain ⟨r', hasked', hbackOff, -⟩ :=
        begun.backOff_asked (fun _ => standalone cfg groups) fits resolve
      obtain ⟨hsound', -, hmine'⟩ :=
        hasked'.keeps Mine.metadata fits hsound (metadata_takes takes) hmine
      rw [← hbackOff] at hsound' hmine'
      exact ⟨hsound', hmine', hkept⟩

theorem Keeping.elsewhere (h : Keeping args s) {b : Standalone γ} (sound : b.Sound)
    (grown : s.brokers.logs.Extends b.logs) : Keeping args { s with brokers := b } :=
  ⟨sound, h.mine, fun baseOffset houtcome => (h.kept baseOffset houtcome).grow grown⟩

/-- What reaches the broker late is a part of a request of the producer. -/
theorem Keeping.late (h : Keeping args s) (fits : args.Fits) {i : Nat} {w : Address × Bytes}
    (hi : s.adrift[i]? = some w) (takes : Takes s.brokers (.call .produce args.request))
    (f : Fate) :
    Keeping args { s with toAsking := s.late (fun _ => standalone cfg groups) f i w.1 w.2 } := by
  obtain ⟨call, mine, hpart⟩ := h.mine w (List.mem_of_getElem? hi)
  have hmoved := served_part (handle (standalone cfg groups))
    { peer := s.brokers, heard := s.heard } f (mine.fits fits).frame hpart
  obtain ⟨hsound, hgrown⟩ := moved_grows h.sound (mine.takes takes) (mine.fits fits) hmoved
  have hnext := h.elsewhere hsound hgrown
  exact ⟨hnext.sound, fun v hv => h.mine v (List.mem_of_mem_eraseIdx hv), hnext.kept⟩

theorem Keeping.step (h : Keeping args s) (fits : args.Fits)
    {e : ProduceEvent StandaloneEvent} (takes : ProduceTakes args s e)
    (hstep : standaloneProduce cfg groups restart args s e = some t) : Keeping args t := by
  cases e with
  | turn f resolve =>
      simp only [standaloneProduce, produceStep] at hstep
      split at hstep
      · next running =>
          obtain rfl := Option.some.inj hstep
          exact h.turn fits running takes f resolve
      · cases hstep
  | elsewhere e =>
      obtain ⟨b, hb, rfl⟩ := Option.map_eq_some_iff.mp hstep
      obtain ⟨hsound, hlog⟩ := standaloneStep_logs h.sound takes hb
      exact h.elsewhere hsound hlog.grows
  | late i f =>
      obtain ⟨w, hi, rfl⟩ := Option.map_eq_some_iff.mp hstep
      exact h.late fits hi takes f

/-- When `mk-produce` has reported an offset of a broker without peers, every later fetch at
this offset begins with its record, whatever broke before and whatever is called, cut off or
restarted after it, and also if others come between the two sections of the fetch. -/
theorem produced_fetched {g : γ} {clock : Nat → UInt64} {address : Address}
    {correlationId : UInt32}
    {visits : List (Producing (Standalone γ) × ProduceEvent StandaloneEvent)} (fits : args.Fits)
    (run : Run (standaloneProduce cfg groups restart args)
      { brokers := { groupCoordinator := g, clock := clock }, address := address
        correlationId := correlationId } visits t)
    (takes : Guarded (ProduceTakes args) visits) {baseOffset : UInt64}
    (produced : t.pace.outcome = some (.produced baseOffset)) (ask : FetchRequest)
    (topic : ask.topic = args.topic) (partition : ask.partitionId = args.partitionId)
    (offset : ask.fetchOffset = baseOffset) :
    ∃ answer first, (standalone cfg groups .fetch ask t.brokers).1 = .ok answer ∧
      (t.brokers.readFetch ask).1.records = answer.records ∧ answer.errorCode = .none ∧
      answer.records.head? = some first ∧
      first.offset = baseOffset ∧ first.producer = args.record.producer := by
  have start : Keeping args ({ brokers := { groupCoordinator := g, clock := clock }
                               address := address
                               correlationId := correlationId } : Producing (Standalone γ)) :=
    ⟨Standalone.sound_start g clock, nofun, nofun⟩
  have hkeeping : Keeping args t :=
    run.invariant takes start fun t e u hG h hstep => h.step fits hG hstep
  obtain ⟨stored, hstored, hproducer⟩ := hkeeping.kept baseOffset produced
  obtain ⟨hnum, hlt⟩ := hkeeping.sound.numbered (args.topic, args.partitionId)
  obtain ⟨hbelow, rfl⟩ := List.getElem?_eq_some_iff.mp hstored
  obtain ⟨-, -, records, hanswers, hfetch⟩ := fetch_logs cfg ask hkeeping.sound
  rw [topic, partition, offset] at hanswers
  obtain ⟨hpart, hend⟩ := hanswers (hbelow.trans hlt)
  cases records with
  | nil => exact absurd (hend rfl) (Nat.not_le_of_lt hbelow)
  | cons first rest =>
      rw [List.drop_eq_getElem_cons hbelow] at hpart
      obtain ⟨rfl, -⟩ := List.cons_prefix_cons.mp hpart
      have hplace := hnum.offset_getElem hbelow
      rw [Nat.zero_add] at hplace
      have hread := congrArg FetchResponse.records (Except.ok.inj hfetch)
      exact ⟨_, _, hfetch, hread, rfl, rfl, UInt64.toNat_inj.mp hplace, hproducer⟩

end Kept

/-- The answer to the first attempt is lost, and the broker restarts before the second. -/
def lostAnswer : List (ProduceEvent StandaloneEvent) :=
  [.turn { returned := some 3 } { connects := false }, .elsewhere .crash,
    .elsewhere (.call .produce twoRecords), .turn {} {}, .elsewhere .crash]

theorem produced_fetched_lost :
    ∃ visits t answer first, Run (standaloneProduce oneBroker noGroups id oneRecord)
        { brokers := { groupCoordinator := (), clock := UInt64.ofNat }
          address := ⟨[97], 9092⟩ } visits t ∧
      (standalone oneBroker noGroups .fetch ⟨[116], 0, 3, 100⟩ t.brokers).1 = .ok answer ∧
      answer.records.head? = some first ∧ first.offset = 3 ∧ first.producer = ⟨[1], [10]⟩ := by
  have seen : (execute (standaloneProduce oneBroker noGroups id oneRecord)
      { brokers := { groupCoordinator := (), clock := UInt64.ofNat }
        address := ⟨[97], 9092⟩ } lostAnswer).map (fun t => t.pace.outcome) =
      some (some (.produced 3)) := by
    decide +kernel
  obtain ⟨t, run, houtcome⟩ := run_showing seen
  have takes : Guarded (ProduceTakes oneRecord)
      (trace (standaloneProduce oneBroker noGroups id oneRecord)
        { brokers := { groupCoordinator := (), clock := UInt64.ofNat }
          address := ⟨[97], 9092⟩ } lostAnswer) := by
    decide +kernel
  obtain ⟨answer, first, hanswer, -, -, hhead, hoffset, hproducer⟩ :=
    produced_fetched oneRecord_fits run takes houtcome ⟨[116], 0, 3, 100⟩ rfl rfl rfl
  exact ⟨_, t, answer, first, run, hanswer, hhead, hoffset, hproducer⟩

end MiniKafka.Client
