import MiniKafka.Foundations.LocalDecoder
import MiniKafka.Foundations.StreamReader

/-!
# Serving a stream of requests

A server takes requests from a stream, hands each to a handler and sends the answer, in a
loop that ends where one of the three fails. What it does is then determined by the requests
that are whole in the stream: it handles the first of them, all unless an answer could not be
sent, and what it has sent are the answers to these up to a cut in the last one.
-/

namespace MiniKafka.Foundations

universe u v

variable {ε ε' : Type v} {β α γ ρ ω σ : Type u}

/-- The answers to a row of requests up to the first that gets none, and the state then. -/
def answerEach (handle : α → σ → Except ε γ × σ) : List α → σ → List γ × σ
  | [], s => ([], s)
  | a :: rest, s =>
      match handle a s with
      | (.error _, s) => ([], s)
      | (.ok c, s) =>
          let (answers, s) := answerEach handle rest s
          (c :: answers, s)

/-- The loop from a source, a sink and a state to the sink and the state it leaves. -/
inductive Serves (read : StateT ρ (Except ε) α) (handle : α → σ → Except ε γ × σ)
    (write : γ → ω → Except ε Unit × ω) : ρ → ω → σ → ω → σ → Prop
  | ended {r w s e} (unread : read.run r = .error e) : Serves read handle write r w s w s
  | thrown {r w s a r' e s'} (got : read.run r = .ok (a, r'))
      (failed : handle a s = (.error e, s')) : Serves read handle write r w s w s'
  | broken {r w s a r' c s' e w'} (got : read.run r = .ok (a, r'))
      (answer : handle a s = (.ok c, s')) (unsent : write c w = (.error e, w')) :
      Serves read handle write r w s w' s'
  | answered {r w s a r' c s' w' w'' s''} (got : read.run r = .ok (a, r'))
      (answer : handle a s = (.ok c, s')) (sent : write c w = (.ok (), w'))
      (rest : Serves read handle write r' w' s' w'' s'') :
      Serves read handle write r w s w'' s''

/-- A writer sends the code of a value, or a part of it and fails. -/
def Writes (view : ω → List β) (encode : γ → List β) (write : γ → ω → Except ε Unit × ω) :
    Prop :=
  ∀ c w, ∃ part, part <+: encode c ∧ view (write c w).2 = view w ++ part ∧
    ((write c w).1 = .ok () ↔ part = encode c)

section AnswerEach

variable {handle : α → σ → Except ε γ × σ} {requests handled : List α}

theorem answerEach_part (h : handled <+: requests) (s : σ) :
    (answerEach handle handled s).1 <+: (answerEach handle requests s).1 := by
  induction handled generalizing requests s with
  | nil => exact List.nil_prefix
  | cons a handled ih =>
      obtain ⟨rest, rfl, hrest⟩ := List.cons_prefix_iff.mp h
      rw [answerEach, answerEach]
      split
      · exact List.prefix_refl _
      · exact List.cons_prefix_cons.mpr ⟨rfl, ih hrest _⟩

/-- What every answer has from its request, the row of answers has from the requests. -/
theorem answerEach_map {δ : Type*} {ask : α → δ} {tell : γ → δ}
    (echoes : ∀ a s c t, handle a s = (.ok c, t) → tell c = ask a) (requests : List α) (s : σ) :
    (answerEach handle requests s).1.map tell <+: requests.map ask := by
  induction requests generalizing s with
  | nil => exact List.prefix_refl _
  | cons a rest ih =>
      rw [answerEach]
      split
      · exact List.nil_prefix
      · next c t hanswer =>
          rw [List.map_cons, List.map_cons, echoes a s c t hanswer]
          exact List.cons_prefix_cons.mpr ⟨rfl, ih t⟩

/-- Handlers that answer alike answer rows of requests alike. -/
theorem answerEach_image {α' γ' : Type u} {handle' : α' → σ → Except ε γ' × σ} {f : α → α'}
    {g : γ → γ'} {requests : List α}
    (alike : ∀ a ∈ requests, ∀ s, handle' (f a) s = ((handle a s).1.map g, (handle a s).2))
    (s : σ) : answerEach handle' (requests.map f) s =
      ((answerEach handle requests s).1.map g, (answerEach handle requests s).2) := by
  induction requests generalizing s with
  | nil => rfl
  | cons a rest ih =>
      have ha := alike a List.mem_cons_self s
      rw [List.map_cons, answerEach, answerEach, ha]
      cases handle a s with
      | mk answer t =>
          cases answer with
          | error e => rfl
          | ok c =>
              change (g c :: _, _) = _
              rw [ih fun b hb => alike b (List.mem_cons_of_mem a hb)]
              rfl

end AnswerEach

section Refines

variable {view : ρ → List β} {read : StateT ρ (Except ε') α} {d : Decoder ε β α} {r r' : ρ}

/-- What the reader gets, the decoder gets. -/
theorem Refines.of_ok (h : Refines view read d) {a : α} (hread : read.run r = .ok (a, r')) :
    ∃ next, d.run ⟨view r, 0⟩ = .ok (a, next) ∧ next.rest = view r' := by
  cases hrun : d.run ⟨view r, 0⟩ with
  | error e =>
      obtain ⟨e', hfail⟩ := h.fails rfl hrun
      cases hfail.symm.trans hread
  | ok got =>
      obtain ⟨s', hread', hnext⟩ := h.reads rfl hrun
      obtain ⟨ha, hr⟩ := Prod.mk.inj (Except.ok.inj (hread.symm.trans hread'))
      refine ⟨got.2, ?_, ?_⟩
      · rw [ha]
      · rw [hnext, hr]

/-- A reader of a consuming decoder comes closer to the end of the source. -/
theorem Refines.shortens (h : Refines view read d) (hd : Consuming d) {a : α}
    (hread : read.run r = .ok (a, r')) : (view r').length < (view r).length := by
  obtain ⟨next, hrun, hnext⟩ := h.of_ok hread
  have hless := hd _ a next hrun
  rw [Input.remaining, hnext] at hless
  exact hless

/-- Where no frame can be read, the reader fails. -/
theorem Refines.stuck (h : Refines view read d) (hd : Consuming d) (hstuck : Stuck d (view r))
    {a : α} : read.run r ≠ .ok (a, r') := by
  intro hread
  obtain ⟨next, hrun, -⟩ := h.of_ok hread
  rcases hstuck with hnil | herror
  · have hless := hd _ a next hrun
    rw [Input.remaining, hnil] at hless
    exact Nat.not_lt_zero _ hless
  · obtain ⟨e, he⟩ := herror 0
    cases he.symm.trans hrun

/-- Of a frame with more behind it the reader gets the frame and leaves the rest. -/
theorem Refines.frame (h : Refines view read d) {code rest : List β} {a b : α}
    (hcode : Reads d code a) (hview : view r = code ++ rest)
    (hread : read.run r = .ok (b, r')) : b = a ∧ view r' = rest := by
  obtain ⟨next, hrun, hnext⟩ := h.of_ok hread
  rw [hview, hcode] at hrun
  obtain ⟨hab, hrest⟩ := Prod.mk.inj (Except.ok.inj hrun)
  refine ⟨hab.symm, ?_⟩
  rw [← hnext, ← hrest]

/-- A reader that gets anything from a part of one frame gets the frame, and the part was all
of it. -/
theorem Refines.part (h : Refines view read d) (hd : Local d) {code ext : List β} {a b : α}
    (hcode : Reads d code a) (hview : view r ++ ext = code)
    (hread : read.run r = .ok (b, r')) : b = a ∧ view r' ++ ext = [] := by
  obtain ⟨next, hrun, hnext⟩ := h.of_ok hread
  obtain ⟨front, hfront, hreads⟩ := hd _ b next hrun
  have hwhole : code = front ++ (next.rest ++ ext) := by
    rw [← hview, ← List.append_assoc, ← hfront]
  have hfirst := hreads (next.rest ++ ext) 0
  have hall := hcode [] 0
  rw [List.append_nil, hwhole, hfirst] at hall
  obtain ⟨hab, hrest⟩ := Prod.mk.inj (Except.ok.inj hall)
  refine ⟨hab, ?_⟩
  rw [← hnext]
  exact congrArg Input.rest hrest

end Refines

section Serves

variable {view : ρ → List β} {sink : ω → List β} {encode : γ → List β}
  {read : StateT ρ (Except ε') α} {d : Decoder ε β α} {handle : α → σ → Except ε' γ × σ}
  {write : γ → ω → Except ε' Unit × ω} {r : ρ} {w w' : ω} {s s' : σ}

/-- What a server has done: the requests it has handled, and the part of their answers that
it has sent. -/
structure HasServed (handle : α → σ → Except ε' γ × σ) (encode : γ → List β) (s s' : σ)
    (requests handled : List α) (part : List β) : Prop where
  first : handled <+: requests
  state : s' = (answerEach handle handled s).2
  sent : part <+: (answerEach handle handled s).1.flatMap encode
  /-- At most the last answer is cut. -/
  whole : (answerEach handle handled s).1.dropLast.flatMap encode <+: part
  all : part = (answerEach handle handled s).1.flatMap encode → handled = requests

theorem HasServed.cons {a : α} {c : γ} {t : σ} {requests handled : List α} {part : List β}
    (answer : handle a s = (.ok c, t)) (h : HasServed handle encode t s' requests handled part) :
    HasServed handle encode s s' (a :: requests) (a :: handled) (encode c ++ part) := by
  have hanswers : answerEach handle (a :: handled) s =
      (c :: (answerEach handle handled t).1, (answerEach handle handled t).2) := by
    rw [answerEach, answer]
  refine ⟨List.cons_prefix_cons.mpr ⟨rfl, h.first⟩, ?_, ?_, ?_, ?_⟩
  · rw [hanswers]
    exact h.state
  · rw [hanswers, List.flatMap_cons]
    exact (List.prefix_append_right_inj _).mpr h.sent
  · rw [hanswers]
    by_cases hlast : (answerEach handle handled t).1 = []
    · rw [hlast]
      exact List.nil_prefix
    · rw [List.dropLast_cons_of_ne_nil hlast, List.flatMap_cons]
      exact (List.prefix_append_right_inj _).mpr h.whole
  · rw [hanswers, List.flatMap_cons, List.append_right_inj]
    intro hall
    rw [h.all hall]

/-- A server handles the requests that are whole in its stream, one after another, and sends
what they are answered; it leaves some of them only if an answer could not be sent. Nothing
is cut where no write fails. -/
theorem Serves.hasServed (hread : Refines view read d) (hd : Consuming d)
    (hwrite : Writes sink encode write) {R : ω → Prop}
    (reliable : ∀ c w, R w → (write c w).1 = .ok () ∧ R (write c w).2)
    {frames : List (List β × α)} {tail : List β}
    (hframes : AllRead d frames) (htail : Stuck d tail)
    (hview : view r = frames.flatMap Prod.fst ++ tail)
    (h : Serves read handle write r w s w' s') :
    ∃ handled part, sink w' = sink w ++ part ∧
      HasServed handle encode s s' (frames.map Prod.snd) handled part ∧
      (R w → part = (answerEach handle handled s).1.flatMap encode) := by
  induction h generalizing frames with
  | @ended r w s e unread =>
      cases frames with
      | nil =>
          refine ⟨[], [], (List.append_nil _).symm, ?_, fun _ => rfl⟩
          exact ⟨List.nil_prefix, rfl, List.nil_prefix, List.nil_prefix, fun _ => rfl⟩
      | cons frame frames =>
          have hfirst := hframes frame List.mem_cons_self
          rw [List.flatMap_cons, List.append_assoc] at hview
          have hrun := hfirst (frames.flatMap Prod.fst ++ tail) 0
          rw [← hview] at hrun
          obtain ⟨r', hgot, -⟩ := hread.reads rfl hrun
          cases unread.symm.trans hgot
  | @thrown r w s a r' e s' got failed =>
      cases frames with
      | nil => exact absurd got (hread.stuck hd (hview ▸ htail))
      | cons frame frames =>
          have hfirst := hframes frame List.mem_cons_self
          rw [List.flatMap_cons, List.append_assoc] at hview
          obtain ⟨rfl, -⟩ := hread.frame hfirst hview got
          have hnone : answerEach handle (frame.2 :: frames.map Prod.snd) s = ([], s') := by
            rw [answerEach, failed]
          refine ⟨frame.2 :: frames.map Prod.snd, [], (List.append_nil _).symm, ?_, ?_⟩
          · refine ⟨List.prefix_refl _, ?_, List.nil_prefix, ?_, fun _ => rfl⟩
            · rw [hnone]
            · rw [hnone]
              exact List.nil_prefix
          · intro _
            rw [hnone]
            rfl
  | @broken r w s a r' c s' e w' got answer unsent =>
      cases frames with
      | nil => exact absurd got (hread.stuck hd (hview ▸ htail))
      | cons frame frames =>
          have hfirst := hframes frame List.mem_cons_self
          rw [List.flatMap_cons, List.append_assoc] at hview
          obtain ⟨rfl, -⟩ := hread.frame hfirst hview got
          obtain ⟨part, hpart, hsink, hok⟩ := hwrite c w
          rw [unsent] at hsink hok
          have hone : answerEach handle [frame.2] s = ([c], s') := by
            rw [answerEach, answer]
            rfl
          refine ⟨[frame.2], part, hsink, ⟨?_, ?_, ?_, ?_, ?_⟩, ?_⟩
          · exact List.cons_prefix_cons.mpr ⟨rfl, List.nil_prefix⟩
          · rw [hone]
          · rw [hone, List.flatMap_singleton]
            exact hpart
          · rw [hone]
            exact List.nil_prefix
          · rw [hone, List.flatMap_singleton]
            intro hall
            cases hok.mpr hall
          · intro hw
            have hsent := (reliable c w hw).1
            rw [unsent] at hsent
            cases hsent
  | @answered r w s a r' c s' w' w'' s'' got answer sent rest ih =>
      cases frames with
      | nil => exact absurd got (hread.stuck hd (hview ▸ htail))
      | cons frame frames =>
          have hfirst := hframes frame List.mem_cons_self
          rw [List.flatMap_cons, List.append_assoc] at hview
          obtain ⟨rfl, hview'⟩ := hread.frame hfirst hview got
          have hrest : AllRead d frames := fun f hf => hframes f (List.mem_cons_of_mem _ hf)
          obtain ⟨handled, part, hsink, hserved, hwhole⟩ := ih hrest hview'
          obtain ⟨first, -, hfirstSink, hok⟩ := hwrite c w
          rw [sent] at hfirstSink hok
          refine ⟨frame.2 :: handled, encode c ++ part, ?_, hserved.cons answer, ?_⟩
          · rw [hsink, hfirstSink, hok.mp rfl, List.append_assoc]
          · intro hw
            have hnext := (reliable c w hw).2
            rw [sent] at hnext
            rw [hwhole hnext, answerEach, answer, List.flatMap_cons]

/-- The answers a client reads from what reached it of those the server has sent. -/
theorem HasServed.received {requests handled : List α} {part : List β}
    (h : HasServed handle encode s s' requests handled part) {back : StateT ρ (Except ε') γ}
    {d' : Decoder ε β γ} (hback : Refines view back d') (hd : Consuming d')
    (delimits : ∀ c ∈ (answerEach handle handled s).1, Delimits d' (encode c) c)
    (hview : view r <+: part) :
    ∃ got, got <+: (answerEach handle handled s).1 ∧
      (part = (answerEach handle handled s).1.flatMap encode → view r = part →
        got = (answerEach handle handled s).1) ∧
      ∃ r', (collect back got.length).run r = .ok (got, r') ∧
        ∀ c r'', back.run r' ≠ .ok (c, r'') := by
  have hprefix := hview.trans h.sent
  by_cases hall : view r = (answerEach handle handled s).1.flatMap encode
  · rw [← List.append_nil ((answerEach handle handled s).1.flatMap encode)] at hall
    obtain ⟨r', hgot, hleft⟩ := hback.stream delimits hall
    refine ⟨_, List.prefix_refl _, fun _ _ => rfl, r', hgot, ?_⟩
    intro c r''
    exact hback.stuck hd (Or.inl hleft)
  · obtain ⟨whole, c, more, cut, r', e, hsplit, -, -, -, hgot, hfail⟩ :=
      hback.cut delimits hprefix hall
    refine ⟨whole, ⟨c :: more, hsplit.symm⟩, ?_, r', hgot, ?_⟩
    · intro hpart hsame
      exact absurd (hsame.trans hpart) hall
    · intro c r'' hok
      cases hfail.symm.trans hok

end Serves

end MiniKafka.Foundations
