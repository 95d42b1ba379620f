import MiniKafka.Foundations.CanonicalCode

/-!
# Readers of a stream

A reader takes symbols from a source with a state of its own, of which the symbols that are
still to come are one view. It refines a decoder when it makes of them what the decoder makes
of the same symbols in one piece. How the source hands the symbols out is then of no
importance: a row of delimited codes is read back from any source that it comes from, and of
a row that ends too early the codes that are whole.
-/

namespace MiniKafka.Foundations

universe u v

variable {ε ε' : Type v} {β α γ σ : Type u}

/-- The result of the reader, and what it leaves to come, are those of the decoder. -/
structure Refines (view : σ → List β) (reader : StateT σ (Except ε') α)
    (d : Decoder ε β α) : Prop where
  reads : ∀ {s input a next}, input.rest = view s → d.run input = .ok (a, next) →
    ∃ s', reader.run s = .ok (a, s') ∧ next.rest = view s'
  fails : ∀ {s input e}, input.rest = view s → d.run input = .error e →
    ∃ e', reader.run s = .error e'

/-- The reader `n` times in a row. -/
def collect (reader : StateT σ (Except ε') α) : Nat → StateT σ (Except ε') (List α)
  | 0 => pure []
  | n + 1 => do
      let a ← reader
      let rest ← collect reader n
      return a :: rest

section Refines

variable {view : σ → List β} {reader : StateT σ (Except ε') α} {d : Decoder ε β α}

namespace Refines

theorem pure (a : α) : Refines view (Pure.pure a : StateT σ (Except ε') α)
    (Pure.pure a : Decoder ε β α) where
  reads hview h := by
    obtain ⟨rfl, rfl⟩ := Prod.mk.inj (Except.ok.inj h)
    exact ⟨_, rfl, hview⟩
  fails _ h := by cases h

theorem throw (e : ε) (e' : ε') :
    Refines view (MonadExcept.throw e' : StateT σ (Except ε') α)
      (MonadExcept.throw e : Decoder ε β α) where
  reads _ h := by cases h
  fails _ _ := ⟨e', rfl⟩

theorem bind {rest : α → StateT σ (Except ε') γ} {f : α → Decoder ε β γ}
    (h : Refines view reader d) (hrest : ∀ a, Refines view (rest a) (f a)) :
    Refines view (reader >>= rest) (d >>= f) where
  reads {s input c next} hview hrun := by
    obtain ⟨a, mid, hfirst, hsecond⟩ := run_bind_ok hrun
    obtain ⟨t, hread, hmid⟩ := h.reads hview hfirst
    obtain ⟨u, hlast, hnext⟩ := (hrest a).reads hmid hsecond
    refine ⟨u, ?_, hnext⟩
    rw [StateT.run_bind, hread]
    exact hlast
  fails {s input e} hview hrun := by
    rw [StateT.run_bind]
    cases hfirst : d.run input with
    | error e₁ =>
        obtain ⟨e', hread⟩ := h.fails hview hfirst
        rw [hread]
        exact ⟨e', rfl⟩
    | ok first =>
        rw [run_bind_of_ok f hfirst] at hrun
        obtain ⟨t, hread, hmid⟩ := h.reads hview hfirst
        obtain ⟨e', hlast⟩ := (hrest first.1).fails hmid hrun
        rw [hread]
        exact ⟨e', hlast⟩

/-- What is made of the symbols of a first part. -/
theorem collect (h : Refines view reader d) (n : Nat) :
    Refines view (collect reader n) (readEach d n) := by
  induction n with
  | zero => exact Refines.pure []
  | succ n ih => exact h.bind fun a => ih.bind fun rest => Refines.pure (a :: rest)

end Refines

/-! ## Rows of codes -/

variable {encode : α → List β} {frames : List α} {s : σ}

/-- A row of codes is read back, and leaves what comes behind it. -/
theorem Refines.stream (h : Refines view reader d)
    (hframes : ∀ a ∈ frames, Delimits d (encode a) a) {behind : List β}
    (hview : view s = frames.flatMap encode ++ behind) :
    ∃ s', (Foundations.collect reader frames.length).run s = .ok (frames, s') ∧
      view s' = behind := by
  have hrow := (readEach_delimits hframes).reads behind 0
  obtain ⟨s', hread, hnext⟩ := (h.collect frames.length).reads hview.symm hrow
  exact ⟨s', hread, hnext.symm⟩

/-- Where a row of codes is cut, some are whole and the next one is not. -/
theorem flatMap_cut {short : List β} (h : short <+: frames.flatMap encode)
    (hne : short ≠ frames.flatMap encode) :
    ∃ whole a more part, frames = whole ++ a :: more ∧
      short = whole.flatMap encode ++ part ∧ part <+: encode a ∧ part ≠ encode a := by
  induction frames generalizing short with
  | nil => exact absurd (List.prefix_nil.mp h) hne
  | cons a rest ih =>
      rw [List.flatMap_cons] at h hne
      rcases prefix_append_split h with ⟨hpart, hcut⟩ | ⟨more, rfl, hmore⟩
      · exact ⟨[], a, rest, short, rfl, rfl, hpart, hcut⟩
      · obtain ⟨whole, b, after, part, rfl, rfl, hpart, hcut⟩ :=
          ih hmore fun heq => hne (by rw [heq])
        refine ⟨a :: whole, b, after, part, rfl, ?_, hpart, hcut⟩
        rw [List.flatMap_cons, List.append_assoc]

/-- Of a row of codes that is cut, those before the cut are read and the next one is not. -/
theorem Refines.cut (h : Refines view reader d)
    (hframes : ∀ a ∈ frames, Delimits d (encode a) a)
    (hview : view s <+: frames.flatMap encode) (hne : view s ≠ frames.flatMap encode) :
    ∃ whole a more part s' e, frames = whole ++ a :: more ∧
      view s = whole.flatMap encode ++ part ∧ part <+: encode a ∧ part ≠ encode a ∧
      (Foundations.collect reader whole.length).run s = .ok (whole, s') ∧
      reader.run s' = .error e := by
  obtain ⟨whole, a, more, part, rfl, hsplit, hpart, hcut⟩ := flatMap_cut hview hne
  obtain ⟨s', hread, hleft⟩ :=
    h.stream (fun b hb => hframes b (List.mem_append_left _ hb)) hsplit
  have ha := hframes a (List.mem_append_right _ List.mem_cons_self)
  obtain ⟨e, hstarve⟩ := ha.starves part 0 hpart hcut
  have hrest : (⟨part, 0⟩ : Input β).rest = view s' := hleft.symm
  obtain ⟨e', hfail⟩ := h.fails hrest hstarve
  exact ⟨whole, a, more, part, s', e', rfl, hsplit, hpart, hcut, hread, hfail⟩

end Refines

end MiniKafka.Foundations
