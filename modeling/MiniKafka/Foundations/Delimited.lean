import Mathlib.Data.List.Infix
import Mathlib.Control.Monad.Basic

/-!
# Self-delimiting codes

A decoder reads from the front of an input and says how far it got. A code is
delimited when its decoder reads exactly the code, whatever follows, and fails on
every strict prefix. Delimited codes compose, and a stream of them can be cut
anywhere: the frames before the cut are read back and the rest is not.
-/

namespace MiniKafka.Foundations

universe u v

/-- What is left to read, and how much was read before. -/
structure Input (β : Type u) where
  rest : List β
  pos : Nat := 0

abbrev Decoder (ε : Type v) (β α : Type u) := StateT (Input β) (Except ε) α

variable {ε : Type v} {β α γ σ : Type u}

def Input.remaining (input : Input β) : Nat := input.rest.length

theorem run_bind_ok {d : Decoder ε β α} {f : α → Decoder ε β γ} {input next : Input β}
    {c : γ} (h : (d >>= f).run input = .ok (c, next)) :
    ∃ a mid, d.run input = .ok (a, mid) ∧ (f a).run mid = .ok (c, next) := by
  rw [StateT.run_bind] at h
  cases hd : d.run input with
  | error e => simp [hd, bind, Except.bind] at h
  | ok p => exact ⟨p.1, p.2, rfl, by simpa [hd, bind, Except.bind] using h⟩

theorem run_bind_of_ok {d : Decoder ε β α} (f : α → Decoder ε β γ) {input mid : Input β}
    {a : α} (h : d.run input = .ok (a, mid)) : (d >>= f).run input = (f a).run mid := by
  rw [StateT.run_bind, h]
  rfl

theorem run_bind_of_error {d : Decoder ε β α} (f : α → Decoder ε β γ) {input : Input β}
    {e : ε} (h : d.run input = .error e) : (d >>= f).run input = .error e := by
  rw [StateT.run_bind, h]
  rfl

/-- `d` takes exactly `code` and makes `a` of it, whatever follows. -/
def Reads (d : Decoder ε β α) (code : List β) (a : α) : Prop :=
  ∀ rest pos, d.run ⟨code ++ rest, pos⟩ = .ok (a, ⟨rest, pos + code.length⟩)

/-- `d` reads exactly `code`, as `a`, and nothing shorter. -/
structure Delimits (d : Decoder ε β α) (code : List β) (a : α) : Prop where
  reads : ∀ rest pos, d.run ⟨code ++ rest, pos⟩ = .ok (a, ⟨rest, pos + code.length⟩)
  starves : ∀ short pos, short <+: code → short ≠ code →
    ∃ e, d.run ⟨short, pos⟩ = .error e

/-- A prefix of two codes in a row stops in the first or goes on into the second. -/
theorem prefix_append_split {short first second : List β} (h : short <+: first ++ second) :
    (short <+: first ∧ short ≠ first) ∨ ∃ more, short = first ++ more ∧ more <+: second := by
  rcases List.prefix_or_prefix_of_prefix h (List.prefix_append first second) with hs | hs
  · by_cases heq : short = first
    · exact .inr ⟨[], by simp [heq], List.nil_prefix⟩
    · exact .inl ⟨hs, heq⟩
  · obtain ⟨more, rfl⟩ := hs
    exact .inr ⟨more, rfl, (List.prefix_append_right_inj first).mp h⟩

namespace Delimits

theorem pure {a b : α} (h : a = b) : Delimits (Pure.pure a : Decoder ε β α) [] b where
  reads _ _ := by rw [h]; rfl
  starves _ _ h hne := absurd (List.prefix_nil.mp h) hne

theorem bind {d : Decoder ε β α} {f : α → Decoder ε β γ} {first second : List β}
    {a : α} {c : γ} (hd : Delimits d first a) (hf : Delimits (f a) second c) :
    Delimits (d >>= f) (first ++ second) c where
  reads rest pos := by
    rw [List.append_assoc, run_bind_of_ok f (hd.reads _ _), hf.reads, List.length_append,
      Nat.add_assoc]
  starves short pos hshort hne := by
    rcases prefix_append_split hshort with ⟨hs, hs'⟩ | ⟨more, rfl, hmore⟩
    · obtain ⟨e, he⟩ := hd.starves short pos hs hs'
      exact ⟨e, run_bind_of_error f he⟩
    · rw [run_bind_of_ok f (hd.reads _ _)]
      refine hf.starves more _ hmore ?_
      rintro rfl
      exact hne rfl

end Delimits

/-- Each successful read makes the input shorter. -/
def Consuming (d : Decoder ε β α) : Prop :=
  ∀ input a next, d.run input = .ok (a, next) → next.remaining < input.remaining

/-- No successful read makes the input longer. -/
def Advancing (d : Decoder ε β α) : Prop :=
  ∀ input a next, d.run input = .ok (a, next) → next.remaining ≤ input.remaining

theorem Advancing.pure (a : α) : Advancing (Pure.pure a : Decoder ε β α) := by
  intro input b next h
  obtain ⟨-, rfl⟩ := Prod.mk.inj (Except.ok.inj h)
  exact Nat.le_refl _

theorem Advancing.bind {d : Decoder ε β α} {f : α → Decoder ε β γ} (hd : Advancing d)
    (hf : ∀ a, Advancing (f a)) : Advancing (d >>= f) := by
  intro input c next h
  obtain ⟨a, mid, hrun, hrest⟩ := run_bind_ok h
  exact (hf a mid c next hrest).trans (hd input a mid hrun)

theorem Consuming.bind {d : Decoder ε β α} {f : α → Decoder ε β γ} (hd : Consuming d)
    (hf : ∀ a, Advancing (f a)) : Consuming (d >>= f) := by
  intro input c next h
  obtain ⟨a, mid, hrun, hrest⟩ := run_bind_ok h
  exact (hf a mid c next hrest).trans_lt (hd input a mid hrun)

/-- The loop "while something remains, decode one frame, stop where that fails".
`f` is told where the frame starts, what it is and where it ends. -/
def foldFrames (d : Decoder ε β α) (f : σ → Nat → α → Nat → σ) :
    Nat → σ → Input β → σ
  | 0, acc, _ => acc
  | fuel + 1, acc, input =>
      if input.remaining = 0 then acc
      else match d.run input with
        | .ok (a, next) => foldFrames d f fuel (f acc input.pos a next.pos) next
        | .error _ => acc

/-- The loop with fuel for every symbol of the input. -/
def scanFrames (d : Decoder ε β α) (f : σ → Nat → α → Nat → σ) (acc : σ)
    (input : Input β) : σ :=
  foldFrames d f input.remaining acc input

/-- No frame can be read from `tail`. -/
def Stuck (d : Decoder ε β α) (tail : List β) : Prop :=
  tail = [] ∨ ∀ pos, ∃ e, d.run ⟨tail, pos⟩ = .error e

section Scan

variable {d : Decoder ε β α} {f : σ → Nat → α → Nat → σ}

/-- More fuel than the input is long changes nothing. -/
theorem foldFrames_fuel (hd : Consuming d) {fuel fuel' : Nat} {acc : σ} {input : Input β}
    (h : input.remaining ≤ fuel) (h' : input.remaining ≤ fuel') :
    foldFrames d f fuel acc input = foldFrames d f fuel' acc input := by
  induction fuel generalizing fuel' acc input with
  | zero =>
      have hnil : input.remaining = 0 := Nat.le_zero.mp h
      cases fuel' <;> simp [foldFrames, hnil]
  | succ fuel ih =>
      cases fuel' with
      | zero =>
          have hnil : input.remaining = 0 := Nat.le_zero.mp h'
          simp [foldFrames, hnil]
      | succ fuel' =>
          simp only [foldFrames]
          split
          · rfl
          · cases hrun : d.run input with
            | error e => rfl
            | ok p =>
                have hlt := hd input p.1 p.2 hrun
                exact ih (by omega) (by omega)

theorem scanFrames_ok (hd : Consuming d) {acc : σ} {input next : Input β} {a : α}
    (h : d.run input = .ok (a, next)) :
    scanFrames d f acc input = scanFrames d f (f acc input.pos a next.pos) next := by
  have hlt := hd input a next h
  obtain ⟨fuel, hfuel⟩ : ∃ fuel, input.remaining = fuel + 1 :=
    ⟨input.remaining - 1, by omega⟩
  simp only [scanFrames, hfuel, foldFrames, h]
  rw [if_neg (by omega)]
  exact foldFrames_fuel hd (by omega) (Nat.le_refl _)

/-- What every frame keeps, the loop keeps. -/
theorem scanFrames_invariant {P : σ → Prop} {acc : σ} (start : P acc)
    (kept : ∀ acc pos a next, P acc → P (f acc pos a next)) (input : Input β) :
    P (scanFrames d f acc input) := by
  unfold scanFrames
  generalize input.remaining = fuel
  induction fuel generalizing acc input with
  | zero => exact start
  | succ fuel ih =>
      simp only [foldFrames]
      split
      · exact start
      · split
        · exact ih (kept _ _ _ _ start) _
        · exact start

theorem scanFrames_stuck {tail : List β} (h : Stuck d tail) (acc : σ) (pos : Nat) :
    scanFrames d f acc ⟨tail, pos⟩ = acc := by
  rcases h with rfl | h
  · rfl
  · obtain ⟨e, he⟩ := h pos
    unfold scanFrames
    cases Input.remaining ⟨tail, pos⟩ with
    | zero => rfl
    | succ fuel =>
        simp only [foldFrames, he]
        split <;> rfl

/-- The fold of the loop over the frames themselves. -/
def foldStream (encode : α → List β) (f : σ → Nat → α → Nat → σ) : σ → Nat → List α → σ
  | acc, _, [] => acc
  | acc, pos, a :: rest =>
      foldStream encode f (f acc pos a (pos + (encode a).length)) (pos + (encode a).length) rest

variable {encode : α → List β}

/-- What holds of no frame and is kept by each next frame holds of all of them. -/
theorem foldStream_rule {P : List α → σ → Prop} {frames : List α} {acc : σ}
    (start : P [] acc)
    (kept : ∀ done a acc, done ++ [a] <+: frames → P done acc →
      P (done ++ [a]) (f acc (done.flatMap encode).length a
        ((done ++ [a]).flatMap encode).length)) :
    P frames (foldStream encode f acc 0 frames) := by
  suffices h : ∀ rest done acc, done ++ rest = frames → P done acc →
      P frames (foldStream encode f acc (done.flatMap encode).length rest) from
    h frames [] acc rfl start
  intro rest
  induction rest with
  | nil =>
      intro done acc hdone hP
      rw [List.append_nil] at hdone
      exact hdone ▸ hP
  | cons a rest ih =>
      intro done acc hdone hP
      have hsplit : (done ++ [a]) ++ rest = frames := by simpa using hdone
      have hnext := ih (done ++ [a]) _ hsplit (kept done a acc ⟨rest, hsplit⟩ hP)
      have hlen : ((done ++ [a]).flatMap encode).length =
          (done.flatMap encode).length + (encode a).length := by simp
      rw [hlen] at hnext
      exact hnext

/-- Folds that start from related values give related values. -/
theorem foldStream_map {g : σ → σ} (comm : ∀ acc pos a endPos,
    f (g acc) pos a endPos = g (f acc pos a endPos)) (acc : σ) (pos : Nat) (frames : List α) :
    foldStream encode f (g acc) pos frames = g (foldStream encode f acc pos frames) := by
  induction frames generalizing acc pos with
  | nil => rfl
  | cons a rest ih => rw [foldStream, comm, ih, ← foldStream]

/-- The loop reads a row of frames and stops where no frame can be read. -/
theorem scanFrames_frames (hd : Consuming d) {frames : List γ} {code : γ → List β}
    {value : γ → α} {tail : List β} (hframes : ∀ c ∈ frames, Reads d (code c) (value c))
    (htail : Stuck d tail) (acc : σ) (pos : Nat) :
    scanFrames d f acc ⟨frames.flatMap code ++ tail, pos⟩ =
      foldStream code (fun acc pos c endPos => f acc pos (value c) endPos) acc pos frames := by
  induction frames generalizing acc pos with
  | nil => exact scanFrames_stuck htail acc pos
  | cons c rest ih =>
      have hc := hframes c List.mem_cons_self
      rw [List.flatMap_cons, List.append_assoc, scanFrames_ok hd (hc _ _)]
      exact ih (fun b hb => hframes b (List.mem_cons_of_mem c hb)) _ _

theorem scanFrames_stream (hd : Consuming d) {frames : List α} {tail : List β}
    (hframes : ∀ a ∈ frames, Delimits d (encode a) a) (htail : Stuck d tail) (acc : σ)
    (pos : Nat) :
    scanFrames d f acc ⟨frames.flatMap encode ++ tail, pos⟩ =
      foldStream encode f acc pos frames :=
  scanFrames_frames hd (fun a ha => (hframes a ha).reads) htail acc pos

/-- All frames of the input, as far as they can be read. -/
def readFrames (d : Decoder ε β α) (input : Input β) : List α :=
  scanFrames d (fun out _ a _ => out ++ [a]) [] input

theorem readFrames_stream (hd : Consuming d) {frames : List α} {tail : List β}
    (hframes : ∀ a ∈ frames, Delimits d (encode a) a) (htail : Stuck d tail) :
    readFrames d ⟨frames.flatMap encode ++ tail, 0⟩ = frames := by
  rw [readFrames, scanFrames_stream hd hframes htail]
  exact foldStream_rule (P := fun done out => out = done) rfl
    fun done a out _ h => congrArg (· ++ [a]) h

/-- Where a stream is cut, the frames before the cut are whole and the rest is none. -/
theorem stream_cut {frames : List α} (hframes : ∀ a ∈ frames, Delimits d (encode a) a)
    {short : List β} (h : short <+: frames.flatMap encode) :
    ∃ kept tail, kept <+: frames ∧ short = kept.flatMap encode ++ tail ∧ Stuck d tail := by
  induction frames generalizing short with
  | nil => exact ⟨[], [], List.nil_prefix, by simpa using h, .inl rfl⟩
  | cons a rest ih =>
      rw [List.flatMap_cons] at h
      rcases prefix_append_split h with ⟨hs, hne⟩ | ⟨more, rfl, hmore⟩
      · have ha := hframes a List.mem_cons_self
        exact ⟨[], short, List.nil_prefix, rfl, .inr fun pos => ha.starves short pos hs hne⟩
      · obtain ⟨kept, tail, hkept, rfl, htail⟩ :=
          ih (fun b hb => hframes b (List.mem_cons_of_mem a hb)) hmore
        refine ⟨a :: kept, tail, List.cons_prefix_cons.mpr ⟨rfl, hkept⟩, ?_, htail⟩
        rw [List.flatMap_cons, List.append_assoc]

end Scan

end MiniKafka.Foundations
