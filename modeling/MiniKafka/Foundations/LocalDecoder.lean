import MiniKafka.Foundations.Delimited

/-!
# Decoders that look only at what they read

Where a decoder's success depends only on the part of the input it takes, the frames at the
front of an input are determined by it: reading as far as possible gives the longest part
that is a row of frames, and reading this part again gives the same frames.
-/

namespace MiniKafka.Foundations

universe u v

variable {ε : Type v} {β α γ σ : Type u}

/-- What a successful run takes, it takes everywhere. -/
def Local (d : Decoder ε β α) : Prop :=
  ∀ input a next, d.run input = .ok (a, next) →
    ∃ code, input.rest = code ++ next.rest ∧ Reads d code a

theorem Local.pure (a : α) : Local (Pure.pure a : Decoder ε β α) := by
  intro input b next h
  obtain ⟨rfl, rfl⟩ := Prod.mk.inj (Except.ok.inj h)
  exact ⟨[], rfl, fun _ _ => rfl⟩

theorem Local.bind {d : Decoder ε β α} {f : α → Decoder ε β γ} (hd : Local d)
    (hf : ∀ a, Local (f a)) : Local (d >>= f) := by
  intro input c next h
  obtain ⟨a, mid, hfirst, hsecond⟩ := run_bind_ok h
  obtain ⟨first, hinput, hfirst⟩ := hd input a mid hfirst
  obtain ⟨second, hmid, hsecond⟩ := hf a mid c next hsecond
  refine ⟨first ++ second, ?_, ?_⟩
  · rw [hinput, hmid, List.append_assoc]
  · intro rest pos
    rw [List.append_assoc, run_bind_of_ok f (hfirst _ _), hsecond, List.length_append,
      Nat.add_assoc]

section Frames

variable {d : Decoder ε β α} {bytes tail other : List β} {frames : List (List β × α)}

/-- The bytes of each frame are read as its value. -/
def AllRead (d : Decoder ε β α) (frames : List (List β × α)) : Prop :=
  ∀ frame ∈ frames, Reads d frame.1 frame.2

/-- The bytes are a row of frames that `d` accepts. -/
def Framed (d : Decoder ε β α) (bytes : List β) : Prop :=
  ∃ frames, AllRead d frames ∧ bytes = frames.flatMap Prod.fst

/-- The longest part from the front that is a row of frames. -/
structure LongestFramed (d : Decoder ε β α) (bytes kept : List β) : Prop where
  front : kept <+: bytes
  framed : Framed d kept
  longest : ∀ other, other <+: bytes → Framed d other → other.length ≤ kept.length

theorem stuck_of_error (hl : Local d) {pos : Nat} {e : ε} (h : d.run ⟨tail, pos⟩ = .error e) :
    Stuck d tail := by
  right
  intro pos'
  cases hrun : d.run ⟨tail, pos'⟩ with
  | error e' => exact ⟨e', rfl⟩
  | ok p =>
      obtain ⟨code, hsplit, hreads⟩ := hl _ p.1 p.2 hrun
      have hok := hreads p.2.rest pos
      rw [← hsplit, h] at hok
      cases hok

/-- Every input is a row of frames and a rest from which none can be read. -/
theorem exists_frames (hd : Consuming d) (hl : Local d) (bytes : List β) :
    ∃ frames tail, AllRead d frames ∧ Stuck d tail ∧
      bytes = frames.flatMap Prod.fst ++ tail := by
  induction hlen : bytes.length using Nat.strong_induction_on generalizing bytes with
  | _ n ih =>
      cases hrun : d.run ⟨bytes, 0⟩ with
      | error e => exact ⟨[], bytes, by simp [AllRead], stuck_of_error hl hrun, rfl⟩
      | ok p =>
          have hshort : p.2.rest.length < bytes.length := hd _ p.1 p.2 hrun
          obtain ⟨code, hsplit, hreads⟩ := hl _ p.1 p.2 hrun
          obtain ⟨frames, tail, hframes, htail, hrest⟩ := ih _ (hlen ▸ hshort) p.2.rest rfl
          refine ⟨(code, p.1) :: frames, tail, ?_, htail, ?_⟩
          · intro frame hframe
            rcases List.mem_cons.mp hframe with rfl | hframe
            · exact hreads
            · exact hframes frame hframe
          · rw [List.flatMap_cons, List.append_assoc, ← hrest]
            exact hsplit

/-- No row of frames reaches beyond the frames of a full reading. -/
theorem framed_length_le (hd : Consuming d) (hframes : AllRead d frames) (htail : Stuck d tail)
    (hother : other <+: frames.flatMap Prod.fst ++ tail) (hrow : Framed d other) :
    other.length ≤ (frames.flatMap Prod.fst).length := by
  obtain ⟨row, hrow, rfl⟩ := hrow
  induction row generalizing frames with
  | nil => exact Nat.zero_le _
  | cons first row ih =>
      obtain ⟨more, hmore⟩ := hother
      have hfirst := hrow first List.mem_cons_self
      rw [List.flatMap_cons, List.append_assoc] at hmore
      have hread := hfirst (row.flatMap Prod.fst ++ more) 0
      rw [hmore] at hread
      cases frames with
      | nil =>
          rcases htail with rfl | herror
          · have hnone := hd _ _ _ hread
            cases hnone
          · obtain ⟨e, he⟩ := herror 0
            cases he.symm.trans hread
      | cons frame frames =>
          have hframe := hframes frame List.mem_cons_self (frames.flatMap Prod.fst ++ tail) 0
          rw [List.flatMap_cons, List.append_assoc, hframe] at hread
          obtain ⟨-, hnext⟩ := Prod.mk.inj (Except.ok.inj hread)
          obtain ⟨hrest, hpos⟩ := Input.mk.inj hnext
          have hframes' : AllRead d frames := fun f hf => hframes f (List.mem_cons_of_mem _ hf)
          have hrow' : AllRead d row := fun f hf => hrow f (List.mem_cons_of_mem _ hf)
          have hle := ih hframes' hrow' ⟨more, hrest.symm⟩
          rw [List.flatMap_cons, List.flatMap_cons, List.length_append, List.length_append]
          omega

theorem longestFramed_frames (hd : Consuming d) (hframes : AllRead d frames)
    (htail : Stuck d tail) :
    LongestFramed d (frames.flatMap Prod.fst ++ tail) (frames.flatMap Prod.fst) where
  front := List.prefix_append _ _
  framed := ⟨frames, hframes, rfl⟩
  longest _ hother hrow := framed_length_le hd hframes htail hother hrow

end Frames

end MiniKafka.Foundations
