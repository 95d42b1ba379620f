import MiniKafka.Foundations.Delimited

/-!
# Canonical codes

A code is canonical when its decoder accepts no other bytes for a value. What a decoder
reads after a first part is stated with this part in front, so that canonical codes
compose field by field. Lists of codes are read by a loop that knows their number.
-/

namespace MiniKafka.Foundations

universe u v

variable {ε : Type v} {β α γ : Type u}

/-- Behind `before`, the decoder reads what completes the code of its result. -/
def Completes (d : Decoder ε β α) (before : List β) (code : α → List β) : Prop :=
  ∀ input a next, d.run input = .ok (a, next) → before ++ input.rest = code a ++ next.rest

/-- The decoder accepts only the code of its result. -/
abbrev Canonical (d : Decoder ε β α) (code : α → List β) : Prop := Completes d [] code

section Completes

variable {d : Decoder ε β α} {f : α → Decoder ε β γ} {first : α → List β} {code : γ → List β}
  {before : List β}

theorem Completes.pure {a : γ} (h : before = code a) :
    Completes (Pure.pure a : Decoder ε β γ) before code := by
  intro input b next hrun
  obtain ⟨rfl, rfl⟩ := Prod.mk.inj (Except.ok.inj hrun)
  rw [h]

/-- A field, and behind it the others. -/
theorem Canonical.bind (hd : Canonical d first)
    (hf : ∀ a, Completes (f a) (before ++ first a) code) : Completes (d >>= f) before code := by
  intro input c next hrun
  obtain ⟨a, mid, hfirst, hrest⟩ := run_bind_ok hrun
  have hread := hd input a mid hfirst
  rw [List.nil_append] at hread
  rw [hread, ← List.append_assoc]
  exact hf a mid c next hrest

/-- The last field. -/
theorem Canonical.last {g : α → γ} (hd : Canonical d first)
    (whole : ∀ a, before ++ first a = code (g a)) :
    Completes (d >>= fun a => Pure.pure (g a)) before code :=
  hd.bind fun a => .pure (whole a)

end Completes

/-- A field that is the last of a value. -/
theorem Delimits.last {d : Decoder ε β α} {code : List β} {a : α} {g : α → γ}
    (h : Delimits d code a) : Delimits (d >>= fun a => Pure.pure (g a)) code (g a) := by
  rw [← List.append_nil code]
  exact h.bind (.pure rfl)

/-- The loop `for (i = 0; i < n; ++i)` that reads one element in each turn. -/
def readEach (d : Decoder ε β α) : Nat → Decoder ε β (List α)
  | 0 => pure []
  | n + 1 => do
      let a ← d
      let rest ← readEach d n
      return a :: rest

section ReadEach

variable {d : Decoder ε β α} {encode : α → List β}

theorem readEach_delimits {elems : List α} (h : ∀ a ∈ elems, Delimits d (encode a) a) :
    Delimits (readEach d elems.length) (elems.flatMap encode) elems := by
  induction elems with
  | nil => exact .pure rfl
  | cons a rest ih =>
      have ha := h a List.mem_cons_self
      have hrest := ih fun b hb => h b (List.mem_cons_of_mem a hb)
      exact ha.bind hrest.last

theorem readEach_canonical (h : Canonical d encode) (n : Nat) :
    Canonical (readEach d n) (fun elems => elems.flatMap encode) := by
  induction n with
  | zero => exact .pure rfl
  | succ n ih => exact h.bind fun a => ih.last fun rest => rfl

theorem readEach_length {n : Nat} {input next : Input β} {elems : List α}
    (h : (readEach d n).run input = .ok (elems, next)) : elems.length = n := by
  induction n generalizing input next elems with
  | zero =>
      obtain ⟨rfl, -⟩ := Prod.mk.inj (Except.ok.inj h)
      rfl
  | succ n ih =>
      obtain ⟨a, mid, -, hrest⟩ := run_bind_ok h
      obtain ⟨rest, last, hloop, hcons⟩ := run_bind_ok hrest
      obtain ⟨rfl, -⟩ := Prod.mk.inj (Except.ok.inj hcons)
      rw [List.length_cons, ih hloop]

end ReadEach

section Yields

variable {d : Decoder ε β α} {f : α → Decoder ε β γ} {P : α → Prop} {Q : γ → Prop}

/-- Whatever the decoder reads has the property. -/
def Yields (d : Decoder ε β α) (P : α → Prop) : Prop :=
  ∀ input a next, d.run input = .ok (a, next) → P a

theorem Yields.pure {a : α} (h : P a) : Yields (Pure.pure a : Decoder ε β α) P := by
  intro input b next hrun
  obtain ⟨heq, -⟩ := Prod.mk.inj (Except.ok.inj hrun)
  rw [← heq]
  exact h

theorem Yields.bind (hd : Yields d P) (hf : ∀ a, P a → Yields (f a) Q) :
    Yields (d >>= f) Q := by
  intro input c next hrun
  obtain ⟨a, mid, hfirst, hrest⟩ := run_bind_ok hrun
  exact hf a (hd input a mid hfirst) mid c next hrest

/-- A field about which nothing is known. -/
theorem Yields.skip (hf : ∀ a, Yields (f a) Q) : Yields (d >>= f) Q := by
  intro input c next hrun
  obtain ⟨a, mid, -, hrest⟩ := run_bind_ok hrun
  exact hf a mid c next hrest

theorem readEach_yields (hd : Yields d P) (n : Nat) :
    Yields (readEach d n) fun elems => elems.length = n ∧ ∀ a ∈ elems, P a := by
  induction n with
  | zero => exact .pure ⟨rfl, fun a h => by cases h⟩
  | succ n ih =>
      refine hd.bind fun a ha => ih.bind fun rest hrest => Yields.pure ?_
      exact ⟨congrArg (· + 1) hrest.1, List.forall_mem_cons.mpr ⟨ha, hrest.2⟩⟩

/-- A last field whose code needs what is known of it, such as its length. -/
theorem Canonical.behind {first code : α → List β} {before : List β} (hd : Canonical d first)
    (hyields : Yields d P) (whole : ∀ a, P a → before ++ first a = code a) :
    Completes d before code := by
  intro input a next hrun
  have hread := hd input a next hrun
  rw [List.nil_append] at hread
  rw [hread, ← List.append_assoc, whole a (hyields input a next hrun)]

end Yields

end MiniKafka.Foundations
