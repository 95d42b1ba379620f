import Mathlib.Data.List.Basic
import Mathlib.Data.List.Infix

/-!
# Sequences cut into segments

A sequence kept in parts, each of which holds a run of it from its own start on.
What a part must be is a parameter; here is how such cuts grow, split and read.
-/

namespace MiniKafka.Foundations

variable {σ τ α : Type*}

/-- The parts hold `items` between them, in order, from position `n` on. -/
inductive Cut (R : Nat → σ → List α → Prop) : Nat → List σ → List α → Prop
  | nil (n) : Cut R n [] []
  | cons {n part run parts items} (head : R n part run)
      (tail : Cut R (n + run.length) parts items) : Cut R n (part :: parts) (run ++ items)

namespace Cut

variable {R : Nat → σ → List α → Prop} {n : Nat} {part : σ} {parts before after : List σ}
  {run items : List α}

theorem snoc (h : Cut R n parts items) (hpart : R (n + items.length) part run) :
    Cut R n (parts ++ [part]) (items ++ run) := by
  induction h with
  | nil n =>
      have hone : Cut R n [part] (run ++ []) := .cons (by simpa using hpart) (.nil _)
      simpa using hone
  | cons head tail ih =>
      rw [List.length_append, ← Nat.add_assoc] at hpart
      rw [List.cons_append, List.append_assoc]
      exact .cons head (ih hpart)

theorem map {R' : Nat → τ → List α → Prop} (h : Cut R n parts items) (g : σ → τ)
    (hg : ∀ n part run, R n part run → R' n (g part) run) :
    Cut R' n (parts.map g) items := by
  induction h with
  | nil n => exact .nil n
  | cons head tail ih => exact .cons (hg _ _ _ head) ih

/-- Reading part after part gives the whole sequence. -/
theorem flatMap (h : Cut R n parts items) (read : σ → List α)
    (hread : ∀ n part run, R n part run → read part = run) : parts.flatMap read = items := by
  induction h with
  | nil n => rfl
  | cons head tail ih => rw [List.flatMap_cons, ih, hread _ _ _ head]

theorem split (h : Cut R n (before ++ after) items) :
    ∃ first rest, items = first ++ rest ∧ Cut R n before first ∧
      Cut R (n + first.length) after rest := by
  induction before generalizing n items with
  | nil => exact ⟨[], items, rfl, .nil n, h⟩
  | cons part parts ih =>
      cases h with
      | @cons _ _ run _ _ head tail =>
          obtain ⟨first, rest, rfl, hfirst, hrest⟩ := ih tail
          refine ⟨run ++ first, rest, by simp, .cons head hfirst, ?_⟩
          rwa [List.length_append, ← Nat.add_assoc]

theorem mem (h : Cut R n parts items) (hmem : part ∈ parts) :
    ∃ m run, R m part run ∧ run ⊆ items := by
  induction h with
  | nil n => cases hmem
  | @cons m first run parts items head tail ih =>
      rcases List.mem_cons.mp hmem with rfl | hmem
      · exact ⟨m, run, head, List.subset_append_left run items⟩
      · obtain ⟨m', run', hpart, hsub⟩ := ih hmem
        exact ⟨m', run', hpart, List.subset_append_of_subset_right run hsub⟩

/-- What every run has, and runs in a row have together, the whole sequence has. -/
theorem fold {P : Nat → List α → Prop} (h : Cut R n parts items) (nil : ∀ n, P n [])
    (append : ∀ n run rest, P n run → P (n + run.length) rest → P n (run ++ rest))
    (part : ∀ n part run, R n part run → P n run) : P n items := by
  induction h with
  | nil n => exact nil n
  | cons head tail ih => exact append _ _ _ (part _ _ _ head) ih

section Starts

variable (key : σ → Nat) (hkey : ∀ n part run, R n part run → key part = n ∧ run ≠ [])

include hkey

/-- Where no run is empty, every part starts inside the sequence. -/
theorem start_lt (h : Cut R n parts items) (hmem : part ∈ parts) :
    n ≤ key part ∧ key part < n + items.length := by
  induction h with
  | nil n => simp at hmem
  | @cons n part' run parts items head tail ih =>
      obtain ⟨hstart, hne⟩ := hkey _ _ _ head
      have hpos := List.length_pos_of_ne_nil hne
      rw [List.length_append]
      rcases List.mem_cons.mp hmem with rfl | hmem
      · omega
      · have hih := ih hmem
        omega

/-- Where no run is empty, the starts ascend. -/
theorem starts_ascend (h : Cut R n parts items) :
    parts.Pairwise fun a b => key a < key b := by
  induction h with
  | nil n => exact List.Pairwise.nil
  | cons head tail ih =>
      obtain ⟨hstart, hne⟩ := hkey _ _ _ head
      have hpos := List.length_pos_of_ne_nil hne
      refine List.pairwise_cons.mpr ⟨fun b hb => ?_, ih⟩
      have hb' := start_lt key hkey tail hb
      omega

end Starts

end Cut

end MiniKafka.Foundations
