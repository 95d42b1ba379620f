import Mathlib.Data.List.Induction
import Mathlib.Order.Basic

/-!
# Runs of a partial step function

A step function answers `none` where an event is not enabled. A run keeps every
state it leaves together with the event that left it, so a condition on the
steps of a run is a condition on this list of visits.
-/

namespace MiniKafka.Foundations

variable {S E : Type*} {step : S → E → Option S}

/-- The runs from `s`: the visited pairs in order, and the state reached. -/
inductive Run (step : S → E → Option S) (s : S) : List (S × E) → S → Prop
  | refl : Run step s [] s
  | tail {visits t e u} (run : Run step s visits t) (h : step t e = some u) :
      Run step s (visits ++ [(t, e)]) u

/-- Every step of a run is taken in a state and on an event that meet `G`. -/
def Guarded (G : S → E → Prop) (visits : List (S × E)) : Prop :=
  ∀ v ∈ visits, G v.1 v.2

instance {G : S → E → Prop} [∀ s e, Decidable (G s e)] (visits : List (S × E)) :
    Decidable (Guarded G visits) :=
  inferInstanceAs (Decidable (∀ v ∈ visits, G v.1 v.2))

@[simp] theorem guarded_nil (G : S → E → Prop) : Guarded G [] := by
  simp [Guarded]

theorem guarded_snoc {G : S → E → Prop} {visits : List (S × E)} {t : S} {e : E} :
    Guarded G (visits ++ [(t, e)]) ↔ Guarded G visits ∧ G t e := by
  simp [Guarded, or_imp, forall_and]

/-- What holds at the start and is kept by every guarded step holds in the state
a guarded run reaches. -/
theorem Run.invariant {G : S → E → Prop} {I : S → Prop} {s t : S}
    {visits : List (S × E)} (run : Run step s visits t) (hG : Guarded G visits)
    (start : I s) (kept : ∀ t e u, G t e → I t → step t e = some u → I u) :
    I t := by
  induction run with
  | refl => exact start
  | @tail visits t e u run h ih =>
      obtain ⟨hrun, hstep⟩ := guarded_snoc.mp hG
      exact kept t e u hstep (ih hrun) h

/-- The invariant rule for runs whose steps meet no condition. -/
theorem Run.always {I : S → Prop} {s t : S} {visits : List (S × E)}
    (run : Run step s visits t) (start : I s)
    (kept : ∀ t e u, I t → step t e = some u → I u) : I t :=
  run.invariant (G := fun _ _ => True) (fun _ _ => trivial) start
    fun t e u _ => kept t e u

/-- Where each step from a good state keeps it good exactly if it meets a condition, all
states of a run are good exactly if all its steps meet the condition. -/
theorem Run.forall_iff_guarded {P : S → Prop} {G : S → E → Prop} {s t : S}
    {visits : List (S × E)} (run : Run step s visits t) (start : P s)
    (kept : ∀ v ∈ visits, P v.1 → ∀ u, step v.1 v.2 = some u → (P u ↔ G v.1 v.2)) :
    ((∀ v ∈ visits, P v.1) ∧ P t) ↔ Guarded G visits := by
  induction run with
  | refl => simpa using start
  | @tail visits t e u run h ih =>
      have hlast := kept (t, e) (List.mem_append_right _ (List.mem_singleton.mpr rfl))
      rw [guarded_snoc, ← ih fun v hv => kept v (List.mem_append_left _ hv)]
      constructor
      · intro hall
        have ht : P t := hall.1 (t, e) (List.mem_append_right _ (List.mem_singleton.mpr rfl))
        exact ⟨⟨fun v hv => hall.1 v (List.mem_append_left _ hv), ht⟩, (hlast ht u h).mp hall.2⟩
      · intro hall
        obtain ⟨⟨hvisits, ht⟩, hstep⟩ := hall
        refine ⟨?_, (hlast ht u h).mpr hstep⟩
        intro v hv
        rcases List.mem_append.mp hv with hv | hv
        · exact hvisits v hv
        · rw [List.mem_singleton.mp hv]
          exact ht

/-- A visited state is itself reached by a run, whose visits are visits of the whole. -/
theorem Run.visited {s t : S} {visits : List (S × E)} (run : Run step s visits t)
    {v : S × E} (hv : v ∈ visits) :
    ∃ before after u, visits = before ++ v :: after ∧ Run step s before v.1 ∧
      step v.1 v.2 = some u := by
  induction run with
  | refl => simp at hv
  | @tail visits t e u run h ih =>
      rcases List.mem_append.mp hv with hv | hv
      · obtain ⟨before, after, w, heq, hrun, hstep⟩ := ih hv
        exact ⟨before, after ++ [(t, e)], w, by simp [heq], hrun, hstep⟩
      · obtain rfl := List.mem_singleton.mp hv
        exact ⟨visits, [], u, rfl, run, h⟩

/-- Behind one of its visits a run goes on from what the step leaves. -/
theorem Run.rest {s t : S} {before after : List (S × E)} {v : S × E}
    (run : Run step s (before ++ v :: after) t) :
    ∃ u, step v.1 v.2 = some u ∧ Run step u after t := by
  induction after using List.reverseRecOn generalizing t with
  | nil =>
      generalize hvisits : before ++ [v] = visits at run
      cases run with
      | refl => cases List.append_ne_nil_of_right_ne_nil before (List.cons_ne_nil v []) hvisits
      | tail run h =>
          obtain ⟨-, hv⟩ := List.append_inj' hvisits rfl
          rw [List.singleton_inj.mp hv]
          exact ⟨t, h, Run.refl⟩
  | append_singleton after w ih =>
      generalize hvisits : before ++ v :: (after ++ [w]) = visits at run
      cases run with
      | refl => cases List.append_ne_nil_of_right_ne_nil before (List.cons_ne_nil v _) hvisits
      | tail run h =>
          rw [← List.cons_append, ← List.append_assoc] at hvisits
          obtain ⟨hbefore, hw⟩ := List.append_inj' hvisits rfl
          rw [← hbefore] at run
          obtain ⟨u, hstep, hrest⟩ := ih run
          rw [List.singleton_inj.mp hw]
          exact ⟨u, hstep, Run.tail hrest h⟩

/-- Along a run a measure never falls below an earlier value exactly when no step lowers
it. -/
theorem Run.monotone_iff {α : Type*} [Preorder α] (m : S → α) {s t : S}
    {visits : List (S × E)} (run : Run step s visits t) :
    (visits.map (fun v => m v.1) ++ [m t]).Pairwise (· ≤ ·) ↔
      ∀ v ∈ visits, ∀ u, step v.1 v.2 = some u → m v.1 ≤ m u := by
  induction run with
  | refl => simp
  | @tail visits t e u run h ih =>
      rw [List.map_append, List.map_singleton, List.pairwise_append, ih]
      constructor
      · rintro ⟨hearlier, -, hlast⟩ v hv w hw
        rcases List.mem_append.mp hv with hv | hv
        · exact hearlier v hv w hw
        · obtain rfl := List.mem_singleton.mp hv
          obtain rfl : u = w := Option.some.inj (h.symm.trans hw)
          exact hlast (m t) (by simp) (m u) (by simp)
      · intro hsteps
        have hlast : m t ≤ m u := hsteps (t, e) (by simp) u h
        have hearlier := fun v hv => hsteps v (List.mem_append_left _ hv)
        refine ⟨hearlier, List.pairwise_singleton _ _, ?_⟩
        intro x hx y hy
        obtain rfl := List.mem_singleton.mp hy
        have hxt : x ≤ m t := by
          rcases List.mem_append.mp hx with hx | hx
          · exact (List.pairwise_append.mp (ih.mpr hearlier)).2.2 x hx (m t) (by simp)
          · exact (List.mem_singleton.mp hx).le
        exact hxt.trans hlast

/-- The state after a list of events, where every one of them is enabled. -/
def execute (step : S → E → Option S) : S → List E → Option S
  | s, [] => some s
  | s, e :: events =>
      match step s e with
      | some t => execute step t events
      | none => none

/-- The visits of the execution of a list of events. -/
def trace (step : S → E → Option S) : S → List E → List (S × E)
  | _, [] => []
  | s, e :: events =>
      match step s e with
      | some t => (s, e) :: trace step t events
      | none => []

theorem Run.head {s t u : S} {e : E} {visits : List (S × E)} (h : step s e = some t)
    (run : Run step t visits u) : Run step s ((s, e) :: visits) u := by
  induction run with
  | refl => exact Run.tail Run.refl h
  | tail _ hstep ih => exact Run.tail ih hstep

/-- Executing events that are all enabled is a run. -/
theorem run_of_execute {s t : S} {events : List E} (h : execute step s events = some t) :
    Run step s (trace step s events) t := by
  induction events generalizing s with
  | nil =>
      obtain rfl := Option.some.inj h
      exact Run.refl
  | cons e events ih =>
      cases hs : step s e with
      | none => simp [execute, hs] at h
      | some u =>
          simp only [execute, hs] at h
          simp only [trace, hs]
          exact Run.head hs (ih h)

/-- A list of events whose execution shows `x` is a run to a state that shows it. -/
theorem run_showing {α : Type*} {f : S → α} {x : α} {s : S} {events : List E}
    (h : (execute step s events).map f = some x) :
    ∃ t, Run step s (trace step s events) t ∧ f t = x := by
  obtain ⟨t, ht, hx⟩ := Option.map_eq_some_iff.mp h
  exact ⟨t, run_of_execute ht, hx⟩

end MiniKafka.Foundations
