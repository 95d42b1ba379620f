import Mathlib.Algebra.GroupWithZero.Nat
import Mathlib.Data.List.Basic
import Mathlib.Data.List.Infix

/-!
# Taking what fits a budget

A list of items with sizes and the longest part from its front whose sizes add up to at
most a given budget, in exact numbers.
-/

namespace MiniKafka.Foundations

variable {α : Type*}

def total (size : α → Nat) (items : List α) : Nat := (items.map size).sum

/-- Items are taken while they fit. -/
def fitting (size : α → Nat) : Nat → List α → List α
  | _, [] => []
  | budget, a :: rest =>
      if size a ≤ budget then a :: fitting size (budget - size a) rest else []

/-- The longest run from the front within the budget. -/
structure LongestFit (size : α → Nat) (budget : Nat) (items run : List α) : Prop where
  front : run <+: items
  fits : total size run ≤ budget
  longest : ∀ other, other <+: items → total size other ≤ budget → other.length ≤ run.length

variable {size : α → Nat} {budget : Nat} {a : α} {items rest run run' : List α}

@[simp] theorem total_nil : total size [] = 0 := rfl

@[simp] theorem total_cons : total size (a :: rest) = size a + total size rest := by
  simp [total]

theorem fitting_cons_of_le (h : size a ≤ budget) :
    fitting size budget (a :: rest) = a :: fitting size (budget - size a) rest :=
  if_pos h

theorem fitting_cons_of_lt (h : budget < size a) : fitting size budget (a :: rest) = [] :=
  if_neg (Nat.not_le.mpr h)

theorem LongestFit.unique (h : LongestFit size budget items run)
    (h' : LongestFit size budget items run') : run = run' := by
  have hle := h'.longest run h.front h.fits
  have hge := h.longest run' h'.front h'.fits
  have hpart := List.prefix_of_prefix_length_le h.front h'.front hle
  exact hpart.eq_of_length (Nat.le_antisymm hle hge)

theorem fitting_longestFit (size : α → Nat) (budget : Nat) (items : List α) :
    LongestFit size budget items (fitting size budget items) := by
  induction items generalizing budget with
  | nil =>
      refine ⟨List.prefix_refl _, Nat.zero_le _, ?_⟩
      intro other hother _
      exact hother.length_le
  | cons a rest ih =>
      by_cases h : size a ≤ budget
      · rw [fitting_cons_of_le h]
        have hrest := ih (budget - size a)
        refine ⟨List.cons_prefix_cons.mpr ⟨rfl, hrest.front⟩, ?_, ?_⟩
        · have hfits := hrest.fits
          rw [total_cons]
          omega
        · intro other hother hfits
          cases other with
          | nil => exact Nat.zero_le _
          | cons b more =>
              obtain ⟨rfl, hmore⟩ := List.cons_prefix_cons.mp hother
              rw [total_cons] at hfits
              have hle := hrest.longest more hmore (by omega)
              simp only [List.length_cons]
              omega
      · have hlt : budget < size a := Nat.lt_of_not_le h
        rw [fitting_cons_of_lt hlt]
        refine ⟨List.nil_prefix, Nat.zero_le _, ?_⟩
        intro other hother hfits
        cases other with
        | nil => exact Nat.le_refl _
        | cons b more =>
            obtain ⟨rfl, -⟩ := List.cons_prefix_cons.mp hother
            rw [total_cons] at hfits
            omega

theorem longestFit_iff : LongestFit size budget items run ↔ run = fitting size budget items := by
  constructor
  · intro h
    exact h.unique (fitting_longestFit size budget items)
  · rintro rfl
    exact fitting_longestFit size budget items

end MiniKafka.Foundations
