import Mathlib.Data.List.Basic
import Mathlib.Data.List.Induction

/-!
# Walks in a tree of named places

A place is the list of the names on the way from the root to it. A walk stays, goes up or
goes down to a name; above the root there is nothing, so going up from there stays. What a
walk does to every place it starts from is told by how far it goes up and by the names it
then goes down.
-/

namespace MiniKafka.Foundations

variable {ν : Type*}

inductive Move (ν : Type*)
  | stay
  | up
  | down (name : ν)
  deriving DecidableEq

abbrev Place (ν : Type*) := List ν

def Place.move (place : Place ν) : Move ν → Place ν
  | .stay => place
  | .up => place.dropLast
  | .down name => place ++ [name]

def walk (place : Place ν) (moves : List (Move ν)) : Place ν :=
  moves.foldl Place.move place

/-- The net effect of a walk. -/
structure Shift (ν : Type*) where
  ups : Nat
  downs : List ν
  deriving DecidableEq

namespace Shift

def act (s : Shift ν) (place : Place ν) : Place ν :=
  place.take (place.length - s.ups) ++ s.downs

/-- A move after a walk. Going up takes back the last step down, if there is one. -/
def move (s : Shift ν) : Move ν → Shift ν
  | .stay => s
  | .up => if s.downs = [] then ⟨s.ups + 1, []⟩ else ⟨s.ups, s.downs.dropLast⟩
  | .down name => ⟨s.ups, s.downs ++ [name]⟩

def of (moves : List (Move ν)) : Shift ν :=
  moves.foldl move ⟨0, []⟩

/-- The second walk goes up at least as far as the first and comes back on the names of
the place itself. -/
def Reenters (place : Place ν) (s s' : Shift ν) : Prop :=
  s.ups ≤ s'.ups ∧
    s'.downs = (place.take (place.length - s.ups)).drop (place.length - s'.ups) ++ s.downs

instance [DecidableEq ν] (place : Place ν) (s s' : Shift ν) : Decidable (Reenters place s s') :=
  inferInstanceAs (Decidable (_ ∧ _))

end Shift

variable {place : Place ν} {moves more : List (Move ν)} {m : Move ν} {s s' : Shift ν}

@[simp] theorem walk_nil : walk place [] = place := rfl

@[simp] theorem walk_append : walk place (moves ++ more) = walk (walk place moves) more :=
  List.foldl_append

@[simp] theorem walk_singleton : walk place [m] = place.move m := rfl

@[simp] theorem Shift.of_nil : Shift.of ([] : List (Move ν)) = ⟨0, []⟩ := rfl

@[simp] theorem Shift.of_snoc : Shift.of (moves ++ [m]) = (Shift.of moves).move m :=
  List.foldl_append

theorem Shift.act_move : (s.move m).act place = (s.act place).move m := by
  cases m with
  | stay => rfl
  | down name =>
      change place.take (place.length - s.ups) ++ (s.downs ++ [name]) = _
      rw [← List.append_assoc]
      rfl
  | up =>
      simp only [Shift.move, Place.move, Shift.act]
      split
      · next hdowns =>
          rw [hdowns, List.append_nil, List.append_nil, List.dropLast_eq_take, List.take_take,
            List.length_take]
          congr 1
          change place.length - (s.ups + 1) = _
          omega
      · next hdowns => rw [List.dropLast_append_of_ne_nil hdowns]

/-- A walk does what its net effect does. -/
theorem walk_eq_act (place : Place ν) (moves : List (Move ν)) :
    walk place moves = (Shift.of moves).act place := by
  induction moves using List.reverseRecOn with
  | nil => simp [Shift.act]
  | append_singleton moves m ih =>
      rw [walk_append, walk_singleton, ih, Shift.of_snoc, Shift.act_move]

theorem Shift.act_eq_of_le (h : s.ups ≤ s'.ups) :
    s.act place = s'.act place ↔ Reenters place s s' := by
  -- the first place split where the second walk turns back
  have hsplit : s.act place = place.take (place.length - s'.ups) ++
      ((place.take (place.length - s.ups)).drop (place.length - s'.ups) ++ s.downs) := by
    have hle : place.length - s'.ups ≤ place.length - s.ups := Nat.sub_le_sub_left h _
    have htake : place.take (place.length - s'.ups) =
        (place.take (place.length - s.ups)).take (place.length - s'.ups) := by
      rw [List.take_take, Nat.min_eq_left hle]
    rw [htake, ← List.append_assoc, List.take_append_drop]
    rfl
  rw [hsplit, Shift.act, List.append_cancel_left_eq, Reenters]
  constructor
  · intro heq
    exact ⟨h, heq.symm⟩
  · intro hre
    exact hre.2.symm

/-- Two walks end at one place exactly when one of them reenters on the other's way. -/
theorem Shift.act_eq_iff :
    s.act place = s'.act place ↔ Reenters place s s' ∨ Reenters place s' s := by
  constructor
  · intro heq
    rcases Nat.le_total s.ups s'.ups with h | h
    · exact Or.inl ((act_eq_of_le h).mp heq)
    · exact Or.inr ((act_eq_of_le h).mp heq.symm)
  · intro hre
    rcases hre with hre | hre
    · exact (act_eq_of_le hre.1).mpr hre
    · exact ((act_eq_of_le hre.1).mpr hre).symm

end MiniKafka.Foundations
