import Mathlib.Logic.Relation

/-!
# Who waits for whom

Threads in a graph of waits. A cycle is a deadlock: none of its threads can go on before
another one of them.
-/

namespace MiniKafka.Foundations

variable {τ : Type*} {waitsFor : τ → τ → Prop} {t u v : τ}

/-- A thread that waits, through some others, for itself. -/
def Deadlocked (waitsFor : τ → τ → Prop) : Prop := ∃ t, Relation.TransGen waitsFor t t

theorem rank_lt_of_waits {rank : τ → Nat} (descends : ∀ t u, waitsFor t u → rank u < rank t)
    (h : Relation.TransGen waitsFor t u) : rank u < rank t := by
  induction h with
  | single h => exact descends _ _ h
  | tail _ h ih => exact Nat.lt_trans (descends _ _ h) ih

/-- Where every thread waits for threads of lower rank only, there is no cycle. -/
theorem not_deadlocked_of_rank (rank : τ → Nat)
    (descends : ∀ t u, waitsFor t u → rank u < rank t) : ¬ Deadlocked waitsFor := by
  rintro ⟨t, h⟩
  exact Nat.lt_irrefl _ (rank_lt_of_waits descends h)

end MiniKafka.Foundations
