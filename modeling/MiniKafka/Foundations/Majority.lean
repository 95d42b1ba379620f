import Mathlib.Data.Finset.Card

/-!
# Majorities of a finite set of voters

Two majorities of one voter set meet, so a voter who votes at most once per
ballot cannot serve two winners of that ballot.
-/

namespace MiniKafka.Foundations

variable {V B C : Type*} [DecidableEq V]

/-- More than half of the voters. -/
def Majority (voters quorum : Finset V) : Prop :=
  quorum ⊆ voters ∧ voters.card / 2 + 1 ≤ quorum.card

theorem Majority.meet {voters p q : Finset V} (hp : Majority voters p)
    (hq : Majority voters q) : ∃ v, v ∈ p ∧ v ∈ q := by
  have hcard : voters.card < p.card + q.card := by
    have h₁ := hp.2
    have h₂ := hq.2
    omega
  obtain ⟨v, hv⟩ := Finset.inter_nonempty_of_card_lt_card_add_card hp.1 hq.1 hcard
  exact ⟨v, (Finset.mem_inter.mp hv).1, (Finset.mem_inter.mp hv).2⟩

/-- A ballot in which nobody votes for two candidates has at most one candidate
with a majority. -/
theorem unique_winner {voters : Finset V} (vote : V → B → C → Prop)
    (once : ∀ v b c c', vote v b c → vote v b c' → c = c') {b : B} {c c' : C}
    {p q : Finset V} (hp : Majority voters p) (hq : Majority voters q)
    (hc : ∀ v ∈ p, vote v b c) (hc' : ∀ v ∈ q, vote v b c') : c = c' := by
  obtain ⟨v, hvp, hvq⟩ := hp.meet hq
  exact once v b c c' (hc v hvp) (hc' v hvq)

end MiniKafka.Foundations
