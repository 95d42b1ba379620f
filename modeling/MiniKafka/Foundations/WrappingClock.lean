import MiniKafka.Foundations.Run
import Mathlib.Algebra.Group.Nat.Defs

/-!
# Ages measured on a wrapping clock

The age of a contact as the difference of two 64-bit readings, and the test that it is over a
threshold. The difference is that of the numbers while the contact is not later than the
reading; a clock that was set back makes it wrap. A watch says, for the steps of a system,
which contacts are tested there and which of them are treated as expired.
-/

namespace MiniKafka.Foundations

/-- A contact recorded at `last` that is looked at in a reading `now`. -/
structure Comparison where
  last : UInt64
  now : UInt64
  threshold : UInt64

namespace Comparison

variable (k : Comparison)

/-- The test on the wrapping difference. -/
def Expired : Prop := k.threshold < k.now - k.last

/-- The contact is more than the threshold before the reading, as numbers. -/
def Overdue : Prop := k.last.toNat + k.threshold.toNat < k.now.toNat

/-- The contact is not later than the reading, or so much later that the difference wraps to
one within the threshold. -/
def NotAhead : Prop :=
  k.last.toNat ≤ k.now.toNat ∨
    2 ^ 64 ≤ (k.last.toNat - k.now.toNat) + k.threshold.toNat

variable {k}

theorem expired_iff {last now threshold : UInt64} :
    Expired ⟨last, now, threshold⟩ ↔ ¬ now - last ≤ threshold :=
  UInt64.not_le.symm

theorem expired_overdue_iff : (k.Expired → k.Overdue) ↔ k.NotAhead := by
  have hlast := k.last.toNat_lt
  have hnow := k.now.toNat_lt
  unfold Expired Overdue NotAhead
  rw [UInt64.lt_iff_toNat_lt]
  rcases Nat.lt_or_ge k.now.toNat k.last.toNat with hahead | hbehind
  · have hwrap : (k.now - k.last).toNat = 2 ^ 64 - (k.last.toNat - k.now.toNat) := by
      rw [UInt64.toNat_sub]
      omega
    rw [hwrap]
    omega
  · rw [UInt64.toNat_sub_of_le _ _ (UInt64.le_iff_toNat_le.mpr hbehind)]
    omega

end Comparison

/-- The contacts that the steps of a system test, by what they are contacts of, and those that
they treat as expired. -/
structure Watch (S E ι : Type*) where
  tests : S → E → ι → Comparison → Prop
  expires : S → E → ι → Prop
  /-- What is tested is treated as expired exactly where the test says so. -/
  wraps : ∀ {s e i k}, tests s e i k → (expires s e i ↔ k.Expired)

namespace Watch

variable {S E ι : Type*} (w : Watch S E ι)

/-- Only overdue contacts are treated as expired in the steps of a run. -/
def Sound (visits : List (S × E)) : Prop :=
  ∀ v ∈ visits, ∀ i k, w.tests v.1 v.2 i k → w.expires v.1 v.2 i → k.Overdue

/-- No tested contact is ahead of the reading. -/
def NoneAhead (s : S) (e : E) : Prop := ∀ i k, w.tests s e i k → k.NotAhead

theorem sound_iff {visits : List (S × E)} : w.Sound visits ↔ Guarded w.NoneAhead visits := by
  constructor
  · intro sound v hv i k htests
    apply Comparison.expired_overdue_iff.mp
    intro hexpired
    exact sound v hv i k htests ((w.wraps htests).mpr hexpired)
  · intro guarded v hv i k htests hexpires
    exact Comparison.expired_overdue_iff.mpr (guarded v hv i k htests)
      ((w.wraps htests).mp hexpires)

end Watch

end MiniKafka.Foundations
