import Mathlib.Data.FinEnum
import Mathlib.Data.Int.CardIntervalMod
import Mathlib.Data.Set.Card

/-!
# Mixing words

The steps of a multiplicative hash function: a word times an odd constant, a word exclusive or
its own shift, a word exclusive or some data. Each is a permutation of the words, and a hash
that takes its data in by such steps can be undone in any one item of it. Numbers that fall on
the words evenly still do so modulo a count.
-/

namespace MiniKafka.Foundations

section Words

variable {w : Nat}

theorem xor_eq_xor_of_eq {x y a b : BitVec w} (h : x ^^^ a = y ^^^ b) : x ^^^ y = a ^^^ b := by
  have hx : x = y ^^^ b ^^^ a := by
    rw [← h, BitVec.xor_assoc, BitVec.xor_self, BitVec.xor_zero]
  rw [hx, BitVec.xor_comm, ← BitVec.xor_assoc, ← BitVec.xor_assoc, BitVec.xor_self,
    BitVec.zero_xor, BitVec.xor_comm]

/-- A difference of two words would be its own shift. -/
theorem xorShift_injective {r : Nat} (hr : 0 < r) :
    Function.Injective fun x : BitVec w => x ^^^ (x >>> r) := by
  intro x y h
  have hdiff : x ^^^ y = (x ^^^ y) >>> r := by
    rw [BitVec.ushiftRight_xor_distrib]
    exact xor_eq_xor_of_eq h
  have hzero : (x ^^^ y).toNat = 0 := by
    have hnat := congrArg BitVec.toNat hdiff
    rw [BitVec.toNat_ushiftRight, Nat.shiftRight_eq_div_pow] at hnat
    by_contra hpos
    exact absurd hnat (Nat.div_lt_self (by omega) (Nat.one_lt_pow hr.ne' (by decide))).ne'
  exact BitVec.xor_eq_zero_iff.mp (BitVec.eq_of_toNat_eq hzero)

/-- An odd constant has no factor in common with the number of words. -/
theorem mul_odd_injective {m : BitVec w} (hm : m.toNat % 2 = 1) :
    Function.Injective fun x : BitVec w => x * m := by
  intro x y h
  have hnat : x.toNat * m.toNat ≡ y.toNat * m.toNat [MOD 2 ^ w] := by
    have hprod := congrArg BitVec.toNat h
    simp only [BitVec.toNat_mul] at hprod
    exact hprod
  have hcop : Nat.gcd (2 ^ w) m.toNat = 1 := by
    apply Nat.Coprime.pow_left
    rw [Nat.coprime_iff_gcd_eq_one, Nat.gcd_rec, hm, Nat.gcd_one_left]
  have hmod := hnat.cancel_right_of_coprime hcop
  exact BitVec.eq_of_toNat_eq (hmod.eq_of_lt_of_lt x.isLt y.isLt)

/-- Words whose number meets a condition, counted. -/
theorem ncard_words (P : Nat → Prop) [DecidablePred P] :
    {x : BitVec w | P x.toNat}.ncard = Nat.count P (2 ^ w) := by
  have himage : BitVec.toNat '' {x : BitVec w | P x.toNat} =
      ((Finset.range (2 ^ w)).filter P : Finset Nat) := by
    ext n
    simp only [Set.mem_image, Set.mem_ofPred_eq, Finset.coe_filter, Finset.mem_range]
    constructor
    · rintro ⟨x, hx, rfl⟩
      exact ⟨x.isLt, hx⟩
    · rintro ⟨hlt, hn⟩
      refine ⟨BitVec.ofNat w n, ?_, ?_⟩
      · rwa [BitVec.toNat_ofNat, Nat.mod_eq_of_lt hlt]
      · rw [BitVec.toNat_ofNat, Nat.mod_eq_of_lt hlt]
  rw [← Set.ncard_image_of_injective _ (fun x y h => BitVec.eq_of_toNat_eq h), himage,
    Set.ncard_coe_finset, Nat.count_eq_card_filter_range]

/-- All bits but the highest, modulo a count: every remainder comes about equally often. -/
theorem ncard_low_mod {n p : Nat} (hp : p < n) :
    ∃ c, (c = 2 ^ w / n ∨ c = 2 ^ w / n + 1) ∧
      {x : BitVec (w + 1) | x.toNat % 2 ^ w % n = p}.ncard = 2 * c := by
  have hn : 0 < n := by omega
  have hcount : Nat.count (fun v => v % 2 ^ w % n = p) (2 ^ (w + 1)) =
      2 * Nat.count (fun v => v ≡ p [MOD n]) (2 ^ w) := by
    have hhalf : Nat.count (fun v => v % 2 ^ w % n = p) (2 ^ w) =
        Nat.count (fun v => v ≡ p [MOD n]) (2 ^ w) := by
      rw [Nat.count_eq_card_filter_range, Nat.count_eq_card_filter_range]
      congr 1
      apply Finset.filter_congr
      intro v hv
      rw [Nat.mod_eq_of_lt (Finset.mem_range.mp hv), Nat.ModEq, Nat.mod_eq_of_lt hp]
    have hshift : (fun v => (2 ^ w + v) % 2 ^ w % n = p) = fun v => v % 2 ^ w % n = p := by
      funext v
      rw [Nat.add_mod_left]
    rw [Nat.pow_succ, Nat.mul_two, Nat.count_add]
    simp only [hshift, hhalf]
    omega
  refine ⟨Nat.count (fun v => v ≡ p [MOD n]) (2 ^ w), ?_, ?_⟩
  · rw [Nat.count_modEq_card _ hn]
    split
    · exact Or.inr rfl
    · exact Or.inl rfl
  · rw [ncard_words fun v => v % 2 ^ w % n = p, hcount]

end Words

section Fold

variable {σ β : Type*} {step : σ → β → σ}

theorem foldl_injective (hstate : ∀ b, Function.Injective fun s => step s b) (items : List β) :
    Function.Injective fun s => items.foldl step s := by
  induction items with
  | nil => exact Function.injective_id
  | cons b rest ih => exact ih.comp (hstate b)

/-- Where every step can be undone, any one item is known from the result and the others. -/
theorem foldl_injective_at (hstate : ∀ b, Function.Injective fun s => step s b)
    (hitem : ∀ s, Function.Injective (step s)) (s : σ) (front back : List β) :
    Function.Injective fun b => (front ++ b :: back).foldl step s := by
  intro b b' h
  simp only [List.foldl_append, List.foldl_cons] at h
  exact hitem _ (foldl_injective hstate back h)

end Fold

end MiniKafka.Foundations
