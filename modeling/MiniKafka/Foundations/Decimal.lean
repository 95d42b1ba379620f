import Mathlib.Algebra.Group.Nat.Defs
import Mathlib.Data.List.Basic
import Mathlib.Data.UInt

/-!
# Decimal numerals

Natural numbers as strings of ASCII digits, most significant first and without leading
zeros, and the value of any string of digits.
-/

namespace MiniKafka.Foundations

/-- The ASCII digits. -/
def isDigit (b : UInt8) : Bool := 48 ≤ b ∧ b ≤ 57

def digitValue (b : UInt8) : Nat := b.toNat - 48

/-- What `to_string` and `operator<<` print. -/
def decimal (n : Nat) : List UInt8 := (Nat.toDigits 10 n).map fun c => UInt8.ofNat c.toNat

/-- The sign before a numeral. -/
def signText (negative : Bool) : List UInt8 := if negative then [45] else []

def decimalInt (v : Int) : List UInt8 := signText (v < 0) ++ decimal v.natAbs

/-- The value of digits that follow a number `v`. -/
def valueFrom (v : Nat) (digits : List UInt8) : Nat :=
  digits.foldl (fun v b => 10 * v + digitValue b) v

abbrev value (digits : List UInt8) : Nat := valueFrom 0 digits

variable {n k : Nat} {digits more : List UInt8}

@[simp] theorem valueFrom_nil (v : Nat) : valueFrom v [] = v := rfl

theorem valueFrom_append (v : Nat) :
    valueFrom v (digits ++ more) = valueFrom (valueFrom v digits) more :=
  List.foldl_append

theorem digit_of_lt (h : n < 10) :
    isDigit (UInt8.ofNat (48 + n)) = true ∧ digitValue (UInt8.ofNat (48 + n)) = n := by
  have hnat : (UInt8.ofNat (48 + n)).toNat = 48 + n :=
    UInt8.toNat_ofNat_of_lt' (by simp only [UInt8.size]; omega)
  constructor
  · simp only [isDigit, UInt8.le_iff_toNat_le, hnat, decide_eq_true_eq]
    change 48 ≤ 48 + n ∧ 48 + n ≤ 57
    omega
  · rw [digitValue, hnat]
    omega

theorem decimal_of_lt (h : n < 10) : decimal n = [UInt8.ofNat (48 + n)] := by
  unfold decimal
  rw [Nat.toDigits_of_lt_base h, List.map_singleton, Nat.toNat_digitChar_of_lt_ten h]

theorem decimal_of_ge (h : 10 ≤ n) :
    decimal n = decimal (n / 10) ++ [UInt8.ofNat (48 + n % 10)] := by
  have hdigit := Nat.toNat_digitChar_of_lt_ten (Nat.mod_lt n (by decide : 0 < 10))
  unfold decimal
  rw [Nat.toDigits_of_base_le (by decide) h, List.map_append, List.map_singleton, hdigit]

theorem decimal_ne_nil (n : Nat) : decimal n ≠ [] := by
  rcases Nat.lt_or_ge n 10 with h | h
  · simp [decimal_of_lt h]
  · simp [decimal_of_ge h]

theorem isDigit_of_mem_decimal {b : UInt8} (h : b ∈ decimal n) : isDigit b = true := by
  induction n using Nat.strong_induction_on with
  | _ n ih =>
      rcases Nat.lt_or_ge n 10 with hn | hn
      · rw [decimal_of_lt hn, List.mem_singleton] at h
        rw [h]
        exact (digit_of_lt hn).1
      · rw [decimal_of_ge hn, List.mem_append, List.mem_singleton] at h
        rcases h with h | h
        · exact ih (n / 10) (Nat.div_lt_self (by omega) (by decide)) h
        · rw [h]
          exact (digit_of_lt (Nat.mod_lt n (by decide))).1

/-- The first digits of a numeral are the number without its last ones. -/
theorem value_decimal_take (h : k ≤ (decimal n).length) :
    value ((decimal n).take k) = n / 10 ^ ((decimal n).length - k) := by
  induction n using Nat.strong_induction_on generalizing k with
  | _ n ih =>
      rcases Nat.lt_or_ge n 10 with hn | hn
      · rw [decimal_of_lt hn, List.length_singleton] at h
        rw [decimal_of_lt hn, List.length_singleton]
        rcases Nat.le_one_iff_eq_zero_or_eq_one.mp h with hk | hk
        · rw [hk, Nat.sub_zero, Nat.pow_one, Nat.div_eq_of_lt hn]
          rfl
        · rw [hk, Nat.sub_self, Nat.pow_zero, Nat.div_one]
          exact (Nat.zero_add _).trans (digit_of_lt hn).2
      · have hlt : n / 10 < n := Nat.div_lt_self (by omega) (by decide)
        rw [decimal_of_ge hn, List.length_append, List.length_singleton] at h
        rw [decimal_of_ge hn, List.length_append, List.length_singleton]
        rcases Nat.lt_or_ge (decimal (n / 10)).length k with hk | hk
        · have hk : k = (decimal (n / 10)).length + 1 := by omega
          have hwhole : valueFrom 0 (decimal (n / 10)) = n / 10 := by
            have hall := ih (n / 10) hlt (Nat.le_refl _)
            rwa [List.take_length, Nat.sub_self, Nat.pow_zero, Nat.div_one] at hall
          rw [hk, List.take_of_length_le (by simp), Nat.sub_self, Nat.pow_zero, Nat.div_one,
            value, valueFrom_append, hwhole]
          change 10 * (n / 10) + digitValue _ = n
          rw [(digit_of_lt (Nat.mod_lt n (by decide))).2]
          exact Nat.div_add_mod n 10
        · rw [List.take_append_of_le_length hk, ih (n / 10) hlt hk, Nat.div_div_eq_div_mul,
            Nat.succ_sub hk, Nat.pow_succ']

/-- The first digits of a numeral, at least one, are a numeral. -/
theorem take_decimal (hpos : 0 < k) (h : k ≤ (decimal n).length) :
    (decimal n).take k = decimal (n / 10 ^ ((decimal n).length - k)) := by
  induction n using Nat.strong_induction_on with
  | _ n ih =>
      rcases Nat.lt_or_ge n 10 with hn | hn
      · have hlen : (decimal n).length = 1 := by rw [decimal_of_lt hn, List.length_singleton]
        have hk : k = 1 := by omega
        rw [hlen, hk, Nat.sub_self, Nat.pow_zero, Nat.div_one]
        exact List.take_of_length_le (by omega)
      · have hlt : n / 10 < n := Nat.div_lt_self (by omega) (by decide)
        have hlen : (decimal n).length = (decimal (n / 10)).length + 1 := by
          rw [decimal_of_ge hn, List.length_append, List.length_singleton]
        rcases Nat.lt_or_ge (decimal (n / 10)).length k with hk | hk
        · have hall : k = (decimal n).length := by omega
          rw [hall, List.take_length, Nat.sub_self, Nat.pow_zero, Nat.div_one]
        · rw [hlen, Nat.succ_sub hk, Nat.pow_succ', ← Nat.div_div_eq_div_mul, ← ih _ hlt hk,
            decimal_of_ge hn, List.take_append_of_le_length hk]

@[simp] theorem value_decimal (n : Nat) : value (decimal n) = n := by
  have h := value_decimal_take (Nat.le_refl (decimal n).length)
  rwa [List.take_length, Nat.sub_self, Nat.pow_zero, Nat.div_one] at h

/-- A number is more than its first digits, if those are not all. -/
theorem div_pow_eq_self_iff {cut : Nat} (h : cut < (decimal n).length) :
    n / 10 ^ cut = n ↔ cut = 0 := by
  constructor
  · intro heq
    by_contra hcut
    rcases Nat.eq_zero_or_pos n with hn | hn
    · have hlen : (decimal n).length = 1 := by rw [hn, decimal_of_lt (by decide)]; rfl
      omega
    · exact absurd heq (Nat.div_lt_self hn (Nat.one_lt_pow hcut (by decide))).ne
  · intro hcut
    rw [hcut, Nat.pow_zero, Nat.div_one]

theorem decimal_injective : Function.Injective decimal := by
  intro n m h
  rw [← value_decimal n, h, value_decimal]

example : decimal 4096 = [52, 48, 57, 54] ∧ value [48, 52, 50] = 42 := by decide

end MiniKafka.Foundations
