import Mathlib.Logic.Function.Iterate
import Mathlib.Data.List.Basic

/-!
# Shift registers with linear feedback

A register of `w` bits. In each step its lowest bit leaves it, and the bits of a polynomial
are added where that bit was set. Digits of `k` bits are taken in by adding them to the low
end and stepping `k` times. The steps are linear, and a polynomial with the top bit set makes
them injective: as many digits as the register has room for are told apart by what they leave
in it, whatever came before them and whatever follows. A digit may also be taken in one bit
at a time.
-/

namespace MiniKafka.Foundations

variable {w k : Nat} {poly c d x y : BitVec w}

/-- One step of the register. -/
def shiftStep (poly c : BitVec w) : BitVec w :=
  if c.getLsbD 0 then poly ^^^ (c >>> 1) else c >>> 1

/-- The bits from `n` on are clear. -/
def FitsBits (n : Nat) (x : BitVec w) : Prop := ∀ i, n ≤ i → x.getLsbD i = false

section Step

theorem shiftStep_xor : shiftStep poly (x ^^^ y) = shiftStep poly x ^^^ shiftStep poly y := by
  apply BitVec.eq_of_getLsbD_eq
  intro i hi
  unfold shiftStep
  rw [BitVec.getLsbD_xor, BitVec.ushiftRight_xor_distrib]
  cases x.getLsbD 0 <;> cases y.getLsbD 0 <;> cases hp : poly.getLsbD i <;> simp [hp]

theorem iterate_shiftStep_xor (n : Nat) :
    (shiftStep poly)^[n] (x ^^^ y) = (shiftStep poly)^[n] x ^^^ (shiftStep poly)^[n] y := by
  induction n generalizing x y with
  | zero => rfl
  | succ n ih =>
      rw [Function.iterate_succ_apply, shiftStep_xor, ih]
      rfl

theorem shiftStep_eq_zero (top : poly.msb = true) (h : shiftStep poly d = 0#w) :
    d = 0#w := by
  have hlow : d.getLsbD 0 = false := by
    by_contra hset
    rw [Bool.not_eq_false] at hset
    rw [shiftStep, if_pos hset] at h
    have hmsb := congrArg BitVec.msb h
    rw [BitVec.msb_xor, top] at hmsb
    simp at hmsb
  rw [shiftStep, hlow, if_neg Bool.false_ne_true] at h
  apply BitVec.eq_of_getLsbD_eq
  intro i _
  cases i with
  | zero => rw [hlow, BitVec.getLsbD_zero]
  | succ i =>
      have hbit := congrArg (fun v => BitVec.getLsbD v i) h
      simp only [BitVec.getLsbD_ushiftRight] at hbit
      rw [Nat.add_comm, hbit]
      simp

theorem shiftStep_injective (top : poly.msb = true) : Function.Injective (shiftStep poly) := by
  intro x y h
  apply BitVec.xor_eq_zero_iff.mp
  apply shiftStep_eq_zero top
  rw [shiftStep_xor, h]
  exact BitVec.xor_self

/-- While the bits that leave are clear, the register only moves down. -/
theorem iterate_shiftStep_clear (clear : ∀ i < k, x.getLsbD i = false) :
    (shiftStep poly)^[k] x = x >>> k := by
  induction k with
  | zero => rfl
  | succ k ih =>
      have hbit : (x >>> k).getLsbD 0 = false := by
        rw [BitVec.getLsbD_ushiftRight, Nat.add_zero]
        exact clear k k.lt_succ_self
      rw [Function.iterate_succ_apply', ih fun i hi => clear i (Nat.lt_succ_of_lt hi), shiftStep,
        hbit, if_neg Bool.false_ne_true, ← BitVec.shiftRight_add]

/-- A table of the low digits replaces the steps: the rest moves down. -/
theorem iterate_shiftStep_split (low high : BitVec w) (h : c = low ^^^ high)
    (clear : ∀ i < k, high.getLsbD i = false) (fits : FitsBits k low) :
    (shiftStep poly)^[k] c = (shiftStep poly)^[k] low ^^^ (c >>> k) := by
  have hlow : low >>> k = 0#w := by
    apply BitVec.eq_of_getLsbD_eq
    intro i _
    rw [BitVec.getLsbD_ushiftRight, fits (k + i) (Nat.le_add_right k i), BitVec.getLsbD_zero]
  calc (shiftStep poly)^[k] c
      = (shiftStep poly)^[k] low ^^^ (high >>> k) := by
        rw [h, iterate_shiftStep_xor, iterate_shiftStep_clear clear]
    _ = (shiftStep poly)^[k] low ^^^ (c >>> k) := by
        rw [h, BitVec.ushiftRight_xor_distrib, hlow]
        congr 1
        exact BitVec.zero_xor.symm

end Step

section Digits

/-- The register after it took in a digit of `k` bits. -/
def takeIn (poly : BitVec w) (k : Nat) (c digit : BitVec w) : BitVec w :=
  (shiftStep poly)^[k] (c ^^^ digit)

/-- The number that digits of `k` bits write, the first one lowest. -/
def wordOf (k : Nat) : List (BitVec w) → BitVec w
  | [] => 0#w
  | digit :: rest => digit ^^^ (wordOf k rest <<< k)

variable {digits digits' before after : List (BitVec w)}

theorem wordOf_fits (fits : ∀ digit ∈ digits, FitsBits k digit) :
    FitsBits (k * digits.length) (wordOf k digits) := by
  induction digits with
  | nil =>
      intro i _
      exact BitVec.getLsbD_zero
  | cons digit rest ih =>
      intro i hi
      rw [List.length_cons, Nat.mul_succ] at hi
      have hrest := ih (fun d hd => fits d (List.mem_cons_of_mem digit hd)) (i - k) (by omega)
      rw [wordOf, BitVec.getLsbD_xor, BitVec.getLsbD_shiftLeft, hrest,
        fits digit List.mem_cons_self i (by omega), Bool.and_false, Bool.false_xor]

/-- What was moved up by a digit, and had room to, is moved down again. -/
theorem iterate_shiftStep_shiftLeft {n : Nat} (fits : FitsBits n x) (room : n + k ≤ w) :
    (shiftStep poly)^[k] (x <<< k) = x := by
  rw [iterate_shiftStep_clear]
  · apply BitVec.eq_of_getLsbD_eq
    intro i hi
    rw [BitVec.getLsbD_ushiftRight, BitVec.getLsbD_shiftLeft, Nat.add_sub_cancel_left]
    by_cases hin : k + i < w
    · simp [hin]
    · rw [fits i (by omega), Bool.and_false]
  · intro i hi
    rw [BitVec.getLsbD_shiftLeft]
    simp [hi]

/-- Digits that the register has room for are taken in as the number they write. -/
theorem foldl_takeIn_eq (fits : ∀ digit ∈ digits, FitsBits k digit)
    (room : k * digits.length ≤ w) :
    digits.foldl (takeIn poly k) c = (shiftStep poly)^[k * digits.length]
      (c ^^^ wordOf k digits) := by
  induction digits generalizing c with
  | nil =>
      rw [wordOf]
      simp
  | cons digit rest ih =>
      have hfits : ∀ d ∈ rest, FitsBits k d := fun d hd => fits d (List.mem_cons_of_mem digit hd)
      rw [List.length_cons, Nat.mul_succ] at room
      calc (digit :: rest).foldl (takeIn poly k) c
          = (shiftStep poly)^[k * rest.length] (takeIn poly k c digit ^^^ wordOf k rest) :=
            ih hfits (by omega)
        _ = (shiftStep poly)^[k * rest.length] ((shiftStep poly)^[k]
              (c ^^^ wordOf k (digit :: rest))) := by
            rw [wordOf, ← BitVec.xor_assoc, iterate_shiftStep_xor k,
              iterate_shiftStep_shiftLeft (wordOf_fits hfits) room]
            rfl
        _ = (shiftStep poly)^[k * (digit :: rest).length]
              (c ^^^ wordOf k (digit :: rest)) := by
            rw [← Function.iterate_add_apply, List.length_cons, Nat.mul_succ]

theorem wordOf_injective (length : digits.length = digits'.length)
    (fits : ∀ digit ∈ digits, FitsBits k digit) (fits' : ∀ digit ∈ digits', FitsBits k digit)
    (room : k * digits.length ≤ w) (h : wordOf k digits = wordOf k digits') :
    digits = digits' := by
  induction digits generalizing digits' with
  | nil => exact (List.eq_nil_of_length_eq_zero length.symm).symm
  | cons digit rest ih =>
      cases digits' with
      | nil => cases length
      | cons digit' rest' =>
          have hlength : rest.length = rest'.length := Nat.succ.inj length
          have hrest : ∀ d ∈ rest, FitsBits k d :=
            fun d hd => fits d (List.mem_cons_of_mem digit hd)
          have hrest' : ∀ d ∈ rest', FitsBits k d :=
            fun d hd => fits' d (List.mem_cons_of_mem digit' hd)
          rw [List.length_cons, Nat.mul_succ] at room
          have hbit : ∀ i, (digit.getLsbD i ^^ (wordOf k rest <<< k).getLsbD i) =
              (digit'.getLsbD i ^^ (wordOf k rest' <<< k).getLsbD i) := by
            intro i
            rw [← BitVec.getLsbD_xor, ← BitVec.getLsbD_xor]
            exact congrArg (fun v => BitVec.getLsbD v i) h
          have hdigit : digit = digit' := by
            apply BitVec.eq_of_getLsbD_eq
            intro i _
            by_cases hlow : i < k
            · have := hbit i
              simpa [BitVec.getLsbD_shiftLeft, hlow] using this
            · rw [fits digit List.mem_cons_self i (by omega),
                fits' digit' List.mem_cons_self i (by omega)]
          have hword : wordOf k rest = wordOf k rest' := by
            apply BitVec.eq_of_getLsbD_eq
            intro i hi
            by_cases hin : k + i < w
            · have hup := hbit (k + i)
              have hover : ¬ k + i < k := by omega
              rw [hdigit, Bool.xor_right_inj] at hup
              simpa only [BitVec.getLsbD_shiftLeft, hin, hover, decide_true, decide_false,
                Bool.not_false, Bool.true_and, Nat.add_sub_cancel_left] using hup
            · rw [wordOf_fits hrest i (by omega), wordOf_fits hrest' i (by rw [← hlength]; omega)]
          rw [hdigit, ih hlength hrest hrest' (by omega) hword]

theorem takeIn_injective (top : poly.msb = true) (digit : BitVec w) :
    Function.Injective fun c => takeIn poly k c digit := by
  intro x y h
  have hxor := ((shiftStep_injective top).iterate k) h
  exact (BitVec.xor_left_inj digit).mp hxor

theorem foldl_takeIn_injective (top : poly.msb = true) :
    Function.Injective fun c => digits.foldl (takeIn poly k) c := by
  induction digits with
  | nil => exact fun _ _ h => h
  | cons digit rest ih =>
      intro x y h
      exact takeIn_injective top digit (ih h)

/-- A burst no longer than the register changes what is left in it. -/
theorem burst_changes (top : poly.msb = true) (length : digits.length = digits'.length)
    (fits : ∀ digit ∈ digits, FitsBits k digit) (fits' : ∀ digit ∈ digits', FitsBits k digit)
    (room : k * digits.length ≤ w) (hne : digits ≠ digits') :
    (before ++ digits ++ after).foldl (takeIn poly k) c ≠
      (before ++ digits' ++ after).foldl (takeIn poly k) c := by
  intro h
  rw [List.foldl_append, List.foldl_append, List.foldl_append, List.foldl_append] at h
  have hburst := foldl_takeIn_injective top h
  rw [foldl_takeIn_eq fits room, foldl_takeIn_eq fits' (length ▸ room), length] at hburst
  have hxor := ((shiftStep_injective top).iterate _) hburst
  apply hne
  apply wordOf_injective length fits fits' room
  exact (BitVec.xor_right_inj _).mp hxor

end Digits

section Bits

/-- A bit as a digit. -/
def bitDigit (bit : Bool) : BitVec w := (BitVec.ofBool bit).setWidth w

theorem getLsbD_bitDigit (bit : Bool) {i : Nat} (hi : i < w) :
    (bitDigit bit : BitVec w).getLsbD i = (decide (i = 0) && bit) := by
  cases i with
  | zero => simp [bitDigit, hi]
  | succ i => simp [bitDigit, BitVec.getLsbD_of_ge]

theorem bitDigit_fits (bit : Bool) : FitsBits 1 (bitDigit bit : BitVec w) := by
  intro i hi
  rw [bitDigit, BitVec.getLsbD_setWidth, BitVec.getLsbD_of_ge _ _ hi, Bool.and_false]

/-- The number that bits write has these bits. -/
theorem getLsbD_wordOf_bits (bits : List Bool) {i : Nat} (hi : i < w) :
    (wordOf 1 (bits.map bitDigit) : BitVec w).getLsbD i = bits.getD i false := by
  induction bits generalizing i with
  | nil => exact BitVec.getLsbD_zero
  | cons bit rest ih =>
      rw [List.map_cons, wordOf, BitVec.getLsbD_xor, BitVec.getLsbD_shiftLeft,
        getLsbD_bitDigit bit hi]
      cases i with
      | zero => simp
      | succ i =>
          have hlt : i < w := Nat.lt_of_succ_lt hi
          simp [hi, ih hlt]

/-- Taking in the bits of a digit one by one takes in the digit. -/
theorem foldl_takeIn_bits {n : Nat} (fits : FitsBits n x) (room : n ≤ w) :
    (((List.range n).map x.getLsbD).map bitDigit).foldl (takeIn poly 1) c = takeIn poly n c x := by
  have hword : wordOf 1 (((List.range n).map x.getLsbD).map bitDigit) = x := by
    apply BitVec.eq_of_getLsbD_eq
    intro i hi
    rw [getLsbD_wordOf_bits _ hi, List.getD_eq_getElem?_getD, List.getElem?_map]
    by_cases hin : i < n
    · rw [List.getElem?_range hin]
      rfl
    · rw [List.getElem?_eq_none (by simpa using hin), fits i (Nat.le_of_not_lt hin)]
      rfl
  have hlen : 1 * (((List.range n).map x.getLsbD).map (bitDigit (w := w))).length = n := by
    simp
  rw [foldl_takeIn_eq _ (by omega), hword, hlen]
  · rfl
  · intro digit hdigit
    obtain ⟨bit, -, rfl⟩ := List.mem_map.mp hdigit
    exact bitDigit_fits bit

end Bits

end MiniKafka.Foundations
