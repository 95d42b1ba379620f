import MiniKafka.Foundations.ShiftRegister

/-!
# CRC-32

The table and the byte loop of `crc32.cpp`. The loop is a shift register that takes in the
bytes, so a change of no more than four bytes in a row changes the checksum, and it computes
what the definition of the checksum computes a bit at a time.
-/

namespace MiniKafka.Common

open Foundations

def kPoly : UInt32 := 0xEDB88320

/-- One turn of the inner loop of `make_table`. -/
def tableStep (c : UInt32) : UInt32 :=
  if c &&& 1 ≠ 0 then kPoly ^^^ (c >>> 1) else c >>> 1

def makeTable : List UInt32 :=
  (List.range 256).map fun i => tableStep^[8] (UInt32.ofNat i)

def kTable : List UInt32 := makeTable

def crc32 (data : List UInt8) : UInt32 :=
  let c := data.foldl (fun (c : UInt32) (b : UInt8) =>
    kTable.getD ((c ^^^ b.toUInt32) &&& 0xFF).toNat 0 ^^^ (c >>> 8)) 0xFFFFFFFF
  c ^^^ 0xFFFFFFFF

/-- The check value of CRC-32/ISO-HDLC, of the digits 1 to 9. -/
example : crc32 [49, 50, 51, 52, 53, 54, 55, 56, 57] = 0xCBF43926 := by decide +kernel

/-- A byte as a digit of the register. -/
def digitOf (b : UInt8) : BitVec 32 := b.toUInt32.toBitVec

variable {c : UInt32} {b : UInt8} {before burst burst' after : List UInt8}

theorem digitOf_eq : digitOf b = b.toBitVec.setWidth 32 := rfl

theorem digitOf_fits : FitsBits 8 (digitOf b) := by
  intro i hi
  rw [digitOf_eq, BitVec.getLsbD_setWidth, BitVec.getLsbD_of_ge _ _ hi, Bool.and_false]

theorem digitOf_injective : Function.Injective digitOf := by
  intro a b h
  apply UInt8.eq_of_toBitVec_eq
  apply BitVec.eq_of_getLsbD_eq
  intro i hi
  have hbit := congrArg (fun v => BitVec.getLsbD v i) h
  have hin : i < 32 := by omega
  simpa only [digitOf_eq, BitVec.getLsbD_setWidth, hin, decide_true, Bool.true_and] using hbit

theorem and_one_ne_zero : c &&& 1 ≠ 0 ↔ c.toBitVec.getLsbD 0 = true := by
  rw [ne_eq, ← UInt32.toBitVec_inj, UInt32.toBitVec_and]
  change ¬ c.toBitVec &&& 1#32 = 0#32 ↔ _
  rw [BitVec.and_one_eq_setWidth_ofBool_getLsbD]
  cases c.toBitVec.getLsbD 0 <;> simp

theorem tableStep_toBitVec : (tableStep c).toBitVec = shiftStep kPoly.toBitVec c.toBitVec := by
  unfold tableStep shiftStep
  simp only [and_one_ne_zero]
  split
  · rw [UInt32.toBitVec_xor]
    rfl
  · rfl

theorem iterate_tableStep_toBitVec (n : Nat) :
    (tableStep^[n] c).toBitVec = (shiftStep kPoly.toBitVec)^[n] c.toBitVec := by
  induction n generalizing c with
  | zero => rfl
  | succ n ih =>
      rw [Function.iterate_succ_apply, ih, tableStep_toBitVec]
      rfl

theorem kTable_getD {i : UInt32} (h : i.toNat < 256) : kTable.getD i.toNat 0 = tableStep^[8] i := by
  rw [kTable, makeTable, List.getD_eq_getElem?_getD, List.getElem?_map, List.getElem?_range h,
    Option.map_some, Option.getD_some, UInt32.ofNat_toNat]

theorem getLsbD_low (i : Nat) : (0xFF#32).getLsbD i = decide (i < 8) := by
  rw [BitVec.getLsbD_ofNat]
  change (decide (i < 32) && (2 ^ 8 - 1).testBit i) = _
  rw [Nat.testBit_two_pow_sub_one]
  by_cases hi : i < 8
  · have hin : i < 32 := by omega
    simp [hi, hin]
  · simp [hi]

/-- The table makes one step of the loop out of eight of the register. -/
theorem crcStep_toBitVec :
    (kTable.getD ((c ^^^ b.toUInt32) &&& 0xFF).toNat 0 ^^^ (c >>> 8)).toBitVec =
      takeIn kPoly.toBitVec 8 c.toBitVec (digitOf b) := by
  have hindex : ((c ^^^ b.toUInt32) &&& 0xFF).toNat < 256 := by
    rw [UInt32.toNat_and]
    exact Nat.lt_of_le_of_lt Nat.and_le_right (by decide)
  have hdigit : digitOf b >>> 8 = 0#32 := by
    apply BitVec.eq_of_getLsbD_eq
    intro i _
    rw [BitVec.getLsbD_ushiftRight, digitOf_fits (8 + i) (Nat.le_add_right 8 i),
      BitVec.getLsbD_zero]
  have hshift : (c >>> 8).toBitVec = (c.toBitVec ^^^ digitOf b) >>> 8 := by
    rw [BitVec.ushiftRight_xor_distrib, hdigit, BitVec.xor_zero]
    rfl
  rw [UInt32.toBitVec_xor, kTable_getD hindex, iterate_tableStep_toBitVec, hshift, takeIn]
  symm
  apply iterate_shiftStep_split ((c.toBitVec ^^^ digitOf b) &&& 0xFF#32)
    ((c.toBitVec ^^^ digitOf b) &&& ~~~0xFF#32)
  · apply BitVec.eq_of_getLsbD_eq
    intro i hi
    generalize c.toBitVec ^^^ digitOf b = x
    rw [BitVec.getLsbD_xor, BitVec.getLsbD_and, BitVec.getLsbD_and, BitVec.getLsbD_not]
    cases (0xFF#32).getLsbD i <;> simp [hi]
  · intro i hi
    rw [BitVec.getLsbD_and, BitVec.getLsbD_not, getLsbD_low]
    simp [hi]
  · intro i hi
    rw [BitVec.getLsbD_and, getLsbD_low, decide_eq_false (Nat.not_lt.mpr hi), Bool.and_false]

/-- A loop whose step takes a digit in takes in the digits of all items. -/
theorem foldl_toBitVec {α : Type} {step : UInt32 → α → UInt32} {digit : α → BitVec 32} {w : Nat}
    (hstep : ∀ c a, (step c a).toBitVec = takeIn kPoly.toBitVec w c.toBitVec (digit a))
    (items : List α) (c : UInt32) :
    (items.foldl step c).toBitVec =
      (items.map digit).foldl (takeIn kPoly.toBitVec w) c.toBitVec := by
  induction items generalizing c with
  | nil => rfl
  | cons a rest ih => rw [List.foldl_cons, ih, hstep, List.map_cons, List.foldl_cons]

theorem crc32_toBitVec (data : List UInt8) :
    (crc32 data).toBitVec =
      (data.map digitOf).foldl (takeIn kPoly.toBitVec 8) 0xFFFFFFFF#32 ^^^ 0xFFFFFFFF#32 := by
  have hloop := foldl_toBitVec (fun c b => @crcStep_toBitVec c b) data 0xFFFFFFFF
  unfold crc32
  rw [UInt32.toBitVec_xor, hloop]
  rfl

/-- A burst of four bytes is not missed. -/
theorem crc32_ne_of_burst (length : burst.length = burst'.length) (short : burst.length ≤ 4)
    (hne : burst ≠ burst') :
    crc32 (before ++ burst ++ after) ≠ crc32 (before ++ burst' ++ after) := by
  intro h
  have hbits := congrArg UInt32.toBitVec h
  rw [crc32_toBitVec, crc32_toBitVec, BitVec.xor_left_inj] at hbits
  simp only [List.map_append] at hbits
  have hfits : ∀ bytes : List UInt8, ∀ digit ∈ bytes.map digitOf, FitsBits 8 digit := by
    intro bytes digit hdigit
    obtain ⟨b, -, hb⟩ := List.mem_map.mp hdigit
    rw [← hb]
    exact digitOf_fits
  apply burst_changes (by decide) _ (hfits burst) (hfits burst') _ _ hbits
  · rw [List.length_map, List.length_map, length]
  · rw [List.length_map]
    omega
  · intro heq
    exact hne (List.map_injective_iff.mpr digitOf_injective heq)

/-! ## Bit by bit -/

/-- One bit of the input, added to the lowest bit of the state before that bit leaves it. -/
def bitStep (c : UInt32) (bit : Bool) : UInt32 :=
  let c := c ^^^ bit.toUInt32
  if c &&& 1 = 1 then (c >>> 1) ^^^ 0xEDB88320 else c >>> 1

/-- The bits of a byte, the lowest first. -/
def bitsOf (b : UInt8) : List Bool := (List.range 8).map b.toBitVec.getLsbD

/-- CRC-32/ISO-HDLC, a bit of the input at a time. -/
def crc32Bitwise (data : List UInt8) : UInt32 :=
  ~~~((data.flatMap bitsOf).foldl bitStep 0xFFFFFFFF)

theorem and_one_eq_one : c &&& 1 = 1 ↔ c &&& 1 ≠ 0 := by
  rw [and_one_ne_zero, ← UInt32.toBitVec_inj, UInt32.toBitVec_and]
  change c.toBitVec &&& 1#32 = 1#32 ↔ _
  rw [BitVec.and_one_eq_setWidth_ofBool_getLsbD]
  cases c.toBitVec.getLsbD 0 <;> simp

theorem bitStep_eq_tableStep (bit : Bool) : bitStep c bit = tableStep (c ^^^ bit.toUInt32) := by
  unfold bitStep tableStep
  simp only [and_one_eq_one]
  split
  · exact UInt32.xor_comm _ _
  · rfl

theorem bitStep_toBitVec (bit : Bool) :
    (bitStep c bit).toBitVec = takeIn kPoly.toBitVec 1 c.toBitVec (bitDigit bit) := by
  have hbit : bit.toUInt32.toBitVec = bitDigit bit := by cases bit <;> rfl
  rw [bitStep_eq_tableStep, tableStep_toBitVec, UInt32.toBitVec_xor, hbit]
  rfl

theorem bitsOf_eq : bitsOf b = (List.range 8).map (digitOf b).getLsbD := by
  apply List.map_congr_left
  intro i hi
  have hlt : i < 8 := List.mem_range.mp hi
  have hin : i < 32 := by omega
  rw [digitOf_eq, BitVec.getLsbD_setWidth, decide_eq_true hin, Bool.true_and]

/-- The bits of a byte do what the step of the table does. -/
theorem byte_toBitVec :
    ((bitsOf b).foldl bitStep c).toBitVec = takeIn kPoly.toBitVec 8 c.toBitVec (digitOf b) := by
  rw [foldl_toBitVec fun c bit => bitStep_toBitVec bit, bitsOf_eq,
    foldl_takeIn_bits digitOf_fits (by decide)]

/-- One lookup in the table for each byte computes the checksum of the bits. -/
theorem crc32_eq_bitwise (data : List UInt8) : crc32 data = crc32Bitwise data := by
  have hloop := foldl_toBitVec (fun c b => @byte_toBitVec c b) data 0xFFFFFFFF
  rw [← List.foldl_flatMap] at hloop
  apply UInt32.toBitVec_inj.mp
  calc (crc32 data).toBitVec
      = (data.map digitOf).foldl (takeIn kPoly.toBitVec 8) 0xFFFFFFFF#32 ^^^ 0xFFFFFFFF#32 :=
        crc32_toBitVec data
    _ = ((data.flatMap bitsOf).foldl bitStep 0xFFFFFFFF).toBitVec ^^^ BitVec.allOnes 32 := by
        rw [hloop]
        rfl
    _ = (crc32Bitwise data).toBitVec := by
        rw [BitVec.xor_allOnes, crc32Bitwise, UInt32.toBitVec_not]

end MiniKafka.Common
