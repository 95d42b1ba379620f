import MiniKafka.Foundations.Budget
import MiniKafka.Storage.PartitionRefinement
import MiniKafka.Storage.PartitionStates

/-!
# The longest run that fits

What a read should answer of its window in exact numbers, and when the sum in 32 bits
gives that answer: it must not overflow at the record behind the run that fits.
-/

namespace MiniKafka.Storage

open Foundations Common

/-- The bytes of a record's frame, not cut to a width. -/
abbrev Record.frameSize (rec : Record) : Nat := (encodeRecord rec).length

/-- The longest run within the budget, or a first record that alone exceeds it. -/
structure LongestRun (available : List Record) (maxBytes : Nat) (result : List Record) :
    Prop where
  lone : ∀ first ∈ available.head?, maxBytes < first.frameSize → result = [first]
  run : (∀ first ∈ available.head?, first.frameSize ≤ maxBytes) →
    LongestFit Record.frameSize maxBytes available result

/-- Behind no run within the budget is there a record with which the sum, counted from
`used` on, reaches `2 ^ 32`. -/
def SumFits (maxBytes used : Nat) (available : List Record) : Prop :=
  ∀ k < available.length, used + total Record.frameSize (available.take k) ≤ maxBytes →
    used + total Record.frameSize (available.take (k + 1)) < 2 ^ 32

section SumFits

variable {maxBytes used : Nat} {rec : Record} {rest : List Record}

theorem sumFits_nil : SumFits maxBytes used [] := by
  intro k hk _
  cases hk

theorem sumFits_cons : SumFits maxBytes used (rec :: rest) ↔
    (used ≤ maxBytes → used + rec.frameSize < 2 ^ 32) ∧
      SumFits maxBytes (used + rec.frameSize) rest := by
  constructor
  · intro h
    constructor
    · intro hle
      simpa using h 0 (by simp) (by simpa using hle)
    · intro k hk hle
      simpa [Nat.add_assoc] using h (k + 1) (by simpa using hk) (by simpa [Nat.add_assoc] using hle)
  · rintro ⟨hfirst, hrest⟩ k hk hle
    cases k with
    | zero => simpa using hfirst (by simpa using hle)
    | succ k =>
        simpa [Nat.add_assoc] using
          hrest k (by simpa using hk) (by simpa [Nat.add_assoc] using hle)

theorem sumFits_of_exceeded (h : maxBytes < used) : SumFits maxBytes used rest := by
  intro k _ hle
  omega

end SumFits

variable {maxBytes bytesUsed : UInt32} {available : List Record} {rec : Record}

theorem longestRun_of_lone {first : Record} {rest result : List Record} {maxBytes : Nat}
    (h : maxBytes < first.frameSize) :
    LongestRun (first :: rest) maxBytes result ↔ result = [first] := by
  constructor
  · intro hrun
    exact hrun.lone first rfl h
  · intro hresult
    refine ⟨?_, fun hfits => absurd (hfits first rfl) (Nat.not_le.mpr h)⟩
    rintro _ ⟨⟩ _
    exact hresult

theorem longestRun_of_fits {first : Record} {rest result : List Record} {maxBytes : Nat}
    (h : first.frameSize ≤ maxBytes) :
    LongestRun (first :: rest) maxBytes result ↔
      LongestFit Record.frameSize maxBytes (first :: rest) result := by
  constructor
  · intro hrun
    apply hrun.run
    rintro _ ⟨⟩
    exact h
  · intro hfit
    refine ⟨?_, fun _ => hfit⟩
    rintro _ ⟨⟩ hlone
    exact absurd h (Nat.not_le.mpr hlone)

theorem recSize_toNat (h : rec.Fits) : rec.recSize.toNat = rec.frameSize :=
  UInt32.toNat_ofNat_of_lt' h

/-- From `bytesUsed` on, the loop takes what fits exactly if no sum on the way overflows. -/
theorem capBytes_eq_fitting_iff (hfits : ∀ rec ∈ available, rec.Fits)
    (hused : bytesUsed.toNat ≤ maxBytes.toNat) :
    capBytes Record.recSize maxBytes bytesUsed false available =
        fitting Record.frameSize (maxBytes.toNat - bytesUsed.toNat) available ↔
      SumFits maxBytes.toNat bytesUsed.toNat available := by
  induction available generalizing bytesUsed with
  | nil => exact ⟨fun _ => sumFits_nil, fun _ => rfl⟩
  | cons rec rest ih =>
      have hrec : rec.frameSize < 2 ^ 32 := hfits rec List.mem_cons_self
      have hrest := fun r hr => hfits r (List.mem_cons_of_mem rec hr)
      have hmax := maxBytes.toNat_lt
      have hsum : (bytesUsed + rec.recSize).toNat =
          (bytesUsed.toNat + rec.frameSize) % 2 ^ 32 := by
        rw [UInt32.toNat_add, recSize_toNat hrec]
      have hover : bytesUsed + rec.recSize > maxBytes ↔
          maxBytes.toNat < (bytesUsed.toNat + rec.frameSize) % 2 ^ 32 := by
        rw [gt_iff_lt, UInt32.lt_iff_toNat_lt, hsum]
      rw [sumFits_cons, capBytes]
      by_cases hexact : bytesUsed.toNat + rec.frameSize ≤ maxBytes.toNat
      · -- the record fits, and the sum with it is exact
        rw [Nat.mod_eq_of_lt (by omega)] at hsum hover
        have hih := ih hrest (hsum ▸ hexact)
        have hbudget : maxBytes.toNat - bytesUsed.toNat - rec.frameSize =
            maxBytes.toNat - (bytesUsed.toNat + rec.frameSize) := by omega
        rw [if_neg (hover.not.mpr (by omega)), fitting_cons_of_le (by omega), hbudget, ← hsum,
          List.cons.injEq, hih]
        have hfirst : bytesUsed.toNat ≤ maxBytes.toNat →
            (bytesUsed + rec.recSize).toNat < 2 ^ 32 := fun _ => UInt32.toNat_lt _
        simp only [true_and]
        exact (and_iff_right hfirst).symm
      · rw [fitting_cons_of_lt (by omega)]
        by_cases hwrap : bytesUsed.toNat + rec.frameSize < 2 ^ 32
        · -- the sum says that the record does not fit
          rw [Nat.mod_eq_of_lt hwrap] at hover
          rw [if_pos (hover.mpr (by omega))]
          simp only [Bool.false_eq_true, if_false, true_iff]
          exact ⟨fun _ => hwrap, sumFits_of_exceeded (by omega)⟩
        · -- the sum overflows, and the record is taken
          have hsmall : (bytesUsed.toNat + rec.frameSize) % 2 ^ 32 < bytesUsed.toNat := by
            omega
          rw [if_neg (hover.not.mpr (by omega))]
          simp only [reduceCtorEq, false_iff, not_and]
          intro h
          exact absurd (h hused) hwrap

/-- The whole loop, with its rule for a first record that is too large. -/
theorem capBytes_longestRun_iff (hfits : ∀ rec ∈ available, rec.Fits) :
    LongestRun available maxBytes.toNat (capBytes Record.recSize maxBytes 0 true available) ↔
      SumFits maxBytes.toNat 0 available := by
  cases available with
  | nil =>
      refine ⟨fun _ => sumFits_nil, fun _ => ⟨by simp, fun _ => ?_⟩⟩
      exact longestFit_iff.mpr rfl
  | cons first rest =>
      have hfirst : first.frameSize < 2 ^ 32 := hfits first List.mem_cons_self
      have hover : (0 : UInt32) + first.recSize > maxBytes ↔
          maxBytes.toNat < first.frameSize := by
        rw [gt_iff_lt, UInt32.lt_iff_toNat_lt, UInt32.zero_add, recSize_toNat hfirst]
      by_cases hlone : maxBytes.toNat < first.frameSize
      · rw [longestRun_of_lone hlone, capBytes, if_pos (hover.mpr hlone), sumFits_cons]
        simp only [if_true, true_iff]
        exact ⟨fun _ => by omega, sumFits_of_exceeded (by omega)⟩
      · have hloop : capBytes Record.recSize maxBytes 0 false (first :: rest) =
            fitting Record.frameSize maxBytes.toNat (first :: rest) ↔
              SumFits maxBytes.toNat 0 (first :: rest) :=
          capBytes_eq_fitting_iff hfits (Nat.zero_le _)
        rw [longestRun_of_fits (Nat.le_of_not_lt hlone), longestFit_iff]
        rw [capBytes, if_neg (hover.not.mpr hlone)] at hloop ⊢
        exact hloop

section Read

variable {maxSegBytes : UInt32} {p : Partition} {records : List Record}

instance (maxBytes used : Nat) (available : List Record) :
    Decidable (SumFits maxBytes used available) :=
  Nat.decidableBallLT _ _

instance (p : Partition) : Decidable p.Countable := List.decidableBAll _ _

theorem Partition.Holds.readClamped_longestRun_iff (h : p.Holds records)
    (hlt : records.length < 2 ^ 63) (hcount : p.Countable) (start : Nat) (clamp : Int) :
    LongestRun (window records start clamp) maxBytes.toNat
        (p.readClamped start maxBytes clamp) ↔
      SumFits maxBytes.toNat 0 (window records start clamp) := by
  rw [h.readClamped_window hlt hcount]
  apply capBytes_longestRun_iff
  intro rec hrec
  exact h.numbered.fits rec (List.mem_of_mem_filter hrec)

/-- A read answers the longest run that fits exactly if the sum of the sizes does not
overflow behind a run that fits; this is so below the high watermark and up to the log end. -/
theorem read_longest_iff (hmax : 1 ≤ maxSegBytes) (h : Reached maxSegBytes (.running p))
    (hcount : p.Countable) (start : Nat) (maxBytes : UInt32) :
    (LongestRun (window p.records start p.hwm) maxBytes.toNat (p.read start maxBytes) ↔
      SumFits maxBytes.toNat 0 (window p.records start p.hwm)) ∧
    (LongestRun (window p.records start p.logEndOffset) maxBytes.toNat
        (p.readUpToLeo start maxBytes) ↔
      SumFits maxBytes.toNat 0 (window p.records start p.logEndOffset)) := by
  obtain ⟨hp, -, hlt⟩ := h.partition hmax
  constructor
  · exact hp.readClamped_longestRun_iff hlt hcount start p.hwm
  · exact hp.readClamped_longestRun_iff hlt hcount start p.logEndOffset

/-- A partition with two small records. -/
def smallPartition : Partition :=
  ((Partition.recover 30 []).append
    [{ key := [1], value := [10] }, { key := [2], value := [20] }] 100).1

theorem reached_small : Reached 30 (.running smallPartition) := by
  have hstart : Reached 30 (.running (Partition.recover 30 [])) :=
    Reached.empty.recover (.refl _)
  exact hstart.append (by decide +kernel) 100

theorem read_longest_small :
    LongestRun (window smallPartition.records (0 : Nat) smallPartition.hwm)
      (40 : UInt32).toNat (smallPartition.read (0 : Nat) 40) := by
  have hcount : smallPartition.Countable := by decide +kernel
  have hsum : SumFits (40 : UInt32).toNat 0
      (window smallPartition.records (0 : Nat) smallPartition.hwm) := by
    decide +kernel
  exact (read_longest_iff (by decide) reached_small hcount 0 40).1.mpr hsum

/-- A record whose frame takes a little more than half of `2 ^ 32` bytes. -/
def halfRecord : Record where
  key := []
  value := List.replicate (2 ^ 31) 0

theorem halfRecord_frameSize : halfRecord.frameSize = 2 ^ 31 + 32 := by
  have hvalue : halfRecord.value.length = 2 ^ 31 := List.length_replicate
  have hkey : halfRecord.key.length = 0 := rfl
  rw [Record.frameSize, encodeRecord_length, hvalue, hkey, Nat.add_comm]

theorem oneFrame_half : OneFrame [halfRecord] := by
  have hsize : (encodeRecord halfRecord).length = 2 ^ 31 + 32 := halfRecord_frameSize
  rw [OneFrame, encodeAll_cons, List.length_append, hsize]
  decide

/-- The record at its place in the log. -/
def storedHalf (n : Nat) : Record :=
  { halfRecord with offset := UInt64.ofNat n, timestamp := 0 }

theorem storedHalf_frameSize (n : Nat) : (storedHalf n).frameSize = 2 ^ 31 + 32 := by
  rw [← halfRecord_frameSize, Record.frameSize, Record.frameSize, encodeRecord_length,
    encodeRecord_length]
  rfl

theorem append_half (hmax : 1 ≤ maxSegBytes) (h : Reached maxSegBytes (.running p))
    (hp : p.Holds records) (hlt : records.length + 1 < 2 ^ 63) (hbound : p.directory.Bounded) :
    Reached maxSegBytes (.running (p.append [halfRecord] 0).1) ∧
      (p.append [halfRecord] 0).1.Holds (records ++ [storedHalf records.length]) ∧
      (p.append [halfRecord] 0).1.directory.Bounded := by
  have hsize := (h.partition hmax).2.1
  have hfits := oneFrame_half.fits
  refine ⟨h.append ⟨hfits, ?_⟩ 0, ?_, hp.append_bounded hbound oneFrame_half 0⟩
  · rw [hp.records_eq]
    exact hlt
  · exact (hp.append 0 (hsize ▸ hmax) hfits hlt).1

/-- The first of two records fits, and behind it the sum overflows. -/
theorem not_sumFits_pair {first second : Record} {maxBytes : Nat}
    (h : first.frameSize ≤ maxBytes) (hover : 2 ^ 32 ≤ first.frameSize + second.frameSize) :
    ¬SumFits maxBytes 0 [first, second] := by
  intro hsum
  have hsecond := hsum 1 (Nat.one_lt_two)
  simp only [List.take_succ_cons, List.take_zero, total_cons, total_nil] at hsecond
  omega

/-- Two such records are stored, and a read of one byte less than `2 ^ 32` takes both. -/
theorem read_overflows : ∃ p, Reached 134217728 (.running p) ∧ p.Countable ∧
    p.hwm ≤ p.logEndOffset ∧
    ¬LongestRun (window p.records (0 : Nat) p.hwm) (4294967295 : UInt32).toNat
      (p.read (0 : Nat) 4294967295) := by
  have hmax : (1 : UInt32) ≤ 134217728 := by decide
  have hempty : Reached 134217728 (.running (Partition.recover 134217728 [])) :=
    Reached.empty.recover (.refl _)
  have hnone : (Partition.recover 134217728 []).Holds [] :=
    recover_holds ⟨[], .refl _, .inl ⟨rfl, rfl⟩⟩ (by decide)
  have hbound : (Partition.recover 134217728 []).directory.Bounded :=
    recover_bounded 134217728 fun f hf => by cases hf
  obtain ⟨hone, hp, hbound⟩ := append_half hmax hempty hnone (by decide) hbound
  obtain ⟨htwo, hq, hbound⟩ := append_half hmax hone hp (by decide) hbound
  have hcount := hq.countable hbound
  have hleo := hq.logEndOffset (by decide)
  refine ⟨_, htwo, hcount, ?_, ?_⟩
  · rw [Partition.append_hwm (List.cons_ne_nil _ _)]
  · rw [Partition.read, hq.records_eq, hq.readClamped_longestRun_iff (by decide) hcount,
      Partition.append_hwm (List.cons_ne_nil _ _), hleo, hq.numbered.window_eq]
    apply not_sumFits_pair
    · rw [storedHalf_frameSize]
      decide
    · rw [storedHalf_frameSize, storedHalf_frameSize]
      decide

end Read

end MiniKafka.Storage
