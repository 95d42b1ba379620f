import MiniKafka.Storage.Draining

/-!
# The start offset of a read

A request carries its offset as a `uint64_t`, and a read takes it as an `int64_t`. The offsets
below `2 ^ 63` are the same number in both, and a read gives nothing before them, whatever the
partition holds. The others are negative as a start, and a read from a negative start begins
at the front of the log.
-/

namespace MiniKafka.Storage

open Foundations Common

/-- Nothing before the offset that was asked for, and nothing at or behind the clamp. -/
structure ReadsFrom (fetchOffset : UInt64) (clamp : Int) (records : List Record) : Prop where
  start : ∀ rec ∈ records, fetchOffset ≤ rec.offset
  beyond : clamp ≤ fetchOffset.toNat → records = []

variable {p : Partition} {records : List Record} {rec : Record} {startOffset clamp : Int}
  {fetchOffset : UInt64} {maxBytes : UInt32}

theorem readsFrom_nil : ReadsFrom fetchOffset clamp [] where
  start := by simp
  beyond _ := rfl

/-- Whatever the partition holds, its offsets are compared with the start as `int64_t`. -/
theorem Partition.le_of_mem_readClamped
    (h : rec ∈ p.readClamped startOffset maxBytes clamp) : startOffset ≤ toI64 rec.offset := by
  unfold Partition.readClamped at h
  split at h
  · cases h
  · rw [readLoop_eq, List.nil_append] at h
    have htaken := (capBytes_part _ _ _ _ _).subset h
    have hkept := List.takeWhile_subset _ htaken
    simpa using (List.mem_filter.mp hkept).2

/-- A start that is the number of the request. -/
theorem Partition.readClamped_of_lt (hlt : fetchOffset.toNat < 2 ^ 63) :
    ReadsFrom fetchOffset clamp (p.readClamped (toI64 fetchOffset) maxBytes clamp) := by
  constructor
  · intro rec hrec
    have hle := Partition.le_of_mem_readClamped hrec
    rw [toI64_of_lt hlt] at hle
    have hsmall : rec.offset.toNat < 2 ^ 63 := by
      by_contra hlarge
      have hneg := toI64_of_ge (Nat.le_of_not_lt hlarge)
      omega
    rw [toI64_of_lt hsmall] at hle
    exact UInt64.le_iff_toNat_le.mpr (by omega)
  · intro hclamp
    unfold Partition.readClamped
    rw [toI64_of_lt hlt, if_pos hclamp]

/-- A read that starts at the front of the log, or before it, goes through all of it. -/
theorem Partition.Holds.scanned_front (h : p.Holds records) (hstart : startOffset ≤ 0) :
    p.scanned startOffset = records := by
  have hcut := h.cut
  have hsegs : p.segments ≠ [] := by simp [Partition.segments]
  obtain ⟨front, rest, hcons⟩ := List.exists_cons_of_ne_nil hsegs
  rw [hcons] at hcut
  have hbase : front.baseOffset.toNat = 0 := by
    cases hcut with
    | cons head tail => exact head.base
  have hle : startOffset ≤ toI64 front.baseOffset := by
    rw [toI64_of_lt (by omega), hbase]
    exact hstart
  have hfirst : p.segmentForOffset startOffset = 0 := by
    unfold Partition.segmentForOffset
    rw [hcons]
    exact if_pos hle
  have hpos : Partition.startPosition front startOffset = 0 := if_neg (by omega)
  have hall := h.records_eq
  unfold Partition.records at hall
  rw [hcons, List.flatMap_cons] at hall
  unfold Partition.scanned
  rw [hfirst, hcons, List.drop_zero]
  simp only [hpos, hall]

/-- From a negative start on, a read takes what fits of everything below the clamp. -/
theorem Partition.Holds.readClamped_front (h : p.Holds records)
    (hlt : records.length < 2 ^ 63) (hstart : startOffset < 0) :
    p.readClamped startOffset maxBytes clamp =
      capBytes Record.recSize maxBytes 0 true (records.take clamp.toNat) := by
  have hoffset : ∀ rec ∈ records, 0 ≤ toI64 rec.offset := by
    intro rec hrec
    have hmem := h.numbered.mem hrec
    rw [toI64_of_lt (by omega)]
    omega
  have hall : records.filter (fun rec => startOffset ≤ toI64 rec.offset) = records := by
    apply List.filter_eq_self.mpr
    intro rec hrec
    have hge := hoffset rec hrec
    exact decide_eq_true (by omega)
  have htake : records.takeWhile (fun rec => toI64 rec.offset < clamp) =
      records.take clamp.toNat := by
    rcases Int.le_total clamp 0 with hneg | hpos
    · rw [Int.toNat_of_nonpos hneg, List.take_zero]
      cases records with
      | nil => rfl
      | cons rec rest =>
          have hge := hoffset rec List.mem_cons_self
          exact List.takeWhile_cons_of_neg (by simpa using by omega)
    · obtain ⟨c, rfl⟩ : ∃ c : Nat, clamp = c := ⟨clamp.toNat, by omega⟩
      rw [h.numbered.clamped_eq (by omega), Nat.sub_zero, Int.toNat_natCast]
  unfold Partition.readClamped
  split
  · have hzero : clamp.toNat = 0 := by omega
    rw [hzero, List.take_zero, capBytes]
  · rw [h.scanned_front (by omega), readLoop_eq, hall, htake]
    simp

/-- The front of a log is given away under an offset that is negative as a start, as long as
there is something to read. -/
theorem Partition.Holds.readsFrom_iff (h : p.Holds records) (hlt : records.length < 2 ^ 63) :
    ReadsFrom fetchOffset clamp (p.readClamped (toI64 fetchOffset) maxBytes clamp) ↔
      fetchOffset.toNat < 2 ^ 63 ∨ clamp ≤ 0 ∨ records = [] := by
  rcases Nat.lt_or_ge fetchOffset.toNat (2 ^ 63) with hsmall | hlarge
  · exact iff_of_true (Partition.readClamped_of_lt hsmall) (Or.inl hsmall)
  have hread : p.readClamped (toI64 fetchOffset) maxBytes clamp =
      capBytes Record.recSize maxBytes 0 true (records.take clamp.toNat) :=
    h.readClamped_front hlt (toI64_of_ge hlarge)
  rw [hread]
  constructor
  · intro hreads
    refine Or.inr ?_
    by_contra hsome
    rw [not_or] at hsome
    obtain ⟨first, rest, rfl⟩ := List.exists_cons_of_ne_nil hsome.2
    have hzero : first.offset.toNat = 0 := (numbered_cons.mp h.numbered).1
    obtain ⟨c, hc⟩ : ∃ c, clamp.toNat = c + 1 := ⟨clamp.toNat - 1, by omega⟩
    rw [hc, List.take_succ_cons] at hreads
    have hle := UInt64.le_iff_toNat_le.mp (hreads.start first (mem_capBytes_cons first _))
    omega
  · rintro (hsmall | hclamp | hnil)
    · omega
    · rw [Int.toNat_of_nonpos hclamp, List.take_zero, capBytes]
      exact readsFrom_nil
    · rw [hnil, List.take_nil, capBytes]
      exact readsFrom_nil

end MiniKafka.Storage
