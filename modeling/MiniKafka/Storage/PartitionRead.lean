import MiniKafka.Storage.PartitionLog

/-!
# Reading a partition

`read_clamped` finds a segment, skips into it through the sparse index and collects
records up to a byte budget. On a partition whose segments the index can count it reads
what the list of all records says.
-/

namespace MiniKafka.Storage

open Foundations Common

/-- The size of a frame, as the `uint32_t` it is counted in. -/
def Record.recSize (rec : Record) : UInt32 := UInt32.ofNat (encodeRecord rec).length

/-- The inner loop of `read_clamped` over the records it meets, segment after segment. -/
def readLoop (startOffset clamp : Int) (maxBytes : UInt32) :
    UInt32 → List Record → List Record → List Record
  | _, result, [] => result
  | bytesUsed, result, rec :: rest =>
      if toI64 rec.offset < startOffset then
        readLoop startOffset clamp maxBytes bytesUsed result rest
      else if toI64 rec.offset ≥ clamp then result
      else if bytesUsed + rec.recSize > maxBytes then
        if result = [] then [rec] else result
      else
        readLoop startOffset clamp maxBytes (bytesUsed + rec.recSize) (result ++ [rec]) rest

namespace Partition

variable (p : Partition)

/-- The place of `segment_for_offset` in the list of segments. -/
def segmentForOffset (offset : Int) : Nat :=
  match p.segments with
  | [] => 0
  | front :: _ =>
      if offset ≤ toI64 front.baseOffset then 0
      else (p.segments.takeWhile fun seg => toI64 seg.baseOffset ≤ offset).length - 1

/-- What the first segment of a read is read from. -/
def startPosition (seg : Segment) (startOffset : Int) : UInt64 :=
  if startOffset > toI64 seg.baseOffset then
    let relOffset := (UInt64.ofInt startOffset - seg.baseOffset).toUInt32
    seg.findStartPosition relOffset
  else 0

/-- The records that the loops of `read_clamped` go through. -/
def scanned (startOffset : Int) : List Record :=
  match p.segments.drop (p.segmentForOffset startOffset) with
  | [] => []
  | seg :: rest =>
      seg.readFrom (startPosition seg startOffset) ++ rest.flatMap fun seg => seg.readFrom 0

def readClamped (startOffset : Int) (maxBytes : UInt32) (clamp : Int) : List Record :=
  if startOffset ≥ clamp then []
  else readLoop startOffset clamp maxBytes 0 [] (p.scanned startOffset)

def read (startOffset : Int) (maxBytes : UInt32) : List Record :=
  p.readClamped startOffset maxBytes p.hwm

def readUpToLeo (startOffset : Int) (maxBytes : UInt32) : List Record :=
  p.readClamped startOffset maxBytes (toI64 p.nextOffset)

end Partition

/-- No segment outgrows what a write can make of it: less than `maxSegBytes` before the
write and a batch that came in one frame. -/
def Directory.Bounded (dir : Directory) : Prop := ∀ f ∈ dir, f.log.length < 2 ^ 33

/-- Relative offsets count the records of every segment. -/
def Partition.Countable (p : Partition) : Prop :=
  ∀ seg ∈ p.segments, (seg.readFrom 0).length < 2 ^ 32

variable {p : Partition} {records : List Record} {startOffset clamp : Int}
  {maxBytes : UInt32}

/-- The loop takes what fits of the records it does not skip. -/
theorem readLoop_eq (bytesUsed : UInt32) (result scanned : List Record) :
    readLoop startOffset clamp maxBytes bytesUsed result scanned =
      result ++ capBytes Record.recSize maxBytes bytesUsed (result = [])
        ((scanned.filter fun rec => startOffset ≤ toI64 rec.offset).takeWhile
          fun rec => toI64 rec.offset < clamp) := by
  induction scanned generalizing bytesUsed result with
  | nil => simp [readLoop, capBytes]
  | cons rec rest ih =>
      rw [readLoop]
      by_cases hskip : toI64 rec.offset < startOffset
      · rw [if_pos hskip, ih, List.filter_cons_of_neg (by simpa using hskip)]
      rw [if_neg hskip, List.filter_cons_of_pos (by simpa using hskip)]
      by_cases hclamp : toI64 rec.offset ≥ clamp
      · rw [if_pos hclamp, List.takeWhile_cons_of_neg (by simpa using hclamp)]
        simp [capBytes]
      rw [if_neg hclamp, List.takeWhile_cons_of_pos (by simpa using hclamp), capBytes]
      split
      · split <;> simp_all
      · rw [ih]
        simp

/-- The segments of a partition, the active one with the others. -/
theorem Partition.Holds.cut (h : p.Holds records) :
    Cut (fun n seg run => seg.Holds n run) 0 p.segments records := by
  obtain ⟨rolled, run, hclosed, hactive, rfl⟩ := h.segments
  have hheld : Cut (fun n (seg : Segment) run => seg.Holds n run) 0 p.closed rolled := by
    simpa using hclosed.map id fun _ _ _ hseg => hseg.1
  refine hheld.snoc ?_
  rwa [Nat.zero_add]

theorem encodeAll_length_ge (records : List Record) :
    32 * records.length ≤ (encodeAll records).length := by
  induction records with
  | nil => simp
  | cons rec rest ih =>
      rw [encodeAll_cons, List.length_append, encodeRecord_length, List.length_cons]
      omega

theorem encodeAll_length_le (h : ∀ rec ∈ records, rec.Fits) :
    (encodeAll records).length ≤ (2 ^ 32 - 1) * records.length := by
  induction records with
  | nil => simp
  | cons rec rest ih =>
      have hrec : (encodeRecord rec).length < 2 ^ 32 := h rec List.mem_cons_self
      have hrest := ih fun r hr => h r (List.mem_cons_of_mem rec hr)
      rw [encodeAll_cons, List.length_append, List.length_cons]
      omega

/-- A read into a countable segment starts at or before the record asked for. -/
theorem Segment.Holds.startPosition {n : Nat} {seg : Segment} (h : seg.Holds n records)
    (hn : n < 2 ^ 63) (hcount : records.length < 2 ^ 32) (startOffset : Int) :
    ∃ k ≤ records.length, (k = 0 ∨ (n + k : Nat) ≤ startOffset) ∧
      seg.readFrom (Partition.startPosition seg startOffset) = records.drop k := by
  have hbase : toI64 seg.baseOffset = n := by
    rw [toI64_of_lt (by rw [h.base]; exact hn), h.base]
  unfold Partition.startPosition
  split
  · next hstart =>
      have hlen := encodeAll_length_le h.numbered.fits
      obtain ⟨k, hrel, hk, hpos⟩ := h.findStartPosition hcount (by omega)
        (UInt64.ofInt startOffset - seg.baseOffset).toUInt32
      refine ⟨k, hk, .inr ?_, h.readFrom hpos⟩
      -- the relative offset may be cut to 32 bits, which only moves the place back
      have hle : ((UInt64.ofInt startOffset - seg.baseOffset).toUInt32.toNat : Int) ≤
          startOffset - n := by
        rw [UInt64.toNat_toUInt32, UInt64.toNat_sub, UInt64.ofInt, UInt64.toNat_ofNat',
          h.base]
        omega
      omega
  · exact ⟨0, Nat.zero_le _, .inl rfl, h.readFrom_zero⟩

/-- The segment a read starts in is the first one, or starts at or before the offset. -/
theorem Partition.segmentForOffset_spec (p : Partition) (startOffset : Int) :
    ∃ before seg after, p.segments = before ++ seg :: after ∧
      p.segmentForOffset startOffset = before.length ∧
      (before = [] ∨ toI64 seg.baseOffset ≤ startOffset) := by
  unfold Partition.segmentForOffset
  split
  · next hnil => simp [Partition.segments] at hnil
  · next front rest hfront =>
      split
      · exact ⟨[], front, rest, hfront, rfl, .inl rfl⟩
      · next hafter =>
          let reached := fun seg : Segment => decide (toI64 seg.baseOffset ≤ startOffset)
          have hne : p.segments.takeWhile reached ≠ [] := by
            rw [hfront, List.takeWhile_cons_of_pos (by simp [reached]; omega)]
            exact List.cons_ne_nil _ _
          obtain ⟨before, seg, hbefore⟩ := (List.eq_nil_or_concat' _).resolve_left hne
          have hseg : seg ∈ p.segments.takeWhile reached := by simp [hbefore]
          have hsplit := List.takeWhile_append_dropWhile (p := reached) (l := p.segments)
          rw [hbefore, List.append_assoc, List.singleton_append] at hsplit
          have hreached : reached seg = true := List.mem_takeWhile_imp hseg
          refine ⟨before, seg, _, hsplit.symm, ?_, .inr (of_decide_eq_true hreached)⟩
          change (p.segments.takeWhile reached).length - 1 = _
          rw [hbefore, List.length_append, List.length_singleton, Nat.add_sub_cancel]

/-- A segment holds what its log file is read as. -/
theorem Partition.Holds.segment (h : p.Holds records) {seg : Segment}
    (hseg : seg ∈ p.segments) : ∃ n, seg.Holds n (seg.readFrom 0) := by
  obtain ⟨n, run, hheld, -⟩ := h.cut.mem hseg
  rw [hheld.readFrom_zero]
  exact ⟨n, hheld⟩

/-- What the writes make of a segment, its index can count. -/
theorem Partition.Holds.countable (h : p.Holds records) (hbound : p.directory.Bounded) :
    p.Countable := by
  intro seg hseg
  obtain ⟨n, hheld⟩ := h.segment hseg
  have hsize := hbound seg.files (List.mem_map_of_mem hseg)
  have hlen := encodeAll_length_ge (seg.readFrom 0)
  rw [← hheld.log] at hlen
  omega

/-- The scan of a read misses only records below the offset asked for. -/
theorem Partition.Holds.scanned (h : p.Holds records) (hlt : records.length < 2 ^ 63)
    (hcount : p.Countable) (startOffset : Int) :
    ∃ k ≤ records.length, (k = 0 ∨ (k : Int) ≤ startOffset) ∧
      p.scanned startOffset = records.drop k := by
  obtain ⟨before, seg, after, hsegs, hidx, hstart⟩ := p.segmentForOffset_spec startOffset
  have hcut := h.cut
  rw [hsegs] at hcut
  obtain ⟨first, rest, rfl, hbefore, hrest⟩ := hcut.split
  rw [Nat.zero_add] at hrest
  cases hrest with
  | @cons _ _ run _ later hseg hlater =>
      rw [List.length_append] at hlt
      have hspan : run.length < 2 ^ 32 := by
        have hmem : seg ∈ p.segments := by
          rw [hsegs]
          simp
        have hread := hcount seg hmem
        rwa [hseg.readFrom_zero] at hread
      obtain ⟨k, hk, hle, hread⟩ := hseg.startPosition (by omega) hspan startOffset
      refine ⟨first.length + k, by simp only [List.length_append]; omega, ?_, ?_⟩
      · rcases hle with rfl | hle
        · rcases hstart with rfl | hstart
          · cases hbefore
            exact .inl rfl
          · rw [toI64_of_lt (by rw [hseg.base]; omega), hseg.base] at hstart
            exact .inr hstart
        · exact .inr hle
      · unfold Partition.scanned
        rw [hidx, hsegs, List.drop_left]
        have hflat := hlater.flatMap (fun seg => seg.readFrom 0)
          fun _ _ _ hseg => hseg.readFrom_zero
        simp only [hread, hflat]
        rw [← List.drop_append_of_le_length hk, List.drop_length_add_append]

/-- A read answers what the list of all records says. -/
theorem Partition.Holds.readClamped (h : p.Holds records) (hlt : records.length < 2 ^ 63)
    (hcount : p.Countable) :
    p.readClamped startOffset maxBytes clamp =
      if startOffset ≥ clamp then []
      else
        capBytes Record.recSize maxBytes 0 true
          ((records.filter fun rec => startOffset ≤ toI64 rec.offset).takeWhile
            fun rec => toI64 rec.offset < clamp) := by
  obtain ⟨k, hk, hle, hscan⟩ := h.scanned hlt hcount startOffset
  have hskip : (records.take k).filter (fun rec => startOffset ≤ toI64 rec.offset) = [] := by
    refine List.filter_eq_nil_iff.mpr fun rec hrec => ?_
    have hmem := (h.numbered.part (List.take_prefix k records)).contiguous.mem
      (List.mem_map_of_mem hrec)
    rw [List.length_map, List.length_take_of_le hk] at hmem
    have hoff : rec.offset.toNat < 0 + k := hmem.2
    rw [decide_eq_true_eq, toI64_of_lt (by omega)]
    rcases hle with rfl | hle <;> omega
  have hfilter : (records.drop k).filter (fun rec => startOffset ≤ toI64 rec.offset) =
      records.filter fun rec => startOffset ≤ toI64 rec.offset := by
    conv_rhs => rw [← List.take_append_drop k records, List.filter_append, hskip]
    simp
  unfold Partition.readClamped
  rw [hscan, readLoop_eq, hfilter]
  simp

/-! ## Windows of the log -/

/-- The records at the offsets from `start` on that are below `clamp`. -/
def window (records : List Record) (start clamp : Int) : List Record :=
  records.filter fun rec => start ≤ rec.offset.toNat ∧ (rec.offset.toNat : Int) < clamp

theorem window_of_ge (h : clamp ≤ startOffset) : window records startOffset clamp = [] := by
  apply List.filter_eq_nil_iff.mpr
  intro rec _
  simp only [decide_eq_true_eq, not_and]
  omega

theorem Numbered.window_from {n : Nat} (h : Numbered n records) (start clamp : Nat) :
    window records start clamp =
      (records.drop (start - n)).take (clamp - max start n) := by
  induction records generalizing n with
  | nil => simp [window]
  | cons rec rest ih =>
      obtain ⟨hoff, -, hrest⟩ := numbered_cons.mp h
      have htail := ih hrest
      rw [window] at htail ⊢
      rw [List.filter_cons, htail, hoff]
      by_cases hskip : n < start
      · have hdrop : start - n = start - (n + 1) + 1 := by omega
        have hmax : max start n = max start (n + 1) := by omega
        have hout : ¬((start : Int) ≤ n) := by omega
        simp [hout, hdrop, hmax]
      · have hnone : start - n = 0 := by omega
        have hnone' : start - (n + 1) = 0 := by omega
        by_cases hclamp : n < clamp
        · have htake : clamp - max start n = clamp - max start (n + 1) + 1 := by omega
          have hin : (start : Int) ≤ n ∧ (n : Int) < clamp := by omega
          simp [hin.1, hclamp, hnone, hnone', htake]
        · have htake : clamp - max start n = 0 := by omega
          have htake' : clamp - max start (n + 1) = 0 := by omega
          simp [hclamp, htake, htake']

/-- In a log, a window is what lies between two places. -/
theorem Numbered.window_eq (h : Numbered 0 records) (start clamp : Nat) :
    window records start clamp = (records.drop start).take (clamp - start) := by
  simpa using h.window_from start clamp

/-- Skipping what is below `start` drops as many records as are below it. -/
theorem Numbered.skip_eq {n : Nat} (h : Numbered n records) (hlt : n + records.length < 2 ^ 63)
    (start : Nat) :
    (records.filter fun rec => (start : Int) ≤ toI64 rec.offset) = records.drop (start - n) := by
  induction records generalizing n with
  | nil => simp
  | cons rec rest ih =>
      obtain ⟨hoff, -, hrest⟩ := numbered_cons.mp h
      rw [List.length_cons] at hlt
      have hnum : toI64 rec.offset = n := by rw [toI64_of_lt (by omega), hoff]
      rw [List.filter_cons, ih hrest (by omega), hnum]
      by_cases hskip : n < start
      · have hdrop : start - n = start - (n + 1) + 1 := by omega
        have hout : ¬((start : Int) ≤ n) := by omega
        simp [hout, hdrop]
      · have hnone : start - n = 0 := by omega
        have hnone' : start - (n + 1) = 0 := by omega
        have hin : (start : Int) ≤ n := by omega
        simp [hin, hnone, hnone']

/-- Stopping at the clamp takes as many records as are below it. -/
theorem Numbered.clamped_eq {n : Nat} (h : Numbered n records)
    (hlt : n + records.length < 2 ^ 63) (clamp : Nat) :
    (records.takeWhile fun rec => toI64 rec.offset < (clamp : Int)) =
      records.take (clamp - n) := by
  induction records generalizing n with
  | nil => simp
  | cons rec rest ih =>
      obtain ⟨hoff, -, hrest⟩ := numbered_cons.mp h
      rw [List.length_cons] at hlt
      have hnum : toI64 rec.offset = n := by rw [toI64_of_lt (by omega), hoff]
      rw [List.takeWhile_cons, ih hrest (by omega), hnum]
      by_cases hclamp : n < clamp
      · have htake : clamp - n = clamp - (n + 1) + 1 := by omega
        simp [hclamp, htake]
      · have htake : clamp - n = 0 := by omega
        simp [hclamp, htake]

theorem Numbered.drop_from {n : Nat} (h : Numbered n records) {k : Nat}
    (hk : k ≤ records.length) : Numbered (n + k) (records.drop k) := by
  have hsplit := h
  rw [← List.take_append_drop k records, numbered_append, List.length_take_of_le hk] at hsplit
  exact hsplit.2

theorem Numbered.drop (h : Numbered 0 records) {k : Nat} (hk : k ≤ records.length) :
    Numbered k (records.drop k) := by
  have hrest := h.drop_from hk
  rwa [Nat.zero_add] at hrest

theorem Numbered.offset_getElem {n i : Nat} (h : Numbered n records) (hi : i < records.length) :
    records[i].offset.toNat = n + i := by
  have hentry : (records.map Record.entry)[i]? = some records[i].entry := by
    rw [List.getElem?_map, List.getElem?_eq_getElem hi]
    rfl
  exact h.contiguous.offset hentry

theorem Numbered.mem {n : Nat} (h : Numbered n records) {rec : Record} (hrec : rec ∈ records) :
    n ≤ rec.offset.toNat ∧ rec.offset.toNat < n + records.length := by
  have hmem := h.contiguous.mem (List.mem_map_of_mem hrec)
  rwa [List.length_map] at hmem

/-- A read takes from its window what the budget allows. -/
theorem Partition.Holds.readClamped_window (h : p.Holds records)
    (hlt : records.length < 2 ^ 63) (hcount : p.Countable) (start : Nat) :
    p.readClamped start maxBytes clamp =
      capBytes Record.recSize maxBytes 0 true (window records start clamp) := by
  rw [h.readClamped hlt hcount]
  by_cases hend : (start : Int) ≥ clamp
  · rw [if_pos hend, window_of_ge hend]
    rfl
  · rw [if_neg hend]
    obtain ⟨c, rfl⟩ : ∃ c : Nat, clamp = c := ⟨clamp.toNat, by omega⟩
    rw [h.numbered.skip_eq (by omega), h.numbered.window_eq, Nat.sub_zero]
    rcases Nat.le_total start records.length with hin | hout
    · rw [(h.numbered.drop hin).clamped_eq (by rw [List.length_drop]; omega)]
    · rw [List.drop_eq_nil_of_le hout, List.takeWhile_nil, List.take_nil]

end MiniKafka.Storage
