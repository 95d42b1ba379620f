import MiniKafka.Foundations.FloorSearch
import MiniKafka.Foundations.Run
import MiniKafka.Storage.RecoveryScan
import MiniKafka.Storage.SegmentBounds
import Mathlib.Data.List.Sublists

/-!
# Reads through the sparse index

A segment through any row of its calls: `create_empty`, `append`, `scan_and_recover` on a log
file that may have been cut, and `load_index` on an index file that may have been cut. The
entries in memory and those in the index file stay a part of the dense index, which has one
entry for each frame. So a lookup gives the place of a frame that is not after the offset
looked for, and what is read from there lacks nothing from this offset on.

The calls have to be made as they are meant. An entry that is put behind half of another one
is loaded as something else, a second `create_empty` forgets how long the log file is, and a
frame that its length field cannot hold ends what is read.
-/

namespace MiniKafka.Storage

open Foundations Common

namespace Segment

/-- `find_start_position` with its `upper_bound`: the entry before the first that is above. -/
def findStartPositionBySearch (seg : Segment) (relOffset : UInt32) : UInt64 :=
  match seg.index with
  | [] => 0
  | front :: _ =>
      if relOffset < front.1 then 0
      else
        let it := upperBound (fun e => decide (relOffset < e.1)) seg.index
        -- The front is not above, so `it` has an entry before it.
        (seg.index[it - 1]?.map Prod.snd).getD 0

/-- The records of a read that are not before `base + relOffset`. -/
def recordsFrom (seg : Segment) (fromPos : UInt64) (relOffset : UInt32) : List Record :=
  (seg.readFrom fromPos).filter fun rec =>
    seg.baseOffset.toNat + relOffset.toNat ≤ rec.offset.toNat

/-- What a read through the index has to be: from the start of a frame on, and with every
record from `base + relOffset` on. -/
structure FloorRead (seg : Segment) (relOffset : UInt32) : Prop where
  boundary : ∃ before after, before ++ after = seg.readFrom 0 ∧
    seg.files.log = encodeAll before ++ encodeAll after ∧
    (seg.findStartPositionBySearch relOffset).toNat = (encodeAll before).length
  agrees : seg.recordsFrom (seg.findStartPositionBySearch relOffset) relOffset =
    seg.recordsFrom 0 relOffset

end Segment

/-- The offsets ascend, and none is `2 ^ 32` or more behind the base. -/
structure Spaced (baseOffset : UInt64) (records : List Record) : Prop where
  ascend : records.Pairwise fun a b => a.offset.toNat < b.offset.toNat
  span : ∀ rec ∈ records, baseOffset.toNat ≤ rec.offset.toNat ∧
    rec.offset.toNat < baseOffset.toNat + 2 ^ 32

instance (baseOffset : UInt64) (records : List Record) : Decidable (Spaced baseOffset records) :=
  decidable_of_iff
    (records.Pairwise (fun a b => a.offset.toNat < b.offset.toNat) ∧
      ∀ rec ∈ records, baseOffset.toNat ≤ rec.offset.toNat ∧
        rec.offset.toNat < baseOffset.toNat + 2 ^ 32)
    ⟨fun h => ⟨h.1, h.2⟩, fun h => ⟨h.ascend, h.span⟩⟩

/-- A segment with the entries that were put into its index file since that was emptied. -/
structure IndexedSegment where
  seg : Segment
  written : List (UInt32 × UInt64) := []
  deriving DecidableEq, Repr

/-- `scan_and_recover` and `load_index` find the first so many bytes of their file. -/
inductive SegmentEvent
  | createEmpty
  | append (records : List Record)
  | scanAndRecover (logBytes : Nat)
  | loadIndex (indexBytes : Nat)
  deriving DecidableEq, Repr

def newIndexedSegment (baseOffset : UInt64) (indexIntervalBytes : UInt32) : IndexedSegment where
  seg := { files := { baseOffset }, indexIntervalBytes }

namespace IndexedSegment

variable (s : IndexedSegment)

def createEmpty : IndexedSegment := { s with seg := s.seg.createEmpty }

def append (records : List Record) : IndexedSegment :=
  let seg := s.seg.append records
  { seg, written := s.written ++ seg.index.drop s.seg.index.length }

def cutLog (logBytes : Nat) : Segment :=
  { s.seg with files.log := s.seg.files.log.take logBytes }

def cutIndex (indexBytes : Nat) : Segment :=
  { s.seg with files.index := some ((readWholeFile s.seg.files.index).take indexBytes) }

def scanAndRecover (logBytes : Nat) : IndexedSegment :=
  let seg := (s.cutLog logBytes).scanAndRecover.1
  { seg, written := seg.index }

def loadIndex (indexBytes : Nat) : IndexedSegment :=
  { s with seg := (s.cutIndex indexBytes).loadIndex }

end IndexedSegment

/-- Records are appended behind those of the log file, which has fewer than `2 ^ 64` bytes as
every file has. -/
def segmentStep (s : IndexedSegment) : SegmentEvent → Option IndexedSegment
  | .createEmpty => some s.createEmpty
  | .append records =>
      if Spaced s.seg.baseOffset (s.seg.readFrom 0 ++ records) ∧
          (s.seg.files.log ++ encodeAll records).length < 2 ^ 64 then
        some (s.append records)
      else none
  | .scanAndRecover logBytes => some (s.scanAndRecover logBytes)
  | .loadIndex indexBytes => some (s.loadIndex indexBytes)

/-- How the calls are meant. `create_empty` is for a brand new segment, `append` for records
whose frames have a length field that is large enough, and `load_index` for a segment that is
closed: in its index file, wherever it is cut, no entry stands behind a part of another one. -/
def AsMeant (s : IndexedSegment) : SegmentEvent → Prop
  | .createEmpty => s.seg.files.log = []
  | .append records => ∀ rec ∈ records, rec.Framed
  | .scanAndRecover _ => True
  | .loadIndex indexBytes =>
      ∃ kept ∈ s.written.sublists,
        readWholeFile (s.cutIndex indexBytes).files.index <+: encodeIndex kept

instance (s : IndexedSegment) : (e : SegmentEvent) → Decidable (AsMeant s e)
  | .createEmpty => inferInstanceAs (Decidable (s.seg.files.log = []))
  | .append records => inferInstanceAs (Decidable (∀ rec ∈ records, rec.Framed))
  | .scanAndRecover _ => inferInstanceAs (Decidable True)
  | .loadIndex indexBytes =>
      inferInstanceAs (Decidable
        (∃ kept ∈ s.written.sublists,
          readWholeFile (s.cutIndex indexBytes).files.index <+: encodeIndex kept))

/-! ## The search -/

namespace Segment

variable {seg : Segment} {relOffset : UInt32}

/-- On an ascending index the search ends at the last entry that is not above. -/
theorem findStartPositionBySearch_eq (hascend : seg.index.Pairwise fun a b => a.1 ≤ b.1)
    (relOffset : UInt32) :
    seg.findStartPositionBySearch relOffset = seg.findStartPosition relOffset := by
  have hmono : seg.index.Pairwise fun a b =>
      decide (relOffset < a.1) = true → decide (relOffset < b.1) = true := by
    refine hascend.imp ?_
    intro a b hab ha
    exact decide_eq_true (UInt32.lt_of_lt_of_le (of_decide_eq_true ha) hab)
  have hfront : (seg.index.takeWhile fun e => !decide (relOffset < e.1)) =
      seg.index.takeWhile fun e => decide (e.1 ≤ relOffset) := by
    congr 1
    ext e
    rw [← decide_not, decide_eq_decide]
    exact UInt32.not_lt
  unfold findStartPositionBySearch findStartPosition
  rw [← hfront]
  cases hindex : seg.index with
  | nil => rfl
  | cons front rest =>
      rw [hindex] at hmono
      change (if relOffset < front.1 then 0 else _) = _
      by_cases habove : relOffset < front.1
      · rw [if_pos habove, List.takeWhile_cons_of_neg (by simpa using habove)]
        rfl
      · have hsep := upperBound_separates hmono
        have hne : upperBound (fun e => decide (relOffset < e.1)) (front :: rest) ≠ 0 := by
          intro hzero
          have hiff := hsep.iff 0 front rfl
          rw [hzero, decide_eq_true_iff] at hiff
          exact habove (hiff.mpr (Nat.le_refl 0))
        rw [if_neg habove]
        change ((front :: rest)[upperBound _ (front :: rest) - 1]?.map Prod.snd).getD 0 = _
        rw [upperBound_last hmono hne]
        cases ((front :: rest).takeWhile fun e => !decide (relOffset < e.1)).getLast? with
        | none => rfl
        | some e => rfl

end Segment

/-! ## The dense index -/

/-- The index with an entry for each frame of the records from `pos` on. -/
def denseIndex (baseOffset : UInt64) (pos : Nat) (records : List Record) :
    List (UInt32 × UInt64) :=
  (frameStarts encodeRecord pos records).map fun frame =>
    ((frame.1.offset - baseOffset).toUInt32, UInt64.ofNat frame.2)

section DenseIndex

variable {baseOffset : UInt64} {pos : Nat} {records more : List Record} {rec : Record}

theorem denseIndex_append :
    denseIndex baseOffset pos (records ++ more) = denseIndex baseOffset pos records ++
      denseIndex baseOffset (pos + (encodeAll records).length) more := by
  simp only [denseIndex, frameStarts_append, List.map_append]

theorem Spaced.part (h : Spaced baseOffset records) (hp : more <+: records) :
    Spaced baseOffset more where
  ascend := h.ascend.sublist hp.sublist
  span := fun rec hrec => h.span rec (hp.subset hrec)

/-- The relative offset of a record in the span is its distance from the base. -/
theorem Spaced.relOffset (h : Spaced baseOffset records) (hrec : rec ∈ records) :
    (rec.offset - baseOffset).toUInt32.toNat + baseOffset.toNat = rec.offset.toNat := by
  obtain ⟨hlow, hhigh⟩ := h.span rec hrec
  obtain ⟨k, hk⟩ := Nat.exists_eq_add_of_le hlow
  rw [sub_toUInt32 hk, UInt32.toNat_ofNat_of_lt' (by simp only [UInt32.size]; omega)]
  omega

theorem Spaced.denseIndex_ascend (h : Spaced baseOffset records) (pos : Nat) :
    (denseIndex baseOffset pos records).Pairwise fun a b => a.1 ≤ b.1 := by
  have hframes : (frameStarts encodeRecord pos records).Pairwise fun a b =>
      a.1.offset.toNat < b.1.offset.toNat := by
    have hascend := h.ascend
    have hrecords : (frameStarts encodeRecord pos records).map Prod.fst = records :=
      frameStarts_map_fst
    rw [← hrecords, List.pairwise_map] at hascend
    exact hascend
  rw [denseIndex, List.pairwise_map]
  refine hframes.imp_of_mem ?_
  intro a b ha hb hlt
  have hrela := h.relOffset (mem_of_mem_frameStarts ha)
  have hrelb := h.relOffset (mem_of_mem_frameStarts hb)
  change (a.1.offset - baseOffset).toUInt32 ≤ (b.1.offset - baseOffset).toUInt32
  rw [UInt32.le_iff_toNat_le]
  omega

/-- An entry of the dense index is the place of a frame and the distance of its record. -/
theorem Spaced.mem_denseIndex (h : Spaced baseOffset records)
    (hlen : (encodeAll records).length < 2 ^ 64) {e : UInt32 × UInt64}
    (he : e ∈ denseIndex baseOffset 0 records) :
    ∃ before rec after, records = before ++ rec :: after ∧
      rec.offset.toNat = baseOffset.toNat + e.1.toNat ∧
      e.2.toNat = (encodeAll before).length := by
  obtain ⟨⟨rec, start⟩, hframe, rfl⟩ := List.mem_map.mp he
  obtain ⟨before, after, hsplit, hstart⟩ := exists_split_of_mem_frameStarts hframe
  refine ⟨before, rec, after, hsplit, ?_, ?_⟩
  · have hmem : rec ∈ records := mem_of_mem_frameStarts hframe
    have hrel := h.relOffset hmem
    change rec.offset.toNat = baseOffset.toNat + (rec.offset - baseOffset).toUInt32.toNat
    omega
  · have hlt : (encodeAll before).length < 2 ^ 64 := by
      rw [hsplit, encodeAll_append, List.length_append] at hlen
      omega
    rw [Nat.zero_add] at hstart
    change (UInt64.ofNat start).toNat = _
    rw [hstart]
    exact UInt64.toNat_ofNat_of_lt' hlt

end DenseIndex

/-! ## What the calls keep -/

/-- The log file holds the records, and both indexes are parts of the dense one. -/
structure IndexedSegment.Holds (s : IndexedSegment) (records : List Record) : Prop where
  log : s.seg.files.log = encodeAll records
  size : s.seg.sizeBytes = UInt64.ofNat (encodeAll records).length
  length : (encodeAll records).length < 2 ^ 64
  spaced : Spaced s.seg.baseOffset records
  framed : ∀ rec ∈ records, rec.Framed
  index : s.seg.index.Sublist (denseIndex s.seg.baseOffset 0 records)
  written : s.written.Sublist (denseIndex s.seg.baseOffset 0 records)

namespace Segment

variable {seg : Segment} {records more : List Record} {rec : Record} {pos : Nat} {tail : Bytes}

/-- What a record adds to the index and to its file: its own entry or none. -/
theorem appendRecord_index (rec : Record) (hsize : seg.sizeBytes = UInt64.ofNat pos) :
    ∃ new, new.Sublist [((rec.offset - seg.baseOffset).toUInt32, UInt64.ofNat pos)] ∧
      (seg.appendRecord rec).index = seg.index ++ new ∧
      readWholeFile (seg.appendRecord rec).files.index =
        readWholeFile seg.files.index ++ encodeIndex new := by
  have hcases := indexFrame_cases seg rec seg.sizeBytes (encodeRecord rec).length
  rw [hsize] at hcases
  rcases hcases with ⟨hindex, hfile⟩ | ⟨hindex, hfile⟩
  · refine ⟨[], List.nil_sublist _, ?_, ?_⟩
    · rw [List.append_nil, ← hindex, ← hsize]
      rfl
    · rw [encodeIndex, List.flatMap_nil, List.append_nil, ← hfile, ← hsize]
      rfl
  · refine ⟨[((rec.offset - seg.baseOffset).toUInt32, UInt64.ofNat pos)], List.Sublist.refl _,
      ?_, ?_⟩
    · rw [← hindex, ← hsize]
      rfl
    · rw [encodeIndex, List.flatMap_singleton]
      change _ = readWholeFile (some (readWholeFile seg.files.index ++ _))
      rw [← hfile, ← hsize]
      rfl

/-- What records add is a part of their dense index. -/
theorem append_index (more : List Record) (hsize : seg.sizeBytes = UInt64.ofNat pos) :
    ∃ new, new.Sublist (denseIndex seg.baseOffset pos more) ∧
      (seg.append more).index = seg.index ++ new ∧
      readWholeFile (seg.append more).files.index =
        readWholeFile seg.files.index ++ encodeIndex new := by
  induction more generalizing seg pos with
  | nil => exact ⟨[], List.nil_sublist _, (List.append_nil _).symm, (List.append_nil _).symm⟩
  | cons rec rest ih =>
      obtain ⟨first, hfirst, hindex, hfile⟩ := appendRecord_index rec hsize
      obtain ⟨new, hnew, hindexRest, hfileRest⟩ := ih (appendRecord_sizeBytes hsize)
      have hbase : (seg.appendRecord rec).baseOffset = seg.baseOffset := appendRecord_files_base
      rw [hbase] at hnew
      rw [hindex, List.append_assoc] at hindexRest
      rw [hfile, List.append_assoc, ← List.flatMap_append] at hfileRest
      exact ⟨first ++ new, hfirst.append hnew, hindexRest, hfileRest⟩

theorem append_sizeBytes (more : List Record) (hsize : seg.sizeBytes = UInt64.ofNat pos) :
    (seg.append more).sizeBytes = UInt64.ofNat (pos + (encodeAll more).length) := by
  induction more generalizing seg pos with
  | nil => exact hsize
  | cons rec rest ih =>
      rw [encodeAll_cons, List.length_append, ← Nat.add_assoc]
      exact ih (appendRecord_sizeBytes hsize)

/-- After a scan the segment is the one that appending what it found to an empty one makes. -/
theorem scanAndRecover_eq_append (hlog : seg.files.log = encodeAll records ++ tail)
    (hframed : ∀ rec ∈ records, rec.Framed) (htail : Stuck decodeRecord tail) :
    seg.scanAndRecover.1 = seg.fresh.append records := by
  have hbytes : (records.map fun rec => (encodeRecord rec, rec)).flatMap Prod.fst =
      encodeAll records := List.flatMap_map ..
  have hframes : AllRead decodeRecord (records.map fun rec => (encodeRecord rec, rec)) := by
    intro frame hframe
    obtain ⟨rec, hrec, rfl⟩ := List.mem_map.mp hframe
    exact (decodeRecord_delimits (hframed rec hrec)).reads
  have hbuilt := scan_builtAs hlog hframed htail
  rw [← hbytes] at hlog
  rw [scanAndRecover_frames hlog hframes htail, hbytes]
  exact hbuilt.seg

/-- A load finds the entries that are whole. -/
theorem loadIndex_cut {written : List (UInt32 × UInt64)}
    (hfile : readWholeFile seg.files.index <+: encodeIndex written) :
    seg.loadIndex.index <+: written := by
  obtain ⟨kept, tail, hkept, hsplit, htail⟩ :=
    stream_cut (fun e _ => decodeIndexEntry_delimits e) hfile
  have hread : seg.loadIndex.index = kept := by
    change readFrames decodeIndexEntry ⟨readWholeFile seg.files.index, 0⟩ = kept
    rw [hsplit]
    exact readFrames_stream decodeIndexEntry_consuming
      (fun e _ => decodeIndexEntry_delimits e) htail
  rw [hread]
  exact hkept

end Segment

namespace IndexedSegment

variable {s : IndexedSegment} {records more : List Record}

theorem Holds.readFrom_zero (h : s.Holds records) : s.seg.readFrom 0 = records := by
  have hlog : s.seg.files.log = encodeAll [] ++ encodeAll records := h.log
  exact Segment.readFrom_encodeAll hlog h.framed rfl

theorem new_holds (baseOffset : UInt64) (indexIntervalBytes : UInt32) :
    (newIndexedSegment baseOffset indexIntervalBytes).Holds [] where
  log := rfl
  size := rfl
  length := Nat.two_pow_pos 64
  spaced := ⟨List.Pairwise.nil, by simp⟩
  framed := by simp
  index := List.nil_sublist _
  written := List.nil_sublist _

theorem Holds.createEmpty (h : s.Holds records) (hbrandNew : s.seg.files.log = []) :
    s.createEmpty.Holds records where
  log := h.log
  size := by
    rw [← h.log, hbrandNew]
    rfl
  length := h.length
  spaced := h.spaced
  framed := h.framed
  index := List.nil_sublist _
  written := h.written

theorem Holds.append (h : s.Holds records) (hspaced : Spaced s.seg.baseOffset (records ++ more))
    (hlen : (encodeAll (records ++ more)).length < 2 ^ 64)
    (hframed : ∀ rec ∈ more, rec.Framed) : (s.append more).Holds (records ++ more) := by
  obtain ⟨new, hnew, hindex, -⟩ := Segment.append_index more h.size
  have hbase : (s.append more).seg.baseOffset = s.seg.baseOffset := Segment.append_files_base
  have hdense : denseIndex s.seg.baseOffset 0 (records ++ more) =
      denseIndex s.seg.baseOffset 0 records ++
        denseIndex s.seg.baseOffset (encodeAll records).length more := by
    rw [denseIndex_append, Nat.zero_add]
  constructor
  · change (s.seg.append more).files.log = _
    rw [Segment.append_log, h.log, encodeAll_append]
  · change (s.seg.append more).sizeBytes = _
    rw [Segment.append_sizeBytes more h.size, encodeAll_append, List.length_append]
  · exact hlen
  · rw [hbase]
    exact hspaced
  · intro rec hrec
    exact (List.mem_append.mp hrec).elim (h.framed rec) (hframed rec)
  · rw [hbase, hdense]
    change (s.seg.append more).index.Sublist _
    rw [hindex]
    exact h.index.append hnew
  · rw [hbase, hdense]
    change (s.written ++ (s.seg.append more).index.drop s.seg.index.length).Sublist _
    rw [hindex, List.drop_left]
    exact h.written.append hnew

/-- The segment as the scan starts to build it. -/
def emptied (s : IndexedSegment) (logBytes : Nat) : IndexedSegment where
  seg := (s.cutLog logBytes).fresh

theorem emptied_holds (s : IndexedSegment) (logBytes : Nat) : (s.emptied logBytes).Holds [] :=
  (new_holds s.seg.baseOffset s.seg.indexIntervalBytes).createEmpty rfl

/-- A scan appends the records whose frames are whole in the log file again. -/
theorem Holds.scanAndRecover_eq (h : s.Holds records) (logBytes : Nat) :
    ∃ kept, kept <+: records ∧ s.scanAndRecover logBytes = (s.emptied logBytes).append kept := by
  have hcut : (s.cutLog logBytes).files.log <+: encodeAll records := by
    rw [← h.log]
    exact List.take_prefix _ _
  obtain ⟨kept, tail, hkept, hlog, htail⟩ :=
    stream_cut (fun rec hrec => decodeRecord_delimits (h.framed rec hrec)) hcut
  have hbuilt := Segment.scanAndRecover_eq_append hlog
    (fun rec hrec => h.framed rec (hkept.subset hrec)) htail
  refine ⟨kept, hkept, ?_⟩
  rw [IndexedSegment.scanAndRecover, hbuilt]
  rfl

theorem Holds.scanAndRecover (h : s.Holds records) (logBytes : Nat) :
    ∃ kept, (s.scanAndRecover logBytes).Holds kept := by
  obtain ⟨kept, hkept, hscan⟩ := h.scanAndRecover_eq logBytes
  have hlen : (encodeAll kept).length < 2 ^ 64 := by
    obtain ⟨lost, rfl⟩ := hkept
    have hall := h.length
    rw [encodeAll_append, List.length_append] at hall
    omega
  rw [hscan]
  exact ⟨kept, (s.emptied_holds logBytes).append (h.spaced.part hkept) hlen
    fun rec hrec => h.framed rec (hkept.subset hrec)⟩

/-- What is loaded of a cut index file is a part of what was written. -/
theorem Holds.loadIndex (h : s.Holds records) {indexBytes : Nat}
    (hclosed : AsMeant s (.loadIndex indexBytes)) : (s.loadIndex indexBytes).Holds records := by
  obtain ⟨kept, hkept, hfile⟩ := hclosed
  have hload := Segment.loadIndex_cut hfile
  constructor
  · exact h.log
  · change UInt64.ofNat s.seg.files.log.length = _
    rw [h.log]
  · exact h.length
  · exact h.spaced
  · exact h.framed
  · exact (hload.sublist.trans (List.mem_sublists.mp hkept)).trans h.written
  · exact h.written

/-- Where both are parts of the dense index, a lookup gives the place of a frame that is not
after the offset looked for. -/
theorem Holds.floorRead (h : s.Holds records) (relOffset : UInt32) :
    s.seg.FloorRead relOffset := by
  have hzero := h.readFrom_zero
  have hascend := (h.spaced.denseIndex_ascend 0).sublist h.index
  have hfind := Segment.findStartPositionBySearch_eq hascend relOffset
  have hcases : s.seg.findStartPosition relOffset = 0 ∨
      ∃ e ∈ s.seg.index, e.1 ≤ relOffset ∧ s.seg.findStartPosition relOffset = e.2 :=
    Segment.findStartPosition_cases relOffset
  rcases hcases with hstart | ⟨e, he, hle, hstart⟩
  · rw [hstart] at hfind
    constructor
    · exact ⟨[], records, hzero.symm, h.log, by rw [hfind]; rfl⟩
    · rw [hfind]
  · obtain ⟨before, rec, after, rfl, hoffset, hpos⟩ :=
      h.spaced.mem_denseIndex h.length (h.index.subset he)
    rw [hstart] at hfind
    have hlog : s.seg.files.log = encodeAll before ++ encodeAll (rec :: after) := by
      rw [h.log, encodeAll_append]
    have hread : s.seg.readFrom e.2 = rec :: after :=
      Segment.readFrom_encodeAll hlog
        (fun r hr => h.framed r (List.mem_append_right _ hr)) hpos
    have hfloor : rec.offset.toNat ≤ s.seg.baseOffset.toNat + relOffset.toNat := by
      rw [hoffset]
      exact Nat.add_le_add_left (UInt32.le_iff_toNat_le.mp hle) _
    constructor
    · exact ⟨before, rec :: after, hzero.symm, hlog, by rw [hfind, hpos]⟩
    · rw [Segment.recordsFrom, Segment.recordsFrom, hfind, hread, hzero]
      exact filter_from_floor h.spaced.ascend hfloor

/-- A call that is made as it is meant leaves a segment that holds records. -/
theorem Holds.step {t : IndexedSegment} {e : SegmentEvent} (h : s.Holds records)
    (hmeant : AsMeant s e) (hstep : segmentStep s e = some t) : ∃ kept, t.Holds kept := by
  cases e with
  | createEmpty =>
      obtain rfl := Option.some.inj hstep
      exact ⟨records, h.createEmpty hmeant⟩
  | append more =>
      rw [segmentStep, h.readFrom_zero] at hstep
      split at hstep
      · next henabled =>
          obtain rfl := Option.some.inj hstep
          obtain ⟨hspaced, hlen⟩ := henabled
          rw [h.log, ← encodeAll_append] at hlen
          exact ⟨records ++ more, h.append hspaced hlen hmeant⟩
      · cases hstep
  | scanAndRecover logBytes =>
      obtain rfl := Option.some.inj hstep
      exact h.scanAndRecover logBytes
  | loadIndex indexBytes =>
      obtain rfl := Option.some.inj hstep
      exact ⟨records, h.loadIndex hmeant⟩

/-- After every run a segment holds records. -/
theorem run_holds {baseOffset : UInt64} {indexIntervalBytes : UInt32}
    {visits : List (IndexedSegment × SegmentEvent)} {t : IndexedSegment}
    (run : Run segmentStep (newIndexedSegment baseOffset indexIntervalBytes) visits t)
    (hmeant : Guarded AsMeant visits) : ∃ records, t.Holds records := by
  apply run.invariant (I := fun s => ∃ records, s.Holds records) hmeant
  · exact ⟨[], new_holds baseOffset indexIntervalBytes⟩
  · rintro s e u he ⟨records, h⟩ hstep
    exact h.step he hstep

end IndexedSegment

/-! ## Cuts of the index file -/

/-- Nothing is appended while the index file ends inside an entry. -/
def BehindWholeEntries (s : IndexedSegment) : SegmentEvent → Prop
  | .createEmpty => s.seg.files.log = []
  | .append records =>
      (∀ rec ∈ records, rec.Framed) ∧ 12 ∣ (readWholeFile s.seg.files.index).length
  | .scanAndRecover _ => True
  | .loadIndex _ => True

/-- The index file is a cut of entries that were written. -/
def IndexedSegment.FileCut (s : IndexedSegment) : Prop :=
  ∃ kept ∈ s.written.sublists, readWholeFile s.seg.files.index <+: encodeIndex kept

theorem encodeIndex_take (index : List (UInt32 × UInt64)) (k : Nat) :
    (encodeIndex index).take (12 * k) = encodeIndex (index.take k) := by
  induction index generalizing k with
  | nil => simp
  | cons e rest ih =>
      cases k with
      | zero => rfl
      | succ k =>
          have hentry : (encodeIndexEntry e).length = 12 := rfl
          have hcount : 12 * (k + 1) = (encodeIndexEntry e).length + 12 * k := by omega
          rw [encodeIndex, List.flatMap_cons, hcount, List.take_length_add_append,
            List.take_succ_cons, encodeIndex, List.flatMap_cons]
          exact congrArg _ (ih k)

/-- A cut behind whole entries leaves these entries. -/
theorem exists_encodeIndex_of_prefix {file : Bytes} {index : List (UInt32 × UInt64)}
    (hcut : file <+: encodeIndex index) (hwhole : 12 ∣ file.length) :
    ∃ kept, kept <+: index ∧ file = encodeIndex kept := by
  obtain ⟨k, hk⟩ := hwhole
  refine ⟨index.take k, List.take_prefix k index, ?_⟩
  rw [← encodeIndex_take, ← hk]
  exact List.prefix_iff_eq_take.mp hcut

namespace IndexedSegment

variable {s t : IndexedSegment} {records : List Record} {e : SegmentEvent}

theorem FileCut.asMeant (h : s.FileCut) (indexBytes : Nat) :
    AsMeant s (.loadIndex indexBytes) := by
  obtain ⟨kept, hkept, hfile⟩ := h
  exact ⟨kept, hkept, (List.take_prefix _ _).trans hfile⟩

/-- Behind whole entries what is appended is again entries that were written. -/
theorem FileCut.append (h : s.FileCut) (hheld : s.Holds records) (more : List Record)
    (hwhole : 12 ∣ (readWholeFile s.seg.files.index).length) : (s.append more).FileCut := by
  obtain ⟨kept, hkept, hfile⟩ := h
  obtain ⟨whole, hpart, hentries⟩ := exists_encodeIndex_of_prefix hfile hwhole
  obtain ⟨new, -, hindex, hnext⟩ := Segment.append_index more hheld.size
  have hwritten : (s.append more).written = s.written ++ new := by
    change s.written ++ (s.seg.append more).index.drop s.seg.index.length = _
    rw [hindex, List.drop_left]
  refine ⟨whole ++ new, ?_, ?_⟩
  · rw [hwritten]
    exact List.mem_sublists.mpr
      ((hpart.sublist.trans (List.mem_sublists.mp hkept)).append (List.Sublist.refl new))
  · change readWholeFile (s.seg.append more).files.index <+: _
    rw [hnext, hentries, encodeIndex, encodeIndex, ← List.flatMap_append]

theorem FileCut.step (h : s.FileCut) (hheld : s.Holds records) (hwhole : BehindWholeEntries s e)
    (hstep : segmentStep s e = some t) : t.FileCut := by
  cases e with
  | createEmpty =>
      obtain rfl := Option.some.inj hstep
      exact h
  | append more =>
      rw [segmentStep] at hstep
      split at hstep
      · obtain rfl := Option.some.inj hstep
        exact h.append hheld more hwhole.2
      · cases hstep
  | scanAndRecover logBytes =>
      obtain rfl := Option.some.inj hstep
      obtain ⟨kept, -, hscan⟩ := hheld.scanAndRecover_eq logBytes
      have hempty : (s.emptied logBytes).FileCut :=
        ⟨[], List.mem_sublists.mpr (List.nil_sublist _), List.prefix_refl _⟩
      change (s.scanAndRecover logBytes).FileCut
      rw [hscan]
      exact hempty.append (s.emptied_holds logBytes) kept (Nat.dvd_zero 12)
  | loadIndex indexBytes =>
      obtain rfl := Option.some.inj hstep
      obtain ⟨kept, hkept, hfile⟩ := h
      exact ⟨kept, hkept, (List.take_prefix _ _).trans hfile⟩

/-- Where nothing is appended behind a part of an entry, the index file may be cut anywhere
before it is loaded. -/
theorem asMeant_of_behindWholeEntries {baseOffset : UInt64} {indexIntervalBytes : UInt32}
    {visits : List (IndexedSegment × SegmentEvent)}
    (run : Run segmentStep (newIndexedSegment baseOffset indexIntervalBytes) visits t)
    (hwhole : Guarded BehindWholeEntries visits) : Guarded AsMeant visits ∧ t.FileCut := by
  induction run with
  | refl =>
      exact ⟨guarded_nil _, [], List.mem_sublists.mpr (List.nil_sublist _), List.prefix_refl _⟩
  | @tail visits s e t run hstep ih =>
      obtain ⟨hrun, he⟩ := guarded_snoc.mp hwhole
      obtain ⟨hmeant, hcut⟩ := ih hrun
      obtain ⟨records, hheld⟩ := run_holds run hmeant
      refine ⟨guarded_snoc.mpr ⟨hmeant, ?_⟩, hcut.step hheld he hstep⟩
      cases e with
      | createEmpty => exact he
      | append records => exact he.1
      | scanAndRecover logBytes => trivial
      | loadIndex indexBytes => exact hcut.asMeant indexBytes

end IndexedSegment

/-- Whatever calls made it, a segment reads through its index as it does without one. -/
theorem sparse_reads_agree {baseOffset : UInt64} {indexIntervalBytes : UInt32}
    {visits : List (IndexedSegment × SegmentEvent)} {t : IndexedSegment}
    (run : Run segmentStep (newIndexedSegment baseOffset indexIntervalBytes) visits t)
    (hmeant : Guarded AsMeant visits) (relOffset : UInt32) : t.seg.FloorRead relOffset := by
  obtain ⟨records, h⟩ := IndexedSegment.run_holds run hmeant
  exact h.floorRead relOffset

/-- A record whose value has so many bytes. -/
def sampleRecord (offset : UInt64) (valueBytes : Nat) : Record where
  offset := offset
  key := [1]
  value := List.replicate valueBytes 7

/-- An index file cut inside its second entry, a log file cut inside its second frame, and
the index file cut again. -/
def cutAndLoaded : List SegmentEvent :=
  [.createEmpty, .append [sampleRecord 0 1, sampleRecord 1 2], .loadIndex 13, .scanAndRecover 40,
    .append [sampleRecord 3 1, sampleRecord 5 0], .loadIndex 30]

theorem sparse_reads_agree_cut :
    ∃ visits t, Run segmentStep (newIndexedSegment 0 0) visits t ∧
      t.seg.index = [(0, 0), (3, 34)] ∧ t.seg.FloorRead 4 := by
  have hend : (execute segmentStep (newIndexedSegment 0 0) cutAndLoaded).map
      (fun t => t.seg.index) = some [(0, 0), (3, 34)] := by
    decide +kernel
  have hmeant : Guarded AsMeant (trace segmentStep (newIndexedSegment 0 0) cutAndLoaded) := by
    decide +kernel
  obtain ⟨t, run, hindex⟩ := run_showing hend
  exact ⟨_, t, run, hindex, sparse_reads_agree run hmeant 4⟩

/-! ## A frame that its length field cannot hold -/

section Unframed

variable {big rec : Record} {seg : Segment}

/-- The length field of a frame of `2 ^ 32` bytes is 0, and nothing is decoded behind it. -/
theorem unframed_stuck (hbig : 4 + (encodeBody big).length = 2 ^ 32) (rest : Bytes) :
    Stuck decodeRecord (encodeRecord big ++ rest) := by
  right
  intro pos
  have hzero : UInt32.ofNat (4 + (encodeBody big).length) = 0 := by
    rw [hbig]
    rfl
  have hlength := (getU32_delimits 0).reads
    (putU32 (crc32 (encodeBody big)) ++ encodeBody big ++ rest) pos
  rw [encodeRecord, hzero, List.append_assoc, decodeRecord, run_bind_of_ok _ hlength]
  exact ⟨_, rfl⟩

theorem readFrom_unframed (hbig : 4 + (encodeBody big).length = 2 ^ 32) {more : List Record}
    (hlog : seg.files.log = encodeAll (big :: more)) : seg.readFrom 0 = [] := by
  have hread : readFrames decodeRecord ⟨seg.files.log, 0⟩ = [] := by
    rw [hlog, encodeAll_cons]
    exact scanFrames_stuck (unframed_stuck hbig (encodeAll more)) [] 0
  rw [Segment.readFrom]
  split
  · rfl
  · exact hread

/-- An index with the interval 0 has an entry for every frame. -/
theorem appendRecord_index_every (h : seg.indexIntervalBytes = 0) :
    (seg.appendRecord rec).index =
      seg.index ++ [((rec.offset - seg.baseOffset).toUInt32, seg.sizeBytes)] := by
  have hdue : seg.index = [] ∨
      seg.bytesSinceLastIndexEntry ≥ seg.indexIntervalBytes.toUInt64 := by
    right
    rw [h]
    exact UInt64.le_iff_toNat_le.mpr (Nat.zero_le _)
  change (seg.indexFrame rec seg.sizeBytes (encodeRecord rec).length).index = _
  simp only [Segment.indexFrame, if_pos hdue]
  rfl

theorem spaced_singleton (h : rec.offset.toNat < 2 ^ 32) : Spaced 0 [rec] where
  ascend := List.pairwise_singleton _ _
  span r hr := by
    obtain rfl := List.mem_singleton.mp hr
    exact ⟨Nat.zero_le _, by simpa using h⟩

/-- A segment with such a frame and another one behind it, each with its index entry. -/
def behindUnframed (big rec : Record) : IndexedSegment :=
  ((newIndexedSegment 0 0).append [big]).append [rec]

theorem unframed_length (hbig : 4 + (encodeBody big).length = 2 ^ 32) :
    (encodeAll [big]).length = 2 ^ 32 + 4 := by
  rw [encodeBody_length] at hbig
  rw [encodeAll, List.flatMap_singleton, encodeRecord_length]
  omega

theorem behindUnframed_log (big rec : Record) :
    (behindUnframed big rec).seg.files.log = encodeAll [big, rec] := by
  have hempty : (newIndexedSegment 0 0).seg.files.log = [] := rfl
  change (((newIndexedSegment 0 0).seg.append [big]).append [rec]).files.log = _
  rw [Segment.append_log, Segment.append_log, hempty, List.nil_append, ← encodeAll_append,
    List.singleton_append]

theorem behindUnframed_run (hbig : 4 + (encodeBody big).length = 2 ^ 32)
    (hzero : big.offset = 0) (hone : rec.offset = 1) (hfits : rec.Fits) :
    Run segmentStep (newIndexedSegment 0 0)
      (trace segmentStep (newIndexedSegment 0 0) [.append [big], .append [rec]])
      (behindUnframed big rec) := by
  have hlen := unframed_length hbig
  have hbytes : (newIndexedSegment 0 0).seg.files.log ++ encodeAll [big] = encodeAll [big] := rfl
  have hfirst : segmentStep (newIndexedSegment 0 0) (.append [big]) =
      some ((newIndexedSegment 0 0).append [big]) := by
    have hempty : (newIndexedSegment 0 0).seg.readFrom 0 = [] := by decide
    apply if_pos
    rw [hempty, hbytes, hlen]
    exact ⟨spaced_singleton (by rw [hzero]; decide), by decide⟩
  have hlog : ((newIndexedSegment 0 0).append [big]).seg.files.log = encodeAll [big] :=
    Segment.append_log (newIndexedSegment 0 0).seg [big]
  have hsecond : segmentStep ((newIndexedSegment 0 0).append [big]) (.append [rec]) =
      some (behindUnframed big rec) := by
    have hbase : ((newIndexedSegment 0 0).append [big]).seg.baseOffset = 0 :=
      Segment.appendRecord_files_base
    have hsmall : (encodeAll [rec]).length < 2 ^ 32 := by
      rw [encodeAll, List.flatMap_singleton]
      exact hfits
    apply if_pos
    rw [readFrom_unframed hbig hlog, hbase, hlog, List.length_append, hlen]
    exact ⟨spaced_singleton (by rw [hone]; decide), by omega⟩
  apply run_of_execute
  simp only [execute, hfirst, hsecond]

theorem behindUnframed_index (hbig : 4 + (encodeBody big).length = 2 ^ 32)
    (hzero : big.offset = 0) (hone : rec.offset = 1) :
    (behindUnframed big rec).seg.index = [(0, 0), (1, UInt64.ofNat (2 ^ 32 + 4))] := by
  have hsize : ((newIndexedSegment 0 0).seg.appendRecord big).sizeBytes =
      UInt64.ofNat (2 ^ 32 + 4) := by
    rw [← unframed_length hbig, encodeAll, List.flatMap_singleton,
      ← Nat.zero_add (encodeRecord big).length]
    exact Segment.appendRecord_sizeBytes rfl
  have hbase : ((newIndexedSegment 0 0).seg.appendRecord big).baseOffset = 0 :=
    Segment.appendRecord_files_base
  have hevery : ((newIndexedSegment 0 0).seg.appendRecord big).indexIntervalBytes = 0 :=
    Segment.appendRecord_indexIntervalBytes
  change (((newIndexedSegment 0 0).seg.appendRecord big).appendRecord rec).index = _
  rw [appendRecord_index_every hevery, appendRecord_index_every rfl, hsize, hbase, hzero, hone]
  rfl

/-- The record behind the frame is found through the index only. -/
theorem behindUnframed_not_floorRead (hbig : 4 + (encodeBody big).length = 2 ^ 32)
    (hzero : big.offset = 0) (hone : rec.offset = 1) (hfits : rec.Fits) :
    ¬ (behindUnframed big rec).seg.FloorRead 1 := by
  intro h
  have hfind : (behindUnframed big rec).seg.findStartPositionBySearch 1 =
      UInt64.ofNat (2 ^ 32 + 4) := by
    unfold Segment.findStartPositionBySearch
    rw [behindUnframed_index hbig hzero hone]
    decide +kernel
  have hlog := behindUnframed_log big rec
  have hfound : (behindUnframed big rec).seg.readFrom (UInt64.ofNat (2 ^ 32 + 4)) = [rec] := by
    have hsplit : (behindUnframed big rec).seg.files.log = encodeAll [big] ++ encodeAll [rec] := by
      rw [hlog, ← encodeAll_append, List.singleton_append]
    apply Segment.readFrom_encodeAll hsplit
    · intro r hr
      rw [List.mem_singleton.mp hr]
      exact hfits.framed
    · rw [unframed_length hbig]
      exact UInt64.toNat_ofNat_of_lt' (by decide)
  have hnone : (behindUnframed big rec).seg.readFrom 0 = [] := readFrom_unframed hbig hlog
  have hagrees := h.agrees
  rw [hfind, Segment.recordsFrom, Segment.recordsFrom, hfound, hnone] at hagrees
  have hbase : (behindUnframed big rec).seg.baseOffset = 0 := Segment.append_files_base
  rw [hbase, List.filter_nil, List.filter_eq_nil_iff] at hagrees
  exact hagrees rec List.mem_cons_self (by rw [hone]; decide)

end Unframed

/-! ## Calls that are not made as they are meant -/

/-- The index file is cut inside its second entry and then appended to. -/
def loadedTwice : List SegmentEvent :=
  [.createEmpty, .append [sampleRecord 0 1, sampleRecord 1 2], .loadIndex 13,
    .append [sampleRecord 2 1], .loadIndex 25]

/-- The log file is not empty when it is created again. -/
def createdTwice : List SegmentEvent :=
  [.createEmpty, .append [sampleRecord 0 1], .createEmpty,
    .append [sampleRecord 1 2, sampleRecord 2 1]]

/-- A row of calls after which a read through the index and one without it give different
records. -/
theorem exists_not_floorRead {s : IndexedSegment} {events : List SegmentEvent}
    {relOffset : UInt32} {found all : List Record}
    (hend : (execute segmentStep s events).map
      (fun t => (t.seg.recordsFrom (t.seg.findStartPositionBySearch relOffset) relOffset,
        t.seg.recordsFrom 0 relOffset)) = some (found, all)) (hne : found ≠ all) :
    ∃ t, Run segmentStep s (trace segmentStep s events) t ∧ ¬ t.seg.FloorRead relOffset := by
  obtain ⟨t, run, hshown⟩ := run_showing hend
  obtain ⟨hfound, hall⟩ := Prod.mk.inj hshown
  refine ⟨t, run, ?_⟩
  intro h
  exact hne (hfound.symm.trans (h.agrees.trans hall))

/-- A frame of `2 ^ 32` bytes behind its length field. -/
def wideRecord : Record := sampleRecord 0 (2 ^ 32 - 29)

theorem sampleRecord_body_length (offset : UInt64) (valueBytes : Nat) :
    (encodeBody (sampleRecord offset valueBytes)).length = 25 + valueBytes := by
  rw [encodeBody_length]
  exact congrArg (24 + 1 + ·) List.length_replicate

theorem wideRecord_body_length : 4 + (encodeBody wideRecord).length = 2 ^ 32 := by
  rw [wideRecord, sampleRecord_body_length]
  rfl

theorem sparse_reads_disagree :
    (∃ t, Run segmentStep (newIndexedSegment 0 0)
        (trace segmentStep (newIndexedSegment 0 0) loadedTwice) t ∧ ¬ t.seg.FloorRead 0) ∧
      (∃ t, Run segmentStep (newIndexedSegment 0 0)
        (trace segmentStep (newIndexedSegment 0 0) createdTwice) t ∧ ¬ t.seg.FloorRead 2) ∧
      ∃ t, Run segmentStep (newIndexedSegment 0 0)
        (trace segmentStep (newIndexedSegment 0 0)
          [.append [wideRecord], .append [sampleRecord 1 1]]) t ∧ ¬ t.seg.FloorRead 1 := by
  have hloaded : (execute segmentStep (newIndexedSegment 0 0) loadedTwice).map
      (fun t => (t.seg.recordsFrom (t.seg.findStartPositionBySearch 0) 0,
        t.seg.recordsFrom 0 0)) =
      some ([], [sampleRecord 0 1, sampleRecord 1 2, sampleRecord 2 1]) := by
    decide +kernel
  have hcreated : (execute segmentStep (newIndexedSegment 0 0) createdTwice).map
      (fun t => (t.seg.recordsFrom (t.seg.findStartPositionBySearch 2) 2,
        t.seg.recordsFrom 0 2)) = some ([], [sampleRecord 2 1]) := by
    decide +kernel
  have hsmall : (sampleRecord 1 1).Fits := by decide
  refine ⟨exists_not_floorRead hloaded (by decide), exists_not_floorRead hcreated (by decide),
    behindUnframed wideRecord (sampleRecord 1 1), ?_, ?_⟩
  · exact behindUnframed_run wideRecord_body_length rfl rfl hsmall
  · exact behindUnframed_not_floorRead wideRecord_body_length rfl rfl hsmall

end MiniKafka.Storage
