import MiniKafka.Foundations.LocalDecoder
import MiniKafka.Storage.Partition

/-!
# What the recovery scan keeps

On any log file the scan keeps the longest part that is a row of frames, and a second scan
changes nothing. Where this part is the encoding of some records, the segment is the one
that appending them to an empty segment makes, whatever the batches were.
-/

namespace MiniKafka.Storage

open Foundations Common

section Local

theorem getRaw_local (n : Nat) : Local (getRaw n) := by
  intro r b next h
  rw [getRaw_run] at h
  split at h
  · cases h
  · next hlen =>
      obtain ⟨rfl, rfl⟩ := Prod.mk.inj (Except.ok.inj h)
      have htake : (r.rest.take n).length = n :=
        List.length_take_of_le (Nat.le_of_not_lt hlen)
      refine ⟨r.rest.take n, (List.take_append_drop n r.rest).symm, ?_⟩
      have hreads := (getRaw_delimits (r.rest.take n)).reads
      rw [htake] at hreads
      intro rest pos
      rw [htake]
      exact hreads rest pos

theorem getU32_local : Local getU32 :=
  (getRaw_local 4).bind fun _ => .pure _

theorem onFrame_local (frame : Bytes) : Local (onFrame frame) := by
  intro r rec next h
  rw [onFrame_run] at h
  cases hrun : decodeFrame.run ⟨frame, 0⟩ with
  | error e =>
      rw [hrun] at h
      cases h
  | ok read =>
      rw [hrun] at h
      obtain ⟨rfl, rfl⟩ := Prod.mk.inj (Except.ok.inj h)
      refine ⟨[], rfl, ?_⟩
      intro rest pos
      rw [onFrame_run, hrun]
      rfl

theorem decodeRecord_local : Local decodeRecord :=
  getU32_local.bind fun totalLen => (getRaw_local totalLen.toNat).bind onFrame_local

end Local

namespace Segment

variable {seg : Segment} {records : List Record} {frames : List (Bytes × Record)}
  {tail : Bytes}

/-- The loop over the frames of the log file. -/
theorem scan_frames (hlog : seg.files.log = frames.flatMap Prod.fst ++ tail)
    (hframes : AllRead decodeRecord frames) (htail : Stuck decodeRecord tail) :
    seg.scan = foldStream Prod.fst
      (fun s framePos frame endPos => Scan.frame s framePos frame.2 endPos) (Scan.start seg) 0
      frames := by
  rw [scan, hlog]
  exact scanFrames_frames decodeRecord_consuming hframes htail (Scan.start seg) 0

theorem scan_lastGoodPos (hlog : seg.files.log = frames.flatMap Prod.fst ++ tail)
    (hframes : AllRead decodeRecord frames) (htail : Stuck decodeRecord tail) :
    seg.scan.lastGoodPos = (frames.flatMap Prod.fst).length := by
  rw [scan_frames hlog hframes htail]
  exact foldStream_rule
    (P := fun done (s : Scan) => s.lastGoodPos = (done.flatMap Prod.fst).length) rfl
    fun done frame s _ _ => rfl

/-- What no frame changes. -/
theorem scan_same (seg : Segment) : seg.scan.seg.baseOffset = seg.baseOffset ∧
    seg.scan.seg.indexIntervalBytes = seg.indexIntervalBytes := by
  apply scanFrames_invariant
    (P := fun s : Scan => s.seg.baseOffset = seg.baseOffset ∧
      s.seg.indexIntervalBytes = seg.indexIntervalBytes) ⟨rfl, rfl⟩
  rintro s pos rec next ⟨hbase, hinterval⟩
  exact ⟨indexFrame_baseOffset.trans hbase, indexFrame_indexIntervalBytes.trans hinterval⟩

/-- The scan keeps the frames, and the state of the loop goes on with the cut file. -/
theorem scanAndRecover_frames (hlog : seg.files.log = frames.flatMap Prod.fst ++ tail)
    (hframes : AllRead decodeRecord frames) (htail : Stuck decodeRecord tail) :
    seg.scanAndRecover = (seg.scan.seg.onFile (frames.flatMap Prod.fst)
      (UInt64.ofNat (frames.flatMap Prod.fst).length), seg.scan.lastOffset) := by
  have hkept : seg.scan.seg.files.log.take seg.scan.lastGoodPos = frames.flatMap Prod.fst := by
    rw [scan_log, scan_lastGoodPos hlog hframes htail, hlog, List.take_left]
  rw [scan_lastGoodPos hlog hframes htail] at hkept
  simp only [scanAndRecover, scan_lastGoodPos hlog hframes htail, hkept]
  rfl

def Scan.onFile (s : Scan) (log : Bytes) (sizeBytes : UInt64) : Scan :=
  { s with seg := s.seg.onFile log sizeBytes }

theorem Scan.frame_onFile (s : Scan) (log : Bytes) (sizeBytes : UInt64) (framePos : Nat)
    (rec : Record) (endPos : Nat) :
    (s.onFile log sizeBytes).frame framePos rec endPos =
      (s.frame framePos rec endPos).onFile log sizeBytes := by
  simp only [Scan.frame, Scan.onFile, indexFrame_onFile]

/-- The second scan goes through the same frames. -/
theorem scanAndRecover_again (seg : Segment) :
    seg.scanAndRecover.1.scanAndRecover = seg.scanAndRecover := by
  obtain ⟨frames, tail, hframes, htail, hlog⟩ :=
    exists_frames decodeRecord_consuming decodeRecord_local seg.files.log
  rw [scanAndRecover_frames hlog hframes htail]
  generalize hkept : frames.flatMap Prod.fst = kept
  have hstart : Scan.start (seg.scan.seg.onFile kept (UInt64.ofNat kept.length)) =
      (Scan.start seg).onFile kept (UInt64.ofNat kept.length) := by
    obtain ⟨hbase, hinterval⟩ := scan_same seg
    have hbase : seg.scan.seg.files.baseOffset = seg.files.baseOffset := hbase
    simp only [Scan.start, Scan.onFile, Segment.onFile, hbase, hinterval]
  have hagain : (seg.scan.seg.onFile kept (UInt64.ofNat kept.length)).files.log =
      frames.flatMap Prod.fst ++ [] := by
    rw [List.append_nil, hkept]
    rfl
  have hscan : (seg.scan.seg.onFile kept (UInt64.ofNat kept.length)).scan =
      seg.scan.onFile kept (UInt64.ofNat kept.length) := by
    rw [scan_frames hagain hframes (.inl rfl), hstart, scan_frames hlog hframes htail]
    apply foldStream_map (g := fun s : Scan => s.onFile kept (UInt64.ofNat kept.length))
    intro s framePos frame endPos
    exact s.frame_onFile kept _ framePos frame.2 endPos
  rw [scanAndRecover_frames hagain hframes (.inl rfl), hscan, hkept]
  rfl

/-- A segment with the same base and interval whose files were just created. -/
def fresh (seg : Segment) : Segment :=
  { files := { baseOffset := seg.baseOffset }
    indexIntervalBytes := seg.indexIntervalBytes : Segment }.createEmpty

theorem append_snoc (seg : Segment) (records : List Record) (rec : Record) :
    seg.append (records ++ [rec]) = (seg.append records).appendRecord rec := by
  simp [Segment.append]

/-- After some records the scan has built the index that appending them builds. -/
structure BuiltAs (base : Segment) (done : List Record) (s : Scan) : Prop where
  seg : s.seg.onFile (encodeAll done) (UInt64.ofNat (encodeAll done).length) = base.append done
  last : s.lastOffset = (done.getLast?.map fun rec => toI64 rec.offset).getD (-1)

theorem BuiltAs.frame {base : Segment} {done : List Record} {s : Scan} (h : BuiltAs base done s)
    (rec : Record) : BuiltAs base (done ++ [rec])
      (s.frame (encodeAll done).length rec (encodeAll (done ++ [rec])).length) where
  seg := by
    have hlen : (encodeAll (done ++ [rec])).length - (encodeAll done).length =
        (encodeRecord rec).length := by
      simp
    have hbytes : encodeAll (done ++ [rec]) = encodeAll done ++ encodeRecord rec := by simp
    change (s.seg.indexFrame rec (UInt64.ofNat (encodeAll done).length) _).onFile _ _ = _
    rw [hlen, append_snoc, ← h.seg, hbytes, List.length_append, UInt64.ofNat_add]
    simp only [appendRecord, indexFrame_onFile]
    rfl
  last := by
    simp [Scan.frame]

/-- The scan of a file that starts with the encoding of some records. -/
theorem scan_builtAs (hlog : seg.files.log = encodeAll records ++ tail)
    (hframed : ∀ rec ∈ records, rec.Framed) (htail : Stuck decodeRecord tail) :
    BuiltAs (fresh seg) records seg.scan := by
  have hscan := scanFrames_stream decodeRecord_consuming (f := Scan.frame)
    (fun rec hrec => decodeRecord_delimits (hframed rec hrec)) htail (Scan.start seg) 0
  rw [scan, hlog, hscan]
  apply foldStream_rule (P := BuiltAs (fresh seg))
  · exact ⟨rfl, rfl⟩
  · intro done rec s _ h
    exact h.frame rec

end Segment

/-- Recovery keeps exactly the longest valid part of the log file and is done after one
scan. Where this part is the encoding of records, it answers the last offset and leaves the
segment that appending the records in any batches to an empty one makes. -/
theorem recovery_keeps_longest (seg : Segment) :
    LongestFramed decodeRecord seg.files.log seg.scanAndRecover.1.files.log ∧
    seg.scanAndRecover.1.scanAndRecover = seg.scanAndRecover ∧
    ∀ (records : List Record) (batches : List (List Record)),
      seg.scanAndRecover.1.files.log = encodeAll records →
      (∀ rec ∈ records, rec.Framed ∧ rec.offset.toNat < 2 ^ 63) → batches.flatten = records →
      seg.scanAndRecover.2 =
          (records.getLast?.map fun rec => (rec.offset.toNat : Int)).getD (-1) ∧
        seg.scanAndRecover.1 = batches.foldl Segment.append seg.fresh := by
  obtain ⟨frames, tail, hframes, htail, hlog⟩ :=
    exists_frames decodeRecord_consuming decodeRecord_local seg.files.log
  have hrecover := Segment.scanAndRecover_frames hlog hframes htail
  have hkept : seg.scanAndRecover.1.files.log = frames.flatMap Prod.fst := by
    rw [hrecover]
    rfl
  refine ⟨?_, seg.scanAndRecover_again, ?_⟩
  · rw [hkept, hlog]
    exact longestFramed_frames decodeRecord_consuming hframes htail
  · intro records batches hrecords hvalid hbatches
    rw [hkept] at hrecords
    rw [hrecords] at hlog hrecover
    have hbuilt := Segment.scan_builtAs hlog (fun rec hrec => (hvalid rec hrec).1) htail
    rw [hrecover]
    constructor
    · change seg.scan.lastOffset = _
      rw [hbuilt.last]
      cases hlast : records.getLast? with
      | none => rfl
      | some rec => exact toI64_of_lt (hvalid rec (List.mem_of_getLast? hlast)).2
    · change seg.scan.seg.onFile _ _ = _
      rw [hbuilt.seg, ← hbatches]
      exact List.foldl_flatten

/-- One whole frame and the start of another. -/
def tornSegment : Segment :=
  openSegment { baseOffset := 5, log := encodeRecord { offset := 5, key := [1], value := [10] } ++
    [0, 0, 0, 40, 7] }

theorem recovery_keeps_longest_torn :
    tornSegment.scanAndRecover.2 = 5 ∧ tornSegment.scanAndRecover.1 =
      tornSegment.fresh.append [{ offset := 5, key := [1], value := [10] }] := by
  have hkept : tornSegment.scanAndRecover.1.files.log =
      encodeAll [{ offset := 5, key := [1], value := [10] }] := by decide +kernel
  have hvalid : ∀ rec ∈ [({ offset := 5, key := [1], value := [10] } : Record)],
      rec.Framed ∧ rec.offset.toNat < 2 ^ 63 := by
    intro rec hrec
    obtain rfl := List.mem_singleton.mp hrec
    rw [Record.framed_iff]
    decide
  exact (recovery_keeps_longest tornSegment).2.2 _ [[{ offset := 5, key := [1], value := [10] }]]
    hkept hvalid rfl

end MiniKafka.Storage
