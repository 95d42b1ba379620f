import MiniKafka.Storage.Record
import MiniKafka.Storage.ReplicaLog

/-!
# Segments

A `.log` file of framed records and its sparse `.index` file, with what `Segment`
keeps of them in memory. A segment holds a run of records when its log file is their
encoding and each index entry points at one of their frames.
-/

namespace MiniKafka.Storage

open Foundations Common

/-- The two files of a segment, named by its base offset. The index file may be missing. -/
structure SegmentFiles where
  baseOffset : UInt64
  log : Bytes := []
  index : Option Bytes := none
  deriving DecidableEq, Repr

structure Segment where
  files : SegmentFiles
  indexIntervalBytes : UInt32
  sizeBytes : UInt64 := 0
  bytesSinceLastIndexEntry : UInt64 := 0
  index : List (UInt32 × UInt64) := []
  deriving DecidableEq, Repr

/-- A file that cannot be opened reads as empty. -/
def readWholeFile (file : Option Bytes) : Bytes := file.getD []

def encodeIndexEntry (e : UInt32 × UInt64) : Bytes := putU32 e.1 ++ putU64 e.2

def decodeIndexEntry : Decode (UInt32 × UInt64) := do
  let relOffset ← getU32
  let pos ← getU64
  return (relOffset, pos)

namespace Segment

variable (seg : Segment)

def baseOffset : UInt64 := seg.files.baseOffset

/-- Both files are opened for appending, so they exist afterwards. -/
def createEmpty : Segment :=
  { seg with
    files.index := some (readWholeFile seg.files.index)
    sizeBytes := 0
    bytesSinceLastIndexEntry := 0
    index := [] }

def appendIndexEntry (relOffset : UInt32) (pos : UInt64) (persist : Bool) : Segment :=
  let seg := { seg with index := seg.index ++ [(relOffset, pos)] }
  if persist then
    let entry := encodeIndexEntry (relOffset, pos)
    { seg with files.index := some (readWholeFile seg.files.index ++ entry) }
  else seg

/-- The cadence of the index, in `append` and in `scan_and_recover` alike: an entry for
the first frame and then for one in every `indexIntervalBytes`. -/
def indexFrame (rec : Record) (pos : UInt64) (frameLen : Nat) : Segment :=
  let relOffset := (rec.offset - seg.baseOffset).toUInt32
  let seg :=
    if seg.index = [] ∨ seg.bytesSinceLastIndexEntry ≥ seg.indexIntervalBytes.toUInt64 then
      { seg.appendIndexEntry relOffset pos true with bytesSinceLastIndexEntry := 0 }
    else seg
  { seg with
    bytesSinceLastIndexEntry := seg.bytesSinceLastIndexEntry + UInt64.ofNat frameLen }

/-- The variables of the loop of `scan_and_recover`. -/
structure Scan where
  seg : Segment
  lastOffset : Int := -1
  lastGoodPos : Nat := 0

def Scan.frame (s : Scan) (framePos : Nat) (rec : Record) (endPos : Nat) : Scan where
  seg := s.seg.indexFrame rec (UInt64.ofNat framePos) (endPos - framePos)
  lastOffset := toI64 rec.offset
  lastGoodPos := endPos

/-- Both indexes are emptied before the loop. -/
def Scan.start : Scan where
  seg := { seg with index := [], bytesSinceLastIndexEntry := 0, files.index := some [] }

/-- The whole loop, before the log file is resized. -/
def scan : Scan := scanFrames decodeRecord Scan.frame (Scan.start seg) ⟨seg.files.log, 0⟩

def scanAndRecover : Segment × Int :=
  let s := seg.scan
  ({ s.seg with
      files.log := s.seg.files.log.take s.lastGoodPos
      sizeBytes := UInt64.ofNat s.lastGoodPos }, s.lastOffset)

/-- Entries are read while twelve bytes remain; the decoder fails on fewer. -/
def loadIndex : Segment :=
  { seg with
    index := readFrames decodeIndexEntry ⟨readWholeFile seg.files.index, 0⟩
    sizeBytes := UInt64.ofNat seg.files.log.length
    bytesSinceLastIndexEntry := 0 }

def appendRecord (rec : Record) : Segment :=
  let encoded := encodeRecord rec
  let seg := seg.indexFrame rec seg.sizeBytes encoded.length
  { seg with
    files.log := seg.files.log ++ encoded
    sizeBytes := seg.sizeBytes + UInt64.ofNat encoded.length }

def append (records : List Record) : Segment := records.foldl appendRecord seg

def readFrom (fromPos : UInt64) : List Record :=
  let data := seg.files.log
  if fromPos.toNat ≥ data.length then []
  else readFrames decodeRecord ⟨data.drop fromPos.toNat, 0⟩

/-- The last entry whose offset is not above `relOffset`. -/
def findStartPosition (relOffset : UInt32) : UInt64 :=
  match (seg.index.takeWhile fun e => e.1 ≤ relOffset).getLast? with
  | some e => e.2
  | none => 0

end Segment

/-! ## What a segment holds -/

def Record.entry (rec : Record) : LogEntry :=
  ⟨rec.offset.toNat, rec.timestamp, rec.key, rec.value⟩

/-- The records carry consecutive offsets from `n` on, and each fits its frame. -/
structure Numbered (n : Nat) (records : List Record) : Prop where
  contiguous : Contiguous n (records.map Record.entry)
  fits : ∀ rec ∈ records, rec.Fits

/-- Each entry is the place of a frame in the run, cut to the widths of the index. -/
def IndexOf (records : List Record) (index : List (UInt32 × UInt64)) : Prop :=
  ∀ e ∈ index, ∃ k ≤ records.length,
    e = (UInt32.ofNat k, UInt64.ofNat (encodeAll (records.take k)).length)

abbrev encodeIndex (index : List (UInt32 × UInt64)) : Bytes := index.flatMap encodeIndexEntry

theorem encodeIndex_snoc (index : List (UInt32 × UInt64)) (e : UInt32 × UInt64) :
    encodeIndex (index ++ [e]) = encodeIndex index ++ encodeIndexEntry e := by
  simp

/-- The files of a segment that is never scanned again. -/
structure SegmentFiles.Sealed (n : Nat) (f : SegmentFiles) (records : List Record) : Prop where
  base : f.baseOffset.toNat = n
  log : f.log = encodeAll records
  numbered : Numbered n records
  index : ∃ index, IndexOf records index ∧ readWholeFile f.index = encodeIndex index

/-- The files of a segment whose scan gives `records`. -/
structure SegmentFiles.Recoverable (n : Nat) (f : SegmentFiles) (records : List Record) :
    Prop where
  base : f.baseOffset.toNat = n
  log : ∃ tail, f.log = encodeAll records ++ tail ∧ Stuck decodeRecord tail
  numbered : Numbered n records

/-- The index in memory is one of the records, and the index file is its encoding. -/
structure Segment.Indexes (seg : Segment) (records : List Record) : Prop where
  index : IndexOf records seg.index
  persisted : readWholeFile seg.files.index = encodeIndex seg.index

structure Segment.Holds (n : Nat) (seg : Segment) (records : List Record) : Prop where
  base : seg.baseOffset.toNat = n
  log : seg.files.log = encodeAll records
  numbered : Numbered n records
  size : seg.sizeBytes = UInt64.ofNat (encodeAll records).length
  indexes : seg.Indexes records

section Numbered

variable {n : Nat} {records more : List Record} {rec : Record}

@[simp] theorem numbered_nil : Numbered n [] := ⟨trivial, by simp⟩

theorem numbered_append :
    Numbered n (records ++ more) ↔ Numbered n records ∧ Numbered (n + records.length) more := by
  constructor
  · intro h
    have hc := h.contiguous
    rw [List.map_append, contiguous_append, List.length_map] at hc
    exact ⟨⟨hc.1, fun rec hrec => h.fits rec (List.mem_append_left _ hrec)⟩,
      ⟨hc.2, fun rec hrec => h.fits rec (List.mem_append_right _ hrec)⟩⟩
  · rintro ⟨h, hmore⟩
    refine ⟨?_, fun rec hrec => ?_⟩
    · rw [List.map_append, contiguous_append, List.length_map]
      exact ⟨h.contiguous, hmore.contiguous⟩
    · exact (List.mem_append.mp hrec).elim (h.fits rec) (hmore.fits rec)

theorem Numbered.part (h : Numbered n records) (hp : more <+: records) :
    Numbered n more := by
  obtain ⟨rest, rfl⟩ := hp
  exact (numbered_append.mp h).1

theorem Numbered.delimits (h : Numbered n records) :
    ∀ rec ∈ records, Delimits decodeRecord (encodeRecord rec) rec :=
  fun rec hrec => decodeRecord_delimits (h.fits rec hrec).framed

theorem numbered_cons :
    Numbered n (rec :: more) ↔
      rec.offset.toNat = n ∧ rec.Fits ∧ Numbered (n + 1) more := by
  constructor
  · intro h
    exact ⟨h.contiguous.1, h.fits rec List.mem_cons_self,
      h.contiguous.2, fun r hr => h.fits r (List.mem_cons_of_mem _ hr)⟩
  · rintro ⟨hoff, hfit, hmore⟩
    refine ⟨⟨hoff, hmore.contiguous⟩, fun r hr => ?_⟩
    rcases List.mem_cons.mp hr with rfl | hr
    · exact hfit
    · exact hmore.fits r hr

end Numbered

section IndexOf

variable {records more : List Record} {index : List (UInt32 × UInt64)}

@[simp] theorem indexOf_nil : IndexOf records [] := by simp [IndexOf]

theorem IndexOf.extend (h : IndexOf records index) (more : List Record) :
    IndexOf (records ++ more) index := by
  intro e he
  obtain ⟨k, hk, rfl⟩ := h e he
  refine ⟨k, by rw [List.length_append]; omega, ?_⟩
  rw [List.take_append_of_le_length hk]

/-- An entry for the frame that comes next. -/
theorem IndexOf.snoc (h : IndexOf records index) (more : List Record) :
    IndexOf (records ++ more) (index ++
      [(UInt32.ofNat records.length, UInt64.ofNat (encodeAll records).length)]) := by
  intro e he
  rcases List.mem_append.mp he with he | he
  · exact h.extend more e he
  · obtain rfl := List.mem_singleton.mp he
    exact ⟨records.length, by simp, by simp⟩

theorem decodeIndexEntry_delimits (e : UInt32 × UInt64) :
    Delimits decodeIndexEntry (encodeIndexEntry e) e := by
  refine (getU32_delimits e.1).bind ?_
  rw [← List.append_nil (putU64 e.2)]
  exact (getU64_delimits e.2).bind (Delimits.pure rfl)

end IndexOf

namespace Segment

variable {seg : Segment} {n : Nat} {records more : List Record} {rec : Record} {pos : UInt64}
  {frameLen : Nat}

@[simp] theorem indexFrame_log :
    (seg.indexFrame rec pos frameLen).files.log = seg.files.log := by
  unfold indexFrame appendIndexEntry
  split <;> rfl

@[simp] theorem indexFrame_baseOffset :
    (seg.indexFrame rec pos frameLen).baseOffset = seg.baseOffset := by
  unfold indexFrame appendIndexEntry
  split <;> rfl

@[simp] theorem indexFrame_sizeBytes :
    (seg.indexFrame rec pos frameLen).sizeBytes = seg.sizeBytes := by
  unfold indexFrame appendIndexEntry
  split <;> rfl

@[simp] theorem indexFrame_indexIntervalBytes :
    (seg.indexFrame rec pos frameLen).indexIntervalBytes = seg.indexIntervalBytes := by
  unfold indexFrame appendIndexEntry
  split <;> rfl

/-- The segment with another log file and size. -/
def onFile (seg : Segment) (log : Bytes) (sizeBytes : UInt64) : Segment :=
  { seg with files.log := log, sizeBytes := sizeBytes }

/-- The index does not depend on what is in the log file. -/
theorem indexFrame_onFile (log : Bytes) (sizeBytes : UInt64) :
    (seg.onFile log sizeBytes).indexFrame rec pos frameLen =
      (seg.indexFrame rec pos frameLen).onFile log sizeBytes := by
  by_cases h : seg.index = [] ∨
      seg.bytesSinceLastIndexEntry ≥ seg.indexIntervalBytes.toUInt64
  · have h' : (seg.onFile log sizeBytes).index = [] ∨
        (seg.onFile log sizeBytes).bytesSinceLastIndexEntry ≥
          (seg.onFile log sizeBytes).indexIntervalBytes.toUInt64 := h
    simp only [indexFrame, if_pos h, if_pos h']
    rfl
  · have h' : ¬((seg.onFile log sizeBytes).index = [] ∨
        (seg.onFile log sizeBytes).bytesSinceLastIndexEntry ≥
          (seg.onFile log sizeBytes).indexIntervalBytes.toUInt64) := h
    simp only [indexFrame, if_neg h, if_neg h']
    rfl

/-- A frame adds one entry, to the index and to its file, or none. -/
theorem indexFrame_cases (seg : Segment) (rec : Record) (pos : UInt64) (frameLen : Nat) :
    ((seg.indexFrame rec pos frameLen).index = seg.index ∧
      (seg.indexFrame rec pos frameLen).files.index = seg.files.index) ∨
    ((seg.indexFrame rec pos frameLen).index =
        seg.index ++ [((rec.offset - seg.baseOffset).toUInt32, pos)] ∧
      (seg.indexFrame rec pos frameLen).files.index =
        some (readWholeFile seg.files.index ++
          encodeIndexEntry ((rec.offset - seg.baseOffset).toUInt32, pos))) := by
  unfold indexFrame appendIndexEntry
  split
  · exact .inr ⟨rfl, rfl⟩
  · exact .inl ⟨rfl, rfl⟩

theorem Indexes.indexFrame (h : seg.Indexes records) (frameLen : Nat)
    (hoff : rec.offset.toNat = seg.baseOffset.toNat + records.length)
    (hpos : pos = UInt64.ofNat (encodeAll records).length) (more : List Record) :
    (seg.indexFrame rec pos frameLen).Indexes (records ++ more) := by
  subst hpos
  rcases indexFrame_cases seg rec (UInt64.ofNat (encodeAll records).length) frameLen with
    ⟨hindex, hfile⟩ | ⟨hindex, hfile⟩
  · exact ⟨hindex ▸ h.index.extend more, by rw [hindex, hfile, h.persisted]⟩
  · rw [sub_toUInt32 hoff] at hindex hfile
    refine ⟨hindex ▸ h.index.snoc more, ?_⟩
    rw [hindex, hfile, encodeIndex_snoc, ← h.persisted]
    rfl

/-! ### Appending -/

@[simp] theorem appendRecord_files_base :
    (seg.appendRecord rec).files.baseOffset = seg.files.baseOffset :=
  indexFrame_baseOffset

@[simp] theorem appendRecord_indexIntervalBytes :
    (seg.appendRecord rec).indexIntervalBytes = seg.indexIntervalBytes :=
  @indexFrame_indexIntervalBytes seg rec seg.sizeBytes (encodeRecord rec).length

@[simp] theorem appendRecord_log :
    (seg.appendRecord rec).files.log = seg.files.log ++ encodeRecord rec := by
  change (seg.indexFrame rec _ _).files.log ++ encodeRecord rec = _
  rw [indexFrame_log]

theorem appendRecord_sizeBytes {size : Nat} (h : seg.sizeBytes = UInt64.ofNat size) :
    (seg.appendRecord rec).sizeBytes = UInt64.ofNat (size + (encodeRecord rec).length) := by
  change (seg.indexFrame rec _ _).sizeBytes + UInt64.ofNat (encodeRecord rec).length = _
  rw [indexFrame_sizeBytes, h, UInt64.ofNat_add]

theorem Holds.appendRecord (h : seg.Holds n records)
    (hrec : Numbered (n + records.length) [rec]) :
    (seg.appendRecord rec).Holds n (records ++ [rec]) where
  base := (congrArg UInt64.toNat appendRecord_files_base).trans h.base
  log := by
    rw [appendRecord_log, h.log]
    simp
  numbered := numbered_append.mpr ⟨h.numbered, hrec⟩
  size := by
    rw [appendRecord_sizeBytes h.size]
    simp
  indexes := by
    have hoff : rec.offset.toNat = seg.baseOffset.toNat + records.length := by
      rw [h.base]
      exact (numbered_cons.mp hrec).1
    have hix := h.indexes.indexFrame (encodeRecord rec).length hoff h.size [rec]
    exact ⟨hix.index, hix.persisted⟩

theorem Holds.append (h : seg.Holds n records) (hmore : Numbered (n + records.length) more) :
    (seg.append more).Holds n (records ++ more) := by
  induction more generalizing seg records with
  | nil => simpa [Segment.append] using h
  | cons rec rest ih =>
      have hsplit : records ++ rec :: rest = (records ++ [rec]) ++ rest := by simp
      rw [← List.singleton_append, numbered_append] at hmore
      have hnext := h.appendRecord hmore.1
      rw [hsplit]
      refine ih hnext ?_
      rw [List.length_append, ← Nat.add_assoc]
      exact hmore.2

@[simp] theorem append_files_base :
    (seg.append more).files.baseOffset = seg.files.baseOffset := by
  induction more generalizing seg with
  | nil => rfl
  | cons rec rest ih => exact ih.trans appendRecord_files_base

/-! ### Opening -/

theorem Holds.sealed (h : seg.Holds n records) : seg.files.Sealed n records where
  base := h.base
  log := h.log
  numbered := h.numbered
  index := ⟨seg.index, h.indexes.index, h.indexes.persisted⟩

theorem decodeIndexEntry_consuming : Consuming decodeIndexEntry :=
  getU32_consuming.bind fun _ => getU64_advancing.bind fun _ => Advancing.pure _

/-- A sealed segment that is opened again holds its records. -/
theorem loadIndex_holds (seg : Segment) (h : seg.files.Sealed n records) :
    seg.loadIndex.Holds n records where
  base := h.base
  log := h.log
  numbered := h.numbered
  size := by
    change UInt64.ofNat seg.files.log.length = _
    rw [h.log]
  indexes := by
    obtain ⟨index, hindex, hfile⟩ := h.index
    have hload : seg.loadIndex.index = index := by
      have hread := readFrames_stream decodeIndexEntry_consuming
        (fun e (_ : e ∈ index) => decodeIndexEntry_delimits e) (.inl rfl)
      rw [List.append_nil, ← encodeIndex, ← hfile] at hread
      exact hread
    exact ⟨by rw [hload]; exact hindex, by rw [hload]; exact hfile⟩

/-- The scan itself does not touch the log file. -/
theorem scan_log (seg : Segment) : seg.scan.seg.files.log = seg.files.log :=
  scanFrames_invariant (P := fun s : Scan => s.seg.files.log = seg.files.log) rfl
    (fun _ _ _ _ h => indexFrame_log.trans h) _

/-- What the scan has done after `done`. -/
structure ScanOf (n : Nat) (done : List Record) (s : Scan) : Prop where
  base : s.seg.baseOffset.toNat = n
  indexes : s.seg.Indexes done
  pos : s.lastGoodPos = (encodeAll done).length
  last : s.lastOffset = if done = [] then -1 else ((n + done.length : Nat) : Int) - 1

theorem scan_scanOf (h : seg.files.Recoverable n records) (hlt : n + records.length < 2 ^ 63) :
    ScanOf n records seg.scan := by
  obtain ⟨tail, hlog, htail⟩ := h.log
  have hscan := scanFrames_stream decodeRecord_consuming (f := Scan.frame)
    h.numbered.delimits htail (Scan.start seg) 0
  rw [← hlog] at hscan
  rw [scan, hscan]
  refine foldStream_rule ⟨h.base, ⟨indexOf_nil, rfl⟩, rfl, rfl⟩ ?_
  intro done rec s hdone hs
  have hnum := numbered_append.mp (h.numbered.part hdone)
  have hoff := (numbered_cons.mp hnum.2).1
  have hlen := hdone.length_le
  rw [List.length_append, List.length_singleton] at hlen
  constructor
  · exact (congrArg UInt64.toNat indexFrame_baseOffset).trans hs.base
  · exact hs.indexes.indexFrame _ (by rw [hs.base, hoff]) rfl [rec]
  · rfl
  · rw [if_neg (by simp)]
    change toI64 rec.offset = _
    rw [toI64_of_lt (by omega), hoff, List.length_append, List.length_singleton]
    omega

theorem scanAndRecover_holds (seg : Segment) (h : seg.files.Recoverable n records)
    (hlt : n + records.length < 2 ^ 63) : seg.scanAndRecover.1.Holds n records where
  base := (scan_scanOf h hlt).base
  log := by
    have hs := scan_scanOf h hlt
    obtain ⟨tail, hlog, -⟩ := h.log
    change seg.scan.seg.files.log.take seg.scan.lastGoodPos = _
    rw [scan_log, hs.pos, hlog, List.take_left]
  numbered := h.numbered
  size := by
    change UInt64.ofNat seg.scan.lastGoodPos = _
    rw [(scan_scanOf h hlt).pos]
  indexes := ⟨(scan_scanOf h hlt).indexes.index, (scan_scanOf h hlt).indexes.persisted⟩

theorem scanAndRecover_last (seg : Segment) (h : seg.files.Recoverable n records)
    (hlt : n + records.length < 2 ^ 63) :
    seg.scanAndRecover.2 =
      if records = [] then -1 else ((n + records.length : Nat) : Int) - 1 :=
  (scan_scanOf h hlt).last

/-! ### Reading -/

/-- A read from the place where a frame starts gives the records from there on. -/
theorem readFrom_encodeAll (hlog : seg.files.log = encodeAll records ++ encodeAll more)
    (hframed : ∀ rec ∈ more, rec.Framed) (hpos : pos.toNat = (encodeAll records).length) :
    seg.readFrom pos = more := by
  have hdrop : seg.files.log.drop pos.toNat = encodeAll more := by
    rw [hlog, hpos, List.drop_left]
  have hread : readFrames decodeRecord ⟨seg.files.log.drop pos.toNat, 0⟩ = more := by
    have hstream := readFrames_stream decodeRecord_consuming
      (fun rec hrec => decodeRecord_delimits (hframed rec hrec)) (.inl rfl)
    rwa [List.append_nil, ← encodeAll, ← hdrop] at hstream
  rw [Segment.readFrom]
  split
  · next hend =>
      rw [← hread, List.drop_eq_nil_of_le hend]
      rfl
  · exact hread

/-- A read from the place of frame `k` gives the records from there on. -/
theorem Holds.readFrom (h : seg.Holds n records) {k : Nat}
    (hpos : pos.toNat = (encodeAll (records.take k)).length) :
    seg.readFrom pos = records.drop k := by
  have hsplit : seg.files.log = encodeAll (records.take k) ++ encodeAll (records.drop k) := by
    rw [h.log, ← encodeAll_append, List.take_append_drop]
  exact readFrom_encodeAll hsplit
    (fun rec hrec => (h.numbered.fits rec (List.mem_of_mem_drop hrec)).framed) hpos

/-- The whole segment reads as the records it holds. -/
theorem Holds.readFrom_zero (h : seg.Holds n records) : seg.readFrom 0 = records :=
  h.readFrom (k := 0) rfl

/-- A lookup answers the start of the file, or an entry that is not after the one looked
for. -/
theorem findStartPosition_cases (relOffset : UInt32) :
    seg.findStartPosition relOffset = 0 ∨
      ∃ e ∈ seg.index, e.1 ≤ relOffset ∧ seg.findStartPosition relOffset = e.2 := by
  unfold Segment.findStartPosition
  cases hlast : (seg.index.takeWhile fun e => e.1 ≤ relOffset).getLast? with
  | none => exact .inl rfl
  | some e =>
      have hmem := List.mem_of_getLast? hlast
      have hle := List.mem_takeWhile_imp hmem
      exact .inr ⟨e, (List.takeWhile_prefix _).subset hmem, of_decide_eq_true hle, rfl⟩

/-- In a segment that the index can count, a lookup finds the place of a frame that is
not after the one looked for. -/
theorem Holds.findStartPosition (h : seg.Holds n records) (hlen : records.length < 2 ^ 32)
    (hsize : (encodeAll records).length < 2 ^ 64) (relOffset : UInt32) :
    ∃ k ≤ relOffset.toNat, k ≤ records.length ∧
      (seg.findStartPosition relOffset).toNat = (encodeAll (records.take k)).length := by
  rcases findStartPosition_cases relOffset with hstart | ⟨e, hmem, hle, hstart⟩ <;>
    rw [hstart]
  · exact ⟨0, Nat.zero_le _, Nat.zero_le _, rfl⟩
  · obtain ⟨k, hk, rfl⟩ := h.indexes.index e hmem
    have hlt := Nat.lt_of_le_of_lt (encodeAll_take_le records k) hsize
    refine ⟨k, ?_, hk, UInt64.toNat_ofNat_of_lt' hlt⟩
    have hle' := UInt32.le_iff_toNat_le.mp hle
    rwa [UInt32.toNat_ofNat_of_lt' (Nat.lt_of_le_of_lt hk hlen)] at hle'

end Segment

end MiniKafka.Storage
