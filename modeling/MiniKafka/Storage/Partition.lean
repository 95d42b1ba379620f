import MiniKafka.Storage.Segment
import MiniKafka.Foundations.Segmented
import Mathlib.Data.List.Sort

/-!
# Partitions

The segments of a partition with its next offset and high watermark, the directory
they are kept in, and what a crash at any point of a write leaves there.
-/

namespace MiniKafka.Storage

open Foundations Common

def kIndexIntervalBytes : UInt32 := 4096

/-- `segments_` is never empty once `recover` was called, so its last one is a field. -/
structure Partition where
  maxSegBytes : UInt32
  closed : List Segment := []
  active : Segment
  nextOffset : UInt64
  hwm : Int
  deriving DecidableEq, Repr

/-- The files of a partition's directory, in the order in which they are listed. -/
abbrev Directory := List SegmentFiles

def openSegment (files : SegmentFiles) : Segment where
  files := files
  indexIntervalBytes := kIndexIntervalBytes

/-- The segment `roll_segment` makes. Its base offset is a new one, so are its files. -/
def freshSegment (baseOffset : UInt64) : Segment :=
  (openSegment { baseOffset := baseOffset }).createEmpty

/-- The loop of `append` over the records: their offsets and time, and the next offset. -/
def assignOffsets (ts : UInt64) : UInt64 → List Record → List Record × UInt64
  | nextOffset, [] => ([], nextOffset)
  | nextOffset, rec :: rest =>
      let (records, last) := assignOffsets ts (nextOffset + 1) rest
      ({ rec with offset := nextOffset, timestamp := ts } :: records, last)

namespace Partition

variable (p : Partition)

def segments : List Segment := p.closed ++ [p.active]

def directory : Directory := p.segments.map Segment.files

def logEndOffset : Int := toI64 p.nextOffset

def setHighWatermark (hwm : Int) : Partition := { p with hwm := hwm }

def rollSegment (baseOffset : UInt64) : Partition :=
  { p with
    closed := p.closed ++ [p.active]
    active := freshSegment baseOffset }

/-- Both appends roll first if the active segment has reached `maxSegBytes`. -/
def mustRoll : Bool := p.active.sizeBytes ≥ p.maxSegBytes.toUInt64

def rolled : Partition := if p.mustRoll then p.rollSegment p.nextOffset else p

def append (records : List Record) (now : UInt64) : Partition × Int :=
  if records = [] then (p, toI64 p.nextOffset)
  else
    let p := p.rolled
    let base := toI64 p.nextOffset
    let (records, nextOffset) := assignOffsets now p.nextOffset records
    ({ p with
        active := p.active.append records
        nextOffset := nextOffset
        hwm := toI64 nextOffset }, base)

def appendReplicated (records : List Record) : Partition :=
  match records.getLast? with
  | none => p
  | some last =>
      let p := p.rolled
      { p with
        active := p.active.append records
        nextOffset := last.offset + 1 }

/-- The records of the partition, read from its files. -/
def records : List Record := p.segments.flatMap fun seg => seg.readFrom 0

end Partition

def SegmentFiles.notAfter (f g : SegmentFiles) : Prop := f.baseOffset ≤ g.baseOffset

instance : DecidableRel SegmentFiles.notAfter :=
  fun f g => inferInstanceAs (Decidable (f.baseOffset ≤ g.baseOffset))

/-- The base offsets are sorted after the directory was listed. -/
def sortDirectory (listing : Directory) : Directory :=
  listing.insertionSort SegmentFiles.notAfter

/-- `recover` on a directory that is listed in any order. -/
def Partition.recover (maxSegBytes : UInt32) (listing : Directory) : Partition :=
  let files := sortDirectory listing
  match files.getLast? with
  | none =>
      { maxSegBytes := maxSegBytes, active := freshSegment 0, nextOffset := 0, hwm := 0 }
  | some last =>
      let (active, lastOffset) := (openSegment last).scanAndRecover
      let nextOffset :=
        if lastOffset ≥ 0 then UInt64.ofInt lastOffset + 1 else last.baseOffset
      { maxSegBytes := maxSegBytes
        closed := files.dropLast.map fun f => (openSegment f).loadIndex
        active := active
        nextOffset := nextOffset
        hwm := toI64 nextOffset }

/-! ## Crashes -/

/-- How far a write got: the new segment's files, then bytes of the two files. Log and
index are written through different streams, so either may be behind the other. -/
inductive AppendCut
  | untouched
  | logCreated
  | rolled
  | writing (logBytes indexBytes : Nat)
  deriving DecidableEq, Repr

/-- How far `recover` got. -/
inductive RecoverCut
  | untouched
  | logCreated
  | indexing (indexBytes : Nat)
  | resized
  deriving DecidableEq, Repr

/-- Files that were being extended, with a part of the new bytes. -/
def SegmentFiles.torn (before after : SegmentFiles) (logBytes indexBytes : Nat) :
    SegmentFiles :=
  { after with
    log := after.log.take (before.log.length + logBytes)
    index := after.index.map
      (List.take ((readWholeFile before.index).length + indexBytes)) }

/-- The directory a crash leaves while `records`, which carry their offsets, are written. -/
def Partition.tornAppend (p : Partition) (records : List Record) (cut : AppendCut) :
    Directory :=
  if records = [] then p.directory
  else match cut with
    | .untouched => p.directory
    | .logCreated =>
        if p.mustRoll then p.directory ++ [{ baseOffset := p.nextOffset }] else p.directory
    | .rolled => p.rolled.directory
    | .writing logBytes indexBytes =>
        let q := p.rolled
        q.closed.map Segment.files ++
          [q.active.files.torn (q.active.append records).files logBytes indexBytes]

/-- The directory a crash leaves while `recover` runs on it. -/
def tornRecover (listing : Directory) (cut : RecoverCut) : Directory :=
  let files := sortDirectory listing
  match files.getLast?, cut with
  | none, .logCreated => [{ baseOffset := 0 }]
  | none, .resized => [(freshSegment 0).files]
  | some last, .indexing indexBytes =>
      let index := readWholeFile (openSegment last).scan.seg.files.index
      files.dropLast ++ [{ last with index := some (index.take indexBytes) }]
  | some last, .resized => files.dropLast ++ [(openSegment last).scanAndRecover.1.files]
  | _, _ => listing

/-! ## What a partition and a directory hold -/

/-- A part of a partition that was rolled away from: a segment with some records. -/
def ClosedSegment (n : Nat) (seg : Segment) (run : List Record) : Prop :=
  seg.Holds n run ∧ run ≠ []

def ClosedFiles (n : Nat) (f : SegmentFiles) (run : List Record) : Prop :=
  f.Sealed n run ∧ run ≠ []

/-- The segments hold the records between them, and the next offset follows. -/
structure Partition.Holds (p : Partition) (records : List Record) : Prop where
  segments : ∃ rolled run, Cut ClosedSegment 0 p.closed rolled ∧
    p.active.Holds rolled.length run ∧ records = rolled ++ run
  next : p.nextOffset.toNat = records.length

/-- Complete segments and a last one that recovers, or no segment yet. -/
def Directory.HoldsSorted (dir : Directory) (records : List Record) : Prop :=
  (dir = [] ∧ records = []) ∨
  ∃ closed last rolled run, dir = closed ++ [last] ∧ Cut ClosedFiles 0 closed rolled ∧
    last.Recoverable rolled.length run ∧ records = rolled ++ run

def Directory.Holds (listing : Directory) (records : List Record) : Prop :=
  ∃ dir : Directory, listing.Perm dir ∧ Directory.HoldsSorted dir records

/-! ## Sorting the directory -/

instance : Std.Total SegmentFiles.notAfter :=
  ⟨fun f g => by
    simp only [SegmentFiles.notAfter, UInt64.le_iff_toNat_le]
    omega⟩

instance : IsTrans SegmentFiles SegmentFiles.notAfter :=
  ⟨fun f g h hfg hgh => by
    simp only [SegmentFiles.notAfter, UInt64.le_iff_toNat_le] at *
    omega⟩

section Directory

variable {dir listing : Directory} {records : List Record}

theorem closedFiles_start {n : Nat} {f : SegmentFiles} {run : List Record}
    (h : ClosedFiles n f run) : f.baseOffset.toNat = n ∧ run ≠ [] :=
  ⟨h.1.base, h.2⟩

/-- The base offsets of the files ascend. -/
theorem Directory.HoldsSorted.ascends (h : Directory.HoldsSorted dir records) :
    dir.Pairwise fun f g => f.baseOffset.toNat < g.baseOffset.toNat := by
  rcases h with ⟨rfl, -⟩ | ⟨closed, last, rolled, run, rfl, hclosed, hlast, -⟩
  · exact List.Pairwise.nil
  · refine List.pairwise_append.mpr ⟨?_, List.pairwise_singleton _ _, ?_⟩
    · exact hclosed.starts_ascend (fun f => f.baseOffset.toNat) fun _ _ _ => closedFiles_start
    · intro f hf g hg
      obtain rfl := List.mem_singleton.mp hg
      have hlt := hclosed.start_lt (fun f => f.baseOffset.toNat)
        (fun _ _ _ => closedFiles_start) hf
      rw [hlast.base]
      omega

/-- Sorting undoes the order in which the directory was listed. -/
theorem Directory.HoldsSorted.sort_eq (h : Directory.HoldsSorted dir records)
    (hperm : listing.Perm dir) :
    sortDirectory listing = dir := by
  have hasc := h.ascends
  have hnodup : (dir.map SegmentFiles.baseOffset).Nodup := by
    refine List.pairwise_map.mpr (hasc.imp fun hlt heq => ?_)
    rw [heq] at hlt
    exact Nat.lt_irrefl _ hlt
  refine List.Perm.eq_of_pairwise ?_ (List.pairwise_insertionSort SegmentFiles.notAfter _)
    (hasc.imp fun hlt => UInt64.le_iff_toNat_le.mpr (Nat.le_of_lt hlt))
    ((List.perm_insertionSort _ _).trans hperm)
  intro f g hf hg hfg hgf
  have hf' : f ∈ dir := hperm.subset ((List.mem_insertionSort _).mp hf)
  exact List.inj_on_of_nodup_map hnodup hf' hg (UInt64.le_antisymm hfg hgf)

end Directory

/-! ## Offsets -/

/-- The records with the offsets of their places from `n` on. -/
def place (n : Nat) (records : List Record) : List Record :=
  records.mapIdx fun i rec => { rec with offset := UInt64.ofNat (n + i) }

def Record.timed (ts : UInt64) (rec : Record) : Record := { rec with timestamp := ts }

section Place

variable {n : Nat} {records more : List Record} {rec : Record} {ts next : UInt64}

@[simp] theorem place_nil : place n [] = [] := rfl

@[simp] theorem place_length : (place n records).length = records.length := by simp [place]

theorem place_cons :
    place n (rec :: more) = { rec with offset := UInt64.ofNat n } :: place (n + 1) more := by
  simp [place, List.mapIdx_cons, Nat.add_assoc, Nat.add_comm 1]

theorem place_append (n : Nat) (records more : List Record) :
    place n (records ++ more) = place n records ++ place (n + records.length) more := by
  simp [place, List.mapIdx_append, Nat.add_assoc, Nat.add_comm records.length]

theorem numbered_place (hfit : ∀ rec ∈ records, rec.Fits)
    (hlt : n + records.length < 2 ^ 64) : Numbered n (place n records) := by
  induction records generalizing n with
  | nil => simp
  | cons rec rest ih =>
      rw [List.length_cons] at hlt
      rw [place_cons, numbered_cons]
      refine ⟨UInt64.toNat_ofNat_of_lt' (by simp only [UInt64.size]; omega), ?_,
        ih (fun r hr => hfit r (List.mem_cons_of_mem _ hr)) (by omega)⟩
      exact (hfit rec List.mem_cons_self).with_stamp _ _

/-- A part of what was placed is a part with its places. -/
theorem prefix_place {kept : List Record} (h : kept <+: place n records) :
    ∃ part, part <+: records ∧ kept = place n part := by
  refine ⟨records.take kept.length, List.take_prefix _ _, ?_⟩
  have hsplit := place_append n (records.take kept.length) (records.drop kept.length)
  rw [List.take_append_drop] at hsplit
  have hlen := h.length_le
  rw [place_length] at hlen
  have htake : (place n (records.take kept.length)).length = kept.length := by
    rw [place_length, List.length_take_of_le hlen]
  rw [hsplit] at h
  have hpre := List.prefix_of_prefix_length_le h (List.prefix_append _ _) (Nat.le_of_eq htake.symm)
  exact hpre.eq_of_length htake.symm

/-- Places are counted in 64 bits. -/
theorem place_toNat_succ : place (next + 1).toNat records = place (next.toNat + 1) records := by
  unfold place
  congr 1
  funext i rec
  have hoff : UInt64.ofNat ((next + 1).toNat + i) = UInt64.ofNat (next.toNat + 1 + i) := by
    apply UInt64.toNat_inj.mp
    simp only [UInt64.toNat_ofNat', UInt64.toNat_add, UInt64.toNat_one]
    omega
  rw [hoff]

theorem assignOffsets_eq :
    assignOffsets ts next records =
      (place next.toNat (records.map (Record.timed ts)),
        next + UInt64.ofNat records.length) := by
  induction records generalizing next with
  | nil => simp [assignOffsets]
  | cons rec rest ih =>
      rw [assignOffsets, ih, List.map_cons, place_cons, place_toNat_succ]
      refine Prod.ext ?_ ?_
      · simp [Record.timed]
      · simp only [List.length_cons, UInt64.ofNat_add]
        rw [UInt64.add_assoc, UInt64.add_comm 1]
        rfl

end Place

end MiniKafka.Storage
