import MiniKafka.Common.Codec
import MiniKafka.Common.Crc32

/-!
# The record format

`encode_record` and `decode_record`: a length, a checksum and the body. A frame
whose length fits the length field is read back, and no part of it is a frame.
-/

namespace MiniKafka.Storage

open Foundations Common

structure Record where
  offset : UInt64 := 0
  timestamp : UInt64 := 0
  key : Bytes
  value : Bytes
  deriving DecidableEq, Repr

def encodeBody (rec : Record) : Bytes :=
  putU64 rec.offset ++ (putU64 rec.timestamp ++ (putBlob rec.key ++ putBlob rec.value))

def encodeRecord (rec : Record) : Bytes :=
  let body := encodeBody rec
  let crc := crc32 body
  let totalLen := UInt32.ofNat (4 + body.length)
  putU32 totalLen ++ (putU32 crc ++ body)

def decodeBody : Decode Record := do
  let offset ← getU64
  let timestamp ← getU64
  let key ← getBlob
  let value ← getBlob
  return { offset, timestamp, key, value }

/-- What `decode_record` does with the reader over the frame. -/
def decodeFrame : Decode Record := do
  let storedCrc ← getU32
  let bodyStart ← get
  if crc32 bodyStart.rest ≠ storedCrc then
    throw ⟨"record CRC mismatch (torn write or corruption)"⟩
  decodeBody

/-- A reader of its own over the frame; the outer one stays after the frame. -/
def onFrame (frame : Bytes) : Decode Record :=
  match decodeFrame.run ⟨frame, 0⟩ with
  | .ok (rec, _) => return rec
  | .error e => throw e

def decodeRecord : Decode Record := do
  let totalLen ← getU32
  let frame ← getRaw totalLen.toNat
  onFrame frame

/-- The bytes of a run of records. -/
abbrev encodeAll (records : List Record) : Bytes := records.flatMap encodeRecord

theorem encodeAll_append (records more : List Record) :
    encodeAll (records ++ more) = encodeAll records ++ encodeAll more :=
  List.flatMap_append

/-- The first records take no more bytes than all of them. -/
theorem encodeAll_take_le (records : List Record) (k : Nat) :
    (encodeAll (records.take k)).length ≤ (encodeAll records).length := by
  calc (encodeAll (records.take k)).length
      ≤ (encodeAll (records.take k)).length + (encodeAll (records.drop k)).length :=
        Nat.le_add_right _ _
    _ = (encodeAll records).length := by
        rw [← List.length_append, ← encodeAll_append, List.take_append_drop]

theorem encodeAll_cons (rec : Record) (records : List Record) :
    encodeAll (rec :: records) = encodeRecord rec ++ encodeAll records :=
  List.flatMap_cons

/-- The frame of the record is counted in 32 bits. -/
def Record.Fits (rec : Record) : Prop := (encodeRecord rec).length < 2 ^ 32

instance (rec : Record) : Decidable rec.Fits :=
  inferInstanceAs (Decidable ((encodeRecord rec).length < 2 ^ 32))

variable {rec : Record}

@[simp] theorem encodeBody_length :
    (encodeBody rec).length = 24 + rec.key.length + rec.value.length := by
  simp only [encodeBody, List.length_append, putU64_length, putBlob_length]
  omega

@[simp] theorem encodeRecord_length :
    (encodeRecord rec).length = 32 + rec.key.length + rec.value.length := by
  simp only [encodeRecord, List.length_append, putU32_length, encodeBody_length]
  omega

theorem Record.fits_iff : rec.Fits ↔ 32 + rec.key.length + rec.value.length < 2 ^ 32 := by
  rw [Fits, encodeRecord_length]

/-- The length field holds the length of what follows it. -/
def Record.Framed (rec : Record) : Prop := 4 + (encodeBody rec).length < 2 ^ 32

instance (rec : Record) : Decidable rec.Framed :=
  inferInstanceAs (Decidable (4 + (encodeBody rec).length < 2 ^ 32))

theorem Record.framed_iff : rec.Framed ↔ 28 + rec.key.length + rec.value.length < 2 ^ 32 := by
  rw [Framed, encodeBody_length]
  omega

theorem Record.Fits.framed (h : rec.Fits) : rec.Framed := by
  rw [framed_iff]
  rw [fits_iff] at h
  omega

/-- Neither the offset nor the time of a record is counted in the length of its frame. -/
theorem Record.Fits.with_stamp (h : rec.Fits) (offset timestamp : UInt64) :
    { rec with offset := offset, timestamp := timestamp }.Fits := by
  rw [fits_iff] at h ⊢
  exact h

theorem decodeBody_delimits (h : rec.Framed) : Delimits decodeBody (encodeBody rec) rec := by
  rw [Record.framed_iff] at h
  refine (getU64_delimits rec.offset).bind ((getU64_delimits rec.timestamp).bind
    ((getBlob_delimits (by omega)).bind ?_))
  rw [← List.append_nil (putBlob rec.value)]
  exact (getBlob_delimits (by omega)).bind (Delimits.pure rfl)

/-- The checksum is compared before a field is read. -/
theorem decodeFrame_run (crc : UInt32) (body : Bytes) :
    decodeFrame.run ⟨putU32 crc ++ body, 0⟩ =
      if crc32 body ≠ crc then
        .error ⟨"record CRC mismatch (torn write or corruption)"⟩
      else decodeBody.run ⟨body, 4⟩ := by
  have hcrc := (getU32_delimits crc).reads body 0
  have hget : (get : Decode Reader).run ⟨body, 0 + (putU32 crc).length⟩ =
      .ok (⟨body, 4⟩, ⟨body, 4⟩) := rfl
  rw [decodeFrame, run_bind_of_ok _ hcrc, run_bind_of_ok _ hget]
  split
  · rfl
  · rfl

/-- Nothing of the reader over the frame is left in the outer one. -/
theorem onFrame_run (frame : Bytes) (outer : Reader) :
    (onFrame frame).run outer =
      (decodeFrame.run ⟨frame, 0⟩).map fun read => (read.1, outer) := by
  unfold onFrame
  cases decodeFrame.run ⟨frame, 0⟩ with
  | ok read => rfl
  | error e => rfl

theorem decodeRecord_delimits (h : rec.Framed) :
    Delimits decodeRecord (encodeRecord rec) rec := by
  have hrun : decodeFrame.run ⟨putU32 (crc32 (encodeBody rec)) ++ encodeBody rec, 0⟩ =
      .ok (rec, ⟨[], 4 + (encodeBody rec).length⟩) := by
    have hbody := (decodeBody_delimits h).reads [] 4
    rw [List.append_nil] at hbody
    rw [decodeFrame_run, if_neg (not_not.mpr rfl), hbody]
  refine (getU32_delimits _).bind ?_
  have hlen : (UInt32.ofNat (4 + (encodeBody rec).length)).toNat =
      (putU32 (crc32 (encodeBody rec)) ++ encodeBody rec).length := by
    rw [List.length_append, putU32_length]
    exact UInt32.toNat_ofNat_of_lt' h
  rw [hlen]
  have hon : Delimits (onFrame (putU32 (crc32 (encodeBody rec)) ++ encodeBody rec)) [] rec := by
    rw [onFrame, hrun]
    exact Delimits.pure rfl
  have hframe := (getRaw_delimits _).bind (f := onFrame) hon
  rwa [List.append_nil] at hframe

theorem onFrame_advancing (frame : Bytes) : Advancing (onFrame frame) := by
  intro r rec next h
  unfold onFrame at h
  split at h
  · exact Advancing.pure _ r rec next h
  · cases h

theorem decodeRecord_consuming : Consuming decodeRecord :=
  getU32_consuming.bind fun totalLen =>
    (getRaw_advancing totalLen.toNat).bind onFrame_advancing

end MiniKafka.Storage
