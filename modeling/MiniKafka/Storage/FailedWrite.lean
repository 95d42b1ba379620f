import MiniKafka.Storage.LongestRead

/-!
# Writes that fail

The stream that `append` writes to reports nothing: it takes some of the bytes and drops the
others, while the sizes, the index and the next offset go on. The last record of a batch that
was cut is then read nowhere.
-/

namespace MiniKafka.Storage

open Foundations Common

namespace Segment

def withLog (seg : Segment) (log : Bytes) : Segment := seg.onFile log seg.sizeBytes

/-- `appendRecord` on a stream that takes `room` more bytes. -/
def appendRecordWithin (s : Segment × Nat) (rec : Record) : Segment × Nat :=
  let (seg, room) := s
  let encoded := encodeRecord rec
  let seg := seg.indexFrame rec seg.sizeBytes encoded.length
  ({ seg with
      files.log := seg.files.log ++ encoded.take room
      sizeBytes := seg.sizeBytes + UInt64.ofNat encoded.length }, room - encoded.length)

def appendWithin (seg : Segment) (records : List Record) (room : Nat) : Segment :=
  (records.foldl appendRecordWithin (seg, room)).1

variable {seg : Segment} {n : Nat} {records more : List Record} {rec : Record} {log : Bytes}

theorem indexFrame_withLog (pos : UInt64) (frameLen : Nat) :
    (seg.withLog log).indexFrame rec pos frameLen =
      (seg.indexFrame rec pos frameLen).withLog log := by
  have hindex : (seg.withLog log).indexFrame rec pos frameLen = _ :=
    indexFrame_onFile log seg.sizeBytes
  rw [hindex, withLog, indexFrame_sizeBytes]

theorem appendRecordWithin_withLog (room : Nat) :
    appendRecordWithin (seg.withLog log, room) rec =
      ((seg.appendRecord rec).withLog (log ++ (encodeRecord rec).take room),
        room - (encodeRecord rec).length) := by
  unfold appendRecordWithin appendRecord
  simp only [indexFrame_withLog]
  rfl

/-- All but the log file is as if the write had succeeded. -/
theorem appendWithin_withLog (room : Nat) :
    (seg.withLog log).appendWithin records room =
      (seg.append records).withLog (log ++ (encodeAll records).take room) := by
  unfold appendWithin Segment.append
  induction records generalizing seg log room with
  | nil => simp
  | cons rec rest ih =>
      rw [List.foldl_cons, List.foldl_cons, appendRecordWithin_withLog, ih, encodeAll_cons,
        List.take_append, List.append_assoc]

theorem appendWithin_eq (seg : Segment) (records : List Record) (room : Nat) :
    seg.appendWithin records room =
      (seg.append records).withLog (seg.files.log ++ (encodeAll records).take room) :=
  @appendWithin_withLog seg records seg.files.log room

theorem appendWithin_of_le {room : Nat} (h : (encodeAll records).length ≤ room) :
    seg.appendWithin records room = seg.append records := by
  rw [appendWithin_eq, List.take_of_length_le h, ← append_log]
  rfl

/-- The place of a frame, or the start of the file. -/
def FramePlace (records : List Record) (pos : UInt64) : Prop :=
  ∃ k ≤ records.length, pos.toNat = (encodeAll (records.take k)).length

/-- A log that was cut inside the last frame is read without the last record. -/
theorem readFrom_cut {pos : UInt64} {cut : Nat} (hnum : Numbered n records)
    (hlog : seg.files.log = (encodeAll records).take cut)
    (hcut : cut < (encodeAll records).length) (hpos : FramePlace records pos) :
    ∀ rec ∈ seg.readFrom pos, rec.offset.toNat + 1 < n + records.length := by
  obtain ⟨k, hk, hpos⟩ := hpos
  have hlen : seg.files.log.length = cut := by
    rw [hlog, List.length_take_of_le (Nat.le_of_lt hcut)]
  intro rec hrec
  simp only [Segment.readFrom] at hrec
  split at hrec
  · cases hrec
  · next hinside =>
      have hsplit : encodeAll records =
          encodeAll (records.take k) ++ encodeAll (records.drop k) := by
        rw [← encodeAll_append, List.take_append_drop]
      have hdrop : seg.files.log.drop pos.toNat =
          (encodeAll (records.drop k)).take (cut - pos.toNat) := by
        rw [hlog, List.drop_take, hsplit, hpos, List.drop_left]
      have hrest := hnum.drop_from hk
      obtain ⟨kept, tail, hkept, htake, htail⟩ :=
        stream_cut hrest.delimits (List.take_prefix (cut - pos.toNat) (encodeAll (records.drop k)))
      have hread := readFrames_stream decodeRecord_consuming (hrest.part hkept).delimits htail
      have hkeptread : readFrames decodeRecord ⟨seg.files.log.drop pos.toNat, 0⟩ = kept := by
        rw [hdrop, htake]
        exact hread
      rw [hkeptread] at hrec
      have hmem := (hrest.part hkept).mem hrec
      have hle := hkept.length_le
      rw [List.length_drop] at hle
      -- all of the rest would take more bytes than the file has
      have hmissing : kept.length ≠ records.length - k := by
        intro hall
        have heq := hkept.eq_of_length (by rw [List.length_drop, hall])
        have htotal := congrArg List.length hsplit
        have hbytes := congrArg List.length htake
        rw [heq, ← encodeAll] at hbytes
        simp only [List.length_append, List.length_take] at htotal hbytes
        omega
      omega

/-- What the index answers is the place of a frame. -/
theorem findStartPosition_place (hindex : IndexOf records seg.index)
    (hsize : (encodeAll records).length < 2 ^ 64) (relOffset : UInt32) :
    FramePlace records (seg.findStartPosition relOffset) := by
  rcases findStartPosition_cases relOffset with hstart | ⟨e, hmem, -, hstart⟩ <;>
    rw [hstart]
  · exact ⟨0, Nat.zero_le _, rfl⟩
  · obtain ⟨k, hk, rfl⟩ := hindex e hmem
    have hlt := Nat.lt_of_le_of_lt (encodeAll_take_le records k) hsize
    exact ⟨k, hk, UInt64.toNat_ofNat_of_lt' hlt⟩

theorem startPosition_place (hindex : IndexOf records seg.index)
    (hsize : (encodeAll records).length < 2 ^ 64) (startOffset : Int) :
    FramePlace records (Partition.startPosition seg startOffset) := by
  unfold Partition.startPosition
  split
  · exact findStartPosition_place hindex hsize _
  · exact ⟨0, Nat.zero_le _, rfl⟩

theorem Holds.readFrom_place {pos : UInt64} (h : seg.Holds n records)
    (hpos : FramePlace records pos) : ∀ rec ∈ seg.readFrom pos, rec ∈ records := by
  obtain ⟨k, -, hpos⟩ := hpos
  intro rec hrec
  rw [h.readFrom hpos] at hrec
  exact List.mem_of_mem_drop hrec

/-- The bytes of a segment that relative offsets can count are counted in 64 bits. -/
theorem Holds.bytes_lt (h : seg.Holds n records) (hspan : records.length < 2 ^ 32) :
    (encodeAll records).length < 2 ^ 64 := by
  have hlen := encodeAll_length_le h.numbered.fits
  omega

theorem Holds.read_within (h : seg.Holds n records) (hspan : records.length < 2 ^ 32)
    {startOffset : Int} (hrec : rec ∈ seg.readFrom (Partition.startPosition seg startOffset)) :
    rec ∈ records :=
  h.readFrom_place (startPosition_place h.indexes.index (h.bytes_lt hspan) startOffset) rec hrec

/-- A write that was cut leaves the last record out of every read. -/
theorem Holds.read_cut (h : seg.Holds n records) (hmore : Numbered (n + records.length) more)
    (hspan : (records ++ more).length < 2 ^ 32) {room : Nat}
    (hroom : room < (encodeAll more).length) {startOffset : Int}
    (hrec : rec ∈ (seg.appendWithin more room).readFrom
        (Partition.startPosition (seg.appendWithin more room) startOffset) ∨
      rec ∈ (seg.appendWithin more room).readFrom 0) :
    rec.offset.toNat + 1 < n + (records ++ more).length := by
  have hheld := h.append hmore
  have hindex : IndexOf (records ++ more) (seg.appendWithin more room).index := by
    rw [appendWithin_eq]
    exact hheld.indexes.index
  have hlog : (seg.appendWithin more room).files.log =
      (encodeAll (records ++ more)).take ((encodeAll records).length + room) := by
    rw [appendWithin_eq, encodeAll_append, List.take_length_add_append, ← h.log]
    rfl
  have hcut : (encodeAll records).length + room < (encodeAll (records ++ more)).length := by
    rw [encodeAll_append, List.length_append]
    omega
  have hstart := startPosition_place hindex (hheld.bytes_lt hspan) startOffset
  rcases hrec with hrec | hrec
  · exact readFrom_cut hheld.numbered hlog hcut hstart rec hrec
  · exact readFrom_cut hheld.numbered hlog hcut ⟨0, Nat.zero_le _, rfl⟩ rec hrec

end Segment

/-! ## Partitions -/

namespace Partition

/-- `append` on a stream that takes `room` bytes of the log. -/
def appendWithin (p : Partition) (records : List Record) (now : UInt64) (room : Nat) :
    Partition × Int :=
  if records = [] then (p, toI64 p.nextOffset)
  else
    let p := p.rolled
    let base := toI64 p.nextOffset
    let (records, nextOffset) := assignOffsets now p.nextOffset records
    ({ p with
        active := p.active.appendWithin records room
        nextOffset := nextOffset
        hwm := toI64 nextOffset }, base)

/-- The appends that succeed later, each a batch and its time. -/
def appendAll (p : Partition) (later : List (List Record × UInt64)) : Partition :=
  later.foldl (fun p write => (p.append write.1 write.2).1) p

/-- A read at the record's own offset answers it first, if it is below the watermark. -/
def Serves (p : Partition) (rec : Record) : Prop :=
  (rec.offset.toNat : Int) < p.hwm →
    ∀ maxBytes, (p.read rec.offset.toNat maxBytes).head? = some rec

end Partition

/-- The records of several batches with their times. -/
def timedAll (writes : List (List Record × UInt64)) : List Record :=
  writes.flatMap fun write => write.1.map (Record.timed write.2)

/-- The write of a batch, of which the log file takes `room` bytes, does no harm: it is
reported and changes nothing or the batch can be read, and every record of a write that
succeeded can be read, before as after. Any answer but the log end would be a report. -/
structure WriteHarmless (p : Partition) (batch : List Record) (now : UInt64) (room : Nat) :
    Prop where
  outcome : (p.appendWithin batch now room).2 ≠ p.logEndOffset ∧
      (p.appendWithin batch now room).1.logEndOffset = p.logEndOffset ∧
      (p.appendWithin batch now room).1.hwm = p.hwm ∧
      (p.appendWithin batch now room).1.records = p.records ∨
    ∀ rec ∈ place p.records.length (batch.map (Record.timed now)),
      (p.appendWithin batch now room).1.Serves rec
  others : ∀ later : List (List Record × UInt64),
    let q := (p.appendWithin batch now room).1
    (∀ rec ∈ timedAll later, rec.Fits) →
      q.nextOffset.toNat + (timedAll later).length < 2 ^ 63 →
      (q.appendAll later).Countable →
      ∀ rec ∈ p.records ++ place q.nextOffset.toNat (timedAll later),
        (q.appendAll later).Serves rec

variable {p : Partition} {records batch : List Record} {now : UInt64} {room : Nat}
  {maxSegBytes : UInt32}

namespace Partition

theorem Holds.appendAll (h : p.Holds records) (hmax : 1 ≤ p.maxSegBytes)
    {later : List (List Record × UInt64)} (hfit : ∀ rec ∈ timedAll later, rec.Fits)
    (hlt : records.length + (timedAll later).length < 2 ^ 63) :
    (p.appendAll later).Holds (records ++ place records.length (timedAll later)) := by
  induction later generalizing p records with
  | nil => simpa [Partition.appendAll, timedAll] using h
  | cons write rest ih =>
      have hsplit : timedAll (write :: rest) =
          write.1.map (Record.timed write.2) ++ timedAll rest := List.flatMap_cons
      rw [hsplit, List.length_append, List.length_map] at hlt
      rw [hsplit] at hfit
      have hwrite : ∀ rec ∈ write.1, rec.Fits := by
        intro rec hrec
        have htimed := hfit (rec.timed write.2)
          (List.mem_append_left _ (List.mem_map_of_mem hrec))
        rw [Record.fits_iff] at htimed ⊢
        exact htimed
      obtain ⟨happ, -⟩ := h.append write.2 hmax hwrite (by omega)
      have hrest := fun rec hrec => hfit rec (List.mem_append_right _ hrec)
      have hsize : 1 ≤ (p.append write.1 write.2).1.maxSegBytes := by
        rw [append_maxSegBytes]
        exact hmax
      have hnext := ih happ hsize hrest (by
        rw [List.length_append, place_length, List.length_map]
        omega)
      rw [List.length_append, place_length, List.length_map, List.append_assoc] at hnext
      rw [hsplit, place_append, List.length_map]
      exact hnext

/-- Of a partition that holds its records, every one is read at its own offset. -/
theorem Holds.serves (h : p.Holds records) (hlt : records.length < 2 ^ 63)
    (hcount : p.Countable) {rec : Record} (hrec : rec ∈ records) : p.Serves rec := by
  intro hbelow maxBytes
  obtain ⟨i, hi, rfl⟩ := List.getElem_of_mem hrec
  have hoff := h.numbered.offset_getElem hi
  rw [Nat.zero_add] at hoff
  obtain ⟨c, hc⟩ : ∃ c : Nat, p.hwm = c := ⟨p.hwm.toNat, by omega⟩
  have htake : c - i = c - i - 1 + 1 := by omega
  rw [hoff, Partition.read, h.readClamped_window hlt hcount, hc, h.numbered.window_eq, htake,
    List.drop_eq_getElem_cons hi, List.take_succ_cons, capBytes]
  split <;> rfl

/-- What a read goes through comes from the segments, each read from a place that its index
names or from its start. -/
theorem mem_scanned {startOffset : Int} {rec : Record} (h : rec ∈ p.scanned startOffset) :
    ∃ seg ∈ p.segments, rec ∈ seg.readFrom (startPosition seg startOffset) ∨
      rec ∈ seg.readFrom 0 := by
  unfold Partition.scanned at h
  split at h
  · cases h
  · next seg rest hdrop =>
      have hseg : ∀ s ∈ seg :: rest, s ∈ p.segments := by
        intro s hs
        rw [← hdrop] at hs
        exact List.mem_of_mem_drop hs
      rcases List.mem_append.mp h with hfirst | hlater
      · exact ⟨seg, hseg seg List.mem_cons_self, .inl hfirst⟩
      · obtain ⟨s, hs, hrec⟩ := List.mem_flatMap.mp hlater
        exact ⟨s, hseg s (List.mem_cons_of_mem seg hs), .inr hrec⟩

/-- A read at an offset that no record reaches answers nothing. -/
theorem read_nothing {startOffset : Int} {maxBytes : UInt32}
    (h : ∀ rec ∈ p.scanned startOffset, toI64 rec.offset < startOffset) :
    p.read startOffset maxBytes = [] := by
  unfold Partition.read Partition.readClamped
  split
  · rfl
  · have hnone : (p.scanned startOffset).filter
        (fun rec => startOffset ≤ toI64 rec.offset) = [] := by
      apply List.filter_eq_nil_iff.mpr
      intro rec hrec
      simpa using h rec hrec
    rw [readLoop_eq, hnone]
    rfl

/-- The write answers the log end, whatever became of its bytes. -/
theorem appendWithin_answer : (p.appendWithin batch now room).2 = p.logEndOffset := by
  unfold appendWithin
  split
  · rfl
  · exact congrArg toI64 rolled_nextOffset

theorem appendWithin_of_le (h : (encodeAll batch).length ≤ room) :
    p.appendWithin batch now room = p.append batch now := by
  unfold appendWithin Partition.append
  split
  · rfl
  · have hplaced : (encodeAll (assignOffsets now p.nextOffset batch).1).length ≤ room := by
      rw [assignOffsets_eq, encodeAll_place_length]
      exact h
    simp only [rolled_nextOffset, Segment.appendWithin_of_le hplaced]

/-- The fields of the partition behind a write. -/
theorem Holds.appendWithin_fields (h : p.Holds records) (hne : batch ≠ []) :
    (p.appendWithin batch now room).1.closed = p.rolled.closed ∧
      (p.appendWithin batch now room).1.active = p.rolled.active.appendWithin
        (place records.length (batch.map (Record.timed now))) room ∧
      (p.appendWithin batch now room).1.hwm =
        toI64 (p.nextOffset + UInt64.ofNat batch.length) := by
  unfold appendWithin
  rw [if_neg hne]
  simp only [assignOffsets_eq, rolled_nextOffset, h.next, and_self]

theorem Holds.appendWithin_segments (h : p.Holds records) (hne : batch ≠ []) :
    (p.appendWithin batch now room).1.segments = p.rolled.closed ++
      [p.rolled.active.appendWithin
        (place records.length (batch.map (Record.timed now))) room] := by
  obtain ⟨hclosed, hactive, -⟩ := h.appendWithin_fields hne
  rw [Partition.segments, hclosed, hactive]

theorem Holds.append_segments (h : p.Holds records) (hne : batch ≠ []) :
    (p.append batch now).1.segments = p.rolled.closed ++
      [p.rolled.active.append (place records.length (batch.map (Record.timed now)))] := by
  have hplaced := encodeAll_place_length records.length now batch
  rw [← appendWithin_of_le (Nat.le_refl _), h.appendWithin_segments hne,
    Segment.appendWithin_of_le hplaced.le]

/-- After a write that was cut, no read goes through the last record of the batch. -/
theorem Holds.scanned_cut (h : p.Holds records) (hmax : 1 ≤ p.maxSegBytes) (hne : batch ≠ [])
    (hfit : ∀ rec ∈ batch, rec.Fits) (hlt : records.length + batch.length < 2 ^ 63)
    (hcount : (p.append batch now).1.Countable) (hroom : room < (encodeAll batch).length)
    {startOffset : Int} {rec : Record}
    (hrec : rec ∈ (p.appendWithin batch now room).1.scanned startOffset) :
    rec.offset.toNat + 1 < records.length + batch.length := by
  have hbatch := List.length_pos_of_ne_nil hne
  have hmore : Numbered records.length (place records.length (batch.map (Record.timed now))) :=
    numbered_batch hfit hlt
  have hbytes := encodeAll_place_length records.length now batch
  have hsegments : (p.append batch now).1.segments = p.rolled.closed ++
      [p.rolled.active.append (place records.length (batch.map (Record.timed now)))] :=
    h.append_segments hne
  obtain ⟨seg, hseg, hread⟩ := mem_scanned hrec
  rw [h.appendWithin_segments hne] at hseg
  obtain ⟨rolled, run, hcut, hrun, hsplit⟩ := (h.rolled hmax).segments
  rcases List.mem_append.mp hseg with hseg | hseg
  · -- a closed segment holds older records
    obtain ⟨n, part, ⟨hheld, -⟩, hsub⟩ := hcut.mem hseg
    have hspan : part.length < 2 ^ 32 := by
      have hmem : seg ∈ (p.append batch now).1.segments := by
        rw [hsegments]
        exact List.mem_append_left _ hseg
      have hone := hcount seg hmem
      rwa [hheld.readFrom_zero] at hone
    have hold : rec ∈ rolled := by
      apply hsub
      rcases hread with hread | hread
      · exact hheld.read_within hspan hread
      · rwa [hheld.readFrom_zero] at hread
    have hnum := h.numbered.mem (hsplit ▸ List.mem_append_left run hold)
    omega
  · -- the segment that was written to
    obtain rfl := List.mem_singleton.mp hseg
    have hlen : (place records.length (batch.map (Record.timed now))).length = batch.length := by
      rw [place_length, List.length_map]
    have hsum : records.length = rolled.length + run.length := by
      rw [hsplit, List.length_append]
    generalize place records.length (batch.map (Record.timed now)) = more at *
    rw [hsum] at hmore
    have hspan : (run ++ more).length < 2 ^ 32 := by
      have hmem : p.rolled.active.append more ∈ (p.append batch now).1.segments := by
        rw [hsegments]
        exact List.mem_append_right _ (List.mem_singleton_self _)
      have hone := hcount _ hmem
      rwa [(hrun.append hmore).readFrom_zero] at hone
    have hlast := hrun.read_cut hmore hspan (hbytes ▸ hroom) hread
    rw [List.length_append, hlen] at hlast
    omega

/-- The last record of a batch that was cut is not served. -/
theorem Holds.last_unserved (h : p.Holds records) (hmax : 1 ≤ p.maxSegBytes) (hne : batch ≠ [])
    (hfit : ∀ rec ∈ batch, rec.Fits) (hlt : records.length + batch.length < 2 ^ 63)
    (hcount : (p.append batch now).1.Countable) (hroom : room < (encodeAll batch).length) :
    ∃ rec ∈ place records.length (batch.map (Record.timed now)),
      ¬(p.appendWithin batch now room).1.Serves rec := by
  have hbatch := List.length_pos_of_ne_nil hne
  have hmore : Numbered records.length (place records.length (batch.map (Record.timed now))) :=
    numbered_batch hfit hlt
  have hlen : (place records.length (batch.map (Record.timed now))).length = batch.length := by
    rw [place_length, List.length_map]
  have hlast : batch.length - 1 <
      (place records.length (batch.map (Record.timed now))).length := by omega
  have hoff := hmore.offset_getElem hlast
  refine ⟨_, List.getElem_mem hlast, ?_⟩
  intro hserves
  have hhwm : (p.appendWithin batch now room).1.hwm = (records.length + batch.length : Nat) := by
    have hnext : p.nextOffset = UInt64.ofNat records.length := by
      rw [← h.next, UInt64.ofNat_toNat]
    rw [(h.appendWithin_fields hne).2.2, hnext, ← UInt64.ofNat_add, toI64_ofNat hlt]
  have hread := hserves (by omega) 0
  rw [read_nothing] at hread
  · cases hread
  · intro rec hrec
    have hbelow := h.scanned_cut hmax hne hfit hlt hcount hroom hrec
    rw [toI64_of_lt (by omega)]
    omega

end Partition

/-- The write of a batch does no harm exactly if the log file takes all its bytes. -/
theorem write_harmless_iff (hmax : 1 ≤ maxSegBytes) (h : Reached maxSegBytes (.running p))
    (hfit : BatchFits p batch) (hcount : (p.append batch now).1.Countable) (room : Nat) :
    WriteHarmless p batch now room ↔ (encodeAll batch).length ≤ room := by
  obtain ⟨hp, hsize, hlt⟩ := h.partition hmax
  obtain ⟨hfits, hbatch⟩ := hfit
  rw [← hsize] at hmax
  constructor
  · intro hharmless
    apply Nat.le_of_not_lt
    intro hroom
    have hne : batch ≠ [] := by
      rintro rfl
      cases hroom
    obtain ⟨rec, hrec, hunserved⟩ :=
      hp.last_unserved hmax hne hfits hbatch hcount hroom
    rcases hharmless.outcome with ⟨hreport, -⟩ | hserved
    · exact hreport Partition.appendWithin_answer
    · exact hunserved (hserved rec hrec)
  · intro hroom
    have happ := (hp.append now hmax hfits hbatch).1
    have hstored : (p.records ++ place p.records.length (batch.map (Record.timed now))).length =
        p.records.length + batch.length := by
      rw [List.length_append, place_length, List.length_map]
    rw [← hstored] at hbatch
    constructor
    · right
      intro rec hrec
      rw [Partition.appendWithin_of_le hroom]
      exact happ.serves hbatch hcount (List.mem_append_right _ hrec)
    · intro later q hfits' hlt' hcount' rec hrec
      have hq : q = (p.append batch now).1 := congrArg Prod.fst (Partition.appendWithin_of_le hroom)
      rw [hq] at hlt' hcount' hrec ⊢
      rw [happ.next] at hlt' hrec
      have hmax' : 1 ≤ (p.append batch now).1.maxSegBytes := by
        rw [Partition.append_maxSegBytes]
        exact hmax
      have hall := happ.appendAll hmax' hfits' hlt'
      apply hall.serves ?_ hcount'
      · rcases List.mem_append.mp hrec with hrec | hrec
        · exact List.mem_append_left _ (List.mem_append_left _ hrec)
        · exact List.mem_append_right _ hrec
      · rwa [List.length_append, place_length]

/-- A partition with one record and room for more in its segment. -/
def roomyPartition : Partition :=
  ((Partition.recover 1000 []).append [{ key := [1], value := [10] }] 100).1

theorem reached_roomy : Reached 1000 (.running roomyPartition) := by
  have hstart : Reached 1000 (.running (Partition.recover 1000 [])) :=
    Reached.empty.recover (.refl _)
  exact hstart.append (by decide +kernel) 100

theorem write_harmless_roomy :
    WriteHarmless roomyPartition [{ key := [2], value := [20] }] 200 34 := by
  have hfit : BatchFits roomyPartition [{ key := [2], value := [20] }] := by decide +kernel
  have hcount : (roomyPartition.append [{ key := [2], value := [20] }] 200).1.Countable := by
    decide +kernel
  exact (write_harmless_iff (by decide) reached_roomy hfit hcount 34).mpr (by decide +kernel)

/-- Twenty bytes of the second record are written, then the disk is full for a while. -/
def shortWrite : Partition × Int :=
  roomyPartition.appendWithin [{ key := [2], value := [20] }] 200 20

/-- The write answers the offset as if it had succeeded; neither its record nor the one of
the next write, which succeeds, is read. -/
theorem short_write_corrupts :
    Reached 1000 (.running roomyPartition) ∧ shortWrite.2 = 1 ∧ shortWrite.1.hwm = 2 ∧
      shortWrite.1.read 1 1000 = [] ∧
      (shortWrite.1.append [{ key := [3], value := [30] }] 300).1.read 2 1000 = [] ∧
      ¬WriteHarmless roomyPartition [{ key := [2], value := [20] }] 200 20 := by
  refine ⟨reached_roomy, by decide +kernel, by decide +kernel, by decide +kernel,
    by decide +kernel, ?_⟩
  intro hharmless
  rcases hharmless.outcome with ⟨hreport, -⟩ | hserved
  · exact hreport (by decide +kernel)
  · let lost : Record := { offset := 1, timestamp := 200, key := [2], value := [20] }
    have hlost : lost ∈ place roomyPartition.records.length
        (List.map (Record.timed 200) [{ key := [2], value := [20] }]) := by decide +kernel
    have hbelow : (lost.offset.toNat : Int) < shortWrite.1.hwm := by decide +kernel
    have hread := hserved lost hlost hbelow 1000
    have hnothing : (shortWrite.1.read lost.offset.toNat 1000).head? = none := by decide +kernel
    cases hnothing.symm.trans hread

end MiniKafka.Storage
