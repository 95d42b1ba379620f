import MiniKafka.Storage.Partition

/-!
# The log of a partition

What appending, crashing and recovering do to the records a partition holds. Each
operation has one lemma; a crash keeps a part of what was being written.
-/

namespace MiniKafka.Storage

open Foundations Common

variable {p q : Partition} {records more batch : List Record} {dir listing : Directory}
  {maxSegBytes : UInt32} {now : UInt64}

/-! ## Segments and their files -/

theorem freshSegment_holds (base : UInt64) {n : Nat} (h : base.toNat = n) :
    (freshSegment base).Holds n [] where
  base := h
  log := rfl
  numbered := numbered_nil
  size := rfl
  indexes := ⟨indexOf_nil, rfl⟩

theorem SegmentFiles.Sealed.recoverable {n : Nat} {f : SegmentFiles}
    (h : f.Sealed n records) : f.Recoverable n records where
  base := h.base
  log := ⟨[], by rw [h.log, List.append_nil], .inl rfl⟩
  numbered := h.numbered

theorem Segment.Holds.recoverable {n : Nat} {seg : Segment} (h : seg.Holds n records) :
    seg.files.Recoverable n records :=
  h.sealed.recoverable

/-- A whole read of a segment gives what its scan gives. -/
theorem SegmentFiles.Recoverable.readFrom_zero {n : Nat} (seg : Segment)
    (h : seg.files.Recoverable n records) : seg.readFrom 0 = records := by
  obtain ⟨tail, hlog, htail⟩ := h.log
  have hread := readFrames_stream decodeRecord_consuming h.numbered.delimits htail
  rw [← encodeAll, ← hlog] at hread
  rw [Segment.readFrom]
  split
  · next hend =>
      have hnil : seg.files.log = [] := List.length_eq_zero_iff.mp (Nat.le_zero.mp hend)
      rw [hnil] at hread
      exact hread
  · exact hread

/-- Of a torn write to a segment, whole records are kept and the rest is no frame. -/
theorem Segment.Holds.torn {n : Nat} {seg : Segment} (h : seg.Holds n records)
    (hmore : Numbered (n + records.length) more) (logBytes indexBytes : Nat) :
    ∃ kept, kept <+: more ∧
      (seg.files.torn (seg.append more).files logBytes indexBytes).Recoverable n
        (records ++ kept) := by
  have hwritten := h.append hmore
  have hlog : (seg.append more).files.log.take (seg.files.log.length + logBytes) =
      encodeAll records ++ (encodeAll more).take logBytes := by
    rw [hwritten.log, h.log, encodeAll_append, List.take_length_add_append]
  obtain ⟨kept, tail, hkept, htake, htail⟩ :=
    stream_cut hmore.delimits (List.take_prefix logBytes (encodeAll more))
  refine ⟨kept, hkept, hwritten.base, ⟨tail, ?_, htail⟩,
    numbered_append.mpr ⟨h.numbered, hmore.part hkept⟩⟩
  change (seg.append more).files.log.take _ = _
  rw [hlog, htake, encodeAll_append, List.append_assoc]

theorem Directory.Holds.perm (h : Directory.Holds dir records) (hperm : listing.Perm dir) :
    Directory.Holds listing records := by
  obtain ⟨sorted, hsorted, hdir⟩ := h
  exact ⟨sorted, hperm.trans hsorted, hdir⟩

/-- A batch, placed where the log ends. -/
theorem numbered_batch {n : Nat} (hfit : ∀ rec ∈ batch, rec.Fits)
    (hlt : n + batch.length < 2 ^ 63) :
    Numbered n (place n (batch.map (Record.timed now))) := by
  refine numbered_place (fun rec hrec => ?_) (by rw [List.length_map]; omega)
  obtain ⟨r, hr, rfl⟩ := List.mem_map.mp hrec
  exact (hfit r hr).with_stamp _ _

/-! ## Running partitions -/

namespace Partition

theorem Holds.records_eq (h : p.Holds records) : p.records = records := by
  obtain ⟨rolled, run, hclosed, hactive, rfl⟩ := h.segments
  have hread := hclosed.flatMap (fun seg => seg.readFrom 0)
    fun _ _ _ hseg => hseg.1.readFrom_zero
  rw [Partition.records, Partition.segments, List.flatMap_append, hread, List.flatMap_singleton,
    hactive.readFrom_zero]

theorem Holds.logEndOffset (h : p.Holds records) (hlt : records.length < 2 ^ 63) :
    p.logEndOffset = records.length := by
  rw [Partition.logEndOffset, toI64_of_lt (by rw [h.next]; exact hlt), h.next]

theorem Holds.setHighWatermark (h : p.Holds records) (hwm : Int) :
    (p.setHighWatermark hwm).Holds records :=
  ⟨h.segments, h.next⟩

theorem Holds.numbered (h : p.Holds records) : Numbered 0 records := by
  obtain ⟨rolled, run, hclosed, hactive, rfl⟩ := h.segments
  refine numbered_append.mpr ⟨?_, by simpa using hactive.numbered⟩
  exact hclosed.fold (P := Numbered) (fun _ => numbered_nil)
    (fun _ _ _ hrun hrest => numbered_append.mpr ⟨hrun, hrest⟩)
    fun _ _ _ hseg => hseg.1.numbered

/-- The files of a running partition are as `recover` needs them. -/
theorem Holds.directory (h : p.Holds records) : Directory.Holds p.directory records := by
  obtain ⟨rolled, run, hclosed, hactive, rfl⟩ := h.segments
  refine ⟨_, List.Perm.refl _, .inr ⟨p.closed.map Segment.files, p.active.files, rolled, run,
    ?_, ?_, hactive.recoverable, rfl⟩⟩
  · simp [Partition.directory, Partition.segments]
  · exact hclosed.map Segment.files fun _ _ _ hseg => ⟨hseg.1.sealed, hseg.2⟩

/-- A segment that must be rolled away from has records, so all segments can be closed. -/
theorem Holds.close (h : p.Holds records) (hmax : 1 ≤ p.maxSegBytes)
    (hroll : p.mustRoll = true) : Cut ClosedSegment 0 p.segments records := by
  obtain ⟨rolled, run, hclosed, hactive, rfl⟩ := h.segments
  refine hclosed.snoc ?_
  rw [Nat.zero_add]
  refine ⟨hactive, ?_⟩
  rintro rfl
  have hsize : p.active.sizeBytes = 0 := hactive.size
  have hge := UInt64.le_iff_toNat_le.mp (of_decide_eq_true hroll)
  have hone := UInt32.le_iff_toNat_le.mp hmax
  rw [hsize, UInt32.toNat_toUInt64] at hge
  simp only [UInt64.toNat_zero, UInt32.toNat_one] at hge hone
  omega

theorem Holds.rolled (h : p.Holds records) (hmax : 1 ≤ p.maxSegBytes) :
    p.rolled.Holds records := by
  unfold Partition.rolled
  split
  · next hroll =>
      refine ⟨⟨records, [], h.close hmax hroll, ?_, by simp⟩, h.next⟩
      exact freshSegment_holds _ h.next
  · exact h

@[simp] theorem rolled_nextOffset : p.rolled.nextOffset = p.nextOffset := by
  unfold Partition.rolled rollSegment
  split <;> rfl

@[simp] theorem rolled_hwm : p.rolled.hwm = p.hwm := by
  unfold Partition.rolled rollSegment
  split <;> rfl

@[simp] theorem rolled_maxSegBytes : p.rolled.maxSegBytes = p.maxSegBytes := by
  unfold Partition.rolled rollSegment
  split <;> rfl

/-- Records written to the active segment, with the next offset moved past them. -/
theorem Holds.write (h : p.Holds records) (hmore : Numbered records.length more)
    (hclosed : q.closed = p.closed) (hactive : q.active = p.active.append more)
    (hnext : q.nextOffset.toNat = records.length + more.length) :
    q.Holds (records ++ more) := by
  obtain ⟨rolled, run, hcut, hrun, rfl⟩ := h.segments
  refine ⟨⟨rolled, run ++ more, hclosed ▸ hcut, ?_, by simp⟩, ?_⟩
  · rw [List.length_append] at hmore
    rw [hactive]
    exact hrun.append hmore
  · rw [hnext]
    simp only [List.length_append]

/-- `append` adds the batch at the end and answers where it starts. -/
theorem Holds.append (h : p.Holds records) (now : UInt64) (hmax : 1 ≤ p.maxSegBytes)
    (hfit : ∀ rec ∈ batch, rec.Fits) (hlt : records.length + batch.length < 2 ^ 63) :
    (p.append batch now).1.Holds
        (records ++ place records.length (batch.map (Record.timed now))) ∧
      (p.append batch now).2 = records.length := by
  have hbase := h.logEndOffset (by omega)
  unfold Partition.append
  split
  · next hnil =>
      subst hnil
      simpa using ⟨h, hbase⟩
  · simp only [assignOffsets_eq, rolled_nextOffset, h.next]
    refine ⟨(h.rolled hmax).write (numbered_batch hfit hlt) rfl rfl ?_, hbase⟩
    rw [UInt64.toNat_add, h.next, UInt64.toNat_ofNat', place_length, List.length_map]
    omega

@[simp] theorem append_maxSegBytes : (p.append batch now).1.maxSegBytes = p.maxSegBytes := by
  unfold Partition.append
  split
  · rfl
  · exact rolled_maxSegBytes

/-- `append_replicated` adds a batch that starts at the log end. -/
theorem Holds.appendReplicated (h : p.Holds records) (hmax : 1 ≤ p.maxSegBytes)
    (hmore : Numbered records.length more) (hlt : records.length + more.length < 2 ^ 63) :
    (p.appendReplicated more).Holds (records ++ more) := by
  unfold Partition.appendReplicated
  split
  · next hnil =>
      obtain rfl := List.getLast?_eq_none_iff.mp hnil
      simpa using h
  · next last hlast =>
      obtain ⟨init, rfl⟩ := List.getLast?_eq_some_iff.mp hlast
      refine (h.rolled hmax).write hmore rfl rfl ?_
      have hoff := (numbered_cons.mp (numbered_append.mp hmore).2).1
      rw [List.length_append, List.length_singleton] at hlt ⊢
      rw [UInt64.toNat_add, hoff, UInt64.toNat_one]
      omega

@[simp] theorem appendReplicated_maxSegBytes :
    (p.appendReplicated more).maxSegBytes = p.maxSegBytes := by
  unfold Partition.appendReplicated
  split
  · rfl
  · exact rolled_maxSegBytes

/-- A crash during a write keeps all that was there and a part of what was written. -/
theorem Holds.tornAppend (h : p.Holds records) (hmax : 1 ≤ p.maxSegBytes)
    (hmore : Numbered records.length more) (cut : AppendCut) :
    ∃ kept, kept <+: more ∧ Directory.Holds (p.tornAppend more cut) (records ++ kept) := by
  have hsame : ∃ kept, kept <+: more ∧ Directory.Holds p.directory (records ++ kept) :=
    ⟨[], List.nil_prefix, by simpa using h.directory⟩
  unfold Partition.tornAppend
  split
  · exact hsame
  · cases cut with
    | untouched => exact hsame
    | logCreated =>
        simp only
        split
        · next hroll =>
            refine ⟨[], List.nil_prefix, _, List.Perm.refl _,
              .inr ⟨p.directory, _, records, [], rfl, ?_, ?_, rfl⟩⟩
            · exact (h.close hmax hroll).map Segment.files
                fun _ _ _ hseg => ⟨hseg.1.sealed, hseg.2⟩
            · exact ⟨h.next, ⟨[], rfl, .inl rfl⟩, numbered_nil⟩
        · exact hsame
    | rolled =>
        exact ⟨[], List.nil_prefix, by simpa using (h.rolled hmax).directory⟩
    | writing logBytes indexBytes =>
        obtain ⟨rolled, run, hcut, hrun, rfl⟩ := (h.rolled hmax).segments
        rw [List.length_append] at hmore
        obtain ⟨kept, hkept, hrec⟩ := hrun.torn hmore logBytes indexBytes
        refine ⟨kept, hkept, _, List.Perm.refl _,
          .inr ⟨_, _, rolled, run ++ kept, rfl, ?_, hrec, by simp⟩⟩
        exact hcut.map Segment.files fun _ _ _ hseg => ⟨hseg.1.sealed, hseg.2⟩

end Partition

/-! ## Recovery -/

theorem recover_holds (h : Directory.Holds listing records) (hlt : records.length < 2 ^ 63) :
    (Partition.recover maxSegBytes listing).Holds records := by
  obtain ⟨dir, hperm, h⟩ := h
  unfold Partition.recover
  rw [h.sort_eq hperm]
  rcases h with ⟨rfl, rfl⟩ | ⟨closed, last, rolled, run, rfl, hclosed, hlast, rfl⟩
  · exact ⟨⟨[], [], .nil 0, freshSegment_holds 0 rfl, rfl⟩, rfl⟩
  · rw [List.length_append] at hlt
    have hactive := Segment.scanAndRecover_holds (openSegment last) hlast hlt
    have hoff := Segment.scanAndRecover_last (openSegment last) hlast hlt
    simp only [List.getLast?_concat, List.dropLast_concat]
    refine ⟨⟨rolled, run, ?_, hactive, rfl⟩, ?_⟩
    · exact hclosed.map _ fun _ _ _ hf =>
        ⟨Segment.loadIndex_holds (openSegment _) hf.1, hf.2⟩
    · simp only [hoff]
      by_cases hrun : run = []
      · subst hrun
        simpa using hlast.base
      · obtain ⟨m, hm⟩ : ∃ m, rolled.length + run.length = m + 1 :=
          ⟨_, (Nat.succ_pred_eq_of_pos
            (Nat.add_pos_right _ (List.length_pos_of_ne_nil hrun))).symm⟩
        have hlast' : ((rolled.length + run.length : Nat) : Int) - 1 = m := by omega
        have hof : UInt64.ofInt m = UInt64.ofNat m := by
          have hmod : ((m : Int) % 2 ^ 64).toNat = m := by omega
          rw [UInt64.ofInt, hmod]
        rw [if_neg hrun, hlast', if_pos (Int.natCast_nonneg m), List.length_append, hm, hof,
          UInt64.toNat_add, UInt64.toNat_ofNat', UInt64.toNat_one]
        omega

@[simp] theorem recover_maxSegBytes :
    (Partition.recover maxSegBytes listing).maxSegBytes = maxSegBytes := by
  unfold Partition.recover
  dsimp only
  split <;> rfl

/-- A crash during recovery loses nothing either. -/
theorem tornRecover_holds (h : Directory.Holds listing records)
    (hlt : records.length < 2 ^ 63) (cut : RecoverCut) :
    Directory.Holds (tornRecover listing cut) records := by
  obtain ⟨dir, hperm, hdir⟩ := h
  have hsame : Directory.Holds listing records := ⟨dir, hperm, hdir⟩
  unfold tornRecover
  rw [hdir.sort_eq hperm]
  rcases hdir with ⟨rfl, rfl⟩ | ⟨closed, last, rolled, run, rfl, hclosed, hlast, rfl⟩
  · cases cut with
    | untouched => exact hsame
    | indexing n => exact hsame
    | logCreated =>
        exact ⟨_, List.Perm.refl _, .inr ⟨[], _, [], [], rfl, .nil 0,
          ⟨rfl, ⟨[], rfl, .inl rfl⟩, numbered_nil⟩, rfl⟩⟩
    | resized =>
        exact ⟨_, List.Perm.refl _, .inr ⟨[], _, [], [], rfl, .nil 0,
          (freshSegment_holds 0 rfl).recoverable, rfl⟩⟩
  · rw [List.length_append] at hlt
    have hactive := Segment.scanAndRecover_holds (openSegment last) hlast hlt
    simp only [List.getLast?_concat, List.dropLast_concat]
    cases cut with
    | untouched => exact hsame
    | logCreated => exact hsame
    | indexing n =>
        exact ⟨_, List.Perm.refl _, .inr ⟨closed, _, rolled, run, rfl, hclosed,
          ⟨hlast.base, hlast.log, hlast.numbered⟩, rfl⟩⟩
    | resized =>
        exact ⟨_, List.Perm.refl _, .inr ⟨closed, _, rolled, run, rfl, hclosed,
          hactive.recoverable, rfl⟩⟩

end MiniKafka.Storage
