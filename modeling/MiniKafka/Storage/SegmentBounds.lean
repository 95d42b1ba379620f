import MiniKafka.Storage.CrashRecovery
import MiniKafka.Storage.PartitionRead

/-!
# How large segments grow

A batch reaches a leader in one request frame. A segment below `maxSegBytes` takes one
more batch before it is rolled away from, so its index can count it.
-/

namespace MiniKafka.Storage

open Foundations Common

/-- The frames of a batch that came in one request frame. -/
def OneFrame (batch : List Record) : Prop := (encodeAll batch).length < 2 ^ 32

variable {p : Partition} {records more batch : List Record} {dir listing : Directory}

theorem OneFrame.fits (h : OneFrame batch) : ∀ rec ∈ batch, rec.Fits := by
  intro rec hrec
  obtain ⟨before, after, rfl⟩ := List.append_of_mem hrec
  rw [OneFrame, encodeAll_append, encodeAll_cons] at h
  simp only [List.length_append] at h
  rw [Record.Fits]
  omega

theorem encodeAll_place_length (n : Nat) (ts : UInt64) (batch : List Record) :
    (encodeAll (place n (batch.map (Record.timed ts)))).length = (encodeAll batch).length := by
  induction batch generalizing n with
  | nil => rfl
  | cons rec rest ih =>
      rw [List.map_cons, place_cons, encodeAll_cons, encodeAll_cons, List.length_append,
        List.length_append, ih, encodeRecord_length, encodeRecord_length]
      rfl

theorem Segment.append_log (seg : Segment) (more : List Record) :
    (seg.append more).files.log = seg.files.log ++ encodeAll more := by
  induction more generalizing seg with
  | nil => simp [Segment.append]
  | cons rec rest ih =>
      have htail := ih (seg.appendRecord rec)
      rw [appendRecord_log, List.append_assoc, ← encodeAll_cons] at htail
      exact htail

theorem bounded_append {dir' : Directory} :
    Directory.Bounded (dir ++ dir') ↔ dir.Bounded ∧ dir'.Bounded := by
  simp [Directory.Bounded, or_imp, forall_and]

theorem bounded_singleton {f : SegmentFiles} :
    Directory.Bounded [f] ↔ f.log.length < 2 ^ 33 := by
  simp [Directory.Bounded]

theorem Directory.Bounded.perm (h : dir.Bounded) (hperm : listing.Perm dir) :
    listing.Bounded :=
  fun f hf => h f (hperm.subset hf)

namespace Partition

theorem directory_eq (p : Partition) :
    p.directory = p.closed.map Segment.files ++ [p.active.files] := by
  simp [Partition.directory, Partition.segments]

theorem rolled_bounded (h : p.directory.Bounded) : p.rolled.directory.Bounded := by
  unfold Partition.rolled
  split
  · rw [directory_eq, bounded_append]
    refine ⟨?_, bounded_singleton.mpr (Nat.two_pow_pos 33)⟩
    simpa [Partition.rollSegment, Partition.directory, Partition.segments] using h
  · exact h

/-- After the roll the active segment is below `maxSegBytes`. -/
theorem Holds.rolled_small (h : p.Holds records) (hbound : p.directory.Bounded) :
    p.rolled.active.files.log.length < 2 ^ 32 := by
  unfold Partition.rolled
  split
  · exact (by decide : 0 < 2 ^ 32)
  · next hroll =>
      obtain ⟨rolled, run, -, hactive, -⟩ := h.segments
      have hlen := (bounded_append.mp (p.directory_eq ▸ hbound)).2
      rw [bounded_singleton] at hlen
      have hsize := hactive.size
      rw [← hactive.log] at hsize
      have hlt : ¬ p.active.sizeBytes ≥ p.maxSegBytes.toUInt64 := by
        simpa [Partition.mustRoll] using hroll
      rw [hsize, ge_iff_le, UInt64.le_iff_toNat_le, UInt32.toNat_toUInt64,
        UInt64.toNat_ofNat_of_lt' (by simp only [UInt64.size]; omega)] at hlt
      have hmax := p.maxSegBytes.toNat_lt
      omega

theorem Holds.written_bounded (h : p.Holds records) (hbound : p.directory.Bounded)
    (hmore : OneFrame more) :
    Directory.Bounded (p.rolled.closed.map Segment.files ++
      [(p.rolled.active.append more).files]) := by
  have hrolled := rolled_bounded hbound
  rw [directory_eq, bounded_append] at hrolled
  refine bounded_append.mpr ⟨hrolled.1, bounded_singleton.mpr ?_⟩
  have hsmall := h.rolled_small hbound
  rw [OneFrame] at hmore
  rw [Segment.append_log, List.length_append]
  omega

theorem Holds.append_bounded (h : p.Holds records) (hbound : p.directory.Bounded)
    (hbatch : OneFrame batch) (now : UInt64) : (p.append batch now).1.directory.Bounded := by
  unfold Partition.append
  split
  · exact hbound
  · rw [directory_eq]
    refine h.written_bounded hbound ?_
    rw [assignOffsets_eq, OneFrame, encodeAll_place_length]
    exact hbatch

theorem Holds.tornAppend_bounded (h : p.Holds records) (hbound : p.directory.Bounded)
    (hmore : OneFrame more) (cut : AppendCut) : (p.tornAppend more cut).Bounded := by
  unfold Partition.tornAppend
  split
  · exact hbound
  · cases cut with
    | untouched => exact hbound
    | logCreated =>
        simp only
        split
        · exact bounded_append.mpr ⟨hbound, bounded_singleton.mpr (Nat.two_pow_pos 33)⟩
        · exact hbound
    | rolled => exact rolled_bounded hbound
    | writing logBytes indexBytes =>
        have hwritten := bounded_append.mp (h.written_bounded hbound hmore)
        refine bounded_append.mpr ⟨hwritten.1, bounded_singleton.mpr ?_⟩
        exact (List.length_take_le' _ _).trans_lt (bounded_singleton.mp hwritten.2)

end Partition

/-! ## Recovery -/

theorem sortDirectory_bounded (h : listing.Bounded) : (sortDirectory listing).Bounded :=
  h.perm (List.perm_insertionSort _ _)

theorem scanAndRecover_log_le (seg : Segment) :
    seg.scanAndRecover.1.files.log.length ≤ seg.files.log.length := by
  change (seg.scan.seg.files.log.take _).length ≤ _
  rw [Segment.scan_log]
  exact List.length_take_le' _ _

/-- All segments but the last are left alone by recovery, and the last only shrinks. -/
theorem recovered_bounded {files : Directory} {last : SegmentFiles} (h : files.Bounded)
    (hlast : files.getLast? = some last) {f : SegmentFiles}
    (hle : f.log.length ≤ last.log.length) : Directory.Bounded (files.dropLast ++ [f]) :=
  bounded_append.mpr ⟨fun g hg => h g (List.mem_of_mem_dropLast hg),
    bounded_singleton.mpr (hle.trans_lt (h last (List.mem_of_getLast? hlast)))⟩

theorem recover_bounded (maxSegBytes : UInt32) (h : listing.Bounded) :
    (Partition.recover maxSegBytes listing).directory.Bounded := by
  have hsorted := sortDirectory_bounded h
  unfold Partition.recover
  dsimp only
  split
  · exact bounded_singleton.mpr (Nat.two_pow_pos 33)
  · next last hlast =>
      have hrec := recovered_bounded hsorted hlast (scanAndRecover_log_le (openSegment last))
      rw [Partition.directory_eq, List.map_map]
      have hfiles : Segment.files ∘ (fun f => (openSegment f).loadIndex) = id := rfl
      rw [hfiles, List.map_id]
      exact hrec

theorem tornRecover_bounded (h : listing.Bounded) (cut : RecoverCut) :
    (tornRecover listing cut).Bounded := by
  have hsorted := sortDirectory_bounded h
  unfold tornRecover
  dsimp only
  split
  · exact bounded_singleton.mpr (Nat.two_pow_pos 33)
  · exact bounded_singleton.mpr (Nat.two_pow_pos 33)
  · next last n hlast => exact recovered_bounded hsorted hlast (Nat.le_refl _)
  · next last hlast =>
      exact recovered_bounded hsorted hlast (scanAndRecover_log_le (openSegment last))
  · exact h

/-! ## Stores -/

def Store.directory : Store → Directory
  | .running p => p.directory
  | .stopped dir => dir

/-- The batch an event writes. -/
def StoreEvent.written : StoreEvent → List Record
  | .append batch _ _ | .crashInAppend batch _ _ => batch
  | .crash | .recover _ | .crashInRecover _ _ => []

theorem storeStep_bounded {maxSegBytes : UInt32} {s t : Store} {e : StoreEvent}
    (h : s.Holds maxSegBytes records) (hbound : s.directory.Bounded)
    (hframe : OneFrame e.written) (hstep : storeStep maxSegBytes s e = some t) :
    t.directory.Bounded := by
  rcases storeStep_cases hstep with ⟨p, batch, now, rfl, rfl, rfl⟩ |
    ⟨p, batch, now, cut, rfl, rfl, rfl⟩ | ⟨p, rfl, rfl, rfl⟩ |
    ⟨dir, listing, rfl, rfl, hperm, rfl⟩ | ⟨dir, listing, cut, rfl, rfl, hperm, rfl⟩
  · exact h.of_running.1.append_bounded hbound hframe now
  · refine h.of_running.1.tornAppend_bounded hbound ?_ cut
    rw [assignOffsets_eq, OneFrame, encodeAll_place_length]
    exact hframe
  · exact hbound
  · exact recover_bounded _ (hbound.perm hperm)
  · exact tornRecover_bounded (hbound.perm hperm) cut

end MiniKafka.Storage
