import MiniKafka.Storage.Draining
import MiniKafka.Storage.PartitionRefinement
import MiniKafka.Storage.SegmentBounds

/-!
# A store as its readers see it

The store of a partition that no follower copies. Whenever its process runs, readers are
shown the whole log: a read from an offset answers a first part of what lies behind it, and
answers nothing only at the end.
-/

namespace MiniKafka.Storage

open Foundations Common

/-- A store with these records, all of them shown while it runs. -/
structure Store.Serving (maxSegBytes : UInt32) (s : Store) (records : List Record) : Prop where
  holds : s.Holds maxSegBytes records
  bounded : s.directory.Bounded
  shown : ∀ p, s = .running p → p.hwm = records.length

def Store.isRunning : Store → Bool
  | .running _ => true
  | .stopped _ => false

theorem Store.isRunning_iff {s : Store} : s.isRunning = true ↔ ∃ p, s = .running p := by
  cases s with
  | running p => exact ⟨fun _ => ⟨p, rfl⟩, fun _ => rfl⟩
  | stopped dir => exact ⟨nofun, nofun⟩

/-- The batch of an append came in one request, and the log stays countable. -/
def Sent (s : Store) (e : StoreEvent) : Prop := AppendsFit s e ∧ OneFrame e.written

instance (s : Store) (e : StoreEvent) : Decidable (Sent s e) :=
  inferInstanceAs (Decidable (_ ∧ (_ : Nat) < _))

variable {maxSegBytes : UInt32} {s t : Store} {e : StoreEvent} {p : Partition}
  {records : List Record}

theorem Store.serving_empty : Store.Serving maxSegBytes (.stopped []) [] where
  holds := .stopped ⟨[], .refl _, .inl ⟨rfl, rfl⟩⟩ (Nat.two_pow_pos 63)
  bounded := by
    intro f hf
    cases hf
  shown := nofun

theorem recover_hwm (maxSegBytes : UInt32) (listing : Directory) :
    (Partition.recover maxSegBytes listing).hwm =
      (Partition.recover maxSegBytes listing).logEndOffset := by
  unfold Partition.recover
  dsimp only
  split
  · rfl
  · rfl

/-- An event adds at the end what it keeps of its batch, and the log is shown again. -/
theorem Store.Serving.step (hmax : 1 ≤ maxSegBytes) (h : s.Serving maxSegBytes records)
    (sent : Sent s e) (hstep : storeStep maxSegBytes s e = some t) :
    ∃ part, Keeps e part ∧ t.Serving maxSegBytes (records ++ place records.length part) ∧
      ∀ batch now base, e = .append batch now base → base = records.length := by
  obtain ⟨part, hpart⟩ := storeStep_extends hmax h.holds sent.1 hstep
  have hbounded := storeStep_bounded h.holds h.bounded sent.2 hstep
  refine ⟨part, hpart.keeps, ⟨hpart.holds, hbounded, ?_⟩, hpart.answers⟩
  rintro q rfl
  obtain ⟨hq, -, hlt⟩ := hpart.holds.of_running
  rw [← hq.logEndOffset hlt]
  rcases storeStep_cases hstep with ⟨p, batch, now, rfl, rfl, ht⟩ |
    ⟨p, batch, now, cut, rfl, rfl, ht⟩ | ⟨p, rfl, rfl, ht⟩ |
    ⟨dir, listing, rfl, rfl, -, ht⟩ | ⟨dir, listing, cut, rfl, rfl, -, ht⟩
  · obtain rfl := Store.running.inj ht
    by_cases hne : batch = []
    · subst hne
      obtain ⟨hp, -, hlt'⟩ := h.holds.of_running
      exact (h.shown p rfl).trans (hp.logEndOffset hlt').symm
    · exact Partition.append_hwm hne
  · cases ht
  · cases ht
  · obtain rfl := Store.running.inj ht
    exact recover_hwm maxSegBytes listing
  · cases ht

section Events

variable {dir listing : Directory} {batch : List Record}

theorem oneFrame_nil : OneFrame [] := Nat.two_pow_pos 32

theorem Store.Serving.recover (hmax : 1 ≤ maxSegBytes)
    (h : (Store.stopped dir).Serving maxSegBytes records) (hperm : listing.Perm dir) :
    (Store.running (Partition.recover maxSegBytes listing)).Serving maxSegBytes records := by
  have sent : Sent (.stopped dir) (.recover listing) := ⟨trivial, oneFrame_nil⟩
  obtain ⟨part, hkeeps, hrun, -⟩ := h.step hmax sent (if_pos hperm)
  cases hkeeps
  rwa [place_nil, List.append_nil] at hrun

theorem Store.Serving.tornRecover (hmax : 1 ≤ maxSegBytes)
    (h : (Store.stopped dir).Serving maxSegBytes records) (hperm : listing.Perm dir)
    (cut : RecoverCut) :
    (Store.stopped (tornRecover listing cut)).Serving maxSegBytes records := by
  have sent : Sent (.stopped dir) (.crashInRecover listing cut) := ⟨trivial, oneFrame_nil⟩
  obtain ⟨part, hkeeps, hstop, -⟩ := h.step hmax sent (if_pos hperm)
  cases hkeeps
  rwa [place_nil, List.append_nil] at hstop

theorem Store.Serving.crash (hmax : 1 ≤ maxSegBytes)
    (h : (Store.running p).Serving maxSegBytes records) :
    (Store.stopped p.directory).Serving maxSegBytes records := by
  have sent : Sent (.running p) .crash := ⟨trivial, oneFrame_nil⟩
  obtain ⟨part, hkeeps, hstop, -⟩ := h.step hmax sent rfl
  cases hkeeps
  rwa [place_nil, List.append_nil] at hstop

/-- A batch that came in one request is put at the end and answered with its place. -/
theorem Store.Serving.append (hmax : 1 ≤ maxSegBytes)
    (h : (Store.running p).Serving maxSegBytes records) (frame : OneFrame batch)
    (count : records.length + batch.length < 2 ^ 63) (now : UInt64) :
    (Store.running (p.append batch now).1).Serving maxSegBytes
        (records ++ place records.length (batch.map (Record.timed now))) ∧
      (p.append batch now).2 = records.length := by
  have fits : BatchFits p batch := by
    refine ⟨frame.fits, ?_⟩
    rwa [h.holds.of_running.1.records_eq]
  have sent : Sent (.running p) (.append batch now (p.append batch now).2) := ⟨fits, frame⟩
  obtain ⟨part, hkeeps, hrun, hbase⟩ := h.step hmax sent (if_pos rfl)
  cases hkeeps
  exact ⟨hrun, hbase _ _ _ rfl⟩

/-- Of a batch whose write is cut off, a first part is kept. -/
theorem Store.Serving.tornAppend (hmax : 1 ≤ maxSegBytes)
    (h : (Store.running p).Serving maxSegBytes records) (frame : OneFrame batch)
    (count : records.length + batch.length < 2 ^ 63) (now : UInt64) (cut : AppendCut) :
    ∃ part, part <+: batch ∧
      (Store.stopped (p.tornAppend (assignOffsets now p.nextOffset batch).1 cut)).Serving
        maxSegBytes (records ++ place records.length (part.map (Record.timed now))) := by
  have fits : BatchFits p batch := by
    refine ⟨frame.fits, ?_⟩
    rwa [h.holds.of_running.1.records_eq]
  have sent : Sent (.running p) (.crashInAppend batch now cut) := ⟨fits, frame⟩
  obtain ⟨part, hkeeps, hstop, -⟩ := h.step hmax sent rfl
  cases hkeeps with
  | torn now cut hpart => exact ⟨_, hpart, hstop⟩

end Events

/-- A read up to the log end answers something from every offset below it. -/
theorem Partition.Holds.readUpToLeo_ne_nil (h : p.Holds records) (hlt : records.length < 2 ^ 63)
    (hbound : p.directory.Bounded) {start : Nat} (hin : start < records.length)
    (maxBytes : UInt32) : p.readUpToLeo start maxBytes ≠ [] := by
  have hleo : toI64 p.nextOffset = (records.length : Nat) := h.logEndOffset hlt
  rw [Partition.readUpToLeo, hleo, h.readClamped_window hlt (h.countable hbound),
    h.numbered.window_eq]
  apply capBytes_ne_nil
  apply List.ne_nil_of_length_pos
  rw [List.length_take, List.length_drop]
  omega

/-- What a read from an offset that the wire can carry as one answers. -/
theorem Store.Serving.read (h : (Store.running p).Serving maxSegBytes records)
    {offset : UInt64} (hoffset : offset.toNat < 2 ^ 63) (maxBytes : UInt32) :
    p.read (toI64 offset) maxBytes <+: records.drop offset.toNat ∧
      (p.read (toI64 offset) maxBytes = [] → records.length ≤ offset.toNat) := by
  obtain ⟨hp, -, hlt⟩ := h.holds.of_running
  have hhwm := h.shown p rfl
  rw [toI64_of_lt hoffset]
  rcases Nat.lt_or_ge offset.toNat records.length with hin | hout
  · obtain ⟨b, hpos, hb, hread⟩ := hp.read_below hlt (hp.countable h.bounded) hhwm
      (Nat.le_refl _) hin maxBytes
    rw [hread]
    refine ⟨List.take_prefix _ _, fun hnil => ?_⟩
    have hlen := congrArg List.length hnil
    rw [List.length_take, List.length_drop, List.length_nil] at hlen
    omega
  · have hnil : p.read (offset.toNat : Int) maxBytes = [] := by
      rw [Partition.read, Partition.readClamped, hhwm, if_pos (by omega)]
    rw [hnil]
    exact ⟨List.nil_prefix, fun _ => hout⟩

end MiniKafka.Storage
