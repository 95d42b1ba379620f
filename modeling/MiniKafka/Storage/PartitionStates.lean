import MiniKafka.Storage.SegmentBounds

/-!
# Reachable partitions

The states of a store under everything that is done to a partition: recoveries and crashes,
the appends of a leader and of a follower, and new high watermarks.
-/

namespace MiniKafka.Storage

open Foundations Common

/-- A leader's batch starts where the follower's log ends. -/
structure Follows (p : Partition) (batch : List Record) : Prop where
  numbered : Numbered p.records.length batch
  count : p.records.length + batch.length < 2 ^ 63

/-- What a store that starts with an empty directory can become. -/
inductive Reached (maxSegBytes : UInt32) : Store → Prop
  | empty : Reached maxSegBytes (.stopped [])
  | store {s e t} (before : Reached maxSegBytes s) (fit : AppendsFit s e)
      (h : storeStep maxSegBytes s e = some t) : Reached maxSegBytes t
  | replicated {p batch} (before : Reached maxSegBytes (.running p))
      (h : Follows p batch) : Reached maxSegBytes (.running (p.appendReplicated batch))
  | watermark {p} (before : Reached maxSegBytes (.running p)) (hwm : Int) :
      Reached maxSegBytes (.running (p.setHighWatermark hwm))

variable {maxSegBytes : UInt32} {s : Store} {p : Partition} {records batch : List Record}

theorem Store.holds_empty : Store.Holds maxSegBytes (.stopped []) [] :=
  .stopped ⟨[], .refl _, .inl ⟨rfl, rfl⟩⟩ (Nat.two_pow_pos 63)

theorem Reached.holds_some (hmax : 1 ≤ maxSegBytes) (h : Reached maxSegBytes s) :
    ∃ records, s.Holds maxSegBytes records := by
  induction h with
  | empty => exact ⟨[], Store.holds_empty⟩
  | store _ fit hstep ih =>
      obtain ⟨records, hrecords⟩ := ih
      obtain ⟨part, hpart⟩ := storeStep_extends hmax hrecords fit hstep
      exact ⟨_, hpart.holds⟩
  | @replicated p batch _ hbatch ih =>
      obtain ⟨records, hrecords⟩ := ih
      obtain ⟨hp, hsize, -⟩ := hrecords.of_running
      have hnumbered := hbatch.numbered
      have hcount := hbatch.count
      rw [hp.records_eq] at hnumbered hcount
      have happ := hp.appendReplicated (hsize ▸ hmax) hnumbered hcount
      refine ⟨records ++ batch, .running happ ?_ ?_⟩
      · rw [Partition.appendReplicated_maxSegBytes, hsize]
      · rwa [List.length_append]
  | watermark _ hwm ih =>
      obtain ⟨records, hrecords⟩ := ih
      obtain ⟨hp, hsize, hlt⟩ := hrecords.of_running
      exact ⟨records, .running (hp.setHighWatermark hwm) hsize hlt⟩

/-- A reached store holds the records that it is read as. -/
theorem Reached.holds (hmax : 1 ≤ maxSegBytes) (h : Reached maxSegBytes s) :
    s.Holds maxSegBytes s.records := by
  obtain ⟨records, hrecords⟩ := h.holds_some hmax
  rw [hrecords.records_eq]
  exact hrecords

theorem Reached.partition (hmax : 1 ≤ maxSegBytes) (h : Reached maxSegBytes (.running p)) :
    p.Holds p.records ∧ p.maxSegBytes = maxSegBytes ∧ p.records.length < 2 ^ 63 :=
  (h.holds hmax).of_running

theorem Reached.recover {dir listing : Directory} (h : Reached maxSegBytes (.stopped dir))
    (hperm : listing.Perm dir) :
    Reached maxSegBytes (.running (Partition.recover maxSegBytes listing)) :=
  .store h (e := .recover listing) trivial (if_pos hperm)

theorem Reached.append (h : Reached maxSegBytes (.running p)) (hfit : BatchFits p batch)
    (now : UInt64) : Reached maxSegBytes (.running (p.append batch now).1) :=
  .store h (e := .append batch now (p.append batch now).2) hfit (if_pos rfl)

end MiniKafka.Storage
