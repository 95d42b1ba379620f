import MiniKafka.Storage.LongestRead

/-!
# Draining a log

The fetch loop of a consumer. Whatever budgets it is given, a read below the high watermark
answers at least one record and no record is passed over, so the loop ends at the high
watermark and has seen every record once.
-/

namespace MiniKafka.Storage

open Foundations Common

/-- The fetch loop from `position` on: the batches before the first empty one, and the
position then. Call `n` of the loop asks for `maxBytes n`. -/
def Partition.drain (p : Partition) (maxBytes : Nat → UInt32) :
    Nat → Nat → UInt64 → Option (List (List Record) × UInt64)
  | 0, _, _ => none
  | fuel + 1, call, position =>
      let batch := p.read (toI64 position) (maxBytes call)
      if batch = [] then some ([], position)
      else
        let next := batch.foldl (fun _ rec => rec.offset + 1) position
        (p.drain maxBytes fuel (call + 1) next).map fun rest => (batch :: rest.1, rest.2)

variable {p : Partition} {records : List Record} {maxSegBytes : UInt32}

/-- The first record is taken, however small the budget. -/
theorem mem_capBytes_cons {α : Type*} {recSize : α → UInt32} {maxBytes bytesUsed : UInt32}
    (first : α) (rest : List α) :
    first ∈ capBytes recSize maxBytes bytesUsed true (first :: rest) := by
  rw [capBytes]
  split
  · exact List.mem_cons_self
  · exact List.mem_cons_self

theorem capBytes_ne_nil {α : Type*} {recSize : α → UInt32} {maxBytes bytesUsed : UInt32}
    {items : List α} (h : items ≠ []) :
    capBytes recSize maxBytes bytesUsed true items ≠ [] := by
  obtain ⟨first, rest, rfl⟩ := List.exists_cons_of_ne_nil h
  exact List.ne_nil_of_mem (mem_capBytes_cons first rest)

/-- What a read answers, in the list of all records. -/
theorem Partition.Holds.read_below (h : p.Holds records) (hlt : records.length < 2 ^ 63)
    (hcount : p.Countable) {hwm start : Nat} (hhwm : p.hwm = hwm) (hle : hwm ≤ records.length)
    (hstart : start < hwm) (maxBytes : UInt32) :
    ∃ b, 0 < b ∧ start + b ≤ hwm ∧ p.read start maxBytes = (records.drop start).take b := by
  have hread : p.read start maxBytes = capBytes Record.recSize maxBytes 0 true
      ((records.drop start).take (hwm - start)) := by
    rw [Partition.read, h.readClamped_window hlt hcount, hhwm, h.numbered.window_eq]
  have havailable : ((records.drop start).take (hwm - start)).length = hwm - start := by
    rw [List.length_take, List.length_drop]
    omega
  have hne : (records.drop start).take (hwm - start) ≠ [] := by
    apply List.ne_nil_of_length_pos
    omega
  have hpart : p.read start maxBytes <+: (records.drop start).take (hwm - start) := by
    rw [hread]
    exact capBytes_part _ _ _ _ _
  refine ⟨(p.read start maxBytes).length, ?_, ?_, ?_⟩
  · apply List.length_pos_of_ne_nil
    rw [hread]
    exact capBytes_ne_nil hne
  · have hlen := hpart.length_le
    omega
  · exact List.prefix_iff_eq_take.mp (hpart.trans (List.take_prefix _ _))

/-- The position moves past the last record of a batch. -/
theorem Numbered.next_position {n : Nat} (h : Numbered n records) (hne : records ≠ [])
    (position : UInt64) :
    records.foldl (fun _ rec => rec.offset + 1) position =
      UInt64.ofNat (n + records.length) := by
  obtain ⟨init, last, rfl⟩ := (List.eq_nil_or_concat' records).resolve_left hne
  have hlast := (numbered_cons.mp (numbered_append.mp h).2).1
  rw [List.foldl_append, List.foldl_cons, List.foldl_nil, List.length_append,
    List.length_singleton, ← Nat.add_assoc, ← hlast, UInt64.ofNat_add, UInt64.ofNat_toNat]
  rfl

theorem Numbered.offsets {n : Nat} (h : Numbered n records) :
    records.map (fun rec => rec.offset.toNat) = List.range' n records.length := by
  induction records generalizing n with
  | nil => rfl
  | cons rec rest ih =>
      obtain ⟨hoff, -, hrest⟩ := numbered_cons.mp h
      rw [List.map_cons, ih hrest, hoff, List.length_cons, List.range'_succ]

/-- Each turn of the loop takes some of what is left below the high watermark. -/
theorem Partition.Holds.drain (h : p.Holds records) (hlt : records.length < 2 ^ 63)
    (hcount : p.Countable) {hwm : Nat} (hhwm : p.hwm = hwm) (hle : hwm ≤ records.length)
    (maxBytes : Nat → UInt32) (call : Nat) {fuel start : Nat} (hstart : start ≤ hwm)
    (hfuel : hwm - start < fuel) :
    ∃ batches, p.drain maxBytes fuel call (UInt64.ofNat start) =
        some (batches, UInt64.ofNat hwm) ∧
      batches.flatten = (records.drop start).take (hwm - start) := by
  induction fuel generalizing call start with
  | zero => omega
  | succ fuel ih =>
      have hsmall : start < 2 ^ 63 := by omega
      rw [Partition.drain, toI64_ofNat hsmall]
      by_cases hend : start = hwm
      · subst hend
        have hread : p.read start (maxBytes call) = [] := if_pos hhwm.le
        refine ⟨[], ?_, by simp⟩
        rw [hread, if_pos rfl]
      · have hbelow : start < hwm := by omega
        obtain ⟨b, hpos, hb, hread⟩ :=
          h.read_below hlt hcount hhwm hle hbelow (maxBytes call)
        have hlen : ((records.drop start).take b).length = b := by
          rw [List.length_take, List.length_drop]
          omega
        have hne : (records.drop start).take b ≠ [] := by
          apply List.ne_nil_of_length_pos
          omega
        have hbatch : Numbered start ((records.drop start).take b) :=
          (h.numbered.drop (by omega)).part (List.take_prefix _ _)
        have hfuel' : hwm - (start + b) < fuel := by omega
        obtain ⟨rest, hrest, hflat⟩ := ih (call + 1) hb hfuel'
        refine ⟨(records.drop start).take b :: rest, ?_, ?_⟩
        · simp only [hread, if_neg hne, hbatch.next_position hne, hlen, hrest,
            Option.map_some]
        · have hsplit : hwm - start = b + (hwm - (start + b)) := by omega
          rw [List.flatten_cons, hflat, hsplit, List.take_add, List.drop_drop]

/-- Draining a log loses and repeats nothing: from any position up to the high watermark the
loop ends there, with as many turns as there are records at most and one more, and its
batches are the records in between, in order. -/
theorem drain_complete (hmax : 1 ≤ maxSegBytes) (h : Reached maxSegBytes (.running p))
    (hcount : p.Countable) (hhwm : p.hwm ≤ p.logEndOffset) {start : Nat}
    (hstart : (start : Int) ≤ p.hwm) (maxBytes : Nat → UInt32) {fuel : Nat}
    (hfuel : p.hwm - start < fuel) :
    ∃ batches stop, p.drain maxBytes fuel 0 (UInt64.ofNat start) = some (batches, stop) ∧
      toI64 stop = p.hwm ∧
      batches.flatten = window p.records start p.hwm ∧
      batches.flatten.map (fun rec => rec.offset.toNat) =
        List.range' start (p.hwm - start).toNat := by
  obtain ⟨hp, -, hlt⟩ := h.partition hmax
  rw [hp.logEndOffset hlt] at hhwm
  obtain ⟨hwm, hnat⟩ : ∃ hwm : Nat, p.hwm = hwm := ⟨p.hwm.toNat, by omega⟩
  have hbelow : start ≤ hwm := by omega
  have hturns : hwm - start < fuel := by omega
  obtain ⟨batches, hdrain, hflat⟩ := hp.drain hlt hcount hnat (by omega) maxBytes 0 hbelow hturns
  refine ⟨batches, _, hdrain, ?_, ?_, ?_⟩
  · have hsmall : hwm < 2 ^ 63 := by omega
    rw [toI64_ofNat hsmall, hnat]
  · rw [hflat, hnat, hp.numbered.window_eq]
  · have hrest : Numbered start (p.records.drop start) := hp.numbered.drop (by omega)
    have hlen : ((p.records.drop start).take (hwm - start)).length = (p.hwm - start).toNat := by
      rw [List.length_take, List.length_drop]
      omega
    rw [hflat, (hrest.part (List.take_prefix _ _)).offsets, hlen]

/-- The two records of the small partition, drained one at a time. -/
theorem drain_complete_small :
    ∃ batches stop, smallPartition.drain (fun _ => 0) 3 0 (UInt64.ofNat 0) =
        some (batches, stop) ∧
      toI64 stop = smallPartition.hwm ∧
      batches.flatten = window smallPartition.records (0 : Nat) smallPartition.hwm ∧
      batches.flatten.map (fun rec => rec.offset.toNat) =
        List.range' 0 (smallPartition.hwm - (0 : Nat)).toNat := by
  have hcount : smallPartition.Countable := by decide +kernel
  have hhwm : smallPartition.hwm ≤ smallPartition.logEndOffset := by decide +kernel
  have hstart : ((0 : Nat) : Int) ≤ smallPartition.hwm := by decide +kernel
  have hfuel : smallPartition.hwm - (0 : Nat) < (3 : Nat) := by decide +kernel
  exact drain_complete (by decide) reached_small hcount hhwm hstart (fun _ => 0) hfuel

end MiniKafka.Storage
