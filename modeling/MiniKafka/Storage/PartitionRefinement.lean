import MiniKafka.Storage.PartitionRead

/-!
# Partitions refine replica logs

The list of records that the broker model keeps for a replica is what the files of a
partition hold: each operation on the files is the operation of the list.
-/

namespace MiniKafka.Storage

open Foundations Common

def Record.producer (rec : Record) : ProducerRecord := ⟨rec.key, rec.value⟩

theorem Record.entry_injective : Function.Injective Record.entry := by
  intro r s h
  cases r
  cases s
  simp only [Record.entry, LogEntry.mk.injEq] at h
  simpa [← UInt64.toNat_inj] using h

/-- The abstract log of a partition. -/
def Partition.toLog (p : Partition) : ReplicaLog where
  records := p.records.map Record.entry
  nextOffset := p.nextOffset.toNat
  hwm := p.hwm.toNat

variable {p : Partition} {records more batch : List Record} {now : UInt64} {n : Nat}

theorem entry_recSize (rec : Record) : rec.entry.recSize = rec.recSize := by
  simp [LogEntry.recSize, Record.recSize, Record.entry]

theorem place_entry (h : n + batch.length < 2 ^ 63) :
    (place n (batch.map (Record.timed now))).map Record.entry =
      stamp now n (batch.map Record.producer) := by
  induction batch generalizing n with
  | nil => rfl
  | cons rec rest ih =>
      rw [List.length_cons] at h
      have hoff : (UInt64.ofNat n).toNat = n :=
        UInt64.toNat_ofNat_of_lt' (by simp only [UInt64.size]; omega)
      rw [List.map_cons, place_cons, List.map_cons, List.map_cons, stamp, ih (by omega)]
      simp only [Record.entry, Record.timed, Record.producer, hoff]

theorem capBytes_map {α β : Type*} (g : α → β) {size : α → UInt32} {size' : β → UInt32}
    (hsize : ∀ a, size' (g a) = size a) (maxBytes bytesUsed : UInt32) (first : Bool)
    (items : List α) :
    (capBytes size maxBytes bytesUsed first items).map g =
      capBytes size' maxBytes bytesUsed first (items.map g) := by
  induction items generalizing bytesUsed first with
  | nil => rfl
  | cons a rest ih =>
      simp only [capBytes, List.map_cons, hsize]
      split
      · split <;> rfl
      · rw [List.map_cons, ih]

theorem takeWhile_congr {α : Type*} {f g : α → Bool} {items : List α}
    (h : ∀ a ∈ items, f a = g a) : items.takeWhile f = items.takeWhile g := by
  induction items with
  | nil => rfl
  | cons a rest ih =>
      rw [List.takeWhile_cons, List.takeWhile_cons, h a List.mem_cons_self,
        ih fun b hb => h b (List.mem_cons_of_mem a hb)]

namespace Partition

theorem Holds.dense (h : p.Holds records) : p.toLog.Dense where
  contiguous := by
    change Contiguous 0 (p.records.map Record.entry)
    rw [h.records_eq]
    exact h.numbered.contiguous
  next := by
    change p.nextOffset.toNat = (p.records.map Record.entry).length
    rw [List.length_map, h.records_eq, h.next]

theorem Holds.toLog_eq (h : p.Holds records) :
    p.toLog = ⟨records.map Record.entry, records.length, p.hwm.toNat⟩ := by
  rw [toLog, h.records_eq, h.next]

theorem append_hwm (hne : batch ≠ []) :
    (p.append batch now).1.hwm = (p.append batch now).1.logEndOffset := by
  unfold Partition.append
  rw [if_neg hne]
  rfl

theorem Holds.append_refines (h : p.Holds records) (now : UInt64) (hmax : 1 ≤ p.maxSegBytes)
    (hfit : ∀ rec ∈ batch, rec.Fits) (hlt : records.length + batch.length < 2 ^ 63) :
    (p.append batch now).1.toLog = (p.toLog.append now (batch.map Record.producer)).1 ∧
      (p.append batch now).2 = (p.toLog.append now (batch.map Record.producer)).2 := by
  obtain ⟨happ, hbase⟩ := h.append now hmax hfit hlt
  refine ⟨?_, by rw [hbase, ReplicaLog.append_base, h.toLog_eq]⟩
  by_cases hne : batch = []
  · subst hne
    rfl
  · have hleo := happ.logEndOffset (by
      rw [List.length_append, place_length, List.length_map]
      exact hlt)
    rw [happ.toLog_eq, append_hwm hne, hleo, h.toLog_eq, ReplicaLog.append, if_neg (by simpa)]
    have htoNat : ((records.length : Int) + batch.length).toNat =
        records.length + batch.length := by omega
    simp [place_entry hlt, htoNat]

theorem Holds.appendReplicated_refines (h : p.Holds records) (hmax : 1 ≤ p.maxSegBytes)
    (hmore : Numbered records.length more) (hlt : records.length + more.length < 2 ^ 63) :
    (p.appendReplicated more).toLog = p.toLog.appendReplicated (more.map Record.entry) := by
  have happ := h.appendReplicated hmax hmore hlt
  have hhwm : (p.appendReplicated more).hwm = p.hwm := by
    unfold Partition.appendReplicated
    split
    · rfl
    · exact rolled_hwm
  rw [happ.toLog_eq, hhwm, h.toLog_eq, ReplicaLog.appendReplicated, List.getLast?_map]
  cases hlast : more.getLast? with
  | none =>
      obtain rfl := List.getLast?_eq_none_iff.mp hlast
      simp
  | some last =>
      obtain ⟨init, rfl⟩ := List.getLast?_eq_some_iff.mp hlast
      have hoff := (numbered_cons.mp (numbered_append.mp hmore).2).1
      simp [Record.entry, hoff, Nat.add_assoc]

theorem Holds.readClamped_refines (h : p.Holds records) (hlt : records.length < 2 ^ 63)
    (hbound : p.directory.Bounded) (startOffset : Int) (maxBytes : UInt32) (clamp : Nat) :
    (p.readClamped startOffset maxBytes clamp).map Record.entry =
      p.toLog.readClamped startOffset maxBytes clamp := by
  have hoff : ∀ rec ∈ records, toI64 rec.offset = rec.entry.offset := fun rec hrec => by
    have hmem := h.numbered.contiguous.mem (List.mem_map_of_mem hrec)
    rw [List.length_map] at hmem
    have hlt' : rec.offset.toNat < 0 + records.length := hmem.2
    exact toI64_of_lt (by omega)
  rw [h.readClamped hlt (h.countable hbound), h.toLog_eq, ReplicaLog.readClamped]
  split
  · rfl
  · rw [capBytes_map Record.entry entry_recSize, List.filter_map, List.takeWhile_map]
    congr 2
    have hfilter : records.filter (fun rec => startOffset ≤ toI64 rec.offset) =
        records.filter ((fun e : LogEntry => decide (startOffset ≤ e.offset)) ∘ Record.entry) :=
      List.filter_congr fun rec hrec => by rw [hoff rec hrec]; rfl
    rw [hfilter]
    refine takeWhile_congr fun rec hrec => ?_
    rw [hoff rec (List.mem_of_mem_filter hrec)]
    simp

/-- A read up to the log end answers a run of the log from the offset asked for. -/
theorem Holds.readUpToLeo_prefix (h : p.Holds records) (hlt : records.length < 2 ^ 63)
    (hbound : p.directory.Bounded) (start : Nat) (maxBytes : UInt32) :
    p.readUpToLeo start maxBytes <+: records.drop start := by
  have hread := h.dense.readClamped_prefix start maxBytes records.length
  rw [← h.readClamped_refines hlt hbound, toLog, h.records_eq, ← List.map_drop] at hread
  obtain ⟨part, hpart, heq⟩ := List.prefix_map_iff.mp hread
  have hleo : toI64 p.nextOffset = (records.length : Nat) := h.logEndOffset hlt
  rw [readUpToLeo, hleo, Record.entry_injective.list_map heq]
  exact hpart

end Partition

end MiniKafka.Storage
