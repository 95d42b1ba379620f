import Mathlib.Data.List.Basic
import Mathlib.Data.List.Infix
import Mathlib.Data.List.TakeWhile

/-!
# The log of one replica

What `Partition` means to the broker: a list of records with the next offset and
the high watermark. The operations are those of `partition.cpp` on this list. Bytes,
segments and files are below this level.
-/

namespace MiniKafka.Storage

/-- What a producer sends of a record; `append` adds the offset and the time. -/
structure ProducerRecord where
  key : List UInt8
  value : List UInt8
  deriving DecidableEq, Repr

structure LogEntry where
  offset : Nat
  timestamp : UInt64
  key : List UInt8
  value : List UInt8
  deriving DecidableEq, Repr

/-- The bytes `encode_record` makes of a record, as the `uint32_t` it is counted in. -/
def LogEntry.recSize (e : LogEntry) : UInt32 :=
  UInt32.ofNat (32 + e.key.length + e.value.length)

/-- The byte budget of `read_clamped`: the longest run of records that fits, but at
least one record. `first` says that nothing was taken yet. -/
def capBytes {α : Type*} (recSize : α → UInt32) (maxBytes : UInt32) :
    UInt32 → Bool → List α → List α
  | _, _, [] => []
  | bytesUsed, first, rec :: rest =>
      if bytesUsed + recSize rec > maxBytes then
        if first then [rec] else []
      else rec :: capBytes recSize maxBytes (bytesUsed + recSize rec) false rest

theorem capBytes_part {α : Type*} (recSize : α → UInt32) (maxBytes bytesUsed : UInt32)
    (first : Bool) (records : List α) :
    capBytes recSize maxBytes bytesUsed first records <+: records := by
  induction records generalizing bytesUsed first with
  | nil => exact List.prefix_refl _
  | cons rec rest ih =>
      simp only [capBytes]
      split
      · split
        · exact List.prefix_append [rec] rest
        · exact List.nil_prefix
      · exact List.cons_prefix_cons.mpr ⟨rfl, ih _ _⟩

/-- The records carry consecutive offsets from `n` on. -/
def Contiguous : Nat → List LogEntry → Prop
  | _, [] => True
  | n, e :: rest => e.offset = n ∧ Contiguous (n + 1) rest

instance decidableContiguous : ∀ n records, Decidable (Contiguous n records)
  | _, [] => .isTrue trivial
  | n, e :: rest =>
      have := decidableContiguous (n + 1) rest
      inferInstanceAs (Decidable (e.offset = n ∧ Contiguous (n + 1) rest))

section Contiguous

variable {n : Nat} {records more : List LogEntry}

@[simp] theorem contiguous_nil : Contiguous n [] := trivial

theorem contiguous_append :
    Contiguous n (records ++ more) ↔
      Contiguous n records ∧ Contiguous (n + records.length) more := by
  induction records generalizing n with
  | nil => simp
  | cons e rest ih =>
      simp only [List.cons_append, Contiguous, ih, List.length_cons, and_assoc]
      rw [Nat.add_assoc n 1, Nat.add_comm 1]

theorem Contiguous.part (h : Contiguous n records) (hp : more <+: records) :
    Contiguous n more := by
  obtain ⟨rest, rfl⟩ := hp
  exact (contiguous_append.mp h).1

theorem Contiguous.drop (h : Contiguous n records) (k : Nat) :
    Contiguous (n + k) (records.drop k) := by
  rcases Nat.le_total k records.length with hk | hk
  · rw [← List.take_append_drop k records, contiguous_append] at h
    have hlen : (records.take k).length = k := List.length_take_of_le hk
    rw [hlen] at h
    exact h.2
  · rw [List.drop_eq_nil_of_le hk]
    trivial

theorem Contiguous.offset (h : Contiguous n records) {i : Nat} {e : LogEntry}
    (he : records[i]? = some e) : e.offset = n + i := by
  induction records generalizing n i with
  | nil => simp at he
  | cons e' rest ih =>
      cases i with
      | zero =>
          obtain rfl : e' = e := by simpa using he
          exact h.1
      | succ i =>
          have hi := ih h.2 (by simpa using he)
          omega

theorem Contiguous.mem (h : Contiguous n records) {e : LogEntry} (he : e ∈ records) :
    n ≤ e.offset ∧ e.offset < n + records.length := by
  obtain ⟨i, hi, rfl⟩ := List.getElem_of_mem he
  have hoff := h.offset (List.getElem?_eq_getElem hi)
  omega

/-- Skipping the offsets below `start` drops a prefix. -/
theorem Contiguous.filter_ge (h : Contiguous n records) (start : Nat) :
    records.filter (fun e => start ≤ e.offset) = records.drop (start - n) := by
  induction records generalizing n with
  | nil => simp
  | cons e rest ih =>
      obtain ⟨hoff, hrest⟩ := h
      rw [List.filter_cons, ih hrest, hoff]
      by_cases hs : start ≤ n
      · simp [hs, Nat.sub_eq_zero_of_le hs, Nat.sub_eq_zero_of_le (Nat.le_succ_of_le hs)]
      · obtain ⟨k, hk⟩ : ∃ k, start - n = k + 1 := ⟨start - n - 1, by omega⟩
        have hk' : start - (n + 1) = k := by omega
        simp [hs, hk, hk']

end Contiguous

structure ReplicaLog where
  records : List LogEntry := []
  nextOffset : Nat := 0
  hwm : Nat := 0
  deriving DecidableEq, Repr

/-- Producer records with the offsets and the time `append` gives them. -/
def stamp (ts : UInt64) : Nat → List ProducerRecord → List LogEntry
  | _, [] => []
  | n, r :: rest => ⟨n, ts, r.key, r.value⟩ :: stamp ts (n + 1) rest

@[simp] theorem stamp_length (ts : UInt64) (n : Nat) (records : List ProducerRecord) :
    (stamp ts n records).length = records.length := by
  induction records generalizing n with
  | nil => rfl
  | cons r rest ih => simp [stamp, ih]

theorem stamp_contiguous (ts : UInt64) (n : Nat) (records : List ProducerRecord) :
    Contiguous n (stamp ts n records) := by
  induction records generalizing n with
  | nil => trivial
  | cons r rest ih => exact ⟨rfl, ih (n + 1)⟩

namespace ReplicaLog

def logEndOffset (log : ReplicaLog) : Nat := log.nextOffset

def setHighWatermark (log : ReplicaLog) (hwm : Nat) : ReplicaLog := { log with hwm := hwm }

/-- `Partition::append`: the log, and the offset of the first record. -/
def append (log : ReplicaLog) (ts : UInt64) (records : List ProducerRecord) :
    ReplicaLog × Nat :=
  if records = [] then (log, log.nextOffset)
  else
    let nextOffset := log.nextOffset + records.length
    ({ records := log.records ++ stamp ts log.nextOffset records
       nextOffset := nextOffset
       hwm := nextOffset }, log.nextOffset)

def appendReplicated (log : ReplicaLog) (records : List LogEntry) : ReplicaLog :=
  match records.getLast? with
  | none => log
  | some last =>
      { log with
        records := log.records ++ records
        nextOffset := last.offset + 1 }

def readClamped (log : ReplicaLog) (startOffset : Int) (maxBytes : UInt32) (clamp : Nat) :
    List LogEntry :=
  if startOffset ≥ clamp then []
  else
    capBytes LogEntry.recSize maxBytes 0 true
      ((log.records.filter fun e => startOffset ≤ e.offset).takeWhile fun e => e.offset < clamp)

def read (log : ReplicaLog) (startOffset : Int) (maxBytes : UInt32) : List LogEntry :=
  log.readClamped startOffset maxBytes log.hwm

def readUpToLeo (log : ReplicaLog) (startOffset : Int) (maxBytes : UInt32) : List LogEntry :=
  log.readClamped startOffset maxBytes log.nextOffset

/-- The offsets of the log are those of the positions, and the next one follows. -/
structure Dense (log : ReplicaLog) : Prop where
  contiguous : Contiguous 0 log.records
  next : log.nextOffset = log.records.length

variable {log : ReplicaLog} {startOffset : Int} {maxBytes : UInt32} {clamp : Nat}

@[simp] theorem setHighWatermark_records (hwm : Nat) :
    (log.setHighWatermark hwm).records = log.records := rfl

@[simp] theorem setHighWatermark_nextOffset (hwm : Nat) :
    (log.setHighWatermark hwm).nextOffset = log.nextOffset := rfl

@[simp] theorem setHighWatermark_hwm (hwm : Nat) :
    (log.setHighWatermark hwm).hwm = hwm := rfl

theorem append_records (ts : UInt64) (records : List ProducerRecord) :
    (log.append ts records).1.records = log.records ++ stamp ts log.nextOffset records := by
  cases records <;> simp [append, stamp]

theorem append_nextOffset (ts : UInt64) (records : List ProducerRecord) :
    (log.append ts records).1.nextOffset = log.nextOffset + records.length := by
  cases records <;> simp [append]

@[simp] theorem append_base (ts : UInt64) (records : List ProducerRecord) :
    (log.append ts records).2 = log.nextOffset := by
  cases records <;> simp [append]

theorem appendReplicated_records (records : List LogEntry) :
    (log.appendReplicated records).records = log.records ++ records := by
  unfold appendReplicated
  split
  · next h => simp [List.getLast?_eq_none_iff.mp h]
  · rfl

@[simp] theorem appendReplicated_nil : log.appendReplicated [] = log := rfl

/-- A batch that starts at the log end moves the log end by its length. -/
theorem appendReplicated_nextOffset {records : List LogEntry}
    (h : Contiguous log.nextOffset records) :
    (log.appendReplicated records).nextOffset = log.nextOffset + records.length := by
  cases hrec : records.getLast? with
  | none =>
      obtain rfl := List.getLast?_eq_none_iff.mp hrec
      rfl
  | some last =>
      have hne : records ≠ [] := by
        rintro rfl
        simp at hrec
      have hlast : records[records.length - 1]? = some last := by
        rw [← hrec, List.getLast?_eq_getElem?]
      have hoff := h.offset hlast
      have hpos : 0 < records.length := List.length_pos_of_ne_nil hne
      simp only [appendReplicated, hrec]
      omega

theorem Dense.appendReplicated (h : log.Dense) {records : List LogEntry}
    (hc : Contiguous log.nextOffset records) : (log.appendReplicated records).Dense where
  contiguous := by
    rw [appendReplicated_records, contiguous_append, Nat.zero_add, ← h.next]
    exact ⟨h.contiguous, hc⟩
  next := by
    rw [appendReplicated_records, appendReplicated_nextOffset hc, List.length_append, h.next]

theorem mem_readClamped {e : LogEntry} (he : e ∈ log.readClamped startOffset maxBytes clamp) :
    e ∈ log.records ∧ startOffset ≤ e.offset ∧ e.offset < clamp := by
  unfold readClamped at he
  split at he
  · simp at he
  · have hmem := (capBytes_part _ _ _ _ _).subset he
    have hclamp := List.mem_takeWhile_imp hmem
    have hfilter := List.mem_filter.mp ((List.takeWhile_prefix _).subset hmem)
    exact ⟨hfilter.1, by simpa using hfilter.2, by simpa using hclamp⟩

/-- A read of a dense log answers a run of its records from the offset asked for. -/
theorem Dense.readClamped_prefix (h : log.Dense) (start : Nat) (maxBytes : UInt32)
    (clamp : Nat) :
    log.readClamped start maxBytes clamp <+: log.records.drop start := by
  unfold readClamped
  split
  · exact List.nil_prefix
  · refine (capBytes_part _ _ _ _ _).trans ((List.takeWhile_prefix _).trans ?_)
    have hfilter := h.contiguous.filter_ge start
    simp only [Nat.sub_zero] at hfilter
    simp only [Int.ofNat_le, hfilter]
    exact List.prefix_refl _

end ReplicaLog

end MiniKafka.Storage
