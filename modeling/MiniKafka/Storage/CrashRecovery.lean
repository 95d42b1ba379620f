import MiniKafka.Storage.PartitionLog
import MiniKafka.Foundations.Run

/-!
# Crash recovery

A partition under appends, crashes at any point of a write or of a recovery, and
recoveries. The log is what the completed appends wrote and, of each torn one, a part
from its start.
-/

namespace MiniKafka.Storage

open Foundations Common

/-- A partition while its process runs, and its directory while it does not. -/
inductive Store
  | stopped (dir : Directory)
  | running (p : Partition)
  deriving DecidableEq

/-- The records a running partition has, or a recovery would read. -/
def Store.records : Store → List Record
  | .running p => p.records
  | .stopped dir => (sortDirectory dir).flatMap fun f => (openSegment f).readFrom 0

/-- `base` is what the append answers; a listing is the directory in any order. -/
inductive StoreEvent
  | append (batch : List Record) (now : UInt64) (base : Int)
  | crashInAppend (batch : List Record) (now : UInt64) (cut : AppendCut)
  | crash
  | recover (listing : Directory)
  | crashInRecover (listing : Directory) (cut : RecoverCut)

def storeStep (maxSegBytes : UInt32) : Store → StoreEvent → Option Store
  | .running p, .append batch now base =>
      let (q, answer) := p.append batch now
      if answer = base then some (.running q) else none
  | .running p, .crashInAppend batch now cut =>
      some (.stopped (p.tornAppend (assignOffsets now p.nextOffset batch).1 cut))
  | .running p, .crash => some (.stopped p.directory)
  | .stopped dir, .recover listing =>
      if listing.Perm dir then some (.running (Partition.recover maxSegBytes listing))
      else none
  | .stopped dir, .crashInRecover listing cut =>
      if listing.Perm dir then some (.stopped (tornRecover listing cut)) else none
  | _, _ => none

/-- Frames fit their length field, and the log stays below `2 ^ 63` records. -/
def BatchFits (p : Partition) (batch : List Record) : Prop :=
  (∀ rec ∈ batch, rec.Fits) ∧ p.records.length + batch.length < 2 ^ 63

def AppendsFit : Store → StoreEvent → Prop
  | .running p, .append batch _ _ => BatchFits p batch
  | .running p, .crashInAppend batch _ _ => BatchFits p batch
  | _, _ => True

instance (p : Partition) (batch : List Record) : Decidable (BatchFits p batch) :=
  inferInstanceAs (Decidable (_ ∧ _))

instance decidableAppendsFit : ∀ s e, Decidable (AppendsFit s e)
  | .running p, .append batch _ _ => inferInstanceAs (Decidable (BatchFits p batch))
  | .running p, .crashInAppend batch _ _ => inferInstanceAs (Decidable (BatchFits p batch))
  | .running _, .crash | .running _, .recover _ | .running _, .crashInRecover _ _ =>
      .isTrue trivial
  | .stopped _, _ => .isTrue trivial

/-- What an event leaves of a batch, with the time of the append. -/
inductive Keeps : StoreEvent → List Record → Prop
  | append (batch now base) :
      Keeps (.append batch now base) (batch.map (Record.timed now))
  | torn {batch part} (now cut) (h : part <+: batch) :
      Keeps (.crashInAppend batch now cut) (part.map (Record.timed now))
  | crash : Keeps .crash []
  | recover (listing) : Keeps (.recover listing) []
  | crashInRecover (listing cut) : Keeps (.crashInRecover listing cut) []

/-- The store has the records, on disk or in a running partition. -/
inductive Store.Holds (maxSegBytes : UInt32) : Store → List Record → Prop
  | stopped {dir records} (h : Directory.Holds dir records)
      (hlt : records.length < 2 ^ 63) : Store.Holds maxSegBytes (.stopped dir) records
  | running {p records} (h : p.Holds records) (hmax : p.maxSegBytes = maxSegBytes)
      (hlt : records.length < 2 ^ 63) : Store.Holds maxSegBytes (.running p) records

variable {maxSegBytes : UInt32} {s t : Store} {e : StoreEvent} {records : List Record}

theorem Store.Holds.lt (h : s.Holds maxSegBytes records) : records.length < 2 ^ 63 := by
  cases h <;> assumption

theorem Store.Holds.of_running {p : Partition} (h : (Store.running p).Holds maxSegBytes records) :
    p.Holds records ∧ p.maxSegBytes = maxSegBytes ∧ records.length < 2 ^ 63 := by
  cases h with
  | running h hmax hlt => exact ⟨h, hmax, hlt⟩

theorem Store.Holds.of_stopped {dir : Directory}
    (h : (Store.stopped dir).Holds maxSegBytes records) :
    Directory.Holds dir records ∧ records.length < 2 ^ 63 := by
  cases h with
  | stopped h hlt => exact ⟨h, hlt⟩

theorem Store.Holds.records_eq (h : s.Holds maxSegBytes records) : s.records = records := by
  cases h with
  | running h => exact h.records_eq
  | @stopped dir _ h =>
      obtain ⟨sorted, hperm, hdir⟩ := h
      rw [Store.records, hdir.sort_eq hperm]
      rcases hdir with ⟨rfl, rfl⟩ | ⟨closed, last, rolled, run, rfl, hclosed, hlast, rfl⟩
      · rfl
      · have hread := hclosed.flatMap (fun f => (openSegment f).readFrom 0) fun _ _ _ hf =>
          hf.1.recoverable.readFrom_zero (openSegment _)
        rw [List.flatMap_append, hread, List.flatMap_singleton,
          hlast.readFrom_zero (openSegment last)]

theorem storeStep_cases (h : storeStep maxSegBytes s e = some t) :
    (∃ p batch now, s = .running p ∧ e = .append batch now (p.append batch now).2 ∧
      t = .running (p.append batch now).1) ∨
    (∃ p batch now cut, s = .running p ∧ e = .crashInAppend batch now cut ∧
      t = .stopped (p.tornAppend (assignOffsets now p.nextOffset batch).1 cut)) ∨
    (∃ p, s = .running p ∧ e = .crash ∧ t = .stopped p.directory) ∨
    (∃ dir listing, s = .stopped dir ∧ e = .recover listing ∧ listing.Perm dir ∧
      t = .running (Partition.recover maxSegBytes listing)) ∨
    (∃ dir listing cut, s = .stopped dir ∧ e = .crashInRecover listing cut ∧
      listing.Perm dir ∧ t = .stopped (tornRecover listing cut)) := by
  cases s with
  | running p =>
      cases e with
      | append batch now base =>
          simp only [storeStep] at h
          split at h
          · next hanswer =>
              subst hanswer
              exact .inl ⟨p, batch, now, rfl, rfl, (Option.some.inj h).symm⟩
          · cases h
      | crashInAppend batch now cut =>
          exact .inr (.inl ⟨p, batch, now, cut, rfl, rfl, (Option.some.inj h).symm⟩)
      | crash => exact .inr (.inr (.inl ⟨p, rfl, rfl, (Option.some.inj h).symm⟩))
      | recover listing => cases h
      | crashInRecover listing cut => cases h
  | stopped dir =>
      cases e with
      | append batch now base => cases h
      | crashInAppend batch now cut => cases h
      | crash => cases h
      | recover listing =>
          simp only [storeStep] at h
          split at h
          · next hperm =>
              exact .inr (.inr (.inr (.inl
                ⟨dir, listing, rfl, rfl, hperm, (Option.some.inj h).symm⟩)))
          · cases h
      | crashInRecover listing cut =>
          simp only [storeStep] at h
          split at h
          · next hperm =>
              exact .inr (.inr (.inr (.inr
                ⟨dir, listing, cut, rfl, rfl, hperm, (Option.some.inj h).symm⟩)))
          · cases h

/-- What one event makes of a store with `records`: `part` comes at the end. -/
structure Store.Extends (maxSegBytes : UInt32) (records : List Record) (e : StoreEvent)
    (t : Store) (part : List Record) : Prop where
  keeps : Keeps e part
  holds : t.Holds maxSegBytes (records ++ place records.length part)
  answers : ∀ batch now base, e = .append batch now base → base = records.length

/-- An event that writes nothing leaves the records as they are. -/
theorem Store.Holds.extends (h : t.Holds maxSegBytes records) (hkeep : Keeps e [])
    (hquiet : ∀ batch now base, e ≠ .append batch now base) :
    Store.Extends maxSegBytes records e t [] where
  keeps := hkeep
  holds := by rwa [place_nil, List.append_nil]
  answers batch now base he := absurd he (hquiet batch now base)

/-- Of a batch, a crash keeps a part. -/
theorem crashInAppend_extends {p : Partition} {batch : List Record} (now : UInt64)
    (cut : AppendCut) (h : p.Holds records) (hmax : 1 ≤ p.maxSegBytes)
    (hfit : BatchFits p batch) :
    ∃ part, Store.Extends maxSegBytes records (.crashInAppend batch now cut)
      (.stopped (p.tornAppend (assignOffsets now p.nextOffset batch).1 cut)) part := by
  obtain ⟨hfits, hcount⟩ := hfit
  rw [h.records_eq] at hcount
  rw [assignOffsets_eq, h.next]
  obtain ⟨kept, hkept, hdir⟩ := h.tornAppend hmax (numbered_batch hfits hcount) cut
  obtain ⟨timed, htimed, rfl⟩ := prefix_place hkept
  obtain ⟨part, hpart, rfl⟩ := List.prefix_map_iff.mp htimed
  refine ⟨_, .torn now cut hpart, .stopped hdir ?_, by simp⟩
  have hlen := hpart.length_le
  rw [List.length_append, place_length, List.length_map]
  omega

theorem storeStep_extends (hmax : 1 ≤ maxSegBytes) (h : s.Holds maxSegBytes records)
    (hfit : AppendsFit s e) (hstep : storeStep maxSegBytes s e = some t) :
    ∃ part, Store.Extends maxSegBytes records e t part := by
  rcases storeStep_cases hstep with ⟨p, batch, now, rfl, rfl, rfl⟩ |
    ⟨p, batch, now, cut, rfl, rfl, rfl⟩ | ⟨p, rfl, rfl, rfl⟩ |
    ⟨dir, listing, rfl, rfl, hperm, rfl⟩ | ⟨dir, listing, cut, rfl, rfl, hperm, rfl⟩
  · obtain ⟨hp, rfl, hlt⟩ := h.of_running
    obtain ⟨hfits, hcount⟩ := hfit
    rw [hp.records_eq] at hcount
    obtain ⟨happ, hbase⟩ := hp.append now hmax hfits hcount
    refine ⟨_, .append batch now _, .running happ Partition.append_maxSegBytes ?_, ?_⟩
    · rwa [List.length_append, place_length, List.length_map]
    · rintro _ _ _ ⟨⟩
      exact hbase
  · obtain ⟨hp, rfl, hlt⟩ := h.of_running
    exact crashInAppend_extends now cut hp hmax hfit
  · obtain ⟨hp, rfl, hlt⟩ := h.of_running
    have hstop : (Store.stopped p.directory).Holds p.maxSegBytes records :=
      .stopped hp.directory hlt
    exact ⟨[], hstop.extends .crash (by simp)⟩
  · obtain ⟨hdir, hlt⟩ := h.of_stopped
    have hrun : (Store.running (Partition.recover maxSegBytes listing)).Holds
        maxSegBytes records :=
      .running (recover_holds (hdir.perm hperm) hlt) recover_maxSegBytes hlt
    exact ⟨[], hrun.extends (.recover listing) (by simp)⟩
  · obtain ⟨hdir, hlt⟩ := h.of_stopped
    have hstop : (Store.stopped (tornRecover listing cut)).Holds maxSegBytes records :=
      .stopped (tornRecover_holds (hdir.perm hperm) hlt cut) hlt
    exact ⟨[], hstop.extends (.crashInRecover listing cut) (by simp)⟩

/-- What the events of a run keep, one part for each. -/
structure History (visits : List (Store × StoreEvent)) (kept : List (List Record)) :
    Prop where
  keeps : List.Forall₂ (fun v part => Keeps v.2 part) visits kept
  answers : ∀ i v batch now base, visits[i]? = some v → v.2 = .append batch now base →
    base = ((kept.take i).flatten.length : Int)

theorem History.snoc {visits : List (Store × StoreEvent)} {kept : List (List Record)}
    {part : List Record} (h : History visits kept) (hkeep : Keeps e part)
    (hanswer : ∀ batch now base, e = .append batch now base →
      base = (kept.flatten.length : Int)) :
    History (visits ++ [(s, e)]) (kept ++ [part]) where
  keeps := List.rel_append h.keeps (.cons hkeep .nil)
  answers := by
    intro i v batch now base hv hev
    have hlen := h.keeps.length_eq
    rcases Nat.lt_or_ge i visits.length with hi | hi
    · rw [List.getElem?_append_left hi] at hv
      rw [List.take_append_of_le_length (by omega)]
      exact h.answers i v batch now base hv hev
    · rw [List.getElem?_append_right hi] at hv
      obtain ⟨hzero, rfl⟩ : i - visits.length = 0 ∧ v = (s, e) := by
        cases hsub : i - visits.length with
        | zero => simpa [hsub, eq_comm] using hv
        | succ k => simp [hsub] at hv
      have hi' : i = kept.length := by omega
      rw [hi', List.take_left]
      exact hanswer batch now base hev

/-- Every run keeps, in order, the completed batches and a part of each torn one. -/
theorem run_history (hmax : 1 ≤ maxSegBytes) {visits : List (Store × StoreEvent)}
    (run : Run (storeStep maxSegBytes) (.stopped []) visits s)
    (hfit : Guarded AppendsFit visits) :
    ∃ kept, History visits kept ∧ s.Holds maxSegBytes (place 0 kept.flatten) := by
  induction run with
  | refl =>
      refine ⟨[], ⟨.nil, by simp⟩, .stopped ⟨[], .refl _, .inl ⟨rfl, rfl⟩⟩ ?_⟩
      simp
  | @tail visits t e u run hstep ih =>
      obtain ⟨hrun, he⟩ := guarded_snoc.mp hfit
      obtain ⟨kept, hkept, hholds⟩ := ih hrun
      obtain ⟨part, hpart⟩ := storeStep_extends hmax hholds he hstep
      have hanswers := hpart.answers
      have hplaced := hpart.holds
      rw [place_length] at hanswers hplaced
      refine ⟨kept ++ [part], hkept.snoc hpart.keeps hanswers, ?_⟩
      rw [List.flatten_concat, place_append, Nat.zero_add]
      exact hplaced

/-- Crash consistency of the log: whatever a run of appends, crashes and recoveries did,
the running partition has the records of the completed appends and a part of each torn
batch from its start, in order, each at the offset of its place; the log end is their
number, and every append that completed answered where its batch starts. -/
theorem log_crash_consistent (hmax : 1 ≤ maxSegBytes) {visits : List (Store × StoreEvent)}
    {p : Partition} (run : Run (storeStep maxSegBytes) (.stopped []) visits (.running p))
    (hfit : Guarded AppendsFit visits) :
    ∃ kept : List (List Record),
      List.Forall₂ (fun v part => Keeps v.2 part) visits kept ∧
      p.records = place 0 kept.flatten ∧
      (∀ i (rec : Record), p.records[i]? = some rec → rec.offset.toNat = i) ∧
      p.logEndOffset = p.records.length ∧
      ∀ i v batch now base, visits[i]? = some v → v.2 = .append batch now base →
        base = ((kept.take i).flatten.length : Int) := by
  obtain ⟨kept, hkept, hholds⟩ := run_history hmax run hfit
  obtain ⟨h, -, hlt⟩ := hholds.of_running
  refine ⟨kept, hkept.keeps, h.records_eq, ?_, ?_, hkept.answers⟩
  · intro i rec hrec
    rw [h.records_eq] at hrec
    have hentry : ((place 0 kept.flatten).map Record.entry)[i]? = some rec.entry := by
      rw [List.getElem?_map, hrec]
      rfl
    have hoff := h.numbered.contiguous.offset hentry
    rwa [Nat.zero_add] at hoff
  · rw [h.logEndOffset hlt, h.records_eq]

/-- The directory after some events, where they end with a crash. -/
def crashedDirectory (maxSegBytes : UInt32) (events : List StoreEvent) : Directory :=
  match execute (storeStep maxSegBytes) (.stopped []) events with
  | some (.stopped dir) => dir
  | _ => []

/-- One record is appended, then two more into a new segment; the crash leaves the first
of them and eight bytes of the second. -/
def tornEvents : List StoreEvent :=
  [.recover [], .append [{ key := [1], value := [10] }] 100 0,
    .crashInAppend [{ key := [2], value := [20] }, { key := [3], value := [30] }] 200
      (.writing 42 12)]

/-- The torn batch is recovered up to its first record. -/
def recoverEvents : List StoreEvent :=
  tornEvents ++ [.recover (crashedDirectory 30 tornEvents)]

theorem log_crash_consistent_torn :
    ∃ visits p, Run (storeStep 30) (.stopped []) visits (.running p) ∧
      (∃ kept : List (List Record),
        List.Forall₂ (fun v part => Keeps v.2 part) visits kept ∧
        p.records = place 0 kept.flatten) ∧
      p.logEndOffset = 2 := by
  have hend : (execute (storeStep 30) (.stopped []) recoverEvents).map
      (fun s => match s with
        | .running p => p.logEndOffset
        | .stopped _ => -1) = some 2 := by
    decide +kernel
  obtain ⟨s, hs, hleo⟩ := Option.map_eq_some_iff.mp hend
  cases s with
  | stopped dir => cases hleo
  | running p =>
      have run := run_of_execute hs
      have hfit : Guarded AppendsFit (trace (storeStep 30) (.stopped []) recoverEvents) := by
        decide +kernel
      obtain ⟨kept, hkept, hrecords, -⟩ := log_crash_consistent (by decide) run hfit
      exact ⟨_, p, run, ⟨kept, hkept, hrecords⟩, hleo⟩

end MiniKafka.Storage
