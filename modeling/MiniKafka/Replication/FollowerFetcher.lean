import MiniKafka.Foundations.Run
import MiniKafka.Storage.ReplicaLog
import Mathlib.Data.List.Basic
import Mathlib.Logic.Function.Basic
import Mathlib.Order.Basic

/-!
# Fetcher threads of one followed partition

`reconcile_replication` replaces a fetcher by assigning to its slot in `followers_`:
the new thread already runs when the old one is told to stop and joined. Each thread
reads the log end, asks its leader from there, and appends what it gets.
-/

namespace MiniKafka.Replication

open Foundations Storage

/-- Where the thread of a fetcher stands in `run_loop`. -/
inductive FetcherPhase
  | top
  /-- `stop_` was read as false. -/
  | polling
  | requested (fetchOffset : Nat)
  | received (records : List LogEntry)
  | ended
  deriving DecidableEq

structure FollowedPartition where
  log : ReplicaLog
  phase : Nat → FetcherPhase := fun _ => .ended
  stop : Nat → Bool := fun _ => false
  /-- The number of fetchers constructed so far; they are named in order. -/
  constructed : Nat := 0
  /-- The entry of `followers_`. -/
  slot : Option Nat := none
  /-- The fetcher whose destructor is running. -/
  destroying : Option Nat := none

inductive FetcherEvent
  /-- `make_unique` starts the new thread and the slot takes it. -/
  | recreate
  /-- `followers_.erase`: the slot gives its fetcher up. -/
  | erase
  | setStop
  | join
  | pollStop (f : Nat)
  | readLogEnd (f : Nat)
  | receive (f : Nat) (records : List LogEntry)
  /-- An error code, an empty answer, or an exception of the socket. -/
  | receiveNothing (f : Nat)
  | appendReplicated (f : Nat)
  deriving DecidableEq

namespace FollowedPartition

/-- A broker that starts with some recovered log and no fetcher. -/
def boot (log : ReplicaLog) : FollowedPartition := { log := log }

def setPhase (c : FollowedPartition) (f : Nat) (phase : FetcherPhase) : FollowedPartition :=
  { c with phase := Function.update c.phase f phase }

end FollowedPartition

def fetcherStep (c : FollowedPartition) : FetcherEvent → Option FollowedPartition
  | .recreate =>
      if c.destroying = none then
        some { c.setPhase c.constructed .top with
          constructed := c.constructed + 1
          slot := some c.constructed
          destroying := c.slot }
      else none
  | .erase =>
      if c.destroying = none then some { c with slot := none, destroying := c.slot } else none
  | .setStop =>
      match c.destroying with
      | some old => some { c with stop := Function.update c.stop old true }
      | none => none
  | .join =>
      match c.destroying with
      | some old => if c.phase old = .ended then some { c with destroying := none } else none
      | none => none
  | .pollStop f =>
      if c.phase f = .top then
        some (c.setPhase f (if c.stop f then .ended else .polling))
      else none
  | .readLogEnd f =>
      if c.phase f = .polling then some (c.setPhase f (.requested c.log.logEndOffset))
      else none
  | .receive f records =>
      match c.phase f with
      | .requested fetchOffset =>
          -- the leader answers with a run of records from the offset asked for
          if records ≠ [] ∧ Contiguous fetchOffset records then
            some (c.setPhase f (.received records))
          else none
      | _ => none
  | .receiveNothing f =>
      match c.phase f with
      | .requested _ => some (c.setPhase f .top)
      | _ => none
  | .appendReplicated f =>
      match c.phase f with
      | .received records =>
          some { c.setPhase f .top with log := c.log.appendReplicated records }
      | _ => none

abbrev FetcherRun := Run fetcherStep

/-- What the thread holds, if anything, starts at the log end. -/
def FetcherPhase.StartsAt (logEnd : Nat) : FetcherPhase → Prop
  | .received records => ∀ e ∈ records.head?, e.offset = logEnd
  | _ => True

/-- A batch is appended where it starts: no other thread moved the log end since this
one read it. -/
def AppendsAtEnd (c : FollowedPartition) : FetcherEvent → Prop
  | .appendReplicated f => (c.phase f).StartsAt c.log.logEndOffset
  | _ => True

instance decidableStartsAt (logEnd : Nat) :
    ∀ phase : FetcherPhase, Decidable (phase.StartsAt logEnd)
  | .received records => inferInstanceAs (Decidable (∀ e ∈ records.head?, e.offset = logEnd))
  | .top | .polling | .requested _ | .ended => .isTrue trivial

instance decidableAppendsAtEnd (c : FollowedPartition) : ∀ e, Decidable (AppendsAtEnd c e)
  | .appendReplicated f => inferInstanceAs (Decidable ((c.phase f).StartsAt _))
  | .recreate | .erase | .setStop | .join | .pollStop _ | .readLogEnd _ | .receive _ _
  | .receiveNothing _ => .isTrue trivial

/-- Every offset occurs at most once, and offsets only grow. -/
structure InOrder (log : ReplicaLog) : Prop where
  once : (log.records.map LogEntry.offset).Nodup
  increasing : (log.records.map LogEntry.offset).Pairwise (· < ·)

/-- What a fetcher asked for or holds starts at a log end of the past. -/
def FetcherPhase.Behind (logEnd : Nat) : FetcherPhase → Prop
  | .requested fetchOffset => fetchOffset ≤ logEnd
  | .received records => records ≠ [] ∧ ∃ n ≤ logEnd, Contiguous n records
  | _ => True

structure FollowInv (c : FollowedPartition) : Prop where
  dense : c.log.Dense
  behind : ∀ f, (c.phase f).Behind c.log.nextOffset

variable {c c' : FollowedPartition}

theorem FetcherPhase.Behind.mono {phase : FetcherPhase} {n n' : Nat} (h : phase.Behind n)
    (hle : n ≤ n') : phase.Behind n' := by
  cases phase with
  | requested fetchOffset => exact le_trans h hle
  | received records =>
      obtain ⟨hne, k, hk, hc⟩ := h
      exact ⟨hne, k, hk.trans hle, hc⟩
  | _ => trivial

theorem contiguous_offsets {n : Nat} {records : List LogEntry} (h : Contiguous n records) :
    records.map LogEntry.offset = List.range' n records.length := by
  induction records generalizing n with
  | nil => rfl
  | cons e rest ih => simp [List.range'_succ, h.1, ih h.2]

theorem inOrder_of_dense {log : ReplicaLog} (h : log.Dense) : InOrder log where
  once := contiguous_offsets h.contiguous ▸ List.nodup_range'
  increasing := contiguous_offsets h.contiguous ▸ List.pairwise_lt_range'

theorem FollowInv.setPhase (inv : FollowInv c) (f : Nat) {phase : FetcherPhase}
    (h : phase.Behind c.log.nextOffset) : FollowInv (c.setPhase f phase) where
  dense := inv.dense
  behind g := by
    by_cases hg : g = f
    · subst hg
      simpa [FollowedPartition.setPhase] using h
    · simpa [FollowedPartition.setPhase, hg] using inv.behind g

theorem followInv_boot {log : ReplicaLog} (dense : log.Dense) :
    FollowInv (FollowedPartition.boot log) := ⟨dense, fun _ => trivial⟩

/-- A batch appended where it starts keeps the log dense and moves its end forward. -/
theorem FollowInv.append (inv : FollowInv c) {f : Nat} {records : List LogEntry}
    (hphase : c.phase f = .received records)
    (atEnd : (c.phase f).StartsAt c.log.logEndOffset) :
    FollowInv { c.setPhase f .top with log := c.log.appendReplicated records } ∧
      c.log.nextOffset ≤ (c.log.appendReplicated records).nextOffset := by
  have hbehind := inv.behind f
  rw [hphase] at hbehind atEnd
  obtain ⟨hne, n, -, hc⟩ := hbehind
  have hn : n = c.log.nextOffset := by
    cases records with
    | nil => exact absurd rfl hne
    | cons e rest => exact hc.1.symm.trans (atEnd e rfl)
  subst hn
  have hend : c.log.nextOffset ≤ (c.log.appendReplicated records).nextOffset := by
    rw [ReplicaLog.appendReplicated_nextOffset hc]
    exact Nat.le_add_right _ _
  have htop : FollowInv (c.setPhase f .top) := inv.setPhase f trivial
  have hlater := htop.behind
  exact ⟨⟨inv.dense.appendReplicated hc, fun g => (hlater g).mono hend⟩, hend⟩

theorem FollowInv.step {e : FetcherEvent} (inv : FollowInv c) (atEnd : AppendsAtEnd c e)
    (h : fetcherStep c e = some c') :
    FollowInv c' ∧ c.log.nextOffset ≤ c'.log.nextOffset := by
  cases e with
  | recreate =>
      simp only [fetcherStep] at h
      split at h
      · obtain rfl := Option.some.inj h
        have hnew : FollowInv (c.setPhase c.constructed .top) := inv.setPhase _ trivial
        exact ⟨⟨hnew.dense, hnew.behind⟩, le_refl _⟩
      · cases h
  | erase =>
      simp only [fetcherStep] at h
      split at h
      · obtain rfl := Option.some.inj h
        exact ⟨⟨inv.dense, inv.behind⟩, le_refl _⟩
      · cases h
  | setStop =>
      simp only [fetcherStep] at h
      split at h
      · obtain rfl := Option.some.inj h
        exact ⟨⟨inv.dense, inv.behind⟩, le_refl _⟩
      · cases h
  | join =>
      simp only [fetcherStep] at h
      split at h
      · split at h
        · obtain rfl := Option.some.inj h
          exact ⟨⟨inv.dense, inv.behind⟩, le_refl _⟩
        · cases h
      · cases h
  | pollStop f =>
      simp only [fetcherStep] at h
      split at h
      · obtain rfl := Option.some.inj h
        refine ⟨inv.setPhase f ?_, le_refl _⟩
        split <;> trivial
      · cases h
  | readLogEnd f =>
      simp only [fetcherStep] at h
      split at h
      · obtain rfl := Option.some.inj h
        exact ⟨inv.setPhase f (le_refl c.log.nextOffset), le_refl _⟩
      · cases h
  | receive f records =>
      simp only [fetcherStep] at h
      split at h
      · next fetchOffset hphase =>
          split at h
          · next hrun =>
              obtain rfl := Option.some.inj h
              have hle : fetchOffset ≤ c.log.nextOffset := by
                have hbehind := inv.behind f
                rwa [hphase] at hbehind
              exact ⟨inv.setPhase f ⟨hrun.1, fetchOffset, hle, hrun.2⟩, le_refl _⟩
          · cases h
      · cases h
  | receiveNothing f =>
      simp only [fetcherStep] at h
      split at h
      · obtain rfl := Option.some.inj h
        exact ⟨inv.setPhase f trivial, le_refl _⟩
      · cases h
  | appendReplicated f =>
      simp only [fetcherStep] at h
      split at h
      · next records hphase =>
          obtain rfl := Option.some.inj h
          exact inv.append hphase atEnd
      · cases h

/-- A batch that starts before the log end repeats an offset. -/
theorem FollowInv.appendsAtEnd {e : FetcherEvent} (inv : FollowInv c)
    (h : fetcherStep c e = some c') (order : InOrder c'.log) : AppendsAtEnd c e := by
  cases e with
  | appendReplicated f =>
      simp only [fetcherStep] at h
      split at h
      case h_2 => cases h
      next records hphase =>
      obtain rfl := Option.some.inj h
      have hbehind := inv.behind f
      rw [hphase] at hbehind
      rw [AppendsAtEnd, hphase]
      obtain ⟨-, n, hle, hc⟩ := hbehind
      intro e he
      cases records with
      | nil => cases he
      | cons e' rest =>
          obtain rfl := Option.some.inj he
          have hoff : e'.offset = n := hc.1
          refine (Nat.eq_or_lt_of_le (hoff ▸ hle)).resolve_right fun hlt => ?_
          -- the log already holds a record with the offset of the batch's first
          have hpos : e'.offset < c.log.records.length := inv.dense.next ▸ hlt
          have hold : (c.log.records[e'.offset]).offset = e'.offset := by
            have hoffset := inv.dense.contiguous.offset (List.getElem?_eq_getElem hpos)
            rwa [Nat.zero_add] at hoffset
          have hlt' := order.increasing
          rw [ReplicaLog.appendReplicated_records, List.map_append, List.pairwise_append]
            at hlt'
          have hless := hlt'.2.2 _ (List.mem_map.mpr ⟨_, List.getElem_mem hpos, hold⟩)
            e'.offset (List.mem_map.mpr ⟨e', List.mem_cons_self, rfl⟩)
          exact Nat.lt_irrefl _ hless
  | _ => trivial

/-- In every run of the fetchers of a partition, the log stays in order and its end
never decreases exactly when every batch is appended where it starts. -/
theorem replicated_in_order_iff {log : ReplicaLog} (dense : log.Dense)
    {visits : List (FollowedPartition × FetcherEvent)}
    (run : FetcherRun (FollowedPartition.boot log) visits c) :
    ((∀ v ∈ visits, InOrder v.1.log ∧ ∀ u, fetcherStep v.1 v.2 = some u →
        InOrder u.log ∧ v.1.log.logEndOffset ≤ u.log.logEndOffset) ∧ InOrder c.log) ↔
      Guarded AppendsAtEnd visits := by
  constructor
  · rintro ⟨order, -⟩
    have hboth : Guarded AppendsAtEnd visits ∧ FollowInv c := by
      induction run with
      | refl => exact ⟨guarded_nil _, followInv_boot dense⟩
      | @tail visits t e u run h ih =>
          obtain ⟨hguard, inv⟩ := ih fun v hv => order v (List.mem_append_left _ hv)
          have hu := (order (t, e) (by simp)).2 u h
          have hat := inv.appendsAtEnd h hu.1
          exact ⟨guarded_snoc.mpr ⟨hguard, hat⟩, (inv.step hat h).1⟩
    exact hboth.1
  · intro guarded
    have kept : ∀ t e u, AppendsAtEnd t e → FollowInv t → fetcherStep t e = some u →
        FollowInv u := fun _ _ _ hat hinv h => (hinv.step hat h).1
    refine ⟨fun v hv => ?_,
      inOrder_of_dense (run.invariant guarded (followInv_boot dense) kept).dense⟩
    obtain ⟨before, after, u, heq, hrun, hstep⟩ := run.visited hv
    have inv : FollowInv v.1 := hrun.invariant
      (fun w hw => guarded w (heq ▸ List.mem_append_left _ hw)) (followInv_boot dense) kept
    refine ⟨inOrder_of_dense inv.dense, fun u' hu' => ?_⟩
    obtain ⟨inv', hend⟩ := inv.step (guarded v hv) hu'
    exact ⟨inOrder_of_dense inv'.dense, hend⟩

theorem dense_empty : ReplicaLog.Dense {} := ⟨trivial, rfl⟩

/-- The leader's only record. -/
def replicatedRecord : LogEntry := ⟨0, 7, [], [1]⟩

/-- One fetcher pulls the record. -/
def oneFetcher : List FetcherEvent :=
  [.recreate, .pollStop 0, .readLogEnd 0, .receive 0 [replicatedRecord], .appendReplicated 0]

theorem replicated_in_order_one :
    ∃ visits c, FetcherRun (FollowedPartition.boot {}) visits c ∧ visits.length = 5 ∧
      c.log.records = [replicatedRecord] ∧ InOrder c.log := by
  obtain ⟨c, hc⟩ := Option.isSome_iff_exists.mp
    (show (execute fetcherStep (FollowedPartition.boot {}) oneFetcher).isSome by decide)
  have seen : (execute fetcherStep (FollowedPartition.boot {}) oneFetcher).map
      (fun c => c.log.records) = some [replicatedRecord] := by decide
  rw [hc] at seen
  refine ⟨_, c, run_of_execute hc, by decide, Option.some.inj seen, ?_⟩
  exact ((replicated_in_order_iff dense_empty (run_of_execute hc)).mpr (by decide)).2

/-- The old fetcher holds a response when its replacement starts; both append the
record they fetched from the same log end. -/
def replacedFetcher : List FetcherEvent :=
  [.recreate, .pollStop 0, .readLogEnd 0, .receive 0 [replicatedRecord], .recreate,
    .pollStop 1, .readLogEnd 1, .receive 1 [replicatedRecord], .appendReplicated 1,
    .appendReplicated 0]

/-- While a fetcher is replaced, a record can be appended twice. -/
theorem replicated_twice :
    ¬ ∀ (log : ReplicaLog) (visits : List (FollowedPartition × FetcherEvent))
      (c : FollowedPartition), log.Dense → FetcherRun (FollowedPartition.boot log) visits c →
      InOrder c.log := by
  intro claim
  obtain ⟨c, hc⟩ := Option.isSome_iff_exists.mp
    (show (execute fetcherStep (FollowedPartition.boot {}) replacedFetcher).isSome by decide)
  have seen : (execute fetcherStep (FollowedPartition.boot {}) replacedFetcher).map
      (fun c => c.log.records) = some [replicatedRecord, replicatedRecord] := by decide
  rw [hc, Option.map_some, Option.some.injEq] at seen
  have order := claim {} _ c dense_empty (run_of_execute hc)
  have hnodup := order.once
  rw [seen] at hnodup
  exact absurd hnodup (by decide)

end MiniKafka.Replication
