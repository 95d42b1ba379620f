import MiniKafka.Cluster.ElectionState
import MiniKafka.Common.Codec
import MiniKafka.Foundations.NumberLine

/-!
# The text of the file `raft_state`

`persist_state` writes the term and the vote as decimal numerals, each on its line, and
`load_state` keeps the defaults unless it reads both.
-/

namespace MiniKafka.Cluster

open Common hiding getI64
open Foundations TextStream

namespace RaftFile

variable (f : RaftFile)

def text : Bytes := decimal f.term.toNat ++ [10] ++ decimalInt f.votedFor ++ [10]

/-- Where the digits of the vote begin. -/
def voteStart : Nat := (decimal f.term.toNat).length + 1 + (signText (f.votedFor < 0)).length

/-- A vote that `int64_t` holds. -/
def InRange : Prop := -2 ^ 63 ≤ f.votedFor ∧ f.votedFor < 2 ^ 63

instance : Decidable f.InRange := inferInstanceAs (Decidable (_ ∧ _))

end RaftFile

/-- What `load_state` reads from a file. -/
def parseRaftState (file : Bytes) : Option RaftFile :=
  let s : TextStream := ⟨file, false, false⟩
  let (term, s) := s.number Foundations.getU32 0
  let (votedFor, s) := s.number getI64 0
  if s.fail then none else some ⟨term, votedFor⟩

variable {f : RaftFile} {k : Nat}

theorem RaftFile.length_text :
    f.text.length = f.voteStart + (decimal f.votedFor.natAbs).length + 1 := by
  simp only [text, voteStart, decimalInt, List.length_append, List.length_singleton]
  omega

theorem getI64_decimal {v : Int} (range : -2 ^ 63 ≤ v ∧ v < 2 ^ 63) (d : Nat) :
    getI64 (v < 0) (v.natAbs / d) = (v.tdiv d, false) := by
  have hle : v.natAbs / d ≤ v.natAbs := Nat.div_le_self _ _
  rcases lt_or_ge v 0 with hv | hv
  · obtain ⟨n, rfl⟩ : ∃ n : Nat, v = -n := ⟨v.natAbs, by omega⟩
    have hn : (-(n : Int)).natAbs = n := by omega
    rw [hn] at hle
    rw [getI64, if_pos (decide_eq_true hv), hn, if_pos (by omega), Int.neg_tdiv]
    rfl
  · obtain ⟨n, rfl⟩ : ∃ n : Nat, v = n := ⟨v.natAbs, by omega⟩
    have hn : (n : Int).natAbs = n := by omega
    rw [hn] at hle
    rw [getI64, if_neg (by simp), hn, if_pos (by omega)]
    rfl

/-- The digits of the vote that are there are read as a number. -/
theorem number_take_vote {v : Int} (range : -2 ^ 63 ≤ v ∧ v < 2 ^ 63) {j : Nat} (hpos : 0 < j) :
    ∃ tail, (left (10 :: (signText (v < 0) ++ (decimal v.natAbs ++ [10]).take j)) false).number
      getI64 0 = (v.tdiv (10 ^ ((decimal v.natAbs).length - j) : Nat), left tail false) := by
  obtain ⟨tail, hends, htake⟩ : ∃ tail, EndsAt isDigit tail ∧ (decimal v.natAbs ++ [10]).take j =
      decimal (v.natAbs / 10 ^ ((decimal v.natAbs).length - j)) ++ tail := by
    rcases Nat.lt_or_ge (decimal v.natAbs).length j with hj | hj
    · refine ⟨[10], endsAt_cons (by decide), ?_⟩
      rw [List.take_of_length_le (by simp; omega), Nat.sub_eq_zero_of_le hj.le, Nat.pow_zero,
        Nat.div_one]
    · refine ⟨[], endsAt_nil, ?_⟩
      rw [List.take_append_of_le_length hj, take_decimal hpos hj, List.append_nil]
  have hread : (left ([10] ++ _ ++ tail) false).number getI64 0 = _ :=
    number_signed (v < 0) blank_newline
      (decimal_ne_nil (v.natAbs / 10 ^ ((decimal v.natAbs).length - j)))
      (fun _ => isDigit_of_mem_decimal) hends
  rw [value_decimal, getI64_decimal range, List.append_assoc, List.append_assoc] at hread
  refine ⟨tail, ?_⟩
  rw [htake]
  exact hread

/-- Without a digit of the vote its read fails. -/
theorem number_take_sign {i : Nat} {negative : Bool} {old : Int} :
    ((left (10 :: (signText negative).take i) false).number getI64 old).2.fail = true := by
  rcases Bool.eq_false_or_eq_true negative with rfl | rfl
  · cases i with
    | zero => rfl
    | succ i =>
        have hsign : (signText true).take (i + 1) = [45] := by simp [signText]
        rw [hsign]
        exact number_sign_alone blank_newline
  · simp only [signText, List.take_nil, Bool.false_eq_true, if_false]
    rfl

/-- Where the file is cut before the digits of the vote, nothing is loaded; after that the
term is loaded, and of the vote the digits that are there. -/
theorem parseRaftState_take (range : f.InRange) :
    parseRaftState (f.text.take k) =
      if k ≤ f.voteStart then none
      else some ⟨f.term, f.votedFor.tdiv (10 ^ (f.text.length - 1 - k) : Nat)⟩ := by
  have hlength := f.length_text
  have hstart : f.voteStart =
    (decimal f.term.toNat).length + 1 + (signText (f.votedFor < 0)).length := rfl
  rcases Nat.lt_or_ge (decimal f.term.toNat).length k with hk | hk
  · obtain ⟨i, rfl⟩ : ∃ i, k = (decimal f.term.toNat).length + 1 + i :=
      ⟨k - (decimal f.term.toNat).length - 1, by omega⟩
    -- the term is whole
    have htake : f.text.take ((decimal f.term.toNat).length + 1 + i) =
        decimal f.term.toNat ++ 10 :: (decimalInt f.votedFor ++ [10]).take i := by
      rw [RaftFile.text, List.append_assoc, List.append_assoc, List.take_append,
        List.take_of_length_le (by omega), Nat.add_assoc, Nat.add_sub_cancel_left, Nat.add_comm 1 i]
      rfl
    have hterm : (left ([] ++ decimal f.term.toNat ++
        10 :: (decimalInt f.votedFor ++ [10]).take i) false).number Foundations.getU32 0 = _ :=
      number_left (fun b hb => by cases hb) (decimal_ne_nil f.term.toNat)
        (fun _ => isDigit_of_mem_decimal) (endsAt_cons (by decide))
    rw [List.nil_append, value_decimal, getU32_of_lt f.term.toNat_lt, UInt32.ofNat_toNat] at hterm
    simp only [parseRaftState, number_opened, htake, hterm]
    rcases Nat.lt_or_ge (signText (f.votedFor < 0)).length i with hi | hi
    · -- the vote has digits
      have hrest : (decimalInt f.votedFor ++ [10]).take i = signText (f.votedFor < 0) ++
          (decimal f.votedFor.natAbs ++ [10]).take
            (i - (signText (f.votedFor < 0)).length) := by
        rw [decimalInt, List.append_assoc, List.take_append, List.take_of_length_le hi.le]
      have hcut : f.text.length - 1 - ((decimal f.term.toNat).length + 1 + i) =
          (decimal f.votedFor.natAbs).length - (i - (signText (f.votedFor < 0)).length) := by
        omega
      have hdigits : ¬ (decimal f.term.toNat).length + 1 + i ≤ f.voteStart := by omega
      obtain ⟨tail, hvote⟩ := number_take_vote range (Nat.sub_pos_of_lt hi)
      rw [if_neg hdigits, hcut, hrest, hvote]
      rfl
    · have hrest : (decimalInt f.votedFor ++ [10]).take i = (signText (f.votedFor < 0)).take i := by
        rw [decimalInt, List.append_assoc, List.take_append_of_le_length hi]
      rw [hrest, if_pos number_take_sign, if_pos (by omega)]
  · -- not even the term is whole
    have htake : f.text.take k = (decimal f.term.toNat).take k := by
      rw [RaftFile.text, List.append_assoc, List.append_assoc, List.take_append_of_le_length hk]
    have hspent : ((left ((decimal f.term.toNat).take k) false).number Foundations.getU32
        0).2.sentry.fail = true :=
      number_digits_spent fun b hb => isDigit_of_mem_decimal (List.mem_of_mem_take hb)
    rw [if_pos (by omega)]
    simp only [parseRaftState, number_opened, htake, number_of_spent hspent, hspent, if_true]

/-- The vote is whole up to the last newline only. -/
theorem RaftFile.cut_eq_iff (hk : f.voteStart < k) :
    (⟨f.term, f.votedFor.tdiv (10 ^ (f.text.length - 1 - k) : Nat)⟩ : RaftFile) = f ↔
      f.text.length ≤ k + 1 := by
  have hlength := f.length_text
  have hpos := List.length_pos_of_ne_nil (decimal_ne_nil f.votedFor.natAbs)
  have hcut : f.text.length - 1 - k < (decimal f.votedFor.natAbs).length := by omega
  rw [RaftFile.mk.injEq]
  constructor
  · rintro ⟨-, hvote⟩
    have hdigits := congrArg Int.natAbs hvote
    rw [Int.natAbs_tdiv, Int.natAbs_natCast] at hdigits
    have hzero := (div_pow_eq_self_iff hcut).mp hdigits
    omega
  · intro hwhole
    rw [show f.text.length - 1 - k = 0 by omega]
    exact ⟨rfl, Int.tdiv_one _⟩

end MiniKafka.Cluster
