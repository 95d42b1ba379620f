import MiniKafka.Cluster.Assignments
import MiniKafka.Foundations.NumberLine
import MiniKafka.Foundations.Table
import MiniKafka.Group.GroupState

/-!
# Committed offsets

The offsets of a group and its file. A coordinator reads the file once, before the first
call that needs it, and every commit writes the whole map over it.
-/

namespace MiniKafka.Group

open Cluster Common Foundations TextStream

/-- `GroupState::offsets`. -/
abbrev OffsetMap := Std.ExtTreeMap TopicPartition UInt64

structure CommitOffsetRequest where
  groupId : GroupId
  memberId : MemberId
  generationId : UInt32
  topic : Topic
  partitionId : UInt32
  offset : UInt64
  deriving DecidableEq, Repr

/-- The fields of `GroupState` that hold offsets. -/
structure GroupOffsets where
  offsetsLoaded : Bool := false
  offsets : OffsetMap := ∅

/-- One turn of the loop that loads offsets. -/
def readOffset (_ : Unit) (s : TextStream) :
    Option ((TopicPartition × UInt64) × Unit × TextStream) :=
  let (topic, s) := s.word []
  let (partition, s) := s.number getU32 0
  let (offset, s) := s.number getU64 0
  if s.fail then none else some (((topic, partition), offset), (), s)

/-- The entries that the loop reads from a file. -/
def parseOffsets (file : Bytes) : List (TopicPartition × UInt64) :=
  readEntries readOffset (file.length + 1) () ⟨file, false, false⟩

/-- What `persist_offsets` writes. -/
def offsetsText (offsets : OffsetMap) : Bytes :=
  offsets.toList.flatMap fun (key, offset) =>
    key.1 ++ [32] ++ decimal key.2.toNat ++ [32] ++ decimal offset.toNat ++ [10]

namespace GroupOffsets

variable (g : GroupOffsets)

def loadOffsetsIfNeeded (file : Option Bytes) : GroupOffsets :=
  if g.offsetsLoaded then g
  else
    match file with
    | none => { g with offsetsLoaded := true }
    | some file =>
        ⟨true, (parseOffsets file).foldl (fun offsets e => offsets.insert e.1 e.2) g.offsets⟩

/-- `commit_offset`, and the file it leaves. -/
def commitOffset (file : Option Bytes) (key : TopicPartition) (offset : UInt64) :
    GroupOffsets × Bytes :=
  let g := g.loadOffsetsIfNeeded file
  let offsets := g.offsets.insert key offset
  ({ g with offsets := offsets }, offsetsText offsets)

/-- `fetch_offset`, which answers -1 for a partition without a commit. -/
def fetchOffset (file : Option Bytes) (key : TopicPartition) : GroupOffsets × Int :=
  let g := g.loadOffsetsIfNeeded file
  (g, (g.offsets[key]?.map toI64).getD (-1))

end GroupOffsets

section Loaded

variable {g : GroupOffsets} {file file' : Option Bytes} {key : TopicPartition} {offset : UInt64}

theorem GroupOffsets.load_of_loaded (h : g.offsetsLoaded = true) :
    g.loadOffsetsIfNeeded file = g :=
  if_pos h

theorem GroupOffsets.load_loaded (g : GroupOffsets) (file : Option Bytes) :
    (g.loadOffsetsIfNeeded file).offsetsLoaded = true := by
  unfold GroupOffsets.loadOffsetsIfNeeded
  split
  · assumption
  · cases file <;> rfl

/-- The file is read once. -/
theorem GroupOffsets.load_load :
    (g.loadOffsetsIfNeeded file).loadOffsetsIfNeeded file' = g.loadOffsetsIfNeeded file :=
  load_of_loaded (g.load_loaded file)

theorem GroupOffsets.load_commit :
    (g.commitOffset file key offset).1.loadOffsetsIfNeeded file' =
      (g.commitOffset file key offset).1 :=
  load_of_loaded (g.load_loaded file)

end Loaded

section OffsetsFile

/-- The line of an entry. -/
def offsetLine (e : TopicPartition × UInt64) : Line := ⟨e.1.1, [e.1.2.toNat, e.2.toNat]⟩

theorem offsetsText_eq (offsets : OffsetMap) :
    offsetsText offsets = linesText (offsets.toList.map offsetLine) := by
  rw [offsetsText, linesText, List.flatMap_map]
  congr 1
  funext e
  simp [Line.text, offsetLine, spaced]

/-- Without a number after the word the turn fails. -/
theorem readOffset_spent {vars : Unit} {s : TextStream}
    (h : (s.word []).2.sentry.fail = true) : readOffset vars s = none := by
  simp only [readOffset, number_of_spent h, number_of_fail h, h, if_true]

/-- The loop over the offsets file, as a reader of lines. -/
def offsetReader : LineReader Unit (TopicPartition × UInt64) where
  read := readOffset
  value _ l :=
    match l.numbers with
    | partition :: offset :: _ =>
        some (((l.word, UInt32.ofNat partition), UInt64.ofNat offset), ())
    | _ => none
  Whole l := Token l.word ∧
    ∃ partition offset, l.numbers = [partition, offset] ∧ partition < 2 ^ 32 ∧ offset < 2 ^ 64
  value_word _ _ := rfl
  read_whole := by
    rintro _ ⟨word, _⟩ lead tail ⟨⟨hne, hsolid⟩, partition, offset, rfl, hp, ho⟩ hlead
    refine ⟨((word, UInt32.ofNat partition), UInt64.ofNat offset), (), rfl, ?_⟩
    have hword : (left (lead ++ (word ++ spaced [partition, offset] ++ 10 :: tail)) false).word
        [] = _ :=
      word_spaced hlead hne hsolid (endsAt_cons (by decide))
    have hend : EndsAt isDigit (10 :: tail) := endsAt_cons (by decide)
    simp only [readOffset, hword, number_spaced hend, getU32_of_lt hp, getU64_of_lt ho]
    rfl
  read_spent h := readOffset_spent (word_spent h)
  read_word := by
    rintro _ l lead word tail ⟨⟨-, hsolid⟩, -⟩ hlead htail hsub
    exact readOffset_spent (word_blank_spent hlead (fun b hb => hsolid b (hsub b hb)) htail)
  read_cut := by
    rintro _ ⟨word, _⟩ lead ns tail ⟨⟨hne, hsolid⟩, partition, offset, rfl, hp, ho⟩ hlead htail
      hcut hns
    have hword : (left (lead ++ (word ++ spaced ns ++ tail)) false).word [] = _ :=
      word_spaced hlead hne hsolid (endsAt_word_of_blank htail)
    have hend : EndsAt isDigit tail := endsAt_digit_of_blank htail
    have hspent := sentry_blank htail
    match ns, hcut, hns with
    | [p], hcut, _ =>
        have hp' : p < 2 ^ 32 := by
          cases hcut with
          | last le => exact le.trans_lt hp
          | cons _ => exact hp
        refine .inl ⟨rfl, ?_⟩
        simp only [readOffset, hword, number_spaced hend, getU32_of_lt hp',
          spaced_nil, List.nil_append, number_of_spent hspent, hspent, if_true]
    | [_, o], .cons hcut, _ =>
        have ho' : o < 2 ^ 64 := by
          cases hcut with
          | last le => exact le.trans_lt ho
          | cons _ => exact ho
        refine .inr ⟨((word, UInt32.ofNat partition), UInt64.ofNat o), (), left tail false, rfl,
          hspent, ?_⟩
        simp only [readOffset, hword, number_spaced hend, getU32_of_lt hp, getU64_of_lt ho',
          spaced_nil, List.nil_append]
        rfl
    | _ :: _ :: _ :: _, .cons (.cons hcut), _ => cases hcut

variable {offsets : OffsetMap}

theorem whole_offsetLine {e : TopicPartition × UInt64} (token : Token e.1.1) :
    offsetReader.Whole (offsetLine e) :=
  ⟨token, e.1.2.toNat, e.2.toNat, rfl, e.1.2.toNat_lt, e.2.toNat_lt⟩

/-- What is loaded from the first bytes of a file, if the names that they reach are words. -/
theorem parseOffsets_take {k : Nat}
    (tokens : ∀ e ∈ reached offsetLine offsets.toList k, Token e.1.1) :
    parseOffsets ((offsetsText offsets).take k) =
      offsetReader.values () (cutLines (offsets.toList.map offsetLine) k) := by
  rw [offsetsText_eq, parseOffsets]
  exact offsetReader.readEntries_reached fun e he => whole_offsetLine (tokens e he)

theorem token_of_reached (tokens : ∀ key ∈ offsets, Token key.1) {k : Nat}
    {e : TopicPartition × UInt64} (he : e ∈ reached offsetLine offsets.toList k) :
    Token e.1.1 := by
  apply tokens e.1
  rw [Std.ExtTreeMap.mem_iff_isSome_getElem?,
    Std.ExtTreeMap.mem_toList_iff_getElem?_eq_some.mp (mem_of_reached he)]
  rfl

/-- What the loop reads as a topic is one word. -/
theorem readOffset_token {vars vars' : Unit} {s s' : TextStream} {e : TopicPartition × UInt64}
    (h : readOffset vars s = some (e, vars', s')) : Token e.1.1 := by
  simp only [readOffset] at h
  split at h
  · cases h
  · next hfail =>
      obtain ⟨rfl, -⟩ := Prod.mk.inj (Option.some.inj h)
      exact word_token (fail_of_number (fail_of_number (Bool.not_eq_true _ ▸ hfail)))

theorem parseOffsets_token {file : Bytes} {e : TopicPartition × UInt64}
    (h : e ∈ parseOffsets file) : Token e.1.1 :=
  readEntries_forall (fun _ _ _ _ _ => readOffset_token) h

theorem values_offsetLines (entries : List (TopicPartition × UInt64)) :
    offsetReader.values () (entries.map offsetLine) = entries := by
  induction entries with
  | nil => rfl
  | cons e entries ih =>
      obtain ⟨⟨topic, partition⟩, offset⟩ := e
      have hvalue : offsetReader.value () (offsetLine ((topic, partition), offset)) =
          some (((topic, partition), offset), ()) := by
        simp [offsetReader, offsetLine]
      rw [List.map_cons, LineReader.values, hvalue]
      exact congrArg _ ih

/-- A whole file gives back the entries of the map. -/
theorem parseOffsets_offsetsText (tokens : ∀ key ∈ offsets, Token key.1) :
    parseOffsets (offsetsText offsets) = offsets.toList := by
  have htake : parseOffsets ((offsetsText offsets).take (offsetsText offsets).length) = _ :=
    parseOffsets_take fun _ he => token_of_reached tokens he
  rw [List.take_length, cutLines_of_length_le (by rw [← offsetsText_eq]; omega),
    values_offsetLines] at htake
  exact htake

end OffsetsFile

end MiniKafka.Group
