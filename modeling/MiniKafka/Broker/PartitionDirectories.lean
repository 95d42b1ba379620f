import MiniKafka.Cluster.Assignments
import MiniKafka.Common.Codec
import MiniKafka.Foundations.Decimal
import MiniKafka.Foundations.Places

/-!
# The directories of the partitions

The broker keeps its open partitions under their topic and number, and each keeps its
files in a directory whose path is put together from the data directory, the topic and the
number. The system resolves a path name by name, so different topics can name the same
directory. They do exactly when they differ only by steps that lead nowhere, or when one
leaves the data directory and comes back into it by its name.
-/

namespace MiniKafka.Broker

open Cluster Common Foundations

/-- A name in a directory. -/
abbrev Name := Bytes

/-- What one component of a path means to the system. -/
def componentMove (component : Name) : Move Name :=
  if component = [] ∨ component = [46] then .stay
  else if component = [46, 46] then .up
  else .down component

def pathMoves (path : Bytes) : List (Move Name) := (path.splitOn 47).map componentMove

/-- Where the resolution of a path starts: at the root, or in the working directory. -/
def pathStart (cwd : Place Name) (path : Bytes) : Place Name :=
  if path.head? = some 47 then [] else cwd

def resolve (cwd : Place Name) (path : Bytes) : Place Name :=
  walk (pathStart cwd path) (pathMoves path)

/-- What is opened under a path: the system reads it up to the first zero byte. -/
def opened (cwd : Place Name) (path : Bytes) : Place Name :=
  resolve cwd (path.takeWhile (· ≠ 0))

/-- The path `get_or_create_partition` hands to a new `Partition`. -/
def partitionDir (dataDir : Bytes) (key : TopicPartition) : Bytes :=
  dataDir ++ 47 :: (key.1 ++ 47 :: decimal key.2.toNat)

/-- `Broker::partitions_`, with the directory of each partition. -/
abbrev PartitionDirs := Std.ExtTreeMap TopicPartition Bytes

def PartitionDirs.getOrCreatePartition (dataDir : Bytes) (partitions : PartitionDirs)
    (key : TopicPartition) : PartitionDirs :=
  match partitions[key]? with
  | some _ => partitions
  | none => partitions.insert key (partitionDir dataDir key)

/-- The partitions after a broker was asked for these keys, one after the other. -/
def PartitionDirs.afterRequests (dataDir : Bytes) (keys : List TopicPartition) : PartitionDirs :=
  keys.foldl (getOrCreatePartition dataDir) ∅

def segmentBaseName (baseOffset : UInt64) : Bytes :=
  let digits := decimal baseOffset.toNat
  List.replicate (20 - digits.length) 48 ++ digits

/-- `.log` or `.index`. -/
inductive SegmentFile
  | log
  | index

def SegmentFile.extension : SegmentFile → Bytes
  | .log => [46, 108, 111, 103]
  | .index => [46, 105, 110, 100, 101, 120]

def segmentPath (dir : Bytes) (baseOffset : UInt64) (file : SegmentFile) : Bytes :=
  dir ++ 47 :: (segmentBaseName baseOffset ++ file.extension)

/-- The regular files of the system. -/
abbrev Disk := Place Name → Option Bytes

def Disk.write (disk : Disk) (place : Place Name) (content : Bytes) : Disk :=
  Function.update disk place (some content)

/-- The files in one directory: what a partition that is opened there can read. -/
def Disk.files (disk : Disk) (dir : Place Name) : Name → Option Bytes :=
  fun name => disk (dir ++ [name])

/-- Partitions that share nothing on disk. -/
structure Isolated (cwd : Place Name) (dir dir' : Bytes) : Prop where
  directories : opened cwd dir ≠ opened cwd dir'
  segments : ∀ base base' file file',
    opened cwd (segmentPath dir base file) ≠ opened cwd (segmentPath dir' base' file')
  reads : ∀ (disk : Disk) base file content,
    (disk.write (opened cwd (segmentPath dir base file)) content).files (opened cwd dir') =
      disk.files (opened cwd dir')

/-- What a topic name does to the data directory. -/
def topicShift (topic : Topic) : Shift Name := .of (pathMoves topic)

/-- Two topic names that lead to the same place from the data directory: one of them, once
normalised, is the other, or goes further up and comes back by the names of the data
directory. -/
def SameFolder (dataPlace : Place Name) (topic topic' : Topic) : Prop :=
  (topicShift topic).Reenters dataPlace (topicShift topic') ∨
    (topicShift topic').Reenters dataPlace (topicShift topic)

instance (dataPlace : Place Name) (topic topic' : Topic) :
    Decidable (SameFolder dataPlace topic topic') :=
  inferInstanceAs (Decidable (_ ∨ _))

section Resolution

variable {cwd : Place Name} {path more : Bytes} {name : Name}

theorem pathMoves_append : pathMoves (path ++ 47 :: more) = pathMoves path ++ pathMoves more := by
  rw [pathMoves, List.splitOn_append_cons_self, List.map_append]
  rfl

theorem pathStart_append (more : Bytes) (h : path ≠ []) :
    pathStart cwd (path ++ more) = pathStart cwd path := by
  rw [pathStart, pathStart, List.head?_append_of_ne_nil _ h]

theorem resolve_append (h : path ≠ []) :
    resolve cwd (path ++ 47 :: more) = walk (resolve cwd path) (pathMoves more) := by
  rw [resolve, pathStart_append _ h, pathMoves_append, walk_append]
  rfl

theorem opened_of_not_mem (h : 0 ∉ path) : opened cwd path = resolve cwd path := by
  have hall : path.takeWhile (· ≠ 0) = path := by
    rw [List.takeWhile_eq_self_iff]
    intro b hb
    rw [decide_eq_true_eq]
    intro hzero
    apply h
    rw [← hzero]
    exact hb
  rw [opened, hall]

/-- A name of its own, not one of the components that lead nowhere or up. -/
structure PlainName (name : Name) : Prop where
  noSlash : 47 ∉ name
  ne_nil : name ≠ []
  ne_dot : name ≠ [46]
  ne_dots : name ≠ [46, 46]

theorem PlainName.pathMoves (h : PlainName name) : pathMoves name = [.down name] := by
  rw [Broker.pathMoves, List.splitOn_eq_singleton h.noSlash, List.map_singleton, componentMove,
    if_neg (not_or.mpr ⟨h.ne_nil, h.ne_dot⟩), if_neg h.ne_dots]

theorem resolve_name (h : PlainName name) (hpath : path ≠ []) :
    resolve cwd (path ++ 47 :: name) = resolve cwd path ++ [name] := by
  rw [resolve_append hpath, h.pathMoves]
  rfl

theorem PlainName.of_mem {b : UInt8} (noSlash : 47 ∉ name) (hb : b ∈ name) (hne : b ≠ 46) :
    PlainName name where
  noSlash := noSlash
  ne_nil := List.ne_nil_of_mem hb
  ne_dot := by
    intro heq
    rw [heq, List.mem_singleton] at hb
    exact hne hb
  ne_dots := by
    intro heq
    rw [heq] at hb
    simp only [List.mem_cons, List.not_mem_nil, or_false, or_self] at hb
    exact hne hb

end Resolution

section Names

variable {b : UInt8} {n : Nat} {base : UInt64} {file : SegmentFile}

theorem ne_of_mem_decimal {c : UInt8} (hc : isDigit c = false) : c ∉ decimal n := by
  intro h
  rw [isDigit_of_mem_decimal h] at hc
  cases hc

theorem exists_digit (n : Nat) : ∃ b ∈ decimal n, b ≠ 46 := by
  obtain ⟨b, hb⟩ := List.exists_mem_of_ne_nil _ (decimal_ne_nil n)
  refine ⟨b, hb, ?_⟩
  intro heq
  rw [heq] at hb
  exact ne_of_mem_decimal (by decide) hb

theorem plainName_decimal (n : Nat) : PlainName (decimal n) := by
  obtain ⟨b, hb, hne⟩ := exists_digit n
  exact .of_mem (ne_of_mem_decimal (by decide)) hb hne

theorem mem_segmentName (h : b ∈ segmentBaseName base ++ file.extension) :
    b = 48 ∨ b ∈ decimal base.toNat ∨ b ∈ file.extension := by
  rcases List.mem_append.mp h with h | h
  · rcases List.mem_append.mp h with h | h
    · exact Or.inl (List.eq_of_mem_replicate h)
    · exact Or.inr (Or.inl h)
  · exact Or.inr (Or.inr h)

theorem not_mem_segmentName {c : UInt8} (hdigit : isDigit c = false)
    (hext : ∀ file : SegmentFile, c ∉ file.extension) :
    c ∉ segmentBaseName base ++ file.extension := by
  intro h
  rcases mem_segmentName h with h | h | h
  · rw [h] at hdigit
    cases hdigit
  · exact ne_of_mem_decimal hdigit h
  · exact hext file h

theorem plainName_segment (base : UInt64) (file : SegmentFile) :
    PlainName (segmentBaseName base ++ file.extension) := by
  obtain ⟨b, hb, hne⟩ := exists_digit base.toNat
  refine .of_mem (not_mem_segmentName (by decide) ?_) ?_ hne
  · intro file
    cases file with
    | log => decide
    | index => decide
  · exact List.mem_append_left _ (List.mem_append_right _ hb)

end Names

section Partitions

variable {cwd : Place Name} {dataDir dir dir' : Bytes} {key : TopicPartition} {base : UInt64}
  {file : SegmentFile}

/-- Where the topics lie that have an ordinary name. -/
def dataPlace (cwd : Place Name) (dataDir : Bytes) : Place Name := resolve cwd (dataDir ++ [47])

theorem resolve_topic (topic : Topic) :
    resolve cwd (dataDir ++ 47 :: topic) = (topicShift topic).act (dataPlace cwd dataDir) := by
  have hstart : pathStart cwd (dataDir ++ 47 :: topic) = pathStart cwd (dataDir ++ [47]) := by
    rw [← pathStart_append topic (by simp : dataDir ++ [47] ≠ []), List.append_assoc]
    rfl
  rw [topicShift, ← walk_eq_act, dataPlace, resolve, resolve, hstart, pathMoves_append,
    pathMoves_append, walk_append, walk_append]
  rfl

theorem partitionDir_eq : partitionDir dataDir key =
    (dataDir ++ 47 :: key.1) ++ 47 :: decimal key.2.toNat := by
  rw [List.append_assoc]
  rfl

theorem partitionDir_not_mem (hdata : 0 ∉ dataDir) (hkey : 0 ∉ key.1) :
    0 ∉ partitionDir dataDir key := by
  simp only [partitionDir, List.mem_append, List.mem_cons, not_or]
  exact ⟨hdata, by decide, hkey, by decide, ne_of_mem_decimal (by decide)⟩

/-- The directory of a partition lies below the place its topic leads to. -/
theorem opened_partitionDir (hdata : 0 ∉ dataDir) (hkey : 0 ∉ key.1) :
    opened cwd (partitionDir dataDir key) =
      (topicShift key.1).act (dataPlace cwd dataDir) ++ [decimal key.2.toNat] := by
  rw [opened_of_not_mem (partitionDir_not_mem hdata hkey), partitionDir_eq,
    resolve_name (plainName_decimal _) (by simp), resolve_topic]

theorem opened_segmentPath (hdir : 0 ∉ dir) (hne : dir ≠ []) :
    opened cwd (segmentPath dir base file) =
      opened cwd dir ++ [segmentBaseName base ++ file.extension] := by
  have hzero : 0 ∉ segmentPath dir base file := by
    simp only [segmentPath, List.mem_append (s := dir), List.mem_cons, not_or]
    refine ⟨hdir, by decide, not_mem_segmentName (by decide) ?_⟩
    intro file
    cases file with
    | log => decide
    | index => decide
  rw [opened_of_not_mem hzero, opened_of_not_mem hdir, segmentPath,
    resolve_name (plainName_segment base file) hne]

/-- Partitions share nothing as soon as their directories are different places. -/
theorem isolated_iff (hdir : 0 ∉ dir) (hne : dir ≠ []) (hdir' : 0 ∉ dir') (hne' : dir' ≠ []) :
    Isolated cwd dir dir' ↔ opened cwd dir ≠ opened cwd dir' := by
  constructor
  · intro h
    exact h.directories
  · intro h
    refine ⟨h, ?_, ?_⟩
    · intro base base' file file'
      rw [opened_segmentPath hdir hne, opened_segmentPath hdir' hne']
      intro heq
      exact h (List.append_inj_left' heq rfl)
    · intro disk base file content
      funext name
      apply Function.update_of_ne
      rw [opened_segmentPath hdir hne]
      intro heq
      exact h (List.append_inj_left' heq rfl).symm

/-- Every partition the broker has opened got the directory of its own key. -/
theorem afterRequests_dir {keys : List TopicPartition}
    (h : (PartitionDirs.afterRequests dataDir keys)[key]? = some dir) :
    dir = partitionDir dataDir key := by
  induction keys using List.reverseRecOn with
  | nil => simp [PartitionDirs.afterRequests] at h
  | append_singleton keys asked ih =>
      rw [PartitionDirs.afterRequests, List.foldl_append] at h
      change (PartitionDirs.getOrCreatePartition dataDir
        (PartitionDirs.afterRequests dataDir keys) asked)[key]? = some dir at h
      rw [PartitionDirs.getOrCreatePartition] at h
      split at h
      · exact ih h
      · rw [Std.ExtTreeMap.getElem?_insert] at h
        split at h
        · next hkey =>
            rw [← Std.compare_eq_iff_eq.mp hkey]
            exact (Option.some.inj h).symm
        · exact ih h

theorem opened_partitionDir_eq_iff {key' : TopicPartition} (hdata : 0 ∉ dataDir)
    (hkey : 0 ∉ key.1) (hkey' : 0 ∉ key'.1) :
    opened cwd (partitionDir dataDir key) = opened cwd (partitionDir dataDir key') ↔
      key.2 = key'.2 ∧ SameFolder (dataPlace cwd dataDir) key.1 key'.1 := by
  rw [opened_partitionDir hdata hkey, opened_partitionDir hdata hkey', SameFolder,
    ← Shift.act_eq_iff]
  constructor
  · intro heq
    obtain ⟨hfolder, hname⟩ := List.append_inj' heq rfl
    refine ⟨?_, hfolder⟩
    apply UInt32.toNat_inj.mp
    exact decimal_injective (List.singleton_inj.mp hname)
  · intro h
    rw [h.1, h.2]

end Partitions

/-- Two partitions a broker has opened share nothing on disk exactly when their numbers
differ or their topic names lead to different places. -/
theorem partitions_isolated_iff {cwd : Place Name} {dataDir : Bytes} {keys : List TopicPartition}
    {key key' : TopicPartition} {dir dir' : Bytes} (hdata : 0 ∉ dataDir) (hkey : 0 ∉ key.1)
    (hkey' : 0 ∉ key'.1)
    (h : (PartitionDirs.afterRequests dataDir keys)[key]? = some dir)
    (h' : (PartitionDirs.afterRequests dataDir keys)[key']? = some dir') :
    Isolated cwd dir dir' ↔
      key.2 ≠ key'.2 ∨ ¬ SameFolder (dataPlace cwd dataDir) key.1 key'.1 := by
  have hne : ∀ key, partitionDir dataDir key ≠ [] := by
    intro key
    simp [partitionDir]
  rw [afterRequests_dir h, afterRequests_dir h',
    isolated_iff (partitionDir_not_mem hdata hkey) (hne key) (partitionDir_not_mem hdata hkey')
      (hne key'), Ne, opened_partitionDir_eq_iff hdata hkey hkey', not_and_or]

/-- The topics `a` and `b` in the data directory `d`. -/
theorem partitions_isolated_iff_plain :
    Isolated [] (partitionDir [100] ([97], 0)) (partitionDir [100] ([98], 0)) := by
  let keys : List TopicPartition := [([97], 0), ([98], 0)]
  have ha : (PartitionDirs.afterRequests [100] keys)[(([97], 0) : TopicPartition)]? =
      some (partitionDir [100] ([97], 0)) := rfl
  have hb : (PartitionDirs.afterRequests [100] keys)[(([98], 0) : TopicPartition)]? =
      some (partitionDir [100] ([98], 0)) := rfl
  refine (partitions_isolated_iff (by decide) (by decide) (by decide) ha hb).mpr (Or.inr ?_)
  decide

/-- The topics `a` and `a/.` are stored in one directory. -/
theorem partitions_not_isolated :
    ¬ ∀ (cwd : Place Name) (dataDir : Bytes) (keys : List TopicPartition)
      (key key' : TopicPartition) (dir dir' : Bytes), 0 ∉ dataDir → 0 ∉ key.1 → 0 ∉ key'.1 →
      key ≠ key' → (PartitionDirs.afterRequests dataDir keys)[key]? = some dir →
      (PartitionDirs.afterRequests dataDir keys)[key']? = some dir' → Isolated cwd dir dir' := by
  intro claim
  have h := claim [] [100] [([97], 0), ([97, 47, 46], 0)] ([97], 0) ([97, 47, 46], 0) _ _
    (by decide) (by decide) (by decide) (by decide) rfl rfl
  exact h.directories (by decide)

end MiniKafka.Broker
