import MiniKafka.Broker.PartitionDirectories
import MiniKafka.Group.OffsetStore

/-!
# The files of a broker without peers

Such a broker keeps the segments of its partitions and the counts of its topics under the names
of the topics, and the offsets of its groups under the names of the groups. As long as these
are ordinary names, different files of the program are different files of the disk.
-/

namespace MiniKafka.Broker

open Cluster Common Foundations MiniKafka.Group

instance (name : Name) : Decidable (PlainName name) :=
  decidable_of_iff (47 ∉ name ∧ name ≠ [] ∧ name ≠ [46] ∧ name ≠ [46, 46])
    ⟨fun h => ⟨h.1, h.2.1, h.2.2.1, h.2.2.2⟩, fun h => ⟨h.noSlash, h.ne_nil, h.ne_dot, h.ne_dots⟩⟩

/-- A topic whose name is that of one directory. -/
def TopicName (topic : Topic) : Prop := PlainName topic ∧ 0 ∉ topic

instance (topic : Topic) : Decidable (TopicName topic) :=
  inferInstanceAs (Decidable (_ ∧ _))

/-- The text `.partitions`. -/
def partitionsName : Name := [46, 112, 97, 114, 116, 105, 116, 105, 111, 110, 115]

/-- The text `__consumer_offsets`. -/
def offsetsDirectory : Name :=
  [95, 95, 99, 111, 110, 115, 117, 109, 101, 114, 95, 111, 102, 102, 115, 101, 116, 115]

inductive DataFile
  | segment (key : TopicPartition) (base : UInt64) (file : SegmentFile)
  | partitions (topic : Topic)
  | offsets (groupId : GroupId)

namespace DataFile

/-- The path under which the program opens a file. -/
def path (dataDir : Bytes) : DataFile → Bytes
  | segment key base file => segmentPath (partitionDir dataDir key) base file
  | partitions topic => (dataDir ++ 47 :: topic) ++ 47 :: partitionsName
  | offsets groupId => (dataDir ++ 47 :: offsetsDirectory) ++ 47 :: (groupId ++ offsetsSuffix)

/-- The topic or the group has an ordinary name. -/
def Named : DataFile → Prop
  | segment key _ _ => TopicName key.1
  | partitions topic => TopicName topic
  | offsets groupId => FileGroup groupId

end DataFile

section Places

variable {cwd : Place Name} {dataDir : Bytes} {name : Name} {topic : Topic} {f f' : DataFile}

/-- An ordinary name leads down by itself. -/
theorem PlainName.act (h : PlainName name) (place : Place Name) :
    (topicShift name).act place = place ++ [name] := by
  rw [topicShift, ← walk_eq_act, h.pathMoves]
  rfl

end Places

end MiniKafka.Broker
