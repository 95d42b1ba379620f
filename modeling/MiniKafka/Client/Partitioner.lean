import MiniKafka.Common.Murmur2

/-!
# The partition of a key

The partitioner of `mk-produce`. A key always goes to the same partition of a topic, and where
one word of the keys takes all its values, every partition gets as many of them as the others,
but for two.
-/

namespace MiniKafka.Client

open Common Foundations

def partitionForKey (key : Bytes) (partitionCount : UInt32) : UInt32 :=
  unsignedHash key % partitionCount

/-- How many of the keys go to a partition, where one word of them takes all its values: the
counts of two partitions are equal or differ by 2. -/
theorem partition_for_key_spreads {front : Bytes} (hfront : front.length % 4 = 0) (back : Bytes)
    {partitionCount p : UInt32} (hp : p < partitionCount) :
    ∃ c, (c = 2 ^ 31 / partitionCount.toNat ∨ c = 2 ^ 31 / partitionCount.toNat + 1) ∧
      {k | partitionForKey (front ++ leBytes k ++ back) partitionCount = p}.ncard = 2 * c := by
  obtain ⟨c, hc, hcard⟩ := unsignedHash_spreads hfront back (UInt32.lt_iff_toNat_lt.mp hp)
  refine ⟨c, hc, ?_⟩
  rw [← hcard]
  congr 1
  ext k
  simp only [Set.mem_ofPred_eq, partitionForKey, ← UInt32.toNat_inj, UInt32.toNat_mod]

/-- Keys of eight bytes that end in an ASCII word. -/
theorem partition_for_key_spreads_three :
    ∃ c, (c = 715827882 ∨ c = 715827883) ∧
      {k | partitionForKey (leBytes k ++ [107, 101, 121, 115]) 3 = 1}.ncard = 2 * c := by
  have hempty : ([] : Bytes).length % 4 = 0 := rfl
  have hp : (1 : UInt32) < 3 := by decide
  exact partition_for_key_spreads hempty [107, 101, 121, 115] hp

end MiniKafka.Client
