import MiniKafka.Foundations.Table
import MiniKafka.Group.GroupState

/-!
# The assignment that a group's leader computes

`compute_range_assignment` of the consumer: the members in order get consecutive ranges of
the partitions, the first ones a partition more where the division leaves a rest.
-/

namespace MiniKafka.Group

open Foundations

/-- `count` partitions from `p` on. -/
def partsFrom (p count : UInt32) : List UInt32 :=
  (List.range count.toNat).map fun k => p + UInt32.ofNat k

/-- The writes of the loop from the member at position `i` on. -/
def rangeSlices (base extra : UInt32) :
    Nat → UInt32 → List MemberId → List (MemberId × List UInt32)
  | _, _, [] => []
  | i, p, member :: rest =>
      let count := base + if i < extra.toNat then 1 else 0
      (member, partsFrom p count) :: rangeSlices base extra (i + 1) (p + count) rest

/-- The writes of the loop over the sorted members. -/
def rangeWrites (members : List MemberId) (partitionCount : UInt32) :
    List (MemberId × List UInt32) :=
  let members := members.insertionSort fun a b => (compare a b).isLE
  let n := UInt32.ofNat members.length
  rangeSlices (partitionCount / n) (partitionCount % n) 0 0 members

def computeRangeAssignment (members : List MemberId) (partitionCount : UInt32) :
    MemberMap (List UInt32) :=
  if members = [] then ∅
  else
    (rangeWrites members partitionCount).foldl
      (fun assignment write => assignment.insert write.1 write.2) ∅

/-- The assignments that the leader sends in its `SyncGroup`. -/
def rangeAssignments (members : List MemberId) (partitionCount : UInt32) :
    List SyncGroupAssignment :=
  (computeRangeAssignment members partitionCount).toList.map fun entry =>
    ⟨entry.1, entry.2⟩

/-- The partitions of a member in a list of assignments. -/
def slice (assignments : List SyncGroupAssignment) (memberId : MemberId) : List UInt32 :=
  ((assignmentOf assignments)[memberId]?).getD []

variable {base extra p q partitionCount : UInt32} {i : Nat} {members : List MemberId}
  {memberId other : MemberId}

theorem partsFrom_append {count count' : UInt32} (fits : count.toNat + count'.toNat < 2 ^ 32) :
    partsFrom p count ++ partsFrom (p + count) count' = partsFrom p (count + count') := by
  have hsum : (count + count').toNat = count.toNat + count'.toNat := by
    rw [UInt32.toNat_add, Nat.mod_eq_of_lt fits]
  unfold partsFrom
  rw [hsum, List.range_add, List.map_append, List.map_map]
  congr 1
  apply List.map_congr_left
  intro k _
  simp [UInt32.ofNat_add, UInt32.add_assoc]

theorem rangeSlices_members :
    (rangeSlices base extra i p members).map Prod.fst = members := by
  induction members generalizing i p with
  | nil => rfl
  | cons member rest ih =>
      rw [rangeSlices, List.map_cons, ih]

/-- From position `i` on the members get consecutive ranges. -/
theorem rangeSlices_parts {total : UInt32}
    (htotal : total.toNat = members.length * base.toNat +
      (min extra.toNat (i + members.length) - min extra.toNat i)) :
    (rangeSlices base extra i p members).flatMap Prod.snd = partsFrom p total := by
  induction members generalizing i p total with
  | nil =>
      have hzero : total.toNat = 0 := by
        simp only [List.length_nil] at htotal
        omega
      rw [partsFrom, hzero]
      rfl
  | cons member rest ih =>
      rw [List.length_cons, Nat.add_mul, Nat.one_mul] at htotal
      have hlt := total.toNat_lt
      have hcount : (base + if i < extra.toNat then 1 else 0).toNat =
          base.toNat + (min extra.toNat (i + 1) - min extra.toNat i) := by
        split
        · rw [UInt32.toNat_add, UInt32.toNat_one, Nat.mod_eq_of_lt] <;> omega
        · rw [UInt32.add_zero]
          omega
      have hrest : (UInt32.ofNat (total.toNat - (base + if i < extra.toNat then 1 else 0).toNat)
          ).toNat = total.toNat - (base + if i < extra.toNat then 1 else 0).toNat :=
        UInt32.toNat_ofNat_of_lt' (by simp only [UInt32.size]; omega)
      simp only [rangeSlices, List.flatMap_cons]
      generalize (base + if i < extra.toNat then 1 else 0) = count at hcount hrest ⊢
      have hnext : (rangeSlices base extra (i + 1) (p + count) rest).flatMap Prod.snd =
          partsFrom (p + count) (UInt32.ofNat (total.toNat - count.toNat)) :=
        ih (by rw [hrest]; omega)
      rw [hnext, partsFrom_append (by rw [hrest]; omega)]
      congr 1
      apply UInt32.toNat_inj.mp
      rw [UInt32.toNat_add, hrest, Nat.mod_eq_of_lt] <;> omega

theorem rangeWrites_members : ((rangeWrites members partitionCount).map Prod.fst).Perm members := by
  unfold rangeWrites
  rw [rangeSlices_members]
  exact List.perm_insertionSort _ members

/-- All partitions are handed out, in order. -/
theorem rangeWrites_parts (hne : members ≠ []) (hlen : members.length < 2 ^ 32) :
    (rangeWrites members partitionCount).flatMap Prod.snd = partsFrom 0 partitionCount := by
  unfold rangeWrites
  apply rangeSlices_parts
  have hn : (UInt32.ofNat members.length).toNat = members.length :=
    UInt32.toNat_ofNat_of_lt' hlen
  have hmod := Nat.mod_lt partitionCount.toNat (List.length_pos_of_ne_nil hne)
  have hdiv := Nat.div_add_mod partitionCount.toNat members.length
  rw [List.length_insertionSort, UInt32.toNat_div, UInt32.toNat_mod, hn]
  omega

theorem computeRangeAssignment_eq :
    computeRangeAssignment members partitionCount =
      Std.ExtTreeMap.ofList (rangeWrites members partitionCount) := by
  unfold computeRangeAssignment
  split
  · next hnil =>
      have hperm : ((rangeWrites members partitionCount).map Prod.fst).Perm members :=
        rangeWrites_members
      have hwrites := hperm.length_eq
      rw [hnil, List.length_map, List.length_nil] at hwrites
      rw [hnil, List.length_eq_zero_iff.mp hwrites, Std.ExtTreeMap.ofList_nil]
  · exact foldl_insert_eq_ofList

theorem slice_rangeAssignments :
    slice (rangeAssignments members partitionCount) memberId =
      ((Std.ExtTreeMap.ofList (rangeWrites members partitionCount) compare)[memberId]?).getD
        [] := by
  unfold slice assignmentOf rangeAssignments
  rw [List.foldl_map, foldl_insert_eq_ofList, ofList_toList, computeRangeAssignment_eq]

theorem slice_of_mem (nodup : members.Nodup) {parts : List UInt32}
    (h : (memberId, parts) ∈ rangeWrites members partitionCount) :
    slice (rangeAssignments members partitionCount) memberId = parts := by
  rw [slice_rangeAssignments,
    getElem?_ofList_of_nodup (rangeWrites_members.nodup_iff.mpr nodup) h]
  rfl

/-- A slice with a partition in it is one of the writes. -/
theorem mem_of_mem_slice (nodup : members.Nodup)
    (h : q ∈ slice (rangeAssignments members partitionCount) memberId) :
    ∃ parts, (memberId, parts) ∈ rangeWrites members partitionCount ∧ q ∈ parts := by
  by_cases hm : memberId ∈ (rangeWrites members partitionCount).map Prod.fst
  · obtain ⟨⟨_, parts⟩, hwrite, rfl⟩ := List.mem_map.mp hm
    rw [slice_of_mem nodup hwrite] at h
    exact ⟨parts, hwrite, h⟩
  · rw [slice_rangeAssignments, getElem?_ofList_of_not_mem hm] at h
    cases h

theorem mem_partsFrom_zero : q ∈ partsFrom 0 partitionCount ↔ q < partitionCount := by
  simp only [partsFrom, List.mem_map, List.mem_range, UInt32.zero_add, UInt32.lt_iff_toNat_lt]
  constructor
  · rintro ⟨k, hk, rfl⟩
    rwa [UInt32.toNat_ofNat_of_lt' (hk.trans partitionCount.toNat_lt)]
  · intro hq
    exact ⟨q.toNat, hq, UInt32.ofNat_toNat⟩

theorem nodup_partsFrom_zero : (partsFrom 0 partitionCount).Nodup := by
  unfold partsFrom
  apply List.Nodup.map_on _ List.nodup_range
  intro a ha b hb heq
  simp only [UInt32.zero_add] at heq
  have hlt := partitionCount.toNat_lt
  have htoNat := congrArg UInt32.toNat heq
  rwa [UInt32.toNat_ofNat_of_lt' (lt_trans (List.mem_range.mp ha) hlt),
    UInt32.toNat_ofNat_of_lt' (lt_trans (List.mem_range.mp hb) hlt)] at htoNat

/-- The slices of the members are the partitions of the topic. -/
theorem rangeAssignments_cover (hne : members ≠ []) (hlen : members.length < 2 ^ 32)
    (nodup : members.Nodup) :
    (∃ m ∈ members, q ∈ slice (rangeAssignments members partitionCount) m) ↔
      q < partitionCount := by
  rw [← mem_partsFrom_zero, ← rangeWrites_parts hne hlen, List.mem_flatMap]
  constructor
  · rintro ⟨m, -, hq⟩
    obtain ⟨parts, hwrite, hparts⟩ := mem_of_mem_slice nodup hq
    exact ⟨_, hwrite, hparts⟩
  · rintro ⟨write, hwrite, hq⟩
    refine ⟨write.1, rangeWrites_members.mem_iff.mp (List.mem_map_of_mem hwrite), ?_⟩
    rw [slice_of_mem nodup hwrite]
    exact hq

theorem rangeWrites_disjoint (hlen : members.length < 2 ^ 32) {parts parts' : List UInt32}
    (hwrite : (memberId, parts) ∈ rangeWrites members partitionCount)
    (hwrite' : (other, parts') ∈ rangeWrites members partitionCount)
    (hother : memberId ≠ other) : List.Disjoint parts parts' := by
  have hne : members ≠ [] := by
    intro hnil
    have hmem := rangeWrites_members.mem_iff.mp (List.mem_map_of_mem hwrite)
    rw [hnil] at hmem
    cases hmem
  have hall : ((rangeWrites members partitionCount).flatMap Prod.snd).Nodup := by
    rw [rangeWrites_parts hne hlen]
    exact nodup_partsFrom_zero
  have hapart := (List.nodup_flatMap.mp hall).2
  have : Std.Symm (Function.onFun List.Disjoint (Prod.snd : MemberId × List UInt32 → _)) :=
    ⟨fun _ _ h => h.symm⟩
  apply hapart.forall hwrite hwrite'
  intro heq
  exact hother (congrArg Prod.fst heq)

/-- No partition is in the slices of two members. -/
theorem rangeAssignments_disjoint (hlen : members.length < 2 ^ 32) (nodup : members.Nodup)
    (hother : memberId ≠ other) :
    List.Disjoint (slice (rangeAssignments members partitionCount) memberId)
      (slice (rangeAssignments members partitionCount) other) := by
  intro q hq hq'
  obtain ⟨parts, hwrite, hparts⟩ := mem_of_mem_slice nodup hq
  obtain ⟨parts', hwrite', hparts'⟩ := mem_of_mem_slice nodup hq'
  exact rangeWrites_disjoint hlen hwrite hwrite' hother hparts hparts'

section EvenSplit

/-- The ranges of an assignment are an even split of the partitions among the members. -/
structure EvenSplit (assignment : MemberMap (List UInt32)) (members : List MemberId)
    (partitionCount : UInt32) : Prop where
  keys : ∀ m, m ∈ assignment ↔ m ∈ members
  contiguous : ∀ (m : MemberId) (parts : List UInt32), assignment[m]? = some parts →
    ∃ start, parts.map UInt32.toNat = List.range' start parts.length
  disjoint : ∀ (m m' : MemberId) (parts parts' : List UInt32), assignment[m]? = some parts →
    assignment[m']? = some parts' → m ≠ m' → List.Disjoint parts parts'
  cover : ∀ q, (∃ (m : MemberId) (parts : List UInt32),
    assignment[m]? = some parts ∧ q ∈ parts) ↔ q < partitionCount
  balanced : ∀ (m m' : MemberId) (parts parts' : List UInt32), assignment[m]? = some parts →
    assignment[m']? = some parts' → parts.length ≤ parts'.length + 1

theorem length_partsFrom {count : UInt32} : (partsFrom p count).length = count.toNat := by
  rw [partsFrom, List.length_map, List.length_range]

theorem map_toNat_partsFrom_zero :
    (partsFrom 0 partitionCount).map UInt32.toNat = List.range' 0 partitionCount.toNat := by
  rw [partsFrom, List.map_map, ← List.range_eq_range']
  calc (List.range partitionCount.toNat).map (UInt32.toNat ∘ fun k => 0 + UInt32.ofNat k)
      = (List.range partitionCount.toNat).map id := by
        apply List.map_congr_left
        intro k hk
        rw [Function.comp_apply, UInt32.zero_add]
        exact UInt32.toNat_ofNat_of_lt' ((List.mem_range.mp hk).trans partitionCount.toNat_lt)
    _ = List.range partitionCount.toNat := List.map_id _

/-- The ranges are as long as the division says, or one longer. -/
theorem rangeSlices_length {parts : List UInt32}
    (room : extra ≠ 0 → base.toNat + 1 < 2 ^ 32)
    (h : (memberId, parts) ∈ rangeSlices base extra i p members) :
    parts.length = base.toNat ∨ parts.length = base.toNat + 1 := by
  induction members generalizing i p with
  | nil => cases h
  | cons member rest ih =>
      rw [rangeSlices, List.mem_cons] at h
      rcases h with h | h
      · rw [(Prod.mk.inj h).2, length_partsFrom]
        split
        · next hlt =>
            have hextra : extra ≠ 0 := by
              intro hzero
              rw [hzero] at hlt
              exact absurd hlt (Nat.not_lt_zero i)
            right
            rw [UInt32.toNat_add, UInt32.toNat_one, Nat.mod_eq_of_lt (room hextra)]
        · left
          rw [UInt32.add_zero]
      · exact ih h

/-- Where the division leaves a rest, there are two members, and a partition more fits. -/
theorem rangeWrites_length (hlen : members.length < 2 ^ 32) {parts : List UInt32}
    (h : (memberId, parts) ∈ rangeWrites members partitionCount) :
    parts.length = partitionCount.toNat / members.length ∨
      parts.length = partitionCount.toNat / members.length + 1 := by
  have hn : (UInt32.ofNat members.length).toNat = members.length :=
    UInt32.toNat_ofNat_of_lt' hlen
  have hbase : (partitionCount / UInt32.ofNat members.length).toNat =
      partitionCount.toNat / members.length := by
    rw [UInt32.toNat_div, hn]
  rw [rangeWrites, List.length_insertionSort] at h
  rw [← hbase]
  apply rangeSlices_length _ h
  intro hextra
  have hrest : partitionCount.toNat % members.length ≠ 0 := by
    intro hzero
    apply hextra
    apply UInt32.toNat_inj.mp
    rw [UInt32.toNat_mod, hn, hzero]
    rfl
  have hlt := partitionCount.toNat_lt
  have htwo : 2 ≤ members.length := by
    rcases Nat.lt_or_ge members.length 2 with hsmall | hge
    · have hfew : members.length = 0 ∨ members.length = 1 := by omega
      rcases hfew with hzero | hone
      · rw [List.length_eq_zero_iff.mp hzero] at h
        cases h
      · rw [hone, Nat.mod_one] at hrest
        exact absurd rfl hrest
    · exact hge
  have hhalf : partitionCount.toNat / members.length ≤ partitionCount.toNat / 2 :=
    Nat.div_le_div_left htwo Nat.two_pos
  rw [hbase]
  omega

/-- A range is a stretch of the partitions, which are handed out in order. -/
theorem rangeWrites_contiguous (hne : members ≠ []) (hlen : members.length < 2 ^ 32)
    {parts : List UInt32} (h : (memberId, parts) ∈ rangeWrites members partitionCount) :
    ∃ start, parts.map UInt32.toNat = List.range' start parts.length := by
  obtain ⟨before, after, hsplit⟩ := List.append_of_mem h
  have hall : before.flatMap Prod.snd ++ (parts ++ after.flatMap Prod.snd) =
      partsFrom 0 partitionCount := by
    rw [← rangeWrites_parts hne hlen, hsplit, List.flatMap_append, List.flatMap_cons]
  have hnumbers : (before.flatMap Prod.snd).map UInt32.toNat ++
      (parts.map UInt32.toNat ++ (after.flatMap Prod.snd).map UInt32.toNat) =
        List.range' 0 partitionCount.toNat := by
    rw [← map_toNat_partsFrom_zero, ← hall, List.map_append, List.map_append]
  have hlength := congrArg List.length hnumbers
  simp only [List.length_append, List.length_map, List.length_range'] at hlength
  refine ⟨(before.flatMap Prod.snd).length, ?_⟩
  calc parts.map UInt32.toNat
      = ((List.range' 0 partitionCount.toNat).drop (before.flatMap Prod.snd).length).take
          parts.length := by
        rw [← hnumbers, List.drop_left' (List.length_map _), List.take_left' (List.length_map _)]
    _ = List.range' (before.flatMap Prod.snd).length parts.length := by
        rw [List.drop_range', List.take_range'_of_length_ge (by omega), Nat.mul_one,
          Nat.zero_add]

theorem insertionSort_of_perm {members' : List MemberId} (h : members'.Perm members) :
    members'.insertionSort (fun a b => (compare a b).isLE) =
      members.insertionSort fun a b => (compare a b).isLE := by
  have htotal : Std.Total fun a b : MemberId => (compare a b).isLE = true :=
    ⟨fun a b => by
      by_cases hle : (compare a b).isLE = true
      · exact Or.inl hle
      · right
        rw [Std.OrientedCmp.lt_of_not_isLE hle]
        rfl⟩
  have htrans : IsTrans MemberId fun a b => (compare a b).isLE = true :=
    ⟨fun a b c => Std.TransCmp.isLE_trans⟩
  apply List.Perm.eq_of_pairwise _ (List.pairwise_insertionSort _ _)
    (List.pairwise_insertionSort _ _)
  · exact (List.perm_insertionSort _ _).trans (h.trans (List.perm_insertionSort _ _).symm)
  · intro a b _ _ hab hba
    exact Std.LawfulEqCmp.eq_of_compare (Std.OrientedCmp.isLE_antisymm hab hba)

theorem computeRangeAssignment_of_perm {members' : List MemberId} (h : members'.Perm members) :
    computeRangeAssignment members' partitionCount =
      computeRangeAssignment members partitionCount := by
  rw [computeRangeAssignment_eq, computeRangeAssignment_eq, rangeWrites, rangeWrites,
    insertionSort_of_perm h]

theorem getElem?_computeRangeAssignment (nodup : members.Nodup) {parts : List UInt32} :
    (computeRangeAssignment members partitionCount)[memberId]? = some parts ↔
      (memberId, parts) ∈ rangeWrites members partitionCount := by
  rw [computeRangeAssignment_eq]
  exact getElem?_ofList_iff (rangeWrites_members.nodup_iff.mpr nodup)

theorem computeRangeAssignment_evenSplit (hne : members ≠ [])
    (hlen : members.length < 2 ^ 32) (nodup : members.Nodup) :
    EvenSplit (computeRangeAssignment members partitionCount) members partitionCount := by
  constructor
  · intro m
    rw [Std.ExtTreeMap.mem_iff_isSome_getElem?, Option.isSome_iff_exists]
    simp only [getElem?_computeRangeAssignment nodup]
    rw [← rangeWrites_members.mem_iff, List.mem_map]
    constructor
    · intro ⟨parts, hwrite⟩
      exact ⟨(m, parts), hwrite, rfl⟩
    · intro ⟨write, hwrite, heq⟩
      rw [← heq]
      exact ⟨write.2, hwrite⟩
  · intro m parts h
    exact rangeWrites_contiguous hne hlen ((getElem?_computeRangeAssignment nodup).mp h)
  · intro m m' parts parts' h h'
    exact rangeWrites_disjoint hlen ((getElem?_computeRangeAssignment nodup).mp h)
      ((getElem?_computeRangeAssignment nodup).mp h')
  · intro q
    simp only [getElem?_computeRangeAssignment nodup]
    rw [← mem_partsFrom_zero, ← rangeWrites_parts hne hlen, List.mem_flatMap]
    constructor
    · intro ⟨m, parts, hwrite, hq⟩
      exact ⟨(m, parts), hwrite, hq⟩
    · intro ⟨write, hwrite, hq⟩
      exact ⟨write.1, write.2, hwrite, hq⟩
  · intro m m' parts parts' h h'
    have hlength := rangeWrites_length hlen ((getElem?_computeRangeAssignment nodup).mp h)
    have hlength' := rangeWrites_length hlen ((getElem?_computeRangeAssignment nodup).mp h')
    omega

/-- The range assignment is an even split of the partitions, whatever the order in which
the members are listed. -/
theorem range_assignment_exact_balanced (hne : members ≠ []) (hlen : members.length < 2 ^ 32)
    (nodup : members.Nodup) :
    EvenSplit (computeRangeAssignment members partitionCount) members partitionCount ∧
      ∀ members' : List MemberId, members'.Perm members →
        computeRangeAssignment members' partitionCount =
          computeRangeAssignment members partitionCount :=
  ⟨computeRangeAssignment_evenSplit hne hlen nodup,
    fun _ h => computeRangeAssignment_of_perm h⟩

/-- Two members share a single partition. -/
theorem range_assignment_more_members :
    EvenSplit (computeRangeAssignment [[2], [1]] 1) [[2], [1]] 1 ∧
      ∀ members' : List MemberId, members'.Perm [[2], [1]] →
        computeRangeAssignment members' 1 = computeRangeAssignment [[2], [1]] 1 :=
  range_assignment_exact_balanced (by decide) (by decide) (by decide)

end EvenSplit

example : (computeRangeAssignment [[3], [1], [2]] 5).toList =
    [([1], [0, 1]), ([2], [2, 3]), ([3], [4])] := by decide

end MiniKafka.Group
