import MiniKafka.Cluster.ElectionState
import Mathlib.Algebra.Group.Nat.Defs
import Mathlib.Data.Finset.Card

/-!
# The static peers table

`ClusterMembership` keeps the `--peers` table in a `std::map`, so its ids come
out strictly ascending. The table is read from one argument of the command line, so it
never holds as many as `2 ^ 32` ids. Addresses and connections are left out here.
-/

namespace MiniKafka.Cluster

structure Membership where
  allIds : List BrokerId
  ascending : allIds.Pairwise (· < ·)
  bounded : allIds.length < 2 ^ 32

namespace Membership

variable (m : Membership)

theorem allIds_nodup : m.allIds.Nodup :=
  m.ascending.imp fun h => UInt32.ne_of_lt h

/-- The number of ids, cut to 32 bits. -/
def brokerCount : UInt32 := UInt32.ofNat m.allIds.length

/-- A table that was read from the command line is counted in full. -/
theorem toNat_brokerCount : m.brokerCount.toNat = m.allIds.length :=
  UInt32.toNat_ofNat_of_lt' m.bounded

/-- The peers a broadcast of `selfId` starts a thread for. -/
def peerIds (selfId : BrokerId) : List BrokerId :=
  m.allIds.filter (· ≠ selfId)

theorem peerIds_nodup (selfId : BrokerId) : (m.peerIds selfId).Nodup :=
  m.allIds_nodup.filter _

/-- The ids of the table as the voters of an election. -/
def voters : Finset BrokerId := ⟨m.allIds, m.allIds_nodup⟩

@[simp] theorem mem_voters {id : BrokerId} : id ∈ m.voters ↔ id ∈ m.allIds := Iff.rfl

theorem voters_card : m.voters.card = m.brokerCount.toNat :=
  m.toNat_brokerCount.symm

theorem card_lt {q : Finset BrokerId} (hq : q ⊆ m.voters) : q.card < 2 ^ 32 :=
  (Finset.card_le_card hq).trans_lt m.bounded

/-- The majority in 32 bits is more than half of the voters. -/
theorem toNat_majority : (m.brokerCount / 2 + 1).toNat = m.voters.card / 2 + 1 := by
  have hlt := m.brokerCount.toNat_lt
  rw [voters_card, UInt32.toNat_add, UInt32.toNat_div]
  change (m.brokerCount.toNat / 2 + 1) % 2 ^ 32 = m.brokerCount.toNat / 2 + 1
  exact Nat.mod_eq_of_lt (by omega)

theorem mem_peerIds {selfId id : BrokerId} :
    id ∈ m.peerIds selfId ↔ id ∈ m.allIds ∧ id ≠ selfId := by
  simp [peerIds]

end Membership

end MiniKafka.Cluster
