import MiniKafka.Broker.Peers
import MiniKafka.Broker.Standalone

/-!
# The coordinators that brokers name

In the cluster mode a broker answers FindCoordinator from its own copy of the peers table, so
the consumers of a group meet at one broker only if the copies agree.
-/

namespace MiniKafka.Broker

open Cluster Common Foundations Protocol Std

def BrokerConfig.address (cfg : BrokerConfig) : Address := ⟨cfg.host, cfg.port⟩

/-- The table a broker is constructed with: `main` writes the broker's own address into what
it has parsed. -/
def BrokerConfig.peers (cfg : BrokerConfig) (parsed : PeersTable) : PeersTable :=
  parsed.insert cfg.id cfg.address

/-- `handle_find_coordinator` in the cluster mode. The table has the broker's own id, so it is
not empty. -/
def findCoordinator (peers : PeersTable) (req : FindCoordinatorRequest) :
    FindCoordinatorResponse :=
  let ids := peers.keys
  let h := unsignedHash req.groupId
  let coordId := ids.getD (h.toNat % ids.length) 0
  let addr := peers[coordId]?
  { errorCode := .none
    coordinatorId := coordId
    host := (addr.map Address.host).getD []
    port := (addr.map fun a => a.port.toUInt32).getD 0 }

section Tables

variable {parsed : PeersTable} {b b' : BrokerConfig}

/-- Writing over an entry leaves the ids. -/
theorem peers_keys (hb : b.id ∈ parsed) : (b.peers parsed).keys = parsed.keys := by
  have hmem : ∀ id, id ∈ (b.peers parsed).keys ↔ id ∈ parsed.keys := by
    intro id
    rw [ExtTreeMap.mem_keys, ExtTreeMap.mem_keys, BrokerConfig.peers, ExtTreeMap.mem_insert]
    constructor
    · rintro (heq | hid)
      · rwa [← LawfulEqCmp.eq_of_compare heq]
      · exact hid
    · exact Or.inr
  refine List.Perm.eq_of_pairwise ?_ ExtTreeMap.ordered_keys ExtTreeMap.ordered_keys ?_
  · intro id id' _ _ hlt hgt
    have hself : compare id id = .eq := ReflCmp.compare_self
    have hless : compare id id = .lt := TransCmp.lt_trans hlt hgt
    rw [hself] at hless
    cases hless
  · exact (List.perm_ext_iff_of_nodup ExtTreeMap.nodup_keys ExtTreeMap.nodup_keys).mpr hmem

theorem peers_getElem? (b : BrokerConfig) (parsed : PeersTable) (id : BrokerId) :
    (b.peers parsed)[id]? = if b.id = id then some b.address else parsed[id]? := by
  rw [BrokerConfig.peers, ExtTreeMap.getElem?_insert]
  simp only [LawfulEqCmp.compare_eq_iff_eq]

/-- The id that all brokers with the ids of a table choose. -/
def coordinatorId (parsed : PeersTable) (req : FindCoordinatorRequest) : BrokerId :=
  parsed.keys.getD ((unsignedHash req.groupId).toNat % parsed.keys.length) 0

/-- The answer that names an address. -/
def coordinatorAt (coordId : BrokerId) (addr : Option Address) : FindCoordinatorResponse :=
  { errorCode := .none
    coordinatorId := coordId
    host := (addr.map Address.host).getD []
    port := (addr.map fun a => a.port.toUInt32).getD 0 }

theorem findCoordinator_peers (hb : b.id ∈ parsed) (req : FindCoordinatorRequest) :
    findCoordinator (b.peers parsed) req =
      coordinatorAt (coordinatorId parsed req)
        (if b.id = coordinatorId parsed req then some b.address
          else parsed[coordinatorId parsed req]?) := by
  rw [← peers_getElem?, findCoordinator, peers_keys hb]
  rfl

theorem coordinatorAt_inj {id : BrokerId} {a a' : Address} :
    coordinatorAt id (some a) = coordinatorAt id (some a') ↔ a = a' := by
  constructor
  · intro h
    simp only [coordinatorAt, Option.map_some, Option.getD_some,
      FindCoordinatorResponse.mk.injEq, true_and] at h
    obtain ⟨hhost, hport⟩ := h
    cases a
    cases a'
    have hnat := congrArg UInt32.toNat hport
    rw [UInt16.toNat_toUInt32, UInt16.toNat_toUInt32] at hnat
    rw [Address.mk.injEq]
    exact ⟨hhost, UInt16.toNat_inj.mp hnat⟩
  · rintro rfl
    rfl

theorem coordinatorId_mem (hb : b.id ∈ parsed) (req : FindCoordinatorRequest) :
    coordinatorId parsed req ∈ parsed := by
  have hpos : 0 < parsed.keys.length := List.length_pos_of_mem (ExtTreeMap.mem_keys.mpr hb)
  have hlt := Nat.mod_lt (unsignedHash req.groupId).toNat hpos
  rw [← ExtTreeMap.mem_keys, coordinatorId, List.getD_eq_getElem _ _ hlt]
  exact List.getElem_mem hlt

/-- Where one of two brokers is the coordinator, they agree if it has the address it was given
in the table. -/
theorem coordinatorAt_self (hb : b.id ∈ parsed) :
    coordinatorAt b.id (some b.address) = coordinatorAt b.id parsed[b.id]? ↔
      parsed[b.id]? = some b.address := by
  have hsome := ExtTreeMap.mem_iff_isSome_getElem?.mp hb
  obtain ⟨a, ha⟩ := Option.isSome_iff_exists.mp hsome
  rw [ha, coordinatorAt_inj, Option.some.injEq]
  exact eq_comm

end Tables

/-- Brokers that were given one table name one coordinator for every group, and say the same
about where it is exactly if none of them is the coordinator itself and was given an address
that is not the one of the table. -/
theorem coordinators_agree {parsed : PeersTable} {b b' : BrokerConfig} (hb : b.id ∈ parsed)
    (hb' : b'.id ∈ parsed) (hne : b.id ≠ b'.id) (req : FindCoordinatorRequest) :
    let answer := findCoordinator (b.peers parsed) req
    let answer' := findCoordinator (b'.peers parsed) req
    answer.coordinatorId ∈ parsed ∧ answer'.coordinatorId = answer.coordinatorId ∧
      (answer = answer' ↔
        (answer.coordinatorId = b.id → parsed[b.id]? = some b.address) ∧
          (answer.coordinatorId = b'.id → parsed[b'.id]? = some b'.address)) := by
  intro answer answer'
  have hanswer : answer = coordinatorAt _ _ := findCoordinator_peers hb req
  have hanswer' : answer' = coordinatorAt _ _ := findCoordinator_peers hb' req
  have hid : answer.coordinatorId = coordinatorId parsed req := by rw [hanswer]; rfl
  have hid' : answer'.coordinatorId = coordinatorId parsed req := by rw [hanswer']; rfl
  refine ⟨?_, ?_, ?_⟩
  · rw [hid]
    exact coordinatorId_mem hb req
  · rw [hid, hid']
  · rw [hid, hanswer, hanswer']
    generalize coordinatorId parsed req = c
    by_cases hc : c = b.id
    · subst hc
      simp only [if_true, if_neg hne.symm, hne, false_imp_iff, and_true, forall_const]
      exact coordinatorAt_self hb
    · by_cases hc' : c = b'.id
      · subst hc'
        simp only [if_true, if_neg hne, hne.symm, false_imp_iff, true_and, forall_const]
        rw [eq_comm]
        exact coordinatorAt_self hb'
      · simp only [if_neg (Ne.symm hc), if_neg (Ne.symm hc'), hc, hc', false_imp_iff, and_true]

/-- The first broker is started with the default of `--host`, which is not its entry. They
agree about a group of the second, and not about one of the first. -/
theorem coordinators_agree_default_host :
    let parsed : PeersTable := ExtTreeMap.ofList twoPeers
    let b : BrokerConfig := ⟨1, [48, 46, 48, 46, 48, 46, 48], 9091⟩
    let b' : BrokerConfig := ⟨2, [58, 58, 49], 9092⟩
    findCoordinator (b.peers parsed) ⟨[100]⟩ = findCoordinator (b'.peers parsed) ⟨[100]⟩ ∧
      findCoordinator (b.peers parsed) ⟨[97]⟩ ≠ findCoordinator (b'.peers parsed) ⟨[97]⟩ := by
  intro parsed b b'
  have hb : b.id ∈ parsed := by decide +kernel
  have hb' : b'.id ∈ parsed := by decide +kernel
  have hfirst : (findCoordinator (b.peers parsed) ⟨[97]⟩).coordinatorId = 1 := by decide +kernel
  have hsecond : (findCoordinator (b.peers parsed) ⟨[100]⟩).coordinatorId = 2 := by
    decide +kernel
  have hentry : parsed[b.id]? ≠ some b.address := by decide +kernel
  have hentry' : parsed[b'.id]? = some b'.address := by decide +kernel
  constructor
  · apply (coordinators_agree hb hb' (by decide) ⟨[100]⟩).2.2.mpr
    rw [hsecond]
    exact ⟨fun h => absurd h (by decide), fun _ => hentry'⟩
  · intro heq
    have hown := ((coordinators_agree hb hb' (by decide) ⟨[97]⟩).2.2.mp heq).1
    exact hentry (hown hfirst)

end MiniKafka.Broker
