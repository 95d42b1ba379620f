import Std.Data.ExtTreeMap.Lemmas
import Mathlib.Data.List.Nodup

/-!
# Ordered maps written entry by entry

A map that a loop of insertions fills, and the list of its entries in the order of the
keys.
-/

namespace MiniKafka.Foundations

open Std

variable {κ α : Type*} {cmp : κ → κ → Ordering} [TransCmp cmp] {table : ExtTreeMap κ α cmp}
  {entries : List (κ × α)} {k : κ} {a : α}

/-- A loop of insertions. -/
theorem foldl_insert_eq_ofList :
    entries.foldl (fun table e => table.insert e.1 e.2) ∅ = ExtTreeMap.ofList entries cmp := by
  rw [ExtTreeMap.ofList_eq_insertMany_empty, ExtTreeMap.insertMany_list_eq_foldl]

theorem nodup_keys_toList : (table.toList.map Prod.fst).Nodup := by
  rw [ExtTreeMap.map_fst_toList_eq_keys]
  exact ExtTreeMap.nodup_keys

/-- A pass over a list that keeps or drops an element keeps what it leaves unchanged in
order. -/
theorem map_filterMap_sublist {β γ : Type*} {f : α → Option β} {g : β → γ} {h : α → γ}
    {items : List α} (hf : ∀ a b, f a = some b → g b = h a) :
    ((items.filterMap f).map g).Sublist (items.map h) := by
  induction items with
  | nil => exact List.Sublist.refl _
  | cons a rest ih =>
      rw [List.map_cons]
      cases hfa : f a with
      | none =>
          rw [List.filterMap_cons_none hfa]
          exact ih.cons _
      | some b =>
          rw [List.filterMap_cons_some hfa, List.map_cons, hf a b hfa]
          exact ih.cons_cons _

/-- Entries with some of the keys of a map, in its order, are in order. -/
theorem ordered_of_sublist (table : ExtTreeMap κ α cmp)
    (h : (entries.map Prod.fst).Sublist (table.toList.map Prod.fst)) :
    entries.Pairwise fun e e' => cmp e.1 e'.1 = .lt := by
  have hkeys : (table.toList.map Prod.fst).Pairwise fun k k' => cmp k k' = .lt :=
    List.pairwise_map.mpr ExtTreeMap.ordered_keys_toList
  exact List.pairwise_map.mp (hkeys.sublist h)

variable [LawfulEqCmp cmp]

/-- With one entry for each key the map has the values of all. -/
theorem getElem?_ofList_of_nodup (nodup : (entries.map Prod.fst).Nodup)
    (h : (k, a) ∈ entries) : (ExtTreeMap.ofList entries cmp)[k]? = some a := by
  refine ExtTreeMap.getElem?_ofList_of_mem ReflCmp.compare_self ?_ h
  apply (List.pairwise_map.mp nodup).imp
  intro e e' hne heq
  exact hne (LawfulEqCmp.eq_of_compare heq)

theorem getElem?_ofList_of_not_mem (h : k ∉ entries.map Prod.fst) :
    (ExtTreeMap.ofList entries cmp)[k]? = none := by
  classical
  let : BEq κ := instBEqOfDecidableEq
  apply ExtTreeMap.getElem?_ofList_of_contains_eq_false
  rwa [List.contains_eq_mem, decide_eq_false_iff_not]

theorem mem_keys_of_mem_ofList (h : k ∈ ExtTreeMap.ofList entries cmp) :
    k ∈ entries.map Prod.fst := by
  by_contra hnot
  rw [ExtTreeMap.mem_iff_isSome_getElem?, getElem?_ofList_of_not_mem hnot] at h
  cases h

/-- The entries of a map fill it again. -/
@[simp] theorem ofList_toList : ExtTreeMap.ofList table.toList cmp = table := by
  refine ExtTreeMap.ext_getElem? fun k => ?_
  cases hk : table[k]? with
  | none =>
      apply getElem?_ofList_of_not_mem
      rw [ExtTreeMap.map_fst_toList_eq_keys, ExtTreeMap.mem_keys,
        ExtTreeMap.mem_iff_isSome_getElem?, hk]
      exact Bool.false_ne_true
  | some a =>
      apply getElem?_ofList_of_nodup nodup_keys_toList
      exact ExtTreeMap.mem_toList_iff_getElem?_eq_some.mpr hk

theorem getElem?_ofList_iff (nodup : (entries.map Prod.fst).Nodup) :
    (ExtTreeMap.ofList entries cmp)[k]? = some a ↔ (k, a) ∈ entries := by
  constructor
  · intro h
    have hk : k ∈ ExtTreeMap.ofList entries cmp := by
      rw [ExtTreeMap.mem_iff_isSome_getElem?, h]
      rfl
    obtain ⟨⟨k', a'⟩, he, rfl⟩ := List.mem_map.mp (mem_keys_of_mem_ofList hk)
    obtain rfl := Option.some.inj (h.symm.trans (getElem?_ofList_of_nodup nodup he))
    exact he
  · exact getElem?_ofList_of_nodup nodup

/-- Entries in the order of their keys are the entries of the map they fill. -/
theorem toList_ofList_of_ordered (ordered : entries.Pairwise fun e e' => cmp e.1 e'.1 = .lt) :
    (ExtTreeMap.ofList entries cmp).toList = entries := by
  have hne : ∀ {e e' : κ × α}, cmp e.1 e'.1 = .lt → e.1 ≠ e'.1 := by
    intro e e' hlt heq
    have hself : cmp e'.1 e'.1 = .eq := ReflCmp.compare_self
    rw [heq, hself] at hlt
    cases hlt
  have hsorted := ExtTreeMap.ordered_keys_toList (t := ExtTreeMap.ofList entries cmp)
  refine List.Perm.eq_of_pairwise ?_ hsorted ordered ?_
  · intro e e' _ _ hlt hgt
    exact absurd rfl (hne (TransCmp.lt_trans hlt hgt))
  · have hnodup : ∀ {l : List (κ × α)}, l.Pairwise (fun e e' => cmp e.1 e'.1 = .lt) →
        (l.map Prod.fst).Nodup := by
      intro l hl
      exact List.pairwise_map.mpr (hl.imp hne)
    apply (List.perm_ext_iff_of_nodup (.of_map _ (hnodup hsorted))
      (.of_map _ (hnodup ordered))).mpr
    intro e
    rw [ExtTreeMap.mem_toList_iff_getElem?_eq_some]
    exact getElem?_ofList_iff (hnodup ordered)

/-- Such entries fill a map exactly if they are its entries. -/
theorem ofList_eq_iff (ordered : entries.Pairwise fun e e' => cmp e.1 e'.1 = .lt) :
    ExtTreeMap.ofList entries cmp = table ↔ table.toList = entries := by
  constructor
  · intro h
    rw [← h]
    exact toList_ofList_of_ordered ordered
  · intro h
    rw [← h]
    exact ofList_toList

theorem getElem?_insert_ite [DecidableEq κ] {k' : κ} :
    (table.insert k' a)[k]? = if k' = k then some a else table[k]? := by
  rw [ExtTreeMap.getElem?_insert]
  simp only [LawfulEqCmp.compare_eq_iff_eq]

/-- What a map has after a loop of insertions is one of the entries, or it had that before. -/
theorem mem_of_getElem?_foldl [DecidableEq κ]
    (h : (entries.foldl (fun table e => table.insert e.1 e.2) table)[k]? = some a) :
    (k, a) ∈ entries ∨ table[k]? = some a := by
  induction entries generalizing table with
  | nil => exact Or.inr h
  | cons e entries ih =>
      rcases ih h with hmem | htable
      · exact Or.inl (List.mem_cons_of_mem _ hmem)
      · rw [getElem?_insert_ite] at htable
        split at htable
        · next hkey =>
            rw [← hkey, ← Option.some.inj htable]
            exact Or.inl List.mem_cons_self
        · exact Or.inr htable

theorem getElem?_insert_of_ne {k' : κ} (h : k' ≠ k) : (table.insert k' a)[k]? = table[k]? := by
  rw [ExtTreeMap.getElem?_insert, if_neg]
  intro heq
  exact h (LawfulEqCmp.eq_of_compare heq)

section Loop

variable {σ β : Type*} {v : κ → σ → β} {f : σ → κ × α → σ} {g : κ → α → β → β}

end Loop

end MiniKafka.Foundations
