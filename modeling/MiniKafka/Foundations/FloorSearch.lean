import Mathlib.Data.List.Basic
import Mathlib.Data.List.TakeWhile
import Mathlib.Order.Basic

/-!
# Floor search

The halving search for the first item above a key, and what it is used for here: the places
of the frames of a stream, from the last of which that is not above the key the stream is
read on. Whatever part of the places is kept, nothing from the key on is missed.
-/

namespace MiniKafka.Foundations

universe u v

variable {α : Type u} {β : Type v}

/-- The search among `len` items from `first` on. An item in the middle is above: the first
such one is not after it. Otherwise it is after it. -/
def upperBoundFrom (above : α → Bool) (xs : List α) (first len : Nat) : Nat :=
  if len = 0 then first
  else
    let half := len / 2
    match xs[first + half]? with
    | some x =>
        if above x then upperBoundFrom above xs first half
        else upperBoundFrom above xs (first + half + 1) (len - half - 1)
    | none => first
termination_by len

/-- The place of the first item that is above, in a row where all behind it are. -/
def upperBound (above : α → Bool) (xs : List α) : Nat :=
  upperBoundFrom above xs 0 xs.length

/-- The items from place `k` on, and no others, are above. -/
structure Separates (above : α → Bool) (xs : List α) (k : Nat) : Prop where
  bound : k ≤ xs.length
  iff : ∀ i x, xs[i]? = some x → (above x = true ↔ k ≤ i)

section Search

variable {above : α → Bool} {xs : List α} {first len k : Nat}

/-- The part still searched lies between items that are not above and items that are. -/
theorem upperBoundFrom_separates
    (hmono : xs.Pairwise fun a b => above a = true → above b = true)
    (hlen : first + len ≤ xs.length)
    (hbelow : ∀ i x, xs[i]? = some x → i < first → above x = false)
    (habove : ∀ i x, xs[i]? = some x → first + len ≤ i → above x = true) :
    Separates above xs (upperBoundFrom above xs first len) := by
  have hordered : ∀ (i j : Nat) x y, xs[i]? = some x → xs[j]? = some y → i < j →
      above x = true → above y = true := by
    intro i j x y hx hy hij
    obtain ⟨hi, rfl⟩ := List.getElem?_eq_some_iff.mp hx
    obtain ⟨hj, rfl⟩ := List.getElem?_eq_some_iff.mp hy
    exact List.pairwise_iff_getElem.mp hmono i j hi hj hij
  fun_induction upperBoundFrom above xs first len with
  | case1 first =>
      refine ⟨hlen, ?_⟩
      intro i x hx
      constructor
      · intro h
        by_contra hlt
        rw [hbelow i x hx (by omega)] at h
        cases h
      · intro hle
        exact habove i x hx hle
  | case2 first len hne half x hx h ih =>
      apply ih
      · omega
      · exact hbelow
      · intro i y hy hle
        by_cases heq : i = first + half
        · rw [heq, hx] at hy
          obtain rfl := Option.some.inj hy
          exact h
        · exact hordered (first + half) i x y hx hy (by omega) h
  | case3 first len hne half x hx h ih =>
      have hfalse : above x = false := Bool.eq_false_iff.mpr h
      apply ih
      · omega
      · intro i y hy hlt
        by_cases heq : i = first + half
        · rw [heq, hx] at hy
          obtain rfl := Option.some.inj hy
          exact hfalse
        · cases hcase : above y with
          | false => rfl
          | true => exact absurd (hordered i (first + half) y x hy hx (by omega) hcase) h
      · intro i y hy hle
        exact habove i y hy (by omega)
  | case4 first len hne half hnone =>
      have hend := List.getElem?_eq_none_iff.mp hnone
      omega

theorem upperBound_separates
    (hmono : xs.Pairwise fun a b => above a = true → above b = true) :
    Separates above xs (upperBound above xs) := by
  apply upperBoundFrom_separates hmono
  · omega
  · intro i x _ hlt
    cases Nat.not_lt_zero i hlt
  · intro i x hx hle
    obtain ⟨hlt, -⟩ := List.getElem?_eq_some_iff.mp hx
    omega

/-- Such a place is where the front that is not above ends. -/
theorem Separates.takeWhile_eq (h : Separates above xs k) :
    xs.takeWhile (fun x => !above x) = xs.take k := by
  induction xs generalizing k with
  | nil => simp
  | cons x rest ih =>
      have hhead := h.iff 0 x rfl
      cases k with
      | zero => simp [hhead.mpr (Nat.le_refl 0)]
      | succ k =>
          have hfalse : above x = false := by
            rw [Bool.eq_false_iff]
            intro hx
            cases hhead.mp hx
          have hrest : Separates above rest k := by
            refine ⟨Nat.le_of_succ_le_succ h.bound, ?_⟩
            intro i y hy
            rw [h.iff (i + 1) y hy]
            omega
          rw [List.takeWhile_cons_of_pos (by simp [hfalse]), ih hrest, List.take_succ_cons]

/-- The item before the bound that is found is the last of the front. -/
theorem upperBound_last (hmono : xs.Pairwise fun a b => above a = true → above b = true)
    (hne : upperBound above xs ≠ 0) :
    xs[upperBound above xs - 1]? = (xs.takeWhile fun x => !above x).getLast? := by
  have hsep := upperBound_separates hmono
  have hlt : upperBound above xs - 1 < xs.length := by
    have hbound := hsep.bound
    omega
  rw [hsep.takeWhile_eq, List.getLast?_take, if_neg hne, List.getElem?_eq_getElem hlt]
  rfl

end Search

/-! ## The places of frames -/

/-- Every frame of a stream that starts at `pos`, with the place where it starts. -/
def frameStarts (encode : α → List β) : Nat → List α → List (α × Nat)
  | _, [] => []
  | pos, a :: rest => (a, pos) :: frameStarts encode (pos + (encode a).length) rest

section FrameStarts

variable {encode : α → List β} {pos start : Nat} {frames more before after : List α} {a : α}

@[simp] theorem frameStarts_append :
    frameStarts encode pos (frames ++ more) = frameStarts encode pos frames ++
      frameStarts encode (pos + (frames.flatMap encode).length) more := by
  induction frames generalizing pos with
  | nil => rfl
  | cons a rest ih =>
      rw [List.cons_append, frameStarts, ih, frameStarts, List.cons_append, List.flatMap_cons,
        List.length_append, Nat.add_assoc]

theorem frameStarts_map_fst : (frameStarts encode pos frames).map Prod.fst = frames := by
  induction frames generalizing pos with
  | nil => rfl
  | cons a rest ih => rw [frameStarts, List.map_cons, ih]

theorem mem_of_mem_frameStarts {frame : α × Nat} (h : frame ∈ frameStarts encode pos frames) :
    frame.1 ∈ frames := by
  have hfst := List.mem_map_of_mem (f := Prod.fst) h
  rwa [frameStarts_map_fst] at hfst

/-- A frame starts where those before it end. -/
theorem exists_split_of_mem_frameStarts (h : (a, start) ∈ frameStarts encode pos frames) :
    ∃ before after, frames = before ++ a :: after ∧
      start = pos + (before.flatMap encode).length := by
  induction frames generalizing pos with
  | nil => cases h
  | cons b rest ih =>
      rcases List.mem_cons.mp h with heq | hrest
      · obtain ⟨rfl, rfl⟩ := Prod.mk.inj heq
        exact ⟨[], rest, rfl, rfl⟩
      · obtain ⟨before, after, rfl, rfl⟩ := ih hrest
        refine ⟨b :: before, after, rfl, ?_⟩
        rw [List.flatMap_cons, List.length_append, Nat.add_assoc]

/-- Reading on from a frame that is not above the key misses nothing from the key on. -/
theorem filter_from_floor {key : α → Nat} {k : Nat}
    (hascend : (before ++ a :: after).Pairwise fun b c => key b < key c) (hfloor : key a ≤ k) :
    (a :: after).filter (fun b => k ≤ key b) =
      (before ++ a :: after).filter fun b => k ≤ key b := by
  have hskipped : before.filter (fun b => k ≤ key b) = [] := by
    apply List.filter_eq_nil_iff.mpr
    intro b hb
    have hlt := (List.pairwise_append.mp hascend).2.2 b hb a List.mem_cons_self
    simpa using hlt.trans_le hfloor
  rw [List.filter_append, hskipped, List.nil_append]

end FrameStarts

end MiniKafka.Foundations
