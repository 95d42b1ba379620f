import MiniKafka.Common.Codec
import MiniKafka.Foundations.Mixing

/-!
# Murmur2

The hash of `murmur2.cpp`, by which keys are placed on partitions and groups on coordinators.
It takes in words of four bytes, least significant byte first, and then what is left. All of
its steps can be undone, so it tells keys apart that differ in one word only, and keys that
take all values in one word fall on the partitions evenly.
-/

namespace MiniKafka.Common

open Foundations

def kSeed : UInt32 := 0x9747b28c

def kM : UInt32 := 0x5bd1e995

def kR : UInt32 := 24

/-- The four bytes of a turn of the loop. -/
def blockWord (b0 b1 b2 b3 : UInt8) : UInt32 :=
  b0.toUInt32 ||| (b1.toUInt32 <<< 8) ||| (b2.toUInt32 <<< 16) ||| (b3.toUInt32 <<< 24)

/-- A turn of the loop. -/
def mixBlock (h k : UInt32) : UInt32 :=
  let k := k * kM
  let k := k ^^^ (k >>> kR)
  let k := k * kM
  (h * kM) ^^^ k

/-- The loop, and the bytes from `tailStart` on. -/
def mixBlocks (h : UInt32) : Bytes → UInt32 × Bytes
  | b0 :: b1 :: b2 :: b3 :: rest => mixBlocks (mixBlock h (blockWord b0 b1 b2 b3)) rest
  | tail => (h, tail)

/-- The switch; each case falls through to the next. -/
def mixTail (h : UInt32) : Bytes → UInt32
  | [b0, b1, b2] => (h ^^^ (b2.toUInt32 <<< 16) ^^^ (b1.toUInt32 <<< 8) ^^^ b0.toUInt32) * kM
  | [b0, b1] => (h ^^^ (b1.toUInt32 <<< 8) ^^^ b0.toUInt32) * kM
  | [b0] => (h ^^^ b0.toUInt32) * kM
  | _ => h

def finish (h : UInt32) : UInt32 :=
  let h := h ^^^ (h >>> 13)
  let h := h * kM
  h ^^^ (h >>> 15)

def murmur2 (data : Bytes) : Int32 :=
  let h := kSeed ^^^ UInt32.ofNat data.length
  let (h, tail) := mixBlocks h data
  (finish (mixTail h tail)).toInt32

example : murmur2 [97, 98, 99] = 479470107 := by decide +kernel

/-- The bytes of a word in the order in which it is read. -/
def leBytes (k : UInt32) : Bytes := [k.toUInt8, (k >>> 8).toUInt8, (k >>> 16).toUInt8,
  (k >>> 24).toUInt8]

section Steps

theorem mul_kM_injective : Function.Injective fun h : UInt32 => h * kM := by
  intro h h' heq
  apply UInt32.eq_of_toBitVec_eq
  have hodd : kM.toBitVec.toNat % 2 = 1 := by decide
  exact mul_odd_injective hodd (congrArg UInt32.toBitVec heq)

theorem shift_injective {r : UInt32} (hr : 0 < (r.toBitVec % 32).toNat) :
    Function.Injective fun h : UInt32 => h ^^^ (h >>> r) := by
  intro h h' heq
  apply UInt32.eq_of_toBitVec_eq
  exact xorShift_injective hr (congrArg UInt32.toBitVec heq)

theorem xor_injective (k : UInt32) : Function.Injective fun h : UInt32 => h ^^^ k := fun _ _ h =>
  (UInt32.xor_left_inj k).mp h

theorem mixBlock_injective (k : UInt32) : Function.Injective fun h => mixBlock h k :=
  (xor_injective _).comp mul_kM_injective

theorem mixBlock_word_injective (h : UInt32) : Function.Injective (mixBlock h) := by
  have hword : Function.Injective fun k : UInt32 =>
      (k * kM ^^^ ((k * kM) >>> kR)) * kM :=
    mul_kM_injective.comp ((shift_injective (by decide)).comp mul_kM_injective)
  intro k k' heq
  exact hword ((UInt32.xor_right_inj _).mp heq)

theorem mixTail_injective (tail : Bytes) : Function.Injective fun h => mixTail h tail := by
  match tail with
  | [] => exact Function.injective_id
  | [b0] => exact mul_kM_injective.comp (xor_injective _)
  | [b0, b1] => exact mul_kM_injective.comp ((xor_injective _).comp (xor_injective _))
  | [b0, b1, b2] =>
      exact mul_kM_injective.comp
        ((xor_injective _).comp ((xor_injective _).comp (xor_injective _)))
  | _ :: _ :: _ :: _ :: _ => exact Function.injective_id

theorem finish_injective : Function.Injective finish :=
  (shift_injective (by decide)).comp
    (mul_kM_injective.comp (shift_injective (by decide)))

end Steps

section Words

variable {words : List UInt32} {tail front back : Bytes}

theorem or_reverse (a b c d : UInt32) : a ||| b ||| c ||| d = d ||| c ||| b ||| a := by
  rw [UInt32.or_comm, UInt32.or_comm (a ||| b), UInt32.or_comm a, ← UInt32.or_assoc,
    ← UInt32.or_assoc]

theorem blockWord_leBytes (k : UInt32) :
    blockWord k.toUInt8 (k >>> 8).toUInt8 (k >>> 16).toUInt8 (k >>> 24).toUInt8 = k := by
  calc blockWord k.toUInt8 (k >>> 8).toUInt8 (k >>> 16).toUInt8 (k >>> 24).toUInt8 =
        ((k >>> 24).toUInt8.toUInt32 <<< 24) ||| ((k >>> 16).toUInt8.toUInt32 <<< 16) |||
          ((k >>> 8).toUInt8.toUInt32 <<< 8) ||| k.toUInt8.toUInt32 := or_reverse _ _ _ _
    _ = k := putU32_bytes k

/-- Four bytes are those of a word. -/
theorem exists_leBytes (b0 b1 b2 b3 : UInt8) : ∃ k, [b0, b1, b2, b3] = leBytes k := by
  have hfour : [b3, b2, b1, b0].length = 4 := rfl
  obtain ⟨k, hk⟩ := exists_putU32 hfour
  refine ⟨k, ?_⟩
  have hrev := congrArg List.reverse hk
  exact hrev

theorem mixBlocks_words (h : UInt32) (words : List UInt32) (htail : tail.length < 4) :
    mixBlocks h (words.flatMap leBytes ++ tail) = (words.foldl mixBlock h, tail) := by
  induction words generalizing h with
  | nil =>
      match tail with
      | [] | [_] | [_, _] | [_, _, _] => rfl
      | _ :: _ :: _ :: _ :: _ => simp at htail; omega
  | cons k rest ih =>
      rw [List.flatMap_cons, List.append_assoc]
      change mixBlocks (mixBlock h (blockWord _ _ _ _)) _ = _
      rw [blockWord_leBytes]
      exact ih _

theorem exists_words (data : Bytes) :
    ∃ (words : List UInt32) (tail : Bytes),
      data = words.flatMap leBytes ++ tail ∧ tail.length < 4 := by
  match data with
  | b0 :: b1 :: b2 :: b3 :: rest =>
      obtain ⟨k, hk⟩ := exists_leBytes b0 b1 b2 b3
      obtain ⟨words, tail, hrest, htail⟩ := exists_words rest
      refine ⟨k :: words, tail, ?_, htail⟩
      rw [List.flatMap_cons, ← hk, List.append_assoc, ← hrest]
      rfl
  | [] | [_] | [_, _] | [_, _, _] => exact ⟨[], _, rfl, by simp⟩

theorem length_flatMap_leBytes (words : List UInt32) :
    (words.flatMap leBytes).length = 4 * words.length := by
  induction words with
  | nil => rfl
  | cons k rest ih =>
      rw [List.flatMap_cons, List.length_append, ih, List.length_cons]
      change 4 + _ = _
      omega

/-- The hash of words and a tail, from the loop over the words on. -/
def hashOf (seed : UInt32) (words : List UInt32) (tail : Bytes) : UInt32 :=
  finish (mixTail (words.foldl mixBlock seed) tail)

theorem murmur2_words (htail : tail.length < 4) :
    murmur2 (words.flatMap leBytes ++ tail) =
      (hashOf (kSeed ^^^ UInt32.ofNat (4 * words.length + tail.length)) words tail).toInt32 := by
  rw [murmur2, List.length_append, length_flatMap_leBytes, mixBlocks_words _ _ htail]
  rfl

/-- As one word of a key takes all its values, so does the hash. -/
theorem murmur2_word_bijective (hfront : front.length % 4 = 0) (back : Bytes) :
    ∃ f : UInt32 → UInt32, Function.Bijective f ∧
      ∀ k, murmur2 (front ++ leBytes k ++ back) = (f k).toInt32 := by
  obtain ⟨before, rest, rfl, hrest⟩ := exists_words front
  obtain ⟨after, tail, rfl, htail⟩ := exists_words back
  rw [List.length_append, length_flatMap_leBytes, Nat.mul_add_mod] at hfront
  obtain rfl : rest = [] := List.eq_nil_of_length_eq_zero (by omega)
  let seed := kSeed ^^^ UInt32.ofNat (4 * (before.length + (after.length + 1)) + tail.length)
  have hinjective : Function.Injective fun k => hashOf seed (before ++ k :: after) tail := by
    have hfold := foldl_injective_at mixBlock_injective mixBlock_word_injective seed before after
    exact finish_injective.comp ((mixTail_injective tail).comp hfold)
  refine ⟨_, Finite.injective_iff_bijective.mp hinjective, fun k => ?_⟩
  have hkey : before.flatMap leBytes ++ [] ++ leBytes k ++ (after.flatMap leBytes ++ tail) =
      (before ++ k :: after).flatMap leBytes ++ tail := by
    simp [List.flatMap_append, List.flatMap_cons, List.append_assoc]
  rw [hkey, murmur2_words htail, List.length_append, List.length_cons]

end Words

/-- The hash without its sign, as its users take it. -/
def unsignedHash (data : Bytes) : UInt32 := (murmur2 data &&& 0x7fffffff).toUInt32

theorem unsignedHash_toNat {data : Bytes} {h : UInt32} (heq : murmur2 data = h.toInt32) :
    (unsignedHash data).toNat = h.toBitVec.toNat % 2 ^ 31 := by
  have hmask : (h.toInt32 &&& 0x7fffffff).toUInt32.toNat =
      h.toBitVec.toNat &&& (2 ^ 31 - 1) := rfl
  rw [unsignedHash, heq, hmask, Nat.and_two_pow_sub_one_eq_mod]

/-- Where one word of some keys takes all its values, each remainder of their hashes modulo a
count comes as often as any other, but for two keys. -/
theorem unsignedHash_spreads {front : Bytes} (hfront : front.length % 4 = 0) (back : Bytes)
    {n p : Nat} (hp : p < n) :
    ∃ c, (c = 2 ^ 31 / n ∨ c = 2 ^ 31 / n + 1) ∧
      {k | (unsignedHash (front ++ leBytes k ++ back)).toNat % n = p}.ncard = 2 * c := by
  obtain ⟨f, hbijective, hf⟩ := murmur2_word_bijective hfront back
  obtain ⟨c, hc, hcard⟩ := ncard_low_mod (w := 31) hp
  have hbits : Function.Bijective UInt32.toBitVec :=
    ⟨fun _ _ h => UInt32.eq_of_toBitVec_eq h, fun x => ⟨UInt32.ofBitVec x, rfl⟩⟩
  have hword := hbits.comp hbijective
  have hpreimage : {k | (unsignedHash (front ++ leBytes k ++ back)).toNat % n = p} =
      Set.preimage (UInt32.toBitVec ∘ f) {x | x.toNat % 2 ^ 31 % n = p} := by
    ext k
    simp only [Set.mem_preimage, Set.mem_ofPred_eq, unsignedHash_toNat (hf k),
      Function.comp_apply]
  refine ⟨c, hc, ?_⟩
  rw [hpreimage, Set.ncard_preimage_of_injective_subset_range hword.injective, hcard]
  rw [hword.surjective.range_eq]
  exact Set.subset_univ _

end MiniKafka.Common
