import MiniKafka.Foundations.Decimal
import Mathlib.Data.List.TakeWhile

/-!
# Formatted text input

What `std::istream` does on the bytes of a file: `operator>>` for words and numbers, with
the flags it leaves. A read that finds no more input, or follows one that reached the end,
fails and leaves its variable as it was.
-/

namespace MiniKafka.Foundations

/-- `isspace` in the C locale. -/
def isSpace (b : UInt8) : Bool := b = 32 ∨ (9 ≤ b ∧ b ≤ 13)

structure TextStream where
  rest : List UInt8
  eof : Bool := false
  fail : Bool := false
  deriving DecidableEq, Repr

/-- What the digits of a number give for a type, and whether they fit: `num_get`, with the
sign that was read. -/
abbrev NumGet (α : Type) := Bool → Nat → α × Bool

/-- A minus sign negates modulo the type, and numbers that do not fit give the maximum. -/
def getU32 : NumGet UInt32 := fun negative v =>
  if v < 2 ^ 32 then (if negative then 0 - UInt32.ofNat v else UInt32.ofNat v, false)
  else (4294967295, true)

def getU64 : NumGet UInt64 := fun negative v =>
  if v < 2 ^ 64 then (if negative then 0 - UInt64.ofNat v else UInt64.ofNat v, false)
  else (18446744073709551615, true)

/-- `int64_t`. -/
def getI64 : NumGet Int := fun negative v =>
  if negative then (if v ≤ 2 ^ 63 then (-(v : Int), false) else (-9223372036854775808, true))
  else if v < 2 ^ 63 then ((v : Int), false) else (9223372036854775807, true)

namespace TextStream

variable (s : TextStream)

/-- The stream where a read leaves it. -/
def left (rest : List UInt8) (fail : Bool) : TextStream := ⟨rest, rest.isEmpty, fail⟩

/-- Every read begins by skipping white space, on a stream without flags. -/
def sentry : TextStream :=
  if s.eof || s.fail then { s with fail := true }
  else
    let rest := s.rest.dropWhile isSpace
    .left rest rest.isEmpty

/-- `in >> word`. -/
def word (old : List UInt8) : List UInt8 × TextStream :=
  let s := s.sentry
  if s.fail then (old, s)
  else (s.rest.takeWhile (!isSpace ·), .left (s.rest.dropWhile (!isSpace ·)) false)

def sign : List UInt8 → Bool × List UInt8
  | 45 :: rest => (true, rest)
  | 43 :: rest => (false, rest)
  | rest => (false, rest)

/-- `in >> number`. -/
def number {α : Type} (get : NumGet α) (old : α) : α × TextStream :=
  let s := s.sentry
  if s.fail then (old, s)
  else
    let (negative, body) := sign s.rest
    let digits := body.takeWhile isDigit
    let rest := body.dropWhile isDigit
    if digits = [] then ((get false 0).1, .left rest true)
    else
      let (v, failed) := get negative (value digits)
      (v, .left rest failed)

section Reads

variable {s : TextStream} {lead body digits tail : List UInt8} {α : Type} {get : NumGet α}
  {old : α}

/-- No byte of the list is white space. -/
def Solid (word : List UInt8) : Prop := ∀ b ∈ word, isSpace b = false

instance (word : List UInt8) : Decidable (Solid word) :=
  List.decidableBAll (fun b => isSpace b = false) word

/-- What a word can be read as. -/
def Token (word : List UInt8) : Prop := word ≠ [] ∧ Solid word

instance (word : List UInt8) : Decidable (Token word) :=
  inferInstanceAs (Decidable (_ ∧ _))

/-- The list is empty or begins with a byte that ends a number or a word. -/
def EndsAt (p : UInt8 → Bool) (tail : List UInt8) : Prop := ∀ b ∈ tail.head?, p b = false

theorem isSpace_of_isDigit {b : UInt8} (h : isDigit b = true) : isSpace b = false := by
  simp only [isDigit, isSpace, decide_eq_true_eq, decide_eq_false_iff_not, UInt8.le_iff_toNat_le,
    ← UInt8.toNat_inj] at h ⊢
  change 48 ≤ b.toNat ∧ b.toNat ≤ 57 at h
  change ¬ (b.toNat = 32 ∨ 9 ≤ b.toNat ∧ b.toNat ≤ 13)
  omega

theorem takeWhile_append_endsAt {p : UInt8 → Bool} (all : ∀ b ∈ body, p b = true)
    (ends : EndsAt p tail) :
    (body ++ tail).takeWhile p = body ∧ (body ++ tail).dropWhile p = tail := by
  induction body with
  | nil =>
      cases tail with
      | nil => exact ⟨rfl, rfl⟩
      | cons b tail =>
          have hb := ends b rfl
          simp [hb]
  | cons b body ih =>
      have hb := all b (by simp)
      obtain ⟨htake, hdrop⟩ := ih fun b' h => all b' (List.mem_cons_of_mem _ h)
      simp [hb, htake, hdrop]

/-- A stream that failed stays as it is. -/
theorem sentry_of_fail (h : s.fail = true) : s.sentry = s := by
  unfold sentry
  rw [h, Bool.or_true, if_pos rfl]
  cases s
  simp_all

/-- A read that cannot begin leaves its variable. -/
theorem number_of_spent (h : s.sentry.fail = true) : s.number get old = (old, s.sentry) := by
  unfold number
  rw [if_pos h]

theorem word_of_spent {old : List UInt8} (h : s.sentry.fail = true) :
    s.word old = (old, s.sentry) := by
  unfold word
  rw [if_pos h]

theorem number_of_fail (h : s.fail = true) : s.number get old = (old, s) := by
  have hsentry := sentry_of_fail h
  have hspent : s.number get old = (old, s.sentry) :=
    number_of_spent (by rw [hsentry]; exact h)
  rwa [hsentry] at hspent

/-- Nothing but white space is left. -/
theorem sentry_spent (hlead : ∀ b ∈ lead, isSpace b = true) :
    ((left lead false).sentry).fail = true := by
  unfold sentry
  split
  · rfl
  · have hends : EndsAt isSpace [] := fun _ h => by cases h
    have hdrop := (takeWhile_append_endsAt hlead hends).2
    rw [List.append_nil] at hdrop
    simp [left, hdrop]

theorem sentry_left (hlead : ∀ b ∈ lead, isSpace b = true) {b : UInt8} (hb : isSpace b = false) :
    (left (lead ++ b :: body) false).sentry = left (b :: body) false := by
  have hends : EndsAt isSpace (b :: body) := by
    intro b' h
    obtain rfl := Option.some.inj h
    exact hb
  have hdrop := (takeWhile_append_endsAt hlead hends).2
  have heof : (lead ++ b :: body).isEmpty = false := by simp
  simp [sentry, left, heof, hdrop]

theorem sign_signText {negative : Bool} {b : UInt8} (hb : isDigit b = true) :
    sign (signText negative ++ b :: body) = (negative, b :: body) := by
  cases negative with
  | true => rfl
  | false =>
      change sign (b :: body) = _
      unfold sign
      split
      · next h =>
          obtain ⟨rfl, -⟩ := List.cons.inj h
          exact absurd hb (by decide)
      · next h =>
          obtain ⟨rfl, -⟩ := List.cons.inj h
          exact absurd hb (by decide)
      · rfl

/-- A numeral with its sign is read as its value. -/
theorem number_signed (negative : Bool) (hlead : ∀ b ∈ lead, isSpace b = true)
    (hne : digits ≠ []) (hdigits : ∀ b ∈ digits, isDigit b = true)
    (ends : EndsAt isDigit tail) :
    (left (lead ++ (signText negative ++ digits) ++ tail) false).number get old =
      ((get negative (value digits)).1, left tail (get negative (value digits)).2) := by
  obtain ⟨b, more, rfl⟩ := List.exists_cons_of_ne_nil hne
  have hb := hdigits b (by simp)
  obtain ⟨first, rest, hfirst, hspace⟩ : ∃ first rest,
      signText negative ++ b :: more ++ tail = first :: rest ∧ isSpace first = false := by
    cases negative with
    | true => exact ⟨45, b :: more ++ tail, rfl, by decide⟩
    | false => exact ⟨b, more ++ tail, rfl, isSpace_of_isDigit hb⟩
  have hsentry : (left (lead ++ first :: rest) false).sentry = left (first :: rest) false :=
    sentry_left hlead hspace
  have hsign : sign (signText negative ++ b :: (more ++ tail)) = (negative, b :: (more ++ tail)) :=
    sign_signText hb
  rw [← List.cons_append, ← List.append_assoc, hfirst] at hsign
  obtain ⟨htake, hdrop⟩ := takeWhile_append_endsAt hdigits ends
  unfold number
  rw [List.append_assoc, hfirst, hsentry]
  simp only [left, hsign, htake, hdrop]
  simp

/-- A numeral is read as its value. -/
theorem number_left (hlead : ∀ b ∈ lead, isSpace b = true) (hne : digits ≠ [])
    (hdigits : ∀ b ∈ digits, isDigit b = true) (ends : EndsAt isDigit tail) :
    (left (lead ++ digits ++ tail) false).number get old =
      ((get false (value digits)).1, left tail (get false (value digits)).2) :=
  number_signed false hlead hne hdigits ends

/-- A sign alone is no number. -/
theorem number_sign_alone (hlead : ∀ b ∈ lead, isSpace b = true) :
    ((left (lead ++ [45]) false).number get old).2.fail = true := by
  unfold number
  rw [sentry_left hlead (by decide)]
  rfl

/-- Nothing is left after the only numeral. -/
theorem number_digits_spent (hdigits : ∀ b ∈ digits, isDigit b = true) :
    ((left digits false).number get old).2.sentry.fail = true := by
  by_cases hne : digits = []
  · subst hne
    rfl
  · have hread : (left ([] ++ digits ++ []) false).number get old = _ :=
      number_left (fun b hb => by cases hb) hne hdigits (fun b hb => by cases hb)
    rw [List.nil_append, List.append_nil] at hread
    rw [hread]
    rfl

/-- A file that was just opened. -/
theorem number_opened {file : List UInt8} :
    (⟨file, false, false⟩ : TextStream).number get old = (left file false).number get old := by
  have hsentry : (⟨file, false, false⟩ : TextStream).sentry = (left file false).sentry := by
    cases file <;> rfl
  unfold number
  rw [hsentry]

/-- A word is read whole. -/
theorem word_left {word old : List UInt8} (hlead : ∀ b ∈ lead, isSpace b = true)
    (hne : word ≠ []) (hsolid : Solid word) (ends : EndsAt (!isSpace ·) tail) :
    (left (lead ++ word ++ tail) false).word old = (word, left tail false) := by
  obtain ⟨b, more, rfl⟩ := List.exists_cons_of_ne_nil hne
  have hb := hsolid b (by simp)
  have hsentry : (left (lead ++ b :: (more ++ tail)) false).sentry = _ := sentry_left hlead hb
  have hall : ∀ b' ∈ b :: more, (!isSpace b') = true := fun b' h => by simp [hsolid b' h]
  obtain ⟨htake, hdrop⟩ := takeWhile_append_endsAt hall ends
  unfold TextStream.word
  rw [List.append_assoc, List.cons_append, hsentry]
  rw [List.cons_append] at htake hdrop
  simp only [left, htake, hdrop]
  simp

/-- A read that begins finds a byte that is not white space. -/
theorem sentry_begins (h : s.sentry.fail = false) :
    ∃ b body, isSpace b = false ∧ s.sentry = left (b :: body) false := by
  unfold sentry at h ⊢
  split at h
  · cases h
  · next hgood =>
      rw [if_neg hgood]
      cases hrest : s.rest.dropWhile isSpace with
      | nil => simp [left, hrest] at h
      | cons b body =>
          have hb := List.head?_dropWhile_not isSpace s.rest
          rw [hrest] at hb
          exact ⟨b, body, hb, rfl⟩

/-- What is read as a word has a byte and no white space. -/
theorem word_token {old : List UInt8} (h : (s.word old).2.fail = false) :
    Token (s.word old).1 := by
  have hbegins : s.sentry.fail = false := by
    by_contra hfail
    rw [Bool.not_eq_false] at hfail
    simp [word, hfail] at h
  obtain ⟨b, body, hb, heq⟩ := sentry_begins hbegins
  have hword : (s.word old).1 = b :: body.takeWhile (!isSpace ·) := by
    simp [word, heq, left, hb]
  rw [hword]
  refine ⟨List.cons_ne_nil _ _, ?_⟩
  intro b' hb'
  rcases List.mem_cons.mp hb' with hb' | hb'
  · rw [hb']
    exact hb
  · simpa using List.mem_takeWhile_imp hb'

/-- After a read that succeeds, the reads before it had. -/
theorem fail_of_number (h : (s.number get old).2.fail = false) : s.fail = false := by
  by_contra hfail
  rw [Bool.not_eq_false] at hfail
  rw [number_of_fail hfail, hfail] at h
  cases h

end Reads

end TextStream

end MiniKafka.Foundations
