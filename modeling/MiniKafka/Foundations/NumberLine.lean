import MiniKafka.Foundations.TextStream

/-!
# Lines of a word and numbers

Text files with one entry on a line: a word and numbers, each after a space. What a cut of
such a file leaves is again such lines, of which the last may have fewer numbers, and in
its last number fewer digits.
-/

namespace MiniKafka.Foundations

open TextStream

/-- Numbers, each after a space. -/
def spaced (ns : List Nat) : List UInt8 := ns.flatMap fun n => 32 :: decimal n

/-- The numbers that the first `k` bytes leave. -/
def cutSpaced : List Nat → Nat → List Nat
  | [], _ => []
  | n :: ns, k =>
      if k ≤ 1 then []
      else if k ≤ (decimal n).length then [n / 10 ^ ((decimal n).length + 1 - k)]
      else n :: cutSpaced ns (k - (1 + (decimal n).length))

structure Line where
  word : List UInt8
  numbers : List Nat
  deriving DecidableEq, Repr

def Line.text (l : Line) : List UInt8 := l.word ++ spaced l.numbers ++ [10]

theorem Line.text_pos (l : Line) : 0 < l.text.length := by
  rw [Line.text, List.length_append]
  exact Nat.succ_pos _

def linesText (lines : List Line) : List UInt8 := lines.flatMap Line.text

/-- The lines that the first `k` bytes leave. -/
def cutLines : List Line → Nat → List Line
  | [], _ => []
  | l :: lines, k =>
      if l.text.length ≤ k then l :: cutLines lines (k - l.text.length)
      else [⟨l.word, cutSpaced l.numbers (k - l.word.length)⟩]

/-- The entries of whose lines the first `k` bytes have something. -/
def reached {β : Type} (line : β → Line) : List β → Nat → List β
  | [], _ => []
  | b :: entries, k =>
      if k = 0 then [] else b :: reached line entries (k - (line b).text.length)

variable {n k : Nat} {ns : List Nat} {l : Line} {tail : List UInt8} {α : Type}
  {get : NumGet α} {old : α}

@[simp] theorem spaced_nil : spaced [] = [] := rfl

theorem spaced_cons : spaced (n :: ns) = 32 :: decimal n ++ spaced ns := rfl

/-- White space that a cut may leave at the end. -/
def Blank (tail : List UInt8) : Prop := ∀ b ∈ tail, isSpace b = true

theorem blank_nil : Blank [] := by
  intro b hb
  cases hb

theorem blank_space : Blank [32] := by
  intro b hb
  rw [List.mem_singleton.mp hb]
  decide

theorem blank_newline : Blank [10] := by
  intro b hb
  rw [List.mem_singleton.mp hb]
  decide

theorem endsAt_nil {p : UInt8 → Bool} : EndsAt p [] := by
  intro b hb
  cases hb

theorem endsAt_cons {p : UInt8 → Bool} {b : UInt8} (h : p b = false) : EndsAt p (b :: tail) := by
  intro b' hb'
  obtain rfl := Option.some.inj hb'
  exact h

/-- What follows a number is no digit, if the line ends so. -/
theorem endsAt_spaced {p : UInt8 → Bool} (hp : p 32 = false) (ends : EndsAt p tail) :
    EndsAt p (spaced ns ++ tail) := by
  cases ns with
  | nil => exact ends
  | cons n ns => exact endsAt_cons hp

theorem endsAt_digit_of_blank (h : Blank tail) : EndsAt isDigit tail := by
  intro b hb
  have hspace := h b (List.mem_of_mem_head? hb)
  by_contra hdigit
  rw [isSpace_of_isDigit (Bool.not_eq_false _ ▸ hdigit)] at hspace
  cases hspace

theorem endsAt_word_of_blank (h : Blank tail) : EndsAt (!isSpace ·) tail := by
  intro b hb
  simp [h b (List.mem_of_mem_head? hb)]

theorem word_spaced {lead word oldWord : List UInt8} (hlead : Blank lead) (hne : word ≠ [])
    (hsolid : Solid word) (ends : EndsAt (!isSpace ·) tail) :
    (left (lead ++ (word ++ spaced ns ++ tail)) false).word oldWord =
      (word, left (spaced ns ++ tail) false) := by
  have h : (left (lead ++ word ++ (spaced ns ++ tail)) false).word oldWord = _ :=
    word_left hlead hne hsolid (endsAt_spaced (by decide) ends)
  rwa [List.append_assoc, ← List.append_assoc word] at h

theorem getU32_of_lt (h : n < 2 ^ 32) : getU32 false n = (UInt32.ofNat n, false) := if_pos h

theorem getU64_of_lt (h : n < 2 ^ 64) : getU64 false n = (UInt64.ofNat n, false) := if_pos h

theorem number_spaced (ends : EndsAt isDigit tail) :
    (left (spaced (n :: ns) ++ tail) false).number get old =
      ((get false n).1, left (spaced ns ++ tail) (get false n).2) := by
  have h : (left ([32] ++ decimal n ++ (spaced ns ++ tail)) false).number get old = _ :=
    number_left blank_space (decimal_ne_nil n) (fun _ => isDigit_of_mem_decimal)
      (endsAt_spaced (by decide) ends)
  rw [value_decimal] at h
  rw [spaced_cons, List.append_assoc]
  exact h

/-- A cut of numbers is numbers again, or one of them is only begun. -/
theorem take_spaced : ∃ tail, Blank tail ∧
    (spaced ns).take k = spaced (cutSpaced ns k) ++ tail := by
  induction ns generalizing k with
  | nil => exact ⟨[], blank_nil, by simp [cutSpaced]⟩
  | cons n ns ih =>
      rw [spaced_cons, cutSpaced]
      split
      · next hk =>
          rcases Nat.le_one_iff_eq_zero_or_eq_one.mp hk with hk | hk
          · exact ⟨[], blank_nil, by rw [hk]; rfl⟩
          · exact ⟨[32], blank_space, by rw [hk]; rfl⟩
      · next hk =>
          obtain ⟨j, rfl⟩ : ∃ j, k = j + 1 := ⟨k - 1, by omega⟩
          rw [List.cons_append, List.take_succ_cons]
          split
          · next hle =>
              refine ⟨[], blank_nil, ?_⟩
              rw [List.take_append_of_le_length (by omega), take_decimal (by omega) (by omega),
                spaced_cons, spaced_nil, List.append_nil, List.append_nil,
                Nat.add_sub_add_right]
          · next hle =>
              obtain ⟨tail, hblank, htake⟩ := ih (k := j - (decimal n).length)
              refine ⟨tail, hblank, ?_⟩
              rw [List.take_append, List.take_of_length_le (by omega), htake, spaced_cons,
                show j + 1 - (1 + (decimal n).length) = j - (decimal n).length by omega]
              simp

/-- A cut of a line is a word and numbers; without the whole word there are no numbers. -/
theorem take_line (h : k < l.text.length) :
    ∃ word tail, Blank tail ∧ (∀ b ∈ word, b ∈ l.word) ∧
      (cutSpaced l.numbers (k - l.word.length) ≠ [] → word = l.word) ∧
      l.text.take k = word ++ spaced (cutSpaced l.numbers (k - l.word.length)) ++ tail := by
  have hlen : l.text.length = l.word.length + (spaced l.numbers).length + 1 := by
    simp only [Line.text, List.length_append, List.length_singleton]
  rcases Nat.lt_or_ge k l.word.length with hk | hk
  · have hcut : cutSpaced l.numbers (k - l.word.length) = [] := by
      rw [Nat.sub_eq_zero_of_le hk.le]
      cases l.numbers <;> simp [cutSpaced]
    refine ⟨l.word.take k, [], blank_nil, fun b hb => List.mem_of_mem_take hb, ?_, ?_⟩
    · rw [hcut]
      intro hne
      exact absurd rfl hne
    · rw [hcut, Line.text, List.append_assoc, List.take_append_of_le_length hk.le]
      simp
  · obtain ⟨tail, hblank, htake⟩ : ∃ tail, Blank tail ∧ (spaced l.numbers).take
        (k - l.word.length) = spaced (cutSpaced l.numbers (k - l.word.length)) ++ tail :=
      take_spaced
    refine ⟨l.word, tail, hblank, fun _ => id, fun _ => rfl, ?_⟩
    rw [Line.text, List.take_append_of_le_length (by simp; omega), List.take_append,
      List.take_of_length_le hk, htake, List.append_assoc]

theorem cutSpaced_of_length_le (h : (spaced ns).length ≤ k) : cutSpaced ns k = ns := by
  induction ns generalizing k with
  | nil => rfl
  | cons n ns ih =>
      have hpos := List.length_pos_of_ne_nil (decimal_ne_nil n)
      rw [spaced_cons, List.length_append, List.length_cons] at h
      rw [cutSpaced, if_neg (by omega), if_neg (by omega), ih (by omega)]

/-- A blank stream is spent. -/
theorem sentry_blank (h : Blank tail) : ((left tail false).sentry).fail = true := sentry_spent h

theorem word_spent {s : TextStream} {oldWord : List UInt8} (h : s.sentry.fail = true) :
    (s.word oldWord).2.sentry.fail = true := by
  rw [word_of_spent h, sentry_of_fail h]
  exact h

/-- Behind a word with no number after it nothing is left to read. -/
theorem word_blank_spent {lead word oldWord : List UInt8} (hlead : Blank lead)
    (hsolid : Solid word) (htail : Blank tail) :
    ((left (lead ++ (word ++ tail)) false).word oldWord).2.sentry.fail = true := by
  by_cases hne : word = []
  · apply word_spent
    apply sentry_blank
    rw [hne]
    exact fun b hb => (List.mem_append.mp hb).elim (hlead b) (htail b)
  · have hword : (left (lead ++ (word ++ spaced [] ++ tail)) false).word oldWord = _ :=
      word_spaced hlead hne hsolid (endsAt_word_of_blank htail)
    rw [spaced_nil, List.append_nil] at hword
    rw [hword]
    exact sentry_blank htail

/-- A list of numbers that a cut may leave of another: some of them, of which the last may
be smaller. -/
inductive Shortened : List Nat → List Nat → Prop
  | nil {whole : List Nat} : Shortened [] whole
  | last {m n : Nat} {whole : List Nat} (le : m ≤ n) : Shortened [m] (n :: whole)
  | cons {n : Nat} {ns whole : List Nat} (rest : Shortened ns whole) :
      Shortened (n :: ns) (n :: whole)

theorem shortened_cutSpaced : Shortened (cutSpaced ns k) ns := by
  induction ns generalizing k with
  | nil => exact .nil
  | cons n ns ih =>
      rw [cutSpaced]
      split
      · exact .nil
      · split
        · exact .last (Nat.div_le_self _ _)
        · exact .cons ih

theorem shortened_self : Shortened ns ns := by
  induction ns with
  | nil => exact .nil
  | cons n ns ih => exact .cons ih

theorem Shortened.lt {whole : List Nat} (h : Shortened ns whole) {bound : Nat}
    (all : ∀ n ∈ whole, n < bound) : ∀ m ∈ ns, m < bound := by
  induction h with
  | nil =>
      intro m hm
      cases hm
  | last le =>
      intro m hm
      rw [List.mem_singleton.mp hm]
      exact le.trans_lt (all _ List.mem_cons_self)
  | cons rest ih =>
      intro m hm
      rcases List.mem_cons.mp hm with hm | hm
      · rw [hm]
        exact all _ List.mem_cons_self
      · exact ih (fun n hn => all n (List.mem_cons_of_mem _ hn)) m hm

/-- Without the last newline all lines are still there. -/
theorem cutLines_of_length_le {lines : List Line} (h : (linesText lines).length ≤ k + 1) :
    cutLines lines k = lines := by
  induction lines generalizing k with
  | nil => rfl
  | cons l lines ih =>
      have hlen : (linesText (l :: lines)).length = l.text.length + (linesText lines).length := by
        simp [linesText]
      have htext : l.text.length = l.word.length + (spaced l.numbers).length + 1 := by
        simp only [Line.text, List.length_append, List.length_singleton]
      rw [cutLines]
      split
      · rw [ih (by omega)]
      · -- only the newline of the last line is missing
        have hnone : lines = [] := by
          rw [← List.length_eq_zero_iff]
          cases lines with
          | nil => rfl
          | cons l' lines =>
              have hpos := l'.text_pos
              simp only [linesText, List.flatMap_cons, List.length_append] at h hlen
              omega
        rw [cutSpaced_of_length_le (by omega), hnone]

section Reached

variable {β : Type} {line : β → Line} {entries : List β} {b : β}

theorem mem_of_reached (h : b ∈ reached line entries k) : b ∈ entries := by
  induction entries generalizing k with
  | nil => cases h
  | cons b' entries ih =>
      rw [reached] at h
      split at h
      · cases h
      · exact (List.mem_cons.mp h).elim (fun heq => heq ▸ List.mem_cons_self)
          fun hmem => List.mem_cons_of_mem _ (ih hmem)

/-- Every line has at least its newline. -/
theorem length_linesText_eq_zero :
    (linesText (entries.map line)).length = 0 ↔ entries = [] := by
  cases entries with
  | nil => simp [linesText]
  | cons b entries =>
      have hpos := (line b).text_pos
      simp only [List.map_cons, linesText, List.flatMap_cons, List.length_append]
      exact iff_of_false (by omega) (List.cons_ne_nil _ _)

/-- The first bytes of a file are those of the lines that they reach. -/
theorem take_reached :
    (linesText ((reached line entries k).map line)).take k =
      (linesText (entries.map line)).take k := by
  induction entries generalizing k with
  | nil => rfl
  | cons b entries ih =>
      rw [reached]
      split
      · next hk => simp [hk]
      · simp only [List.map_cons, linesText, List.flatMap_cons, List.take_append] at ih ⊢
        rw [ih]

end Reached

/-- A loop that reads entries until one cannot be read: `read` is one turn of it, on the
variables it keeps and the stream. -/
def readEntries {σ α : Type} (read : σ → TextStream → Option (α × σ × TextStream)) :
    Nat → σ → TextStream → List α
  | 0, _, _ => []
  | fuel + 1, vars, s =>
      match read vars s with
      | some (a, vars, s) => a :: readEntries read fuel vars s
      | none => []

/-- What every turn gives holds of all entries. -/
theorem readEntries_forall {σ : Type} {read : σ → TextStream → Option (α × σ × TextStream)}
    {P : α → Prop} (turn : ∀ vars s a vars' s', read vars s = some (a, vars', s') → P a)
    {fuel : Nat} {vars : σ} {s : TextStream} {a : α} (h : a ∈ readEntries read fuel vars s) :
    P a := by
  induction fuel generalizing vars s with
  | zero => cases h
  | succ fuel ih =>
      rw [readEntries] at h
      split at h
      · next hread =>
          rcases List.mem_cons.mp h with h | h
          · rw [h]
            exact turn _ _ _ _ _ hread
          · exact ih h
      · cases h

/-- A reader of lines: one turn of the loop on a stream, and what it makes of a line of
which all numbers are there, or only some. -/
structure LineReader (σ α : Type) where
  read : σ → TextStream → Option (α × σ × TextStream)
  value : σ → Line → Option (α × σ)
  /-- The lines that are written. -/
  Whole : Line → Prop
  value_word : ∀ vars word, value vars ⟨word, []⟩ = none
  read_whole : ∀ {vars l lead tail}, Whole l → Blank lead →
    ∃ a vars', value vars l = some (a, vars') ∧
      read vars (left (lead ++ (l.word ++ spaced l.numbers ++ 10 :: tail)) false) =
        some (a, vars', left (10 :: tail) false)
  read_spent : ∀ {vars s}, s.sentry.fail = true → read vars s = none
  read_word : ∀ {vars l lead word tail}, Whole l → Blank lead → Blank tail →
    (∀ b ∈ word, b ∈ l.word) → read vars (left (lead ++ (word ++ tail)) false) = none
  read_cut : ∀ {vars l lead ns tail}, Whole l → Blank lead → Blank tail →
    Shortened ns l.numbers → ns ≠ [] →
    (value vars ⟨l.word, ns⟩ = none ∧
      read vars (left (lead ++ (l.word ++ spaced ns ++ tail)) false) = none) ∨
    ∃ a vars' s, value vars ⟨l.word, ns⟩ = some (a, vars') ∧ s.sentry.fail = true ∧
      read vars (left (lead ++ (l.word ++ spaced ns ++ tail)) false) = some (a, vars', s)

namespace LineReader

variable {σ : Type} (r : LineReader σ α)

/-- What the loop makes of a list of lines. -/
def values : σ → List Line → List α
  | _, [] => []
  | vars, l :: lines =>
      match r.value vars l with
      | some (a, vars) => a :: values vars lines
      | none => []

theorem values_singleton {vars : σ} :
    r.values vars [l] = ((r.value vars l).map Prod.fst).toList := by
  simp only [values]
  cases r.value vars l <;> rfl

theorem readEntries_spent {fuel : Nat} {vars : σ} {s : TextStream}
    (h : s.sentry.fail = true) : readEntries r.read fuel vars s = [] := by
  cases fuel with
  | zero => rfl
  | succ fuel => rw [readEntries, r.read_spent h]

/-- From the first bytes of a file of lines, the loop reads what the lines that these bytes
leave mean. -/
theorem readEntries_take {fuel : Nat} {vars : σ} {lines : List Line} {lead : List UInt8}
    (whole : ∀ l ∈ lines, r.Whole l) (hlead : Blank lead)
    (hfuel : ((linesText lines).take k).length < fuel) :
    readEntries r.read fuel vars (left (lead ++ (linesText lines).take k) false) =
      r.values vars (cutLines lines k) := by
  induction lines generalizing fuel vars lead k with
  | nil =>
      apply r.readEntries_spent
      rw [linesText, List.flatMap_nil, List.take_nil, List.append_nil]
      exact sentry_spent hlead
  | cons l lines ih =>
      have hl := whole l (by simp)
      have hrest : ∀ l' ∈ lines, r.Whole l' := fun l' h => whole l' (List.mem_cons_of_mem _ h)
      have htext : linesText (l :: lines) = l.text ++ linesText lines := by simp [linesText]
      obtain ⟨fuel, rfl⟩ : ∃ n, fuel = n + 1 := ⟨fuel - 1, by omega⟩
      rw [htext] at hfuel ⊢
      rw [cutLines]
      split
      · next hk =>
          rw [List.take_append, List.take_of_length_le hk] at hfuel ⊢
          obtain ⟨a, vars', hvalue, hread⟩ : ∃ a vars', r.value vars l = some (a, vars') ∧
              r.read vars (left (lead ++ (l.word ++ spaced l.numbers ++
                10 :: (linesText lines).take (k - l.text.length))) false) = _ :=
            r.read_whole hl hlead
          have hstream : lead ++ (l.text ++ (linesText lines).take (k - l.text.length)) =
              lead ++ (l.word ++ spaced l.numbers ++
                10 :: (linesText lines).take (k - l.text.length)) := by
            simp [Line.text]
          rw [hstream, readEntries, hread, values, hvalue]
          have hpos := l.text_pos
          rw [List.length_append] at hfuel
          have hnext : readEntries r.read fuel vars'
              (left ([10] ++ (linesText lines).take (k - l.text.length)) false) = _ :=
            ih hrest blank_newline (by omega)
          exact congrArg (a :: ·) hnext
      · next hk =>
          have hlt := Nat.lt_of_not_le hk
          obtain ⟨word, tail, hblank, hsub, hwhole, htake⟩ := take_line hlt
          rw [List.take_append_of_le_length hlt.le, htake]
          by_cases hns : cutSpaced l.numbers (k - l.word.length) = []
          · rw [hns, spaced_nil, List.append_nil, readEntries, values, r.value_word,
              r.read_word hl hlead hblank hsub]
          · rw [hwhole hns, readEntries, values]
            have hcut : (r.value vars _ = none ∧ _) ∨ _ :=
              r.read_cut hl hlead hblank shortened_cutSpaced hns
            rcases hcut with
              ⟨hvalue, hread⟩ | ⟨a, vars', s, hvalue, hspent, hread⟩
            · rw [hvalue, hread]
            · rw [hvalue, hread]
              simp only [values]
              rw [r.readEntries_spent hspent]

/-- The loop over a file that was just opened. -/
theorem readEntries_file {vars : σ} {lines : List Line} (whole : ∀ l ∈ lines, r.Whole l) :
    readEntries r.read (((linesText lines).take k).length + 1) vars
        ⟨(linesText lines).take k, false, false⟩ = r.values vars (cutLines lines k) := by
  have hstream : readEntries r.read (((linesText lines).take k).length + 1) vars
      (left ([] ++ (linesText lines).take k) false) = _ :=
    r.readEntries_take whole blank_nil (Nat.lt_succ_self _)
  rw [List.nil_append] at hstream
  rw [← hstream]
  cases hfile : (linesText lines).take k with
  | nil =>
      rw [r.readEntries_spent rfl, r.readEntries_spent (sentry_blank blank_nil)]
  | cons b file => rfl

/-- Lines that a cut does not reach are worth nothing. -/
theorem values_reached {β : Type} {line : β → Line} {entries : List β} {vars : σ} :
    r.values vars (cutLines ((reached line entries k).map line) k) =
      r.values vars (cutLines (entries.map line) k) := by
  induction entries generalizing vars k with
  | nil => rfl
  | cons b entries ih =>
      rw [reached]
      split
      · next hk =>
          have hpos := (line b).text_pos
          have hnone : cutSpaced (line b).numbers 0 = [] := by
            cases (line b).numbers <;> simp [cutSpaced]
          rw [hk, List.map_nil, List.map_cons, cutLines, cutLines, if_neg (by omega),
            Nat.zero_sub, hnone, values, values, r.value_word]
      · rw [List.map_cons, List.map_cons, cutLines, cutLines]
        split
        · simp only [values, ih]
        · rfl

/-- The loop over the first bytes of a file needs the lines that these bytes reach. -/
theorem readEntries_reached {β : Type} {line : β → Line} {entries : List β} {vars : σ}
    (whole : ∀ b ∈ reached line entries k, r.Whole (line b)) :
    readEntries r.read (((linesText (entries.map line)).take k).length + 1) vars
        ⟨(linesText (entries.map line)).take k, false, false⟩ =
      r.values vars (cutLines (entries.map line) k) := by
  rw [← take_reached, ← r.values_reached]
  exact r.readEntries_file (List.forall_mem_map.mpr whole)

/-- If a cut line has the key of the whole line, the values of a cut have keys that the whole
file has, in its order. -/
theorem keys_cutLines {β κ : Type} {line : β → Line} {key : α → κ} {keyOf : β → κ} {vars : σ}
    {entries : List β}
    (cut : ∀ vars b ns a vars', Shortened ns (line b).numbers →
      r.value vars ⟨(line b).word, ns⟩ = some (a, vars') → key a = keyOf b) :
    ((r.values vars (cutLines (entries.map line) k)).map key).Sublist (entries.map keyOf) := by
  induction entries generalizing vars k with
  | nil => exact List.Sublist.refl _
  | cons b entries ih =>
      rw [List.map_cons, cutLines]
      split
      · rw [values]
        split
        · next a vars' hvalue =>
            rw [List.map_cons, List.map_cons, cut vars b _ a vars' shortened_self hvalue]
            exact ih.cons_cons _
        · exact List.nil_sublist _
      · rw [values]
        split
        · next a vars' hvalue =>
            rw [List.map_cons, List.map_cons, cut vars b _ a vars' shortened_cutSpaced hvalue]
            exact (List.nil_sublist _).cons_cons _
        · exact List.nil_sublist _

end LineReader

end MiniKafka.Foundations
