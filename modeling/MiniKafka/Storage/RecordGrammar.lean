import MiniKafka.Storage.Record

/-!
# What the record decoder accepts

`decode_record` checks the length and the checksum of a frame, and reads the fields from the
front of what the checksum covers. It does not check that the fields reach to the end of the
frame: behind the value of a record there may be bytes that no field has.
-/

namespace MiniKafka.Storage

open Foundations Common

/-- What `encode_record` puts around a body. -/
def frameOf (body : Bytes) : Bytes :=
  putU32 (UInt32.ofNat (4 + body.length)) ++ (putU32 (crc32 body) ++ body)

/-- Bytes are accepted as a record where they begin with its code, and the reader is left
behind it. -/
def ReadsGrammar (bytes : Bytes) (pos : Nat) : Prop :=
  ∀ rec next, decodeRecord.run ⟨bytes, pos⟩ = .ok (rec, next) ↔
    rec.Framed ∧ ∃ rest, bytes = encodeRecord rec ++ rest ∧
      next = ⟨rest, pos + (encodeRecord rec).length⟩

/-- A frame with the right checksum has bytes left over after the value. -/
def BeginsWithSurplus (bytes : Bytes) : Prop :=
  ∃ rec surplus rest, surplus ≠ [] ∧ 4 + (encodeBody rec ++ surplus).length < 2 ^ 32 ∧
    bytes = frameOf (encodeBody rec ++ surplus) ++ rest

variable {rec : Record} {body surplus rest bytes : Bytes} {crc : UInt32} {pos : Nat}
  {next : Reader}

theorem length_frameOf : (frameOf body).length = 8 + body.length := by
  simp only [frameOf, List.length_append, putU32_length]
  omega

/-- What is done with a frame whose length field is right. -/
theorem decodeRecord_run (fits : 4 + body.length < 2 ^ 32) :
    decodeRecord.run ⟨putU32 (UInt32.ofNat (4 + body.length)) ++ (putU32 crc ++ body) ++ rest,
        pos⟩ =
      if crc32 body ≠ crc then
        .error ⟨"record CRC mismatch (torn write or corruption)"⟩
      else (decodeBody.run ⟨body, 4⟩).map fun read =>
        (read.1, ⟨rest, pos + (8 + body.length)⟩) := by
  have hlength := (getU32_delimits (UInt32.ofNat (4 + body.length))).reads
    (putU32 crc ++ body ++ rest) pos
  have hframe := (getRaw_delimits (putU32 crc ++ body)).reads rest (pos + 4)
  have hcount : (UInt32.ofNat (4 + body.length)).toNat = (putU32 crc ++ body).length := by
    rw [UInt32.toNat_ofNat_of_lt' fits, List.length_append, putU32_length]
  have hpos : pos + 4 + (putU32 crc ++ body).length = pos + (8 + body.length) := by
    rw [List.length_append, putU32_length]
    omega
  rw [List.append_assoc, decodeRecord, run_bind_of_ok _ hlength, putU32_length, hcount,
    run_bind_of_ok _ hframe, onFrame_run, decodeFrame_run, hpos]
  split
  · rfl
  · rfl

theorem decodeBody_canonical : Canonical decodeBody encodeBody :=
  getU64_canonical.bind fun _ => getU64_canonical.bind fun _ =>
    getBlob_canonical.bind fun _ => getBlob_canonical.last fun _ => by
      simp [encodeBody]

/-- A record is accepted exactly from a frame whose body begins with the record's. -/
theorem decodeRecord_ok_iff :
    decodeRecord.run ⟨bytes, pos⟩ = .ok (rec, next) ↔
      ∃ surplus rest, 4 + (encodeBody rec ++ surplus).length < 2 ^ 32 ∧
        bytes = frameOf (encodeBody rec ++ surplus) ++ rest ∧
        next = ⟨rest, pos + (frameOf (encodeBody rec ++ surplus)).length⟩ := by
  constructor
  · intro h
    obtain ⟨totalLen, afterLen, hlen, hrest⟩ := run_bind_ok h
    obtain ⟨frame, afterFrame, hframe, hon⟩ := run_bind_ok hrest
    have hbytes : bytes = putU32 totalLen ++ afterLen.rest :=
      getU32_canonical _ totalLen afterLen hlen
    have hafter : afterLen.rest = frame ++ afterFrame.rest :=
      getRaw_canonical _ _ frame afterFrame hframe
    have hcount : frame.length = totalLen.toNat := getRaw_length hframe
    obtain ⟨storedCrc, body, hsplit⟩ :
        ∃ storedCrc body, frame = putU32 storedCrc ++ body := by
      cases hrun : decodeFrame.run ⟨frame, 0⟩ with
      | error e =>
          rw [onFrame_run, hrun] at hon
          cases hon
      | ok read =>
          obtain ⟨storedCrc, inner, hcrc, -⟩ := run_bind_ok hrun
          exact ⟨storedCrc, inner.rest, getU32_canonical _ storedCrc inner hcrc⟩
    have htotal : totalLen = UInt32.ofNat (4 + body.length) := by
      rw [hsplit, List.length_append, putU32_length] at hcount
      rw [hcount, UInt32.ofNat_toNat]
    have hfits : 4 + body.length < 2 ^ 32 := by
      have hlt := totalLen.toNat_lt
      rw [hsplit, List.length_append, putU32_length] at hcount
      omega
    have hall : bytes = putU32 (UInt32.ofNat (4 + body.length)) ++ (putU32 storedCrc ++ body) ++
        afterFrame.rest := by
      rw [hbytes, hafter, hsplit, htotal]
      simp only [List.append_assoc]
    rw [hall, decodeRecord_run hfits] at h
    split at h
    · cases h
    · next hcrc =>
        rw [not_not] at hcrc
        cases hbody : decodeBody.run ⟨body, 4⟩ with
        | error e =>
            rw [hbody] at h
            cases h
        | ok read =>
            rw [hbody] at h
            obtain ⟨hrec, hnext⟩ := Prod.mk.inj (Except.ok.inj h)
            have hread : body = encodeBody read.1 ++ read.2.rest :=
              decodeBody_canonical _ read.1 read.2 hbody
            refine ⟨read.2.rest, afterFrame.rest, ?_, ?_, ?_⟩
            · rw [← hrec, ← hread]
              exact hfits
            · rw [← hrec, ← hread, frameOf, hcrc]
              exact hall
            · rw [← hrec, ← hread, length_frameOf]
              exact hnext.symm
  · intro ⟨surplus, rest, hfits, hbytes, hnext⟩
    have hframed : rec.Framed := by
      rw [List.length_append] at hfits
      unfold Record.Framed
      omega
    have hbody := (decodeBody_delimits hframed).reads surplus 4
    rw [hbytes, frameOf, decodeRecord_run hfits, if_neg (not_not.mpr rfl), hbody, hnext,
      length_frameOf]
    rfl

theorem encodeRecord_eq_frameOf : encodeRecord rec = frameOf (encodeBody rec ++ []) := by
  rw [List.append_nil]
  rfl

/-- The decoder accepts what the format says, and nothing else, on exactly the bytes that do
not begin with a frame with a surplus. -/
theorem record_grammar_iff (bytes : Bytes) (pos : Nat) :
    ReadsGrammar bytes pos ↔ ¬ BeginsWithSurplus bytes := by
  constructor
  · intro hreads ⟨rec, surplus, rest, hsurplus, hfits, hbytes⟩
    have hrun : decodeRecord.run ⟨bytes, pos⟩ =
        .ok (rec, ⟨rest, pos + (frameOf (encodeBody rec ++ surplus)).length⟩) :=
      decodeRecord_ok_iff.mpr ⟨surplus, rest, hfits, hbytes, rfl⟩
    obtain ⟨-, rest', -, hnext⟩ := (hreads rec _).mp hrun
    have hpos := congrArg Input.pos hnext
    simp only [encodeRecord_eq_frameOf, length_frameOf, List.length_append, List.length_nil]
      at hpos
    have hlength := List.length_pos_of_ne_nil hsurplus
    omega
  · intro hnone rec next
    rw [decodeRecord_ok_iff, encodeRecord_eq_frameOf]
    constructor
    · intro ⟨surplus, rest, hfits, hbytes, hnext⟩
      have hnil : surplus = [] := by
        by_contra hsurplus
        exact hnone ⟨rec, surplus, rest, hsurplus, hfits, hbytes⟩
      rw [hnil] at hfits hbytes hnext
      rw [List.append_nil] at hfits
      exact ⟨hfits, rest, hbytes, hnext⟩
    · intro ⟨hframed, rest, hbytes, hnext⟩
      refine ⟨[], rest, ?_, hbytes, hnext⟩
      rw [List.append_nil]
      exact hframed

/-- One byte behind the empty value is covered by the length and the checksum, and by no
field. -/
theorem surplus_byte_accepted : ¬ ∀ bytes pos, ReadsGrammar bytes pos := by
  intro claim
  have hrun : decodeRecord.run
      ⟨frameOf (encodeBody { key := [], value := [] } ++ [7]) ++ [], 0⟩ =
        .ok ({ key := [], value := [] }, ⟨[], 33⟩) :=
    decodeRecord_ok_iff.mpr ⟨[7], [], by decide, rfl, by rw [length_frameOf]; rfl⟩
  obtain ⟨-, rest, -, hnext⟩ := (claim _ 0 _ _).mp hrun
  have hpos : 33 = 0 + (encodeRecord { key := [], value := [] }).length :=
    congrArg Input.pos hnext
  rw [encodeRecord_length] at hpos
  exact absurd hpos (by decide)

section Burst

/-- Bytes that were changed, all within four in a row. -/
structure ChangedWithin (start : Nat) (original changed : Bytes) : Prop where
  length : changed.length = original.length
  outside : ∀ i, i < start ∨ start + 4 ≤ i → changed[i]? = original[i]?
  differs : changed ≠ original

variable {start : Nat} {original changed : Bytes}

/-- What lies before the change can be cut off. -/
theorem ChangedWithin.drop (h : ChangedWithin start original changed) {n : Nat}
    (hn : n ≤ start) : changed.take n = original.take n ∧
      ChangedWithin (start - n) (original.drop n) (changed.drop n) := by
  have htake : changed.take n = original.take n := by
    apply List.ext_getElem?
    intro i
    rw [List.getElem?_take, List.getElem?_take]
    split
    · next hi => exact h.outside i (Or.inl (Nat.lt_of_lt_of_le hi hn))
    · rfl
  refine ⟨htake, ?_, ?_, ?_⟩
  · rw [List.length_drop, List.length_drop, h.length]
  · intro i hi
    rw [List.getElem?_drop, List.getElem?_drop]
    apply h.outside
    omega
  · intro hdrop
    apply h.differs
    rw [← List.take_append_drop n changed, ← List.take_append_drop n original, htake, hdrop]

/-- What lies behind the change is as it was. -/
theorem ChangedWithin.drop_eq (h : ChangedWithin start original changed) :
    changed.drop (start + 4) = original.drop (start + 4) := by
  apply List.ext_getElem?
  intro i
  rw [List.getElem?_drop, List.getElem?_drop]
  exact h.outside _ (Or.inr (Nat.le_add_right _ i))

theorem ChangedWithin.crc32_ne (h : ChangedWithin start original changed) :
    crc32 changed ≠ crc32 original := by
  obtain ⟨htake, hrest⟩ := h.drop (Nat.le_refl start)
  rw [Nat.sub_self] at hrest
  have hafter : (changed.drop start).drop 4 = (original.drop start).drop 4 := by
    have hdrop := hrest.drop_eq
    rwa [Nat.zero_add] at hdrop
  have hsplit : ∀ bytes : Bytes, bytes =
      bytes.take start ++ (bytes.drop start).take 4 ++ (bytes.drop start).drop 4 := by
    intro bytes
    rw [List.append_assoc, List.take_append_drop, List.take_append_drop]
  rw [hsplit changed, hsplit original, htake, hafter]
  apply crc32_ne_of_burst
  · rw [List.length_take, List.length_take, hrest.length]
  · exact List.length_take_le 4 _
  · intro hburst
    apply hrest.differs
    rw [← List.take_append_drop 4 (changed.drop start),
      ← List.take_append_drop 4 (original.drop start), hburst, hafter]

theorem encodeRecord_split :
    encodeRecord rec = putU32 (UInt32.ofNat (4 + (encodeBody rec).length)) ++
      putU32 (crc32 (encodeBody rec)) ++ encodeBody rec := by
  rw [List.append_assoc]
  rfl

/-- A burst in the body leaves the checksum of another body before it. -/
theorem decodeRecord_of_body_changed (framed : rec.Framed) (place : 8 ≤ start)
    (h : ChangedWithin start (encodeRecord rec) bytes) :
    decodeRecord.run ⟨bytes ++ rest, pos⟩ =
      .error ⟨"record CRC mismatch (torn write or corruption)"⟩ := by
  obtain ⟨hhead, hbody⟩ := h.drop place
  have hheader : (putU32 (UInt32.ofNat (4 + (encodeBody rec).length)) ++
      putU32 (crc32 (encodeBody rec))).length = 8 := by
    rw [List.length_append, putU32_length, putU32_length]
  rw [encodeRecord_split, List.take_left' hheader] at hhead
  rw [encodeRecord_split, List.drop_left' hheader] at hbody
  have hfits : 4 + (bytes.drop 8).length < 2 ^ 32 := by
    rw [hbody.length]
    exact framed
  calc decodeRecord.run ⟨bytes ++ rest, pos⟩
      = decodeRecord.run ⟨putU32 (UInt32.ofNat (4 + (bytes.drop 8).length)) ++
          (putU32 (crc32 (encodeBody rec)) ++ bytes.drop 8) ++ rest, pos⟩ := by
        rw [hbody.length, ← List.append_assoc (putU32 _) (putU32 _), ← hhead,
          List.take_append_drop]
    _ = .error ⟨"record CRC mismatch (torn write or corruption)"⟩ := by
        rw [decodeRecord_run hfits, if_pos hbody.crc32_ne]

/-- A change of the stored checksum leaves another number there. -/
theorem decodeRecord_of_crc_changed (framed : rec.Framed)
    (h : ChangedWithin 4 (encodeRecord rec) bytes) :
    decodeRecord.run ⟨bytes ++ rest, pos⟩ =
      .error ⟨"record CRC mismatch (torn write or corruption)"⟩ := by
  obtain ⟨hhead, hrest⟩ := h.drop (Nat.le_refl 4)
  have hcode : encodeRecord rec = putU32 (UInt32.ofNat (4 + (encodeBody rec).length)) ++
      (putU32 (crc32 (encodeBody rec)) ++ encodeBody rec) := rfl
  rw [hcode, List.take_left' (putU32_length _)] at hhead
  rw [hcode, List.drop_left' (putU32_length _), Nat.sub_self] at hrest
  have hbody : (bytes.drop 4).drop 4 = encodeBody rec := by
    have hdrop := hrest.drop_eq
    rwa [Nat.zero_add, List.drop_left' (putU32_length _)] at hdrop
  obtain ⟨crc, hcrc⟩ : ∃ crc, (bytes.drop 4).take 4 = putU32 crc := by
    have hfour : ((bytes.drop 4).take 4).length = 4 := by
      rw [List.length_take, hrest.length, List.length_append, putU32_length]
      exact Nat.min_eq_left (Nat.le_add_right 4 _)
    exact exists_putU32 hfour
  have hne : crc32 (encodeBody rec) ≠ crc := by
    intro heq
    apply hrest.differs
    rw [← List.take_append_drop 4 (bytes.drop 4), hcrc, hbody, heq]
  calc decodeRecord.run ⟨bytes ++ rest, pos⟩
      = decodeRecord.run ⟨putU32 (UInt32.ofNat (4 + (encodeBody rec).length)) ++
          (putU32 crc ++ encodeBody rec) ++ rest, pos⟩ := by
        rw [← hcrc, ← hhead, ← hbody, List.take_append_drop, List.take_append_drop]
    _ = .error ⟨"record CRC mismatch (torn write or corruption)"⟩ := by
        rw [decodeRecord_run framed, if_pos hne]

/-- Changes within four bytes of the body, or of the stored checksum alone, are found. -/
theorem burst_errors_detected (framed : rec.Framed) (place : start = 4 ∨ 8 ≤ start)
    (h : ChangedWithin start (encodeRecord rec) bytes) :
    decodeRecord.run ⟨bytes ++ rest, pos⟩ =
      .error ⟨"record CRC mismatch (torn write or corruption)"⟩ := by
  rcases place with hcrc | hbody
  · rw [hcrc] at h
    exact decodeRecord_of_crc_changed framed h
  · exact decodeRecord_of_body_changed framed hbody h

theorem burst_error_detected_offset :
    decodeRecord.run ⟨(encodeRecord { key := [], value := [] }).set 10 255 ++ [1], 0⟩ =
      .error ⟨"record CRC mismatch (torn write or corruption)"⟩ := by
  have framed : Record.Framed { key := [], value := [] } :=
    Record.framed_iff.mpr (by decide)
  apply burst_errors_detected framed (Or.inr (Nat.le_refl 8))
  constructor
  · exact List.length_set
  · intro i hi
    exact List.getElem?_set_ne (by omega)
  · decide +kernel

end Burst

end MiniKafka.Storage
