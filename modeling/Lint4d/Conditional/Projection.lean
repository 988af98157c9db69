import Lint4d.Conditional.Analysis

/-!
# The projected source

Blanking keeps every offset and every line end.  A piece of text that is blanked
as a whole is UTF-8 again, and the spans of the analysis are made of whole pieces.
-/

namespace Lint4d.Conditional

open List hiding getElem?_eq_some_iff
open Lint4d.Cache

/-! ## UTF-8 -/

@[simp] lemma encode_append (s t : Text) : encode (s ++ t) = encode s ++ encode t := by
  simp [encode]

@[simp] lemma length_encode (text : Text) : (encode text).length = byteLen text := by
  simp [encode, byteLen, length_flatMap]

/-- The bytes are the encoding of some text. -/
def IsUtf8 (bytes : Bytes) : Prop := ∃ text, encode text = bytes

lemma IsUtf8.append {s t : Bytes} (hs : IsUtf8 s) (ht : IsUtf8 t) : IsUtf8 (s ++ t) := by
  obtain ⟨s, rfl⟩ := hs
  obtain ⟨t, rfl⟩ := ht
  exact ⟨s ++ t, encode_append s t⟩

def blankChar (byte : UInt8) : Char :=
  if byte = 10 then '\n' else if byte = 13 then '\r' else ' '

variable (byte : UInt8)

lemma encode_blankChar : encode [blankChar byte] = [blankByte byte] := by
  unfold blankChar blankByte
  by_cases hlf : byte = 10
  · subst hlf
    decide
  · by_cases hcr : byte = 13
    · subst hcr
      decide
    · simp only [hlf, hcr, if_false, ne_eq, not_false_eq_true, and_self, if_true]
      decide

/-- Whatever the bytes are, blanks and line ends are UTF-8. -/
lemma isUtf8_map_blankByte (bytes : Bytes) : IsUtf8 (bytes.map blankByte) := by
  induction bytes with
  | nil => exact ⟨[], rfl⟩
  | cons byte _ ih => exact IsUtf8.append ⟨_, encode_blankChar byte⟩ ih

lemma blankByte_blankByte : blankByte (blankByte byte) = blankByte byte := by
  unfold blankByte
  split <;> simp_all

lemma blankByte_blank : blankByte byte = 32 ∨ blankByte byte = 10 ∨ blankByte byte = 13 := by
  unfold blankByte
  by_cases hlf : byte = 10
  · simp [hlf]
  · by_cases hcr : byte = 13 <;> simp [hlf, hcr]

lemma blankByte_lineEnd :
    (blankByte byte = 10 ↔ byte = 10) ∧ (blankByte byte = 13 ↔ byte = 13) := by
  unfold blankByte
  split
  next h => simp [h]
  · simp

/-! ## Blanking byte by byte -/

/-- Blank the bytes at the chosen offsets; the first byte is at `offset`. -/
def blankAt (chosen : Nat → Bool) (offset : Nat) : Bytes → Bytes
  | [] => []
  | byte :: rest =>
    (if chosen offset then blankByte byte else byte) :: blankAt chosen (offset + 1) rest

section BlankAt

variable {chosen : Nat → Bool} {off : Nat} {bytes : Bytes}

@[simp] lemma length_blankAt (bytes : Bytes) : (blankAt chosen off bytes).length =
    bytes.length := by
  induction bytes generalizing off with
  | nil => rfl
  | cons _ _ ih => simp [blankAt, ih]

lemma blankAt_append (s t : Bytes) :
    blankAt chosen off (s ++ t) = blankAt chosen off s ++ blankAt chosen (off + s.length) t := by
  induction s generalizing off with
  | nil => rfl
  | cons _ _ ih => simp [blankAt, ih, Nat.add_assoc, Nat.add_comm 1]

lemma getElem?_blankAt (bytes : Bytes) (i : Nat) :
    (blankAt chosen off bytes)[i]? =
      bytes[i]?.map fun byte => if chosen (off + i) then blankByte byte else byte := by
  induction bytes generalizing off i with
  | nil => simp [blankAt]
  | cons byte _ ih =>
    cases i with
    | zero => simp [blankAt]
    | succ i => simp [blankAt, ih, Nat.add_assoc, Nat.add_comm 1]

lemma blankAt_eq_self (h : ∀ i, off ≤ i → i < off + bytes.length → chosen i = false) :
    blankAt chosen off bytes = bytes := by
  apply ext_getElem?
  intro i
  rw [getElem?_blankAt]
  cases hbyte : bytes[i]? with
  | none => rfl
  | some =>
    obtain ⟨hi, -⟩ := getElem?_eq_some_iff.mp hbyte
    simp [h (off + i) (by omega) (by omega)]

lemma blankAt_eq_map (h : ∀ i, off ≤ i → i < off + bytes.length → chosen i = true) :
    blankAt chosen off bytes = bytes.map blankByte := by
  apply ext_getElem?
  intro i
  rw [getElem?_blankAt, getElem?_map]
  cases hbyte : bytes[i]? with
  | none => rfl
  | some =>
    obtain ⟨hi, -⟩ := getElem?_eq_some_iff.mp hbyte
    simp [h (off + i) (by omega) (by omega)]

/-- A piece of text that is blanked as a whole or not at all stays UTF-8. -/
lemma isUtf8_blankAt_encode (text : Text)
    (h : ∀ i j, off ≤ i → i < off + byteLen text → off ≤ j → j < off + byteLen text →
      chosen i = chosen j) :
    IsUtf8 (blankAt chosen off (encode text)) := by
  cases text with
  | nil => exact ⟨[], rfl⟩
  | cons c rest =>
    have hpos : off < off + byteLen (c :: rest) := by
      have := c.utf8Size_pos
      simp only [byteLen_cons]
      omega
    cases hchosen : chosen off with
    | true =>
      rw [blankAt_eq_map]
      · exact isUtf8_map_blankByte _
      · intro i hle hlt
        rw [h i off hle (by simpa using hlt) le_rfl hpos, hchosen]
    | false =>
      rw [blankAt_eq_self]
      · exact ⟨_, rfl⟩
      · intro i hle hlt
        rw [h i off hle (by simpa using hlt) le_rfl hpos, hchosen]

end BlankAt

lemma getElem?_blankSpan (bytes : Bytes) (span : Span) (i : Nat) :
    (blankSpan bytes span)[i]? =
      bytes[i]?.map fun byte => if span.Contains i then blankByte byte else byte := by
  unfold blankSpan
  generalize hstart : min span.start bytes.length = start
  generalize hstop : min span.stop bytes.length = stop
  have hmiddle : ((bytes.take stop).drop start).length = stop - start := by
    simp only [length_drop, length_take]
    omega
  have hfirst : (bytes.take start).length = start := by
    simp only [length_take]
    omega
  rw [append_assoc]
  rcases Nat.lt_or_ge i start with hlt | hge
  · -- before the span
    have hnot : ¬ span.Contains i := fun h => by
      have := h.1
      omega
    rw [getElem?_append_left (by omega), getElem?_take_of_lt hlt]
    simp [hnot]
  · rw [getElem?_append_right (by omega), hfirst]
    rcases Nat.lt_or_ge i stop with hlt | hge'
    · -- in the span
      have hin : span.Contains i := ⟨by omega, by omega⟩
      rw [getElem?_append_left (by simp only [length_map]; omega), getElem?_map,
        getElem?_drop, Nat.add_sub_cancel' hge, getElem?_take_of_lt hlt]
      simp [hin]
    · -- after the span, or after the last byte
      rw [getElem?_append_right (by simp only [length_map]; omega), length_map,
        hmiddle, getElem?_drop]
      have hindex : max start stop + (i - start - (stop - start)) = i := by omega
      rw [hindex]
      rcases Nat.lt_or_ge i bytes.length with hbytes | hbytes
      · have hnot : ¬ span.Contains i := fun h => by
          have := h.2
          omega
        simp [hnot]
      · simp [getElem?_eq_none hbytes]

/-- The source is blanked at the offsets of the spans. -/
lemma projectSource_eq (src : Text) (inactive directives : List Span) :
    projectSource src inactive directives =
      blankAt (fun i => decide (∃ span ∈ inactive ++ directives, span.Contains i)) 0
        (encode src) := by
  unfold projectSource
  generalize inactive ++ directives = spans
  apply ext_getElem?
  intro i
  rw [getElem?_blankAt, Nat.zero_add]
  induction spans using reverseRecOn with
  | nil => simp
  | append_singleton spans span ih =>
    rw [foldl_append, foldl_cons, foldl_nil, getElem?_blankSpan, ih, Option.map_map]
    congr 1
    funext byte
    by_cases hspans : ∃ span ∈ spans, span.Contains i
    · by_cases hspan : span.Contains i
      · have : ∃ s ∈ spans ++ [span], s.Contains i := ⟨span, by simp, hspan⟩
        simp only [Function.comp_apply, hspans, hspan, this, decide_true, if_true,
          blankByte_blankByte]
      · obtain ⟨s, hs, hcont⟩ := hspans
        have h₁ : ∃ s ∈ spans, s.Contains i := ⟨s, hs, hcont⟩
        have h₂ : ∃ s ∈ spans ++ [span], s.Contains i := ⟨s, by simp [hs], hcont⟩
        simp only [Function.comp_apply, h₁, h₂, hspan, decide_true, if_true, if_false]
    · have hiff : (∃ s ∈ spans ++ [span], s.Contains i) ↔ span.Contains i := by
        constructor
        · rintro ⟨s, hs, hcont⟩
          rcases mem_append.mp hs with hs | hs
          · exact absurd ⟨s, hs, hcont⟩ hspans
          · simpa using (mem_singleton.mp hs) ▸ hcont
        · exact fun h => ⟨span, by simp, h⟩
      simp only [Function.comp_apply, hspans, hiff, decide_false, decide_eq_true_eq,
        Bool.false_eq_true, if_false]

/-! ## Whole pieces -/

/-- Blanking whole gaps and whole directives keeps the text UTF-8. -/
lemma Pieces.isUtf8_blankAt {total : Nat} {text : Text} {raws : List RawDirective}
    {chosen : Nat → Bool} (h : Pieces total text raws) (hle : byteLen text ≤ total)
    (hgaps : ∀ span ∈ gapSpans total raws (total - byteLen text), ∀ i j, span.Contains i →
      span.Contains j → chosen i = chosen j)
    (hdirs : ∀ raw ∈ raws, ∀ i, raw.start ≤ i → i < raw.stop → chosen i = true) :
    IsUtf8 (blankAt chosen (total - byteLen text) (encode text)) := by
  induction h with
  | text text =>
    apply isUtf8_blankAt_encode
    intro i j hi hi' hj hj'
    exact hgaps ⟨total - byteLen text, total⟩ (by simp [gapSpans]) i j
      ⟨hi, by dsimp only; omega⟩ ⟨hj, by dsimp only; omega⟩
  | directive gap directive rest _ _ ih =>
    simp only [byteLen_append] at hle hgaps hdirs ⊢
    rw [encode_append, encode_append, blankAt_append, blankAt_append, length_encode, length_encode]
    have hstart : total - (byteLen gap + (byteLen directive + byteLen rest)) + byteLen gap =
        total - (byteLen directive + byteLen rest) := by omega
    have hstop : total - (byteLen directive + byteLen rest) + byteLen directive =
        total - byteLen rest := by omega
    rw [hstart, hstop]
    refine IsUtf8.append ?_ (IsUtf8.append ?_ ?_)
    · apply isUtf8_blankAt_encode
      intro i j hi hi' hj hj'
      exact hgaps _ mem_cons_self i j ⟨hi, by dsimp only; omega⟩ ⟨hj, by dsimp only; omega⟩
    · apply isUtf8_blankAt_encode
      intro i j hi hi' hj hj'
      have hall := hdirs _ mem_cons_self
      rw [hall i hi (by simp only; omega), hall j hj (by simp only; omega)]
    · apply ih (by omega)
      · exact (forall_mem_cons.mp hgaps).2
      · exact (forall_mem_cons.mp hdirs).2

end Lint4d.Conditional
