import Lint4d.Lib.Utf8

/-!
# Lossy decoding

Decoding that never fails: what is valid is kept, and each maximal broken piece
of a character becomes one replacement character.  ASCII bytes are valid
wherever they stand, so a broken piece holds none.
-/

namespace Lint4d.Lib.Utf8

open List

variable {b : UInt8}

/-- The character that the bytes start with. -/
def firstChar? (bytes : List UInt8) : Option Char := bytes.toByteArray.utf8DecodeChar? 0

lemma firstChar?_append (c : Char) (rest : List UInt8) :
    firstChar? (String.utf8EncodeChar c ++ rest) = some c := by
  rw [firstChar?, toByteArray_append]
  exact ByteArray.utf8DecodeChar?_utf8EncodeChar_append

lemma eq_append_of_firstChar? {bytes : List UInt8} {c : Char} (h : firstChar? bytes = some c) :
    bytes = String.utf8EncodeChar c ++ bytes.drop c.utf8Size := by
  have hsplit := congrArg (fun array => array.data.toList) (ByteArray.eq_of_utf8DecodeChar?_eq_some h)
  simp only [ByteArray.data_append, Array.toList_append, toList_data_toByteArray] at hsplit
  generalize (bytes.toByteArray.extract c.utf8Size bytes.toByteArray.size).data.toList = rest at hsplit
  rw [hsplit, ← String.length_utf8EncodeChar c, drop_left]

/-- An ASCII byte is a character by itself. -/
lemma firstChar?_ascii (h : b.toNat < 128) (rest : List UInt8) :
    (firstChar? (b :: rest)).isSome := by
  have hcode : (Char.ofNat b.toNat).toNat = b.toNat := by
    rw [Char.ofNat, dif_pos (.inl (by omega))]
    rfl
  have hbytes : String.utf8EncodeChar (Char.ofNat b.toNat) = [b] := by
    rw [utf8EncodeChar_ascii (by omega), hcode, UInt8.ofNat_toNat]
  have hfirst := firstChar?_append (Char.ofNat b.toNat) rest
  rw [hbytes] at hfirst
  exact Option.isSome_of_eq_some hfirst

def isContinuation (b : UInt8) : Bool := 0x80 ≤ b ∧ b ≤ 0xBF

/-- The second byte goes on with the first of a character of three or four bytes. -/
def continues (lead second : UInt8) : Bool :=
  if lead = 0xE0 then 0xA0 ≤ second ∧ second ≤ 0xBF
  else if lead = 0xED then 0x80 ≤ second ∧ second ≤ 0x9F
  else if 0xE1 ≤ lead ∧ lead ≤ 0xEF then isContinuation second
  else if lead = 0xF0 then 0x90 ≤ second ∧ second ≤ 0xBF
  else if lead = 0xF4 then 0x80 ≤ second ∧ second ≤ 0x8F
  else if 0xF1 ≤ lead ∧ lead ≤ 0xF3 then isContinuation second
  else false

/-- The length of the broken piece that the bytes start with. -/
def brokenLength : List UInt8 → Nat
  | lead :: second :: rest =>
    if continues lead second then
      if 0xF0 ≤ lead ∧ rest.head?.any isContinuation then 3 else 2
    else 1
  | _ => 1

lemma brokenLength_pos (bytes : List UInt8) : 0 < brokenLength bytes := by
  unfold brokenLength
  split
  · split
    · split <;> decide
    · decide
  · decide

def replacementChar : Char := '�'

def fromUtf8Lossy : List UInt8 → Text
  | [] => []
  | b :: rest =>
    match firstChar? (b :: rest) with
    | some c => c :: fromUtf8Lossy ((b :: rest).drop c.utf8Size)
    | none => replacementChar :: fromUtf8Lossy ((b :: rest).drop (brokenLength (b :: rest)))
termination_by bytes => bytes.length
decreasing_by
  · have := c.utf8Size_pos
    simp only [length_drop, length_cons]
    omega
  · have := brokenLength_pos (b :: rest)
    simp only [length_drop, length_cons]
    omega

/-- What lossy decoding may make of bytes. -/
inductive Lossy : List UInt8 → Text → Prop where
  | nil : Lossy [] []
  | char (c : Char) {rest text} (h : Lossy rest text) :
      Lossy (String.utf8EncodeChar c ++ rest) (c :: text)
  | broken {piece rest text} (hpiece : piece ≠ [])
      (hhigh : ∀ b ∈ piece, 128 ≤ b.toNat) (h : Lossy rest text) :
      Lossy (piece ++ rest) (replacementChar :: text)

lemma le_of_continues {lead second : UInt8} (h : continues lead second = true) :
    128 ≤ second.toNat := by
  unfold continues isContinuation at h
  simp only [UInt8.le_iff_toNat_le] at h
  split at h
  · simp at h; omega
  split at h
  · simp at h; omega
  split at h
  · simp at h; omega
  split at h
  · simp at h; omega
  split at h
  · simp at h; omega
  split at h
  · simp at h; omega
  · cases h

lemma high_of_broken {rest : List UInt8} (h : firstChar? (b :: rest) = none) :
    ∀ x ∈ (b :: rest).take (brokenLength (b :: rest)), 128 ≤ x.toNat := by
  have hb : 128 ≤ b.toNat := by
    by_contra hlt
    have := firstChar?_ascii (Nat.lt_of_not_le hlt) rest
    rw [h] at this
    cases this
  cases rest with
  | nil => simpa [brokenLength] using hb
  | cons second rest =>
    rw [brokenLength]
    by_cases hcontinues : continues b second = true
    · have hsecond := le_of_continues hcontinues
      rw [if_pos hcontinues]
      by_cases hthird : 0xF0 ≤ b ∧ rest.head?.any isContinuation
      · rw [if_pos hthird]
        cases rest with
        | nil => simp at hthird
        | cons third rest =>
          have hthird : isContinuation third = true := hthird.2
          simp only [isContinuation, UInt8.le_iff_toNat_le] at hthird
          have : 128 ≤ third.toNat := by
            simp at hthird
            omega
          simp [hb, hsecond, this]
      · rw [if_neg hthird]
        simp [hb, hsecond]
    · rw [if_neg hcontinues]
      simp [hb]

lemma lossy_fromUtf8Lossy (bytes : List UInt8) : Lossy bytes (fromUtf8Lossy bytes) := by
  fun_induction fromUtf8Lossy bytes with
  | case1 => exact .nil
  | case2 b rest c hchar ih =>
    have hlossy := Lossy.char c ih
    rwa [← eq_append_of_firstChar? hchar] at hlossy
  | case3 b rest hchar ih =>
    have hpiece : (b :: rest).take (brokenLength (b :: rest)) ≠ [] := by
      have := brokenLength_pos (b :: rest)
      simp only [ne_eq, take_eq_nil_iff, reduceCtorEq, or_false]
      omega
    have hlossy := Lossy.broken hpiece (high_of_broken hchar) ih
    rwa [take_append_drop] at hlossy

/-- Valid bytes are decoded. -/
lemma fromUtf8Lossy_encode (text : Text) : fromUtf8Lossy (encode text) = text := by
  induction text with
  | nil => simp [fromUtf8Lossy]
  | cons c rest ih =>
    have hfirst := firstChar?_append c (encode rest)
    rw [encode_cons]
    cases hbytes : String.utf8EncodeChar c ++ encode rest with
    | nil => simp at hbytes
    | cons b =>
      rw [hbytes] at hfirst
      rw [fromUtf8Lossy, hfirst]
      simp only
      rw [← hbytes, ← String.length_utf8EncodeChar c, drop_left, ih]

end Lint4d.Lib.Utf8
