import Lint4d.Fix.Spelling

/-!
# Encodings of source files

Legacy sources are read as Latin-1 when they are not UTF-8.  The formatter
chooses the encoding of the output for the whole file, but decodes the text of
every node by itself.
-/

namespace Lint4d.Format

open Lint4d.Cache Lint4d.Lib.Utf8 List
open Lint4d.Fix (decodeBytes decodeBytes_encode)

variable {source : Bytes}

/-- The encoding of a file on disk. -/
inductive SourceEncoding where
  | utf8Bom
  | utf8
  | latin1
deriving DecidableEq

def utf8Bom : Bytes := [0xEF, 0xBB, 0xBF]

/-- The byte-order mark as a character. -/
def bomChar : Char := '\uFEFF'

def detectEncoding (source : Bytes) : SourceEncoding :=
  if utf8Bom <+: source then
    if (decode? (source.drop utf8Bom.length)).isSome then .utf8Bom else .latin1
  else if (decode? source).isSome then .utf8
  else .latin1

/-- One byte for each character; what has no byte becomes a question mark. -/
def encodeLatin1 (text : Text) : Bytes :=
  text.map fun c => if c.toNat ≤ 0xFF then UInt8.ofNat c.toNat else 0x3F

def encodeAs (text : Text) : SourceEncoding → Bytes
  | .utf8 => encode text
  | .utf8Bom => if text.head? = some bomChar then encode text else utf8Bom ++ encode text
  | .latin1 => encodeLatin1 text

/-! ## UTF-8 -/

lemma encode_flatMap_decodeBytes {pieces : List Bytes}
    (h : ∀ piece ∈ pieces, (decode? piece).isSome) :
    encode (pieces.flatMap decodeBytes) = pieces.flatten := by
  induction pieces with
  | nil => rfl
  | cons piece pieces ih =>
    obtain ⟨_, htext⟩ := Option.isSome_iff_exists.1 (h piece (by simp))
    have hpiece := decode?_eq_some_iff.1 htext
    rw [flatMap_cons, encode_append, ih (forall_mem_cons.1 h).2,
      flatten_cons, ← hpiece, decodeBytes_encode]

/-- A file with a mark decodes to a text that starts with it. -/
lemma head?_of_bom {body : Bytes} {text : Text} (hsource : source = utf8Bom ++ body)
    (hbody : (decode? body).isSome) (htext : encode text = source) : text.head? = some bomChar := by
  obtain ⟨rest, hrest⟩ := Option.isSome_iff_exists.1 hbody
  have hencode : encode text = encode (bomChar :: rest) := by
    rw [htext, hsource, encode_cons, decode?_eq_some_iff.1 hrest]
    rfl
  have hsame := congrArg decode? hencode
  rw [decode?_encode, decode?_encode, Option.some.injEq] at hsame
  rw [hsame]
  rfl

/-- A file that is not read as Latin-1 is UTF-8. -/
lemma isSome_decode?_of_detect (h : detectEncoding source ≠ .latin1) :
    (decode? source).isSome := by
  unfold detectEncoding at h
  split at h
  · next hbom =>
    split at h
    · next hbody =>
      obtain ⟨body, rfl⟩ := hbom
      obtain ⟨rest, hrest⟩ := Option.isSome_iff_exists.1 hbody
      have : encode (bomChar :: rest) = utf8Bom ++ body := by
        rw [encode_cons, decode?_eq_some_iff.1 hrest]
        rfl
      rw [decode?_eq_some_iff.2 this]
      rfl
    · exact absurd rfl h
  · split at h
    · assumption
    · exact absurd rfl h

/-! ## Latin-1 -/

lemma encodeLatin1_flatMap (pieces : List Bytes) :
    encodeLatin1 (pieces.flatMap decodeBytes) =
      pieces.flatMap fun piece => encodeLatin1 (decodeBytes piece) := by
  induction pieces with
  | nil => rfl
  | cons piece pieces ih =>
    rw [flatMap_cons, flatMap_cons, ← ih, encodeLatin1, map_append]
    rfl

/-- Bytes that are read one by one are written back. -/
lemma encodeLatin1_bytes (bytes : Bytes) :
    encodeLatin1 (bytes.map fun byte => Char.ofNat byte.toNat) = bytes := by
  rw [encodeLatin1, map_map]
  refine (map_congr_left fun byte _ => ?_).trans (map_id bytes)
  have hlt : byte.toNat < 256 := byte.toNat_lt
  have hcode : (Char.ofNat byte.toNat).toNat = byte.toNat := by
    rw [Char.ofNat, dif_pos (.inl (by omega))]
    rfl
  rw [Function.comp_apply, hcode, if_pos (by omega), UInt8.ofNat_toNat]
  rfl

lemma length_encodeLatin1 (text : Text) : (encodeLatin1 text).length = text.length := length_map ..

lemma length_le_length_encode (text : Text) : text.length ≤ (encode text).length := by
  induction text with
  | nil => exact le_rfl
  | cons c =>
    have hpos : 0 < (String.utf8EncodeChar c).length := by
      rw [String.length_utf8EncodeChar]
      exact c.utf8Size_pos
    rw [encode_cons, length_append, length_cons]
    omega

/-- A text is written back by Latin-1 exactly when it is ASCII. -/
lemma encodeLatin1_eq_encode_iff (text : Text) :
    encodeLatin1 text = encode text ↔ ∀ c ∈ text, c.toNat < 128 := by
  induction text with
  | nil => simp [encodeLatin1]
  | cons c rest ih =>
    have hcons : encodeLatin1 (c :: rest) =
        (if c.toNat ≤ 0xFF then UInt8.ofNat c.toNat else 0x3F) :: encodeLatin1 rest := rfl
    have hsize : (String.utf8EncodeChar c).length = c.utf8Size := String.length_utf8EncodeChar c
    rw [hcons, encode_cons]
    constructor
    · intro h
      have hlength := congrArg length h
      have hrest := length_le_length_encode rest
      have hpos := c.utf8Size_pos
      rw [length_cons, length_encodeLatin1, length_append, hsize] at hlength
      have hone : c.utf8Size = 1 := by omega
      have hc : c.toNat < 128 := by
        rw [Char.utf8Size_eq_one_iff, UInt32.le_iff_toNat_le] at hone
        exact Nat.lt_succ_of_le hone
      rw [utf8EncodeChar_ascii hc] at h
      exact forall_mem_cons.2 ⟨hc, ih.1 (cons.inj h).2⟩
    · intro h
      have hc := h c (by simp)
      rw [utf8EncodeChar_ascii hc, ih.2 (forall_mem_cons.1 h).2, if_pos (by omega)]
      rfl

/-- A piece is kept when it is not UTF-8 by itself, or ASCII. -/
def KeepsBytes (piece : Bytes) : Prop :=
  ∀ text, decode? piece = some text → ∀ c ∈ text, c.toNat < 128

lemma encodeLatin1_decodeBytes_iff (piece : Bytes) :
    encodeLatin1 (decodeBytes piece) = piece ↔ KeepsBytes piece := by
  unfold KeepsBytes decodeBytes
  cases hdecode : decode? piece with
  | none =>
    simp only [Option.getD_none, reduceCtorEq, false_implies, implies_true, iff_true]
    exact encodeLatin1_bytes piece
  | some text =>
    obtain rfl := decode?_eq_some_iff.1 hdecode
    simp only [Option.getD_some, Option.some.injEq, forall_eq']
    exact encodeLatin1_eq_encode_iff text

lemma length_encodeLatin1_decodeBytes_le (piece : Bytes) :
    (encodeLatin1 (decodeBytes piece)).length ≤ piece.length := by
  rw [length_encodeLatin1, decodeBytes]
  cases hdecode : decode? piece with
  | none => simp
  | some text =>
    obtain rfl := decode?_eq_some_iff.1 hdecode
    exact length_le_length_encode text

/-- Pieces that never get longer are together unchanged only when each one is. -/
lemma flatMap_eq_flatten_iff {α : Type} {f : List α → List α}
    (hf : ∀ l, (f l).length ≤ l.length) (ls : List (List α)) :
    ls.flatMap f = ls.flatten ↔ ∀ l ∈ ls, f l = l := by
  have hshorter : ∀ ls : List (List α), (ls.flatMap f).length ≤ ls.flatten.length := by
    intro ls
    induction ls with
    | nil => exact le_rfl
    | cons l ls ih =>
      have := hf l
      rw [flatMap_cons, flatten_cons, length_append, length_append]
      omega
  induction ls with
  | nil => simp
  | cons l ls ih =>
    rw [flatMap_cons, flatten_cons, forall_mem_cons]
    constructor
    · intro h
      have hlength := congrArg length h
      have hle := hf l
      have hrest := hshorter ls
      rw [length_append, length_append] at hlength
      obtain ⟨hl, hls⟩ := append_inj h (by omega)
      exact ⟨hl, ih.1 hls⟩
    · rintro ⟨hl, hls⟩
      rw [hl, ih.2 hls]

/-! ## The whole file -/

/-- Decoding the pieces of a file and encoding them together gives the file back exactly when, in
a Latin-1 file, no piece with a high byte is UTF-8 by itself. -/
theorem encode_decoded_pieces (source : Bytes) (pieces : List Bytes) (hcut : pieces.flatten = source)
    (hboundaries : (decode? source).isSome → ∀ piece ∈ pieces, (decode? piece).isSome) :
    encodeAs (pieces.flatMap decodeBytes) (detectEncoding source) = source ↔
      (detectEncoding source = .latin1 → ∀ piece ∈ pieces, KeepsBytes piece) := by
  have hutf8 : detectEncoding source ≠ .latin1 → encode (pieces.flatMap decodeBytes) = source := by
    intro h
    rw [encode_flatMap_decodeBytes (hboundaries (isSome_decode?_of_detect h)), hcut]
  cases hencoding : detectEncoding source with
  | utf8 =>
    rw [hencoding] at hutf8
    simpa [encodeAs] using hutf8 (by decide)
  | utf8Bom =>
    rw [hencoding] at hutf8
    have htext := hutf8 (by decide)
    have hhead : (pieces.flatMap decodeBytes).head? = some bomChar := by
      unfold detectEncoding at hencoding
      split at hencoding
      · next hbom =>
        obtain ⟨_, rfl⟩ := hbom
        split at hencoding
        · next hbody =>
          exact head?_of_bom rfl hbody htext
        · cases hencoding
      · split at hencoding <;> cases hencoding
    simp [encodeAs, hhead, htext]
  | latin1 =>
    simp only [encodeAs, forall_const]
    rw [encodeLatin1_flatMap, ← hcut, flatMap_eq_flatten_iff length_encodeLatin1_decodeBytes_le]
    exact forall₂_congr fun piece _ => encodeLatin1_decodeBytes_iff piece

/-- A comment with a lone `é` in Latin-1 between ASCII. -/
theorem encode_decoded_pieces_cafe :
    encodeAs ([[0x7B, 0x63, 0x61, 0x66, 0xE9, 0x7D], [0x3B]].flatMap decodeBytes)
      (detectEncoding [0x7B, 0x63, 0x61, 0x66, 0xE9, 0x7D, 0x3B]) =
        [0x7B, 0x63, 0x61, 0x66, 0xE9, 0x7D, 0x3B] := by
  refine (encode_decoded_pieces _ _ rfl fun h => absurd h (by decide +kernel)).2
    fun _ piece hpiece => ?_
  simp only [mem_cons, not_mem_nil, or_false] at hpiece
  rcases hpiece with rfl | rfl
  · intro text h
    cases h
  · intro text h
    cases h
    exact forall_mem_singleton.2 (by decide)

/-- Two comments of a Latin-1 file.  The bytes `C3 A9` in the second one are two characters, but
the comment by itself is UTF-8: it is read with one `é`, and one byte is written for it. -/
theorem latin1_comment_loses_byte :
    detectEncoding [0x7B, 0xE9, 0x7D, 0x7B, 0xC3, 0xA9, 0x7D] = .latin1 ∧
    [[0x7B, 0xE9, 0x7D], [0x7B, 0xC3, 0xA9, 0x7D]].flatten =
      [0x7B, 0xE9, 0x7D, 0x7B, 0xC3, 0xA9, 0x7D] ∧
    encodeAs ([[0x7B, 0xE9, 0x7D], [0x7B, 0xC3, 0xA9, 0x7D]].flatMap decodeBytes)
        (detectEncoding [0x7B, 0xE9, 0x7D, 0x7B, 0xC3, 0xA9, 0x7D]) =
      [0x7B, 0xE9, 0x7D, 0x7B, 0xE9, 0x7D] := by
  decide +kernel

end Lint4d.Format
