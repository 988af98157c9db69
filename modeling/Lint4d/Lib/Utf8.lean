import Mathlib

/-!
# Texts, their bytes and their letter case

A text is a list of characters and its bytes are its UTF-8 encoding.  Two texts,
or two byte sequences, agree up to case when they differ only in the case of
ASCII letters.  Lower casing follows the Unicode rules; its tables are a
parameter, known only where they speak about ASCII.
-/

namespace Lint4d.Lib.Utf8

open List hiding getElem?_eq_some_iff

variable {bytes a : List UInt8} {b : UInt8}

abbrev Text := List Char

/-! ## Encoding -/

def encode (text : Text) : List UInt8 := text.flatMap String.utf8EncodeChar

@[simp] lemma encode_nil : encode [] = [] := rfl

@[simp] lemma encode_cons (c : Char) (text : Text) :
    encode (c :: text) = String.utf8EncodeChar c ++ encode text := rfl

variable {text : Text}

lemma eq_nil_of_encode_eq_nil (h : encode text = []) : text = [] := by
  cases text with
  | nil => rfl
  | cons c => simp at h

/-- The text that the bytes encode. -/
def decode? (bytes : List UInt8) : Option Text :=
  bytes.toByteArray.utf8Decode?.map Array.toList

@[simp] lemma decode?_encode (text : Text) : decode? (encode text) = some text := by
  have hbytes : (encode text).toByteArray = text.utf8Encode := rfl
  rw [decode?, hbytes, utf8Decode?_utf8Encode]
  rfl

lemma decode?_eq_some_iff : decode? bytes = some text ↔ encode text = bytes := by
  constructor
  · intro h
    have hsome : bytes.toByteArray.utf8Decode?.isSome := by
      unfold decode? at h
      cases hd : bytes.toByteArray.utf8Decode? <;> simp_all
    obtain ⟨chars, hchars⟩ := ByteArray.isSome_utf8Decode?_iff.mp hsome
    have hbytes : bytes = encode chars := toByteArray_inj.mp hchars
    rw [hbytes, decode?_encode, Option.some.injEq] at h
    rw [hbytes, h]
  · rintro rfl
    exact decode?_encode text

lemma eq_of_ofNat_eq {c d : Char} (hc : c.toNat < 128) (hd : d.toNat < 128)
    (h : UInt8.ofNat c.toNat = UInt8.ofNat d.toNat) : c = d := by
  have hnat := congrArg UInt8.toNat h
  rw [UInt8.toNat_ofNat', UInt8.toNat_ofNat', Nat.mod_eq_of_lt (by omega),
    Nat.mod_eq_of_lt (by omega)] at hnat
  exact Char.toNat_inj.1 hnat

variable {c : Char}

/-- An ASCII character is its own byte. -/
lemma utf8EncodeChar_ascii (h : c.toNat < 128) :
    String.utf8EncodeChar c = [UInt8.ofNat c.toNat] := by
  have hle : c.val.toNat ≤ 127 := Nat.le_of_lt_succ h
  rw [String.utf8EncodeChar, if_pos hle]
  rfl

/-- The bytes of any other character are not ASCII. -/
lemma le_of_mem_utf8EncodeChar (h : 128 ≤ c.toNat)
    (hb : b ∈ String.utf8EncodeChar c) : 128 ≤ b.toNat := by
  have hgt : ¬ c.val.toNat ≤ 127 := Nat.not_le.2 h
  rw [String.utf8EncodeChar, if_neg hgt] at hb
  -- every byte of a longer encoding carries its marker in the high bits
  split at hb
  · simp at hb
    rcases hb with rfl | rfl <;> simp <;> omega
  · split at hb
    · simp at hb
      rcases hb with rfl | rfl | rfl <;> simp <;> omega
    · simp at hb
      rcases hb with rfl | rfl | rfl | rfl <;> simp <;> omega

/-! ## Texts and bytes that agree up to case -/

/-- The ASCII lower case of a byte. -/
def byteLower (b : UInt8) : UInt8 := if 65 ≤ b ∧ b ≤ 90 then b + 32 else b

/-- The bytes agree up to the case of ASCII letters. -/
def BytesAgree : List UInt8 → List UInt8 → Prop := Forall₂ fun a b => byteLower a = byteLower b

/-- The texts agree up to the case of ASCII letters. -/
def Agree : Text → Text → Prop := Forall₂ fun c d => c.toLower = d.toLower

lemma byteLower_of_le (h : 128 ≤ b.toNat) : byteLower b = b := by
  rw [byteLower, if_neg]
  simp only [UInt8.le_iff_toNat_le]
  simp
  omega

lemma byteLower_lt_iff (b : UInt8) : (byteLower b).toNat < 128 ↔ b.toNat < 128 := by
  unfold byteLower
  split
  · next h =>
    simp only [UInt8.le_iff_toNat_le] at h
    simp at h ⊢
    omega
  · rfl

lemma toLower_toNat (c : Char) :
    c.toLower.toNat = if 65 ≤ c.toNat ∧ c.toNat ≤ 90 then c.toNat + 32 else c.toNat := by
  have hval : (c.val ≥ 'A'.val ∧ c.val ≤ 'Z'.val) ↔ (65 ≤ c.toNat ∧ c.toNat ≤ 90) := by
    rfl
  unfold Char.toLower
  by_cases h : c.val ≥ 'A'.val ∧ c.val ≤ 'Z'.val
  · rw [dif_pos h, if_pos (hval.1 h)]
    have hsum : (c.val + ('a'.val - 'A'.val)).toNat = c.val.toNat + 32 := by
      have := (hval.1 h).2
      rw [UInt32.toNat_add]
      exact Nat.mod_eq_of_lt (by change c.toNat + 32 < _; omega)
    exact hsum
  · rw [dif_neg h, if_neg (fun h' => h (hval.2 h'))]

lemma toUpper_toNat (c : Char) :
    c.toUpper.toNat = if 97 ≤ c.toNat ∧ c.toNat ≤ 122 then c.toNat - 32 else c.toNat := by
  have hval : ('a'.val ≤ c.val ∧ c.val ≤ 'z'.val) ↔ (97 ≤ c.toNat ∧ c.toNat ≤ 122) := by
    rfl
  unfold Char.toUpper
  by_cases h : 'a'.val ≤ c.val ∧ c.val ≤ 'z'.val
  · rw [dif_pos h, if_pos (hval.1 h)]
    have hsum : (c.val + ('A'.val - 'a'.val)).toNat = c.val.toNat - 32 := by
      have hle : 97 ≤ c.val.toNat := (hval.1 h).1
      have hlt : c.val.toNat ≤ 122 := (hval.1 h).2
      rw [UInt32.toNat_add]
      change (c.val.toNat + 4294967264) % 2 ^ 32 = _
      omega
    exact hsum
  · rw [dif_neg h, if_neg (fun h' => h (hval.2 h'))]

lemma toLower_lt (h : c.toNat < 128) : c.toLower.toNat < 128 := by
  rw [toLower_toNat]
  split <;> omega

lemma toUpper_lt (h : c.toNat < 128) : c.toUpper.toNat < 128 := by
  rw [toUpper_toNat]
  split <;> omega

/-- A byte and a character of the same ASCII code have the same lower case. -/
lemma byteLower_ofNat (h : c.toNat < 128) :
    byteLower (UInt8.ofNat c.toNat) = UInt8.ofNat c.toLower.toNat := by
  apply UInt8.toNat_inj.1
  rw [toLower_toNat, byteLower]
  simp only [UInt8.le_iff_toNat_le]
  have hmod : c.toNat % 256 = c.toNat := Nat.mod_eq_of_lt (by omega)
  by_cases hupper : 65 ≤ c.toNat ∧ c.toNat ≤ 90 <;> simp [hmod, hupper]

lemma isAlpha_iff (c : Char) : c.isAlpha = true ↔
    (65 ≤ c.toNat ∧ c.toNat ≤ 90) ∨ (97 ≤ c.toNat ∧ c.toNat ≤ 122) := by
  simp only [Char.isAlpha, Char.isUpper, Char.isLower, Bool.or_eq_true, decide_eq_true_eq,
    Bool.and_eq_true, ge_iff_le, UInt32.le_iff_toNat_le]
  rfl

/-- Characters with one lower case are the same or both ASCII letters. -/
lemma eq_or_letters_of_toLower_eq {c d : Char} (h : c.toLower = d.toLower) :
    c = d ∨ (c.isAlpha ∧ d.isAlpha) := by
  have hnat := congrArg Char.toNat h
  rw [toLower_toNat, toLower_toNat] at hnat
  by_cases heq : c.toNat = d.toNat
  · exact .inl (Char.toNat_inj.1 heq)
  · right
    rw [isAlpha_iff, isAlpha_iff]
    split at hnat <;> split at hnat <;> omega

lemma ascii_of_isAlpha (h : c.isAlpha) : c.toNat < 128 := by
  rw [isAlpha_iff] at h
  omega

lemma BytesAgree.refl (bytes : List UInt8) : BytesAgree bytes bytes := forall₂_same.2 fun _ _ => rfl

lemma BytesAgree.append {b c d : List UInt8} (hab : BytesAgree a b) (hcd : BytesAgree c d) :
    BytesAgree (a ++ c) (b ++ d) :=
  rel_append hab hcd

variable {s t : Text}

lemma Agree.encode (h : Agree s t) : BytesAgree (encode s) (encode t) := by
  induction h with
  | nil => exact .nil
  | @cons c d s t hcd _ ih =>
    rw [encode_cons, encode_cons]
    apply BytesAgree.append _ ih
    rcases eq_or_letters_of_toLower_eq hcd with rfl | ⟨hc, hd⟩
    · exact .refl _
    · replace hc := ascii_of_isAlpha hc
      replace hd := ascii_of_isAlpha hd
      rw [utf8EncodeChar_ascii hc, utf8EncodeChar_ascii hd]
      exact .cons (by rw [byteLower_ofNat hc, byteLower_ofNat hd, hcd]) .nil

/-- Only an ASCII byte has another byte with its lower case. -/
lemma eq_of_byteLower_eq {a : UInt8} (ha : 128 ≤ a.toNat) (h : byteLower a = byteLower b) :
    a = b := by
  have hb : 128 ≤ b.toNat := by
    by_contra hlt
    have := (byteLower_lt_iff b).2 (by omega)
    rw [← h, byteLower_lt_iff] at this
    omega
  rwa [byteLower_of_le ha, byteLower_of_le hb] at h

lemma BytesAgree.eq_of_le {b : List UInt8} (h : BytesAgree a b)
    (hle : ∀ x ∈ a, 128 ≤ x.toNat) : a = b := by
  induction h with
  | nil => rfl
  | @cons x y a b hxy _ ih =>
    rw [eq_of_byteLower_eq (hle x (by simp)) hxy, ih (forall_mem_cons.1 hle).2]

/-- Bytes that agree with the encoding of one character are the encoding of one. -/
lemma BytesAgree.decode_char (h : BytesAgree (String.utf8EncodeChar c) bytes) :
    ∃ d : Char, String.utf8EncodeChar d = bytes ∧ c.toLower = d.toLower := by
  by_cases hc : c.toNat < 128
  · rw [utf8EncodeChar_ascii hc] at h
    obtain ⟨b, hb, rfl⟩ : ∃ b, byteLower (UInt8.ofNat c.toNat) = byteLower b ∧ bytes = [b] := by
      cases h with
      | cons hb htail =>
        cases htail
        exact ⟨_, hb, rfl⟩
    have hlt : b.toNat < 128 := by
      rw [← byteLower_lt_iff, ← hb, byteLower_lt_iff]
      simpa using Nat.lt_of_le_of_lt (Nat.mod_le _ _) hc
    have hvalid : (Char.ofNat b.toNat).toNat = b.toNat := by
      rw [Char.ofNat, dif_pos (.inl (by omega))]
      rfl
    have hd : (Char.ofNat b.toNat).toNat < 128 := by omega
    refine ⟨Char.ofNat b.toNat, ?_, ?_⟩
    · rw [utf8EncodeChar_ascii hd, hvalid, UInt8.ofNat_toNat]
    · have hlower := byteLower_ofNat hd
      rw [hvalid, UInt8.ofNat_toNat, ← hb, byteLower_ofNat hc] at hlower
      have hnat := congrArg UInt8.toNat hlower
      rw [UInt8.toNat_ofNat', UInt8.toNat_ofNat', Nat.mod_eq_of_lt, Nat.mod_eq_of_lt] at hnat
      · exact Char.toNat_inj.1 hnat
      · exact (toLower_lt hd).trans (by decide)
      · exact (toLower_lt hc).trans (by decide)
  · refine ⟨c, h.eq_of_le fun b hb => le_of_mem_utf8EncodeChar (by omega) hb, rfl⟩

/-- Bytes that agree with the encoding of a text are the encoding of a text that agrees with it. -/
lemma BytesAgree.decode {s : Text} (h : BytesAgree (encode s) bytes) :
    ∃ t, Utf8.encode t = bytes ∧ Agree s t := by
  induction s generalizing bytes with
  | nil =>
    cases h
    exact ⟨[], rfl, .nil⟩
  | cons c s ih =>
    rw [encode_cons] at h
    have hfirst := forall₂_take (String.utf8EncodeChar c).length h
    have hrest := forall₂_drop (String.utf8EncodeChar c).length h
    rw [take_left] at hfirst
    rw [drop_left] at hrest
    obtain ⟨d, hd, hcd⟩ := BytesAgree.decode_char hfirst
    obtain ⟨t, ht, hst⟩ := ih hrest
    exact ⟨d :: t, by rw [encode_cons, hd, ht, take_append_drop], .cons hcd hst⟩

/-! ## Offsets -/

lemma encode_append (s t : Text) : encode (s ++ t) = encode s ++ encode t := by
  simp [encode]

lemma length_encode_take_le (text : Text) {i k : Nat} (h : i ≤ k) :
    (encode (text.take i)).length ≤ (encode (text.take k)).length := by
  obtain ⟨_, hrest⟩ := take_prefix_take_left h (l := text)
  rw [← hrest, encode_append, length_append]
  exact Nat.le_add_right _ _

/-- An ASCII character is the byte at its offset. -/
lemma getElem?_encode {k : Nat} (h : text[k]? = some c) (hc : c.toNat < 128) :
    (encode text)[(encode (text.take k)).length]? = some (UInt8.ofNat c.toNat) ∧
      (encode (text.take (k + 1))).length = (encode (text.take k)).length + 1 := by
  obtain ⟨hk, hget⟩ := getElem?_eq_some_iff.1 h
  have htake : text.take (k + 1) = text.take k ++ [c] := by
    rw [take_succ_eq_append_getElem hk, hget]
  have hsplit : encode text =
      encode (text.take k) ++ UInt8.ofNat c.toNat :: encode (text.drop (k + 1)) := by
    conv_lhs => rw [← take_append_drop (k + 1) text, htake]
    rw [append_assoc, encode_append, singleton_append, encode_cons, utf8EncodeChar_ascii hc]
    rfl
  constructor
  · rw [hsplit, getElem?_append_right le_rfl, Nat.sub_self, getElem?_cons_zero]
  · rw [htake, encode_append, encode_cons, utf8EncodeChar_ascii hc]
    simp

/-- An ASCII byte is a character. -/
lemma exists_of_getElem?_encode {j : Nat} (h : (encode text)[j]? = some b) (hb : b.toNat < 128) :
    ∃ k c, text[k]? = some c ∧ (encode (text.take k)).length = j ∧ UInt8.ofNat c.toNat = b ∧
      c.toNat < 128 := by
  induction text generalizing j with
  | nil => simp at h
  | cons c _ ih =>
    rw [encode_cons] at h
    rcases Nat.lt_or_ge j (String.utf8EncodeChar c).length with hlt | hge
    · rw [getElem?_append_left hlt] at h
      have hc : c.toNat < 128 := by
        by_contra hc
        have := le_of_mem_utf8EncodeChar (by omega) (mem_of_getElem? h)
        omega
      rw [utf8EncodeChar_ascii hc] at h hlt
      obtain rfl : j = 0 := by simpa using hlt
      exact ⟨0, c, rfl, rfl, by simpa using h, hc⟩
    · rw [getElem?_append_right hge] at h
      obtain ⟨k, d, hk, hlength, hbyte⟩ := ih h
      refine ⟨k + 1, d, hk, ?_, hbyte⟩
      rw [take_succ_cons, encode_cons, length_append, hlength]
      omega

/-! ## Lower casing -/

/-- The character tables of the Unicode standard. -/
structure Unicode where
  toLowercase : Char → Text
  cased : Char → Bool
  caseIgnorable : Char → Bool
  alphabetic : Char → Bool
  uppercase : Char → Bool
  lowercase : Char → Bool

/-- What the tables say about ASCII characters. -/
structure Unicode.Ascii (unicode : Unicode) : Prop where
  toLowercase {c : Char} (h : c.toNat < 128) : unicode.toLowercase c = [c.toLower]
  cased {c : Char} (h : c.toNat < 128) : unicode.cased c = c.isAlpha
  caseIgnorable {c : Char} (h : c.isAlpha) : unicode.caseIgnorable c = false
  alphabetic {c : Char} (h : c.toNat < 128) : unicode.alphabetic c = c.isAlpha
  uppercase {c : Char} (h : c.toNat < 128) : unicode.uppercase c = c.isUpper
  lowercase {c : Char} (h : c.toNat < 128) : unicode.lowercase c = c.isLower

/-- Tables that know about ASCII letters only. -/
def asciiTables : Unicode where
  toLowercase c := [c.toLower]
  cased := Char.isAlpha
  caseIgnorable _ := false
  alphabetic := Char.isAlpha
  uppercase := Char.isUpper
  lowercase := Char.isLower

lemma asciiTables_ascii : asciiTables.Ascii :=
  ⟨fun _ => rfl, fun _ => rfl, fun _ => rfl, fun _ => rfl, fun _ => rfl, fun _ => rfl⟩

section Lowercase

variable (unicode : Unicode)

def caseIgnorableThenCased (text : Text) : Bool :=
  match text.dropWhile unicode.caseIgnorable with
  | c :: _ => unicode.cased c
  | [] => false

/-- The lower case of a text; `before` is what stands before it, last character first.  A capital
sigma at the end of a word has a lower case of its own. -/
def lowercaseFrom (before : Text) : Text → Text
  | [] => []
  | c :: rest =>
    (if c = 'Σ' then
        [if caseIgnorableThenCased unicode before && !caseIgnorableThenCased unicode rest then 'ς'
          else 'σ']
      else unicode.toLowercase c) ++ lowercaseFrom (c :: before) rest

def lowercase (text : Text) : Text := lowercaseFrom unicode [] text

end Lowercase

variable {unicode : Unicode} (hascii : unicode.Ascii)

include hascii

/-- The tables do not tell the case of an ASCII letter. -/
lemma Unicode.Ascii.same_of_toLower_eq {c d : Char} (h : c.toLower = d.toLower) :
    unicode.toLowercase c = unicode.toLowercase d ∧ unicode.cased c = unicode.cased d ∧
      unicode.caseIgnorable c = unicode.caseIgnorable d := by
  rcases eq_or_letters_of_toLower_eq h with rfl | ⟨hc, hd⟩
  · exact ⟨rfl, rfl, rfl⟩
  · have hc' := ascii_of_isAlpha hc
    have hd' := ascii_of_isAlpha hd
    refine ⟨?_, ?_, ?_⟩
    · rw [hascii.toLowercase hc', hascii.toLowercase hd', h]
    · rw [hascii.cased hc', hascii.cased hd', hc, hd]
    · rw [hascii.caseIgnorable hc, hascii.caseIgnorable hd]

lemma caseIgnorableThenCased_agree (h : Agree s t) :
    caseIgnorableThenCased unicode s = caseIgnorableThenCased unicode t := by
  induction h with
  | nil => rfl
  | @cons c d s t hcd _ ih =>
    obtain ⟨-, hcased, hignorable⟩ := hascii.same_of_toLower_eq hcd
    unfold caseIgnorableThenCased at ih ⊢
    cases hd : unicode.caseIgnorable d with
    | false => simp [hignorable, hd, hcased]
    | true => simpa [hignorable, hd] using ih

lemma lowercaseFrom_agree (h : Agree s t) {before before' : Text} (hbefore : Agree before before') :
    lowercaseFrom unicode before s = lowercaseFrom unicode before' t := by
  induction h generalizing before before' with
  | nil => rfl
  | @cons c d s t hcd hst ih =>
    have hsigma : (c = 'Σ') ↔ (d = 'Σ') := by
      rcases eq_or_letters_of_toLower_eq hcd with rfl | ⟨hc, hd⟩
      · rfl
      · constructor <;> rintro rfl
        · exact absurd hc (by decide)
        · exact absurd hd (by decide)
    simp only [lowercaseFrom, hsigma, caseIgnorableThenCased_agree hascii hbefore,
      caseIgnorableThenCased_agree hascii hst, (hascii.same_of_toLower_eq hcd).1,
      ih (Forall₂.cons hcd hbefore)]

/-- Texts that agree up to case have the same lower case. -/
lemma lowercase_agree (h : Agree s t) : lowercase unicode s = lowercase unicode t :=
  lowercaseFrom_agree hascii h .nil

omit hascii in
lemma ne_sigma_of_ascii (h : c.toNat < 128) : c ≠ 'Σ' := by
  rintro rfl
  exact absurd h (by decide)

lemma lowercaseFrom_ascii (h : ∀ c ∈ text, c.toNat < 128) (before : Text) :
    lowercaseFrom unicode before text = text.map Char.toLower := by
  induction text generalizing before with
  | nil => rfl
  | cons c _ ih =>
    have hc := h c (by simp)
    rw [lowercaseFrom, if_neg (ne_sigma_of_ascii hc), hascii.toLowercase hc,
      ih (forall_mem_cons.1 h).2]
    rfl

lemma lowercase_ascii (h : ∀ c ∈ text, c.toNat < 128) :
    lowercase unicode text = text.map Char.toLower :=
  lowercaseFrom_ascii hascii h []

lemma agree_of_lowercase_eq (hs : ∀ c ∈ s, c.toNat < 128) (ht : ∀ c ∈ t, c.toNat < 128)
    (h : lowercase unicode s = lowercase unicode t) : Agree s t := by
  rw [lowercase_ascii hascii hs, lowercase_ascii hascii ht] at h
  exact forall₂_map_left_iff.1 (forall₂_map_right_iff.1 (h ▸ forall₂_same.2 fun _ _ => rfl))

/-- An ASCII character without case is kept. -/
lemma mem_lowercase (hc : c.toNat < 128) (hlower : c.toLower = c) (h : c ∈ text) :
    c ∈ lowercase unicode text := by
  have hfrom : ∀ before, c ∈ lowercaseFrom unicode before text := by
    induction text with
    | nil => cases h
    | cons d _ ih =>
      intro before
      rw [lowercaseFrom, mem_append]
      rcases mem_cons.1 h with rfl | hrest
      · left
        rw [if_neg (ne_sigma_of_ascii hc), hascii.toLowercase hc, hlower]
        exact mem_singleton.2 rfl
      · exact .inr (ih hrest _)
  exact hfrom []

end Lint4d.Lib.Utf8
