import Lint4d.Directive.FragmentRewrite
import Lint4d.Format.Encoding

/-!
# What the directive rewrites keep

Both passes leave every byte at its offset.  The first one also erases the line
breaks inside a marker, and both record the erased text by a lossy decoding, which
a file that is not UTF-8 does not survive.
-/

namespace Lint4d.Directive

open Lint4d.Cache Lint4d.Lib.Utf8 List
open Lint4d.Fix (TextEdit joined Ordered ordered_of_pairwise drop_eq_append)
open Lint4d.Format

variable {src : Bytes}
  {off cursor : Nat} {pairs : List Pair} {bytes : Bytes} {edits : List TextEdit}
  {text : Text} {P : UInt8 → Prop}

/-! ## Markers and pairs -/

lemma getElem?_of_byteAt {c : Char} (h : byteAt src off c = true) :
    src[off]? = some (UInt8.ofNat c.toNat) := by
  simpa [byteAt] using h

/-- A range with an ASCII byte at both ends. -/
structure Bounded (source : Bytes) (start stop : Nat) : Prop where
  lt : start < stop
  le : stop ≤ source.length
  first : ∃ b, source[start]? = some b ∧ b.toNat < 128
  last : ∃ b, source[stop - 1]? = some b ∧ b.toNat < 128

variable {start stop : Nat}

lemma IsMarker.bounded (h : IsMarker src start stop) : Bounded src start stop := by
  obtain ⟨hkw, hend⟩ := h
  have hlast : stop ≤ src.length ∧ ∃ b, src[stop - 1]? = some b ∧ b.toNat < 128 := by
    unfold findDirectiveEnd at hend
    split at hend
    · obtain ⟨found, hfound, rfl⟩ := Option.map_eq_some_iff.1 hend
      have hparen := (position_eq_some hfound).2.2
      rw [isParenStarEnd, Bool.and_eq_true] at hparen
      have := lt_length_of_byteAt hparen.2
      exact ⟨by omega, _, getElem?_of_byteAt hparen.2, by decide⟩
    · obtain ⟨found, hfound, rfl⟩ := Option.map_eq_some_iff.1 hend
      obtain ⟨-, hlt, hbrace⟩ := position_eq_some hfound
      exact ⟨hlt, _, getElem?_of_byteAt hbrace, by decide⟩
  have hfirst : ∃ b, src[start]? = some b ∧ b.toNat < 128 := by
    unfold directiveKeywordStart at hkw
    split at hkw
    · rename_i hbrace
      rw [Bool.and_eq_true] at hbrace
      exact ⟨_, getElem?_of_byteAt hbrace.1, by decide⟩
    · split at hkw
      · rename_i hparen
        simp only [Bool.and_eq_true] at hparen
        exact ⟨_, getElem?_of_byteAt hparen.1.1, by decide⟩
      · cases hkw
  exact ⟨lt_of_findDirectiveEnd hend, hlast.1, hfirst, hlast.2⟩

/-- A block with its markers in order. -/
structure Pair.Valid (source : Bytes) (pair : Pair) : Prop where
  opening : Bounded source pair.openingStart pair.openingEnd
  apart : pair.openingEnd ≤ pair.closingStart
  closing : Bounded source pair.closingStart pair.closingEnd

lemma Pair.Valid.whole {pair : Pair} (h : pair.Valid src) :
    Bounded src pair.openingStart pair.closingEnd where
  lt := by
    have := h.opening.lt
    have := h.apart
    have := h.closing.lt
    omega
  le := h.closing.le
  first := h.opening.first
  last := h.closing.last

/-- Blocks one after the other, from an offset on. -/
def PairsFrom (source : Bytes) : Nat → List Pair → Prop
  | _, [] => True
  | cursor, pair :: pairs =>
    cursor ≤ pair.openingStart ∧ pair.Valid source ∧ PairsFrom source pair.closingEnd pairs

lemma PairsFrom.mono {before : Nat} (h : PairsFrom src cursor pairs)
    (hle : before ≤ cursor) : PairsFrom src before pairs := by
  cases pairs with
  | nil => trivial
  | cons _ pairs => exact ⟨hle.trans h.1, h.2⟩

lemma pairsFrom_scan (cursor : Nat) (hasAny : Bool) :
    ∀ pairs, scanDirectivePairsFrom src cursor hasAny = some pairs →
      PairsFrom src cursor pairs := by
  fun_induction scanDirectivePairsFrom src cursor hasAny with
  | case1 | case9 =>
    rintro pairs ⟨⟩
    trivial
  | case2 | case4 | case10 => rintro pairs ⟨⟩
  | case3 cursor hasAny hcur start hend hkw ih
  | case7 cursor hasAny hcur start hend keyword hkw _ hkind ih =>
    intro pairs h
    have : cursor ≤ start := le_skipLexicalNoise src cursor
    exact (ih pairs h).mono (by omega)
  | case5 cursor hasAny hcur start hend keyword hkw hkind openingEnd hopening closingStart
      closingEnd hasElse hscan ih =>
    intro pairs h
    obtain ⟨rest, hrest, hpairs⟩ := Option.bind_eq_some_iff.1 h
    cases hpairs
    obtain ⟨hle, hclosing⟩ := marker_of_scanToEndifFrom hscan
    have hopening : IsMarker src start openingEnd := ⟨by simp [hkw], hopening⟩
    exact ⟨le_skipLexicalNoise src cursor, ⟨hopening.bounded, hle, hclosing.bounded⟩, ih rest hrest⟩
  | case6 cursor hasAny hcur start hend keyword hkw hkind directiveEnd hfound hscan ih
  | case8 cursor hasAny hcur start hend keyword hkw directiveEnd hfound hkind ih =>
    intro pairs h
    have : cursor ≤ start := le_skipLexicalNoise src cursor
    have := lt_of_findDirectiveEnd hfound
    exact (ih pairs h).mono (by omega)

lemma PairsFrom.spec (h : PairsFrom src cursor pairs) :
    (∀ pair ∈ pairs, cursor ≤ pair.openingStart ∧ pair.Valid src) ∧
      pairs.Pairwise fun pair other => pair.closingEnd ≤ other.openingStart := by
  induction pairs generalizing cursor with
  | nil => simp
  | cons pair pairs ih =>
    obtain ⟨hle, hvalid, hrest⟩ := h
    obtain ⟨hpairs, hpw⟩ := ih hrest
    have hwhole := hvalid.whole.lt
    refine ⟨forall_mem_cons.2 ⟨⟨hle, hvalid⟩, fun other hother => ?_⟩,
      pairwise_cons.2 ⟨fun other hother => (hpairs other hother).1, hpw⟩⟩
    obtain ⟨hstart, hother⟩ := hpairs other hother
    exact ⟨by omega, hother⟩

/-! ## Erased ranges -/

/-- Ranges in source order. -/
structure Apart (source : Bytes) (virtuals : List VirtualDirective) : Prop where
  ordered : virtuals.Pairwise fun v w => v.endByte ≤ w.startByte
  bounded : ∀ v ∈ virtuals, Bounded source v.startByte v.endByte

def VirtualDirective.Covers (v : VirtualDirective) (offset : Nat) : Prop :=
  v.startByte ≤ offset ∧ offset < v.endByte

instance (v : VirtualDirective) (offset : Nat) : Decidable (v.Covers offset) :=
  inferInstanceAs (Decidable (_ ∧ _))

def eraseAll (erase : UInt8 → UInt8) (virtuals : List VirtualDirective) (source : Bytes) : Bytes :=
  virtuals.foldl (fun rewritten v => eraseRange erase v.startByte v.endByte rewritten) source

lemma eraseAll_cons (erase : UInt8 → UInt8) (v : VirtualDirective) (virtuals src) :
    eraseAll erase (v :: virtuals) src =
      eraseAll erase virtuals (eraseRange erase v.startByte v.endByte src) := rfl

lemma getElem?_eraseAll {erase : UInt8 → UInt8} (herase : ∀ b, erase (erase b) = erase b)
    (virtuals : List VirtualDirective) (src : Bytes) (off : Nat) :
    (eraseAll erase virtuals src)[off]? =
      src[off]?.map fun b => if ∃ v ∈ virtuals, v.Covers off then erase b else b := by
  induction virtuals generalizing src with
  | nil => simp [eraseAll]
  | cons v virtuals ih =>
    rw [eraseAll_cons, ih, eraseRange, getElem?_mapIdx, Option.map_map]
    congr 1
    funext b
    by_cases hv : v.Covers off
    · have hv' : v.startByte ≤ off ∧ off < v.endByte := hv
      simp [hv, hv', herase]
    · have hv' : ¬ (v.startByte ≤ off ∧ off < v.endByte) := hv
      simp [hv, hv']

lemma length_eraseAll (erase : UInt8 → UInt8) (virtuals : List VirtualDirective)
    (src : Bytes) : (eraseAll erase virtuals src).length = src.length := by
  induction virtuals generalizing src with
  | nil => rfl
  | cons v virtuals ih =>
    rw [eraseAll_cons, ih, eraseRange, length_mapIdx]

/-! ## Writing back -/

/-- The bytes of a piece of a file in an encoding; the mark belongs to the file. -/
def encodePiece (text : Text) : Format.SourceEncoding → Bytes
  | .utf8 | .utf8Bom => encode text
  | .latin1 => encodeLatin1 text

def restoration (encoding : Format.SourceEncoding) (v : VirtualDirective) : TextEdit :=
  ⟨v.startByte, v.endByte, encodePiece v.text encoding⟩

/-- Write the recorded texts back at their ranges. -/
def writeBack (encoding : Format.SourceEncoding) (virtuals : List VirtualDirective) (bytes : Bytes) :
    Bytes :=
  joined bytes (virtuals.map (restoration encoding)) 0

/-- The law of a rewrite. -/
structure Reversible (source : Bytes) (result : Bytes × List DirectivePatch) : Prop where
  length : result.1.length = source.length
  breaks : ∀ (offset : Nat) b, isBreak b → (result.1[offset]? = some b ↔ source[offset]? = some b)
  outside : ∀ offset, (∀ v ∈ patchesToVirtuals result.2, ¬ v.Covers offset) →
    result.1[offset]? = source[offset]?
  blank : ∀ v ∈ patchesToVirtuals result.2, ∀ offset, v.Covers offset →
    ∀ b, result.1[offset]? = some b → b = 32 ∨ isBreak b
  inBounds : ∀ v ∈ patchesToVirtuals result.2, v.startByte < v.endByte ∧ v.endByte ≤ source.length
  ascending : (patchesToVirtuals result.2).Pairwise fun v w => v.endByte ≤ w.startByte
  restores : writeBack (detectEncoding source) (patchesToVirtuals result.2) result.1 = source

lemma length_slice (h : stop ≤ src.length) : (slice src start stop).length = stop - start := by
  rw [slice, length_drop, length_take_of_le h]

lemma length_joined_le (hord : Ordered bytes.length edits)
    (hstarts : ∀ edit ∈ edits, cursor ≤ edit.startByte)
    (hshort : ∀ edit ∈ edits, edit.newText.length ≤ edit.endByte - edit.startByte) :
    (joined bytes edits cursor).length ≤ bytes.length - cursor := by
  induction edits generalizing cursor with
  | nil => simp [joined]
  | cons edit edits ih =>
    obtain ⟨hrange, hend, hlater, hrest⟩ := hord
    have htail := ih hrest hlater (forall_mem_cons.1 hshort).2
    have hedit := hshort edit (by simp)
    have hstart := hstarts edit (by simp)
    simp only [joined, length_append, length_drop, length_take]
    omega

/-- Texts that are not too long restore the source together only if each one does. -/
lemma joined_eq_drop_iff (hlen : bytes.length = src.length)
    (hord : Ordered src.length edits) (hstarts : ∀ edit ∈ edits, cursor ≤ edit.startByte)
    (hshort : ∀ edit ∈ edits, edit.newText.length ≤ edit.endByte - edit.startByte)
    (houtside : ∀ off, cursor ≤ off →
      (∀ edit ∈ edits, ¬ (edit.startByte ≤ off ∧ off < edit.endByte)) →
      bytes[off]? = src[off]?) :
    joined bytes edits cursor = src.drop cursor ↔
      ∀ edit ∈ edits, edit.newText = slice src edit.startByte edit.endByte := by
  induction edits generalizing cursor with
  | nil =>
    simp only [not_mem_nil, false_implies, implies_true, iff_true, joined]
    apply ext_getElem?
    intro i
    rw [getElem?_drop, getElem?_drop]
    exact houtside _ (by omega) (by simp)
  | cons edit edits ih =>
    obtain ⟨hrange, hend, hlater, hrest⟩ := hord
    have hstart := hstarts edit (by simp)
    have hedit := hshort edit (by simp)
    have hshorts := (forall_mem_cons.1 hshort).2
    have htail := ih hrest hlater hshorts fun off hoff hfree =>
      houtside off (by omega) (forall_mem_cons.2 ⟨by omega, hfree⟩)
    -- before the edit the bytes are those of the source
    have hbefore : (bytes.take edit.startByte).drop cursor =
        (src.take edit.startByte).drop cursor := by
      apply ext_getElem?
      intro i
      rw [getElem?_drop, getElem?_drop, getElem?_take, getElem?_take]
      split
      · refine houtside _ (by omega) (forall_mem_cons.2 ⟨by omega, fun e he => ?_⟩)
        have := hlater e he
        omega
      · rfl
    have hsplit : src.drop cursor = (src.take edit.startByte).drop cursor ++
        (slice src edit.startByte edit.endByte ++ src.drop edit.endByte) := by
      rw [slice, ← drop_eq_append src hrange hend, ← drop_eq_append src hstart (by omega)]
    have hjoined := length_joined_le (hlen ▸ hrest) hlater hshorts
    rw [joined, hbefore, hsplit, append_assoc, append_right_inj, forall_mem_cons]
    constructor
    · intro h
      have hlengths := congrArg length h
      simp only [length_append, length_slice hend, length_drop] at hlengths
      have hinj := append_inj h (by rw [length_slice hend]; omega)
      exact ⟨hinj.1, htail.1 hinj.2⟩
    · rintro ⟨hfirst, hothers⟩
      rw [hfirst, htail.2 hothers]

/-! ## Recorded texts -/

/-- A lossy text is written back by Latin-1 exactly when its bytes are ASCII. -/
lemma latin1_of_lossy (h : Lossy bytes text) :
    (encodeLatin1 text).length ≤ bytes.length ∧
      (encodeLatin1 text = bytes ↔ ∀ b ∈ bytes, b.toNat < 128) := by
  induction h with
  | nil => simp [encodeLatin1]
  | @char c rest text h ih =>
    obtain ⟨hle, hiff⟩ := ih
    have hsize : (String.utf8EncodeChar c).length = c.utf8Size := String.length_utf8EncodeChar c
    have hpos := c.utf8Size_pos
    have hcons : encodeLatin1 (c :: text) =
        (if c.toNat ≤ 0xFF then UInt8.ofNat c.toNat else 0x3F) :: encodeLatin1 text := rfl
    refine ⟨by simp only [hcons, length_cons, length_append, hsize]; omega, ?_⟩
    rw [hcons]
    constructor
    · intro heq
      have hlengths := congrArg length heq
      rw [length_cons, length_append, hsize] at hlengths
      have hone : c.utf8Size = 1 := by omega
      have hc : c.toNat < 128 := by
        rw [Char.utf8Size_eq_one_iff, UInt32.le_iff_toNat_le] at hone
        exact Nat.lt_succ_of_le hone
      rw [utf8EncodeChar_ascii hc] at heq ⊢
      obtain ⟨-, hrest⟩ := cons.inj heq
      refine forall_mem_cons.2 ⟨?_, hiff.1 hrest⟩
      simpa using Nat.lt_of_le_of_lt (Nat.mod_le _ _) hc
    · intro hall
      have hc : c.toNat < 128 := by
        by_contra hc
        obtain ⟨b, bytes, hbytes⟩ := exists_cons_of_length_pos (hsize ▸ hpos)
        have hb := le_of_mem_utf8EncodeChar (Nat.le_of_not_lt hc)
          (show b ∈ String.utf8EncodeChar c by simp [hbytes])
        have := hall b (by simp [hbytes])
        omega
      rw [utf8EncodeChar_ascii hc, hiff.2 (forall_mem_append.1 hall).2, if_pos (by omega)]
      rfl
  | @broken piece rest text hpiece hhigh h ih =>
    obtain ⟨first, piece, rfl⟩ := exists_cons_of_ne_nil hpiece
    have hcons : encodeLatin1 (replacementChar :: text) = 0x3F :: encodeLatin1 text := rfl
    have hfirst := hhigh first (by simp)
    refine ⟨by simp only [hcons, length_cons, length_append]; omega, ?_⟩
    constructor
    · intro heq
      have hbyte : first = 0x3F := (cons.inj heq).1.symm
      rw [hbyte] at hfirst
      exact absurd hfirst (by decide)
    · intro hall
      have := hall first (by simp)
      omega

/-- Between ASCII bytes stands a text. -/
lemma exists_encode_slice (h : Bounded (encode text) start stop) :
    ∃ piece, slice (encode text) start stop = encode piece := by
  obtain ⟨first, hfirst, hfirstAscii⟩ := h.first
  obtain ⟨last, hlast, hlastAscii⟩ := h.last
  obtain ⟨i, -, -, hi, -, -⟩ := exists_of_getElem?_encode hfirst hfirstAscii
  obtain ⟨j, c, hc, hj, -, hcAscii⟩ := exists_of_getElem?_encode hlast hlastAscii
  have hstop := (getElem?_encode hc hcAscii).2
  have hlt := h.lt
  have hij : i ≤ j + 1 := by
    by_contra hij
    have := length_encode_take_le text (show j + 1 ≤ i by omega)
    omega
  have hwhole : encode text = encode (text.take (j + 1)) ++ encode (text.drop (j + 1)) := by
    rw [← encode_append, take_append_drop]
  have hpiece : encode (text.take (j + 1)) =
      encode (text.take i) ++ encode ((text.take (j + 1)).drop i) := by
    rw [← encode_append]
    have htake : text.take i = (text.take (j + 1)).take i := by
      rw [take_take, Nat.min_eq_left hij]
    rw [htake, take_append_drop]
  refine ⟨(text.take (j + 1)).drop i, ?_⟩
  have htake : (encode text).take stop = encode (text.take (j + 1)) := by
    rw [hwhole, take_left' (by omega)]
  rw [slice, htake, hpiece, drop_left' hi]

lemma encodePiece_spec {encoding : Format.SourceEncoding}
    (hencoding : encoding = detectEncoding src) (h : Bounded src start stop) :
    (encodePiece (fromUtf8Lossy (slice src start stop)) encoding).length ≤
      (slice src start stop).length ∧
    (encodePiece (fromUtf8Lossy (slice src start stop)) encoding = slice src start stop ↔
      (encoding = .latin1 → ∀ b ∈ slice src start stop, b.toNat < 128)) := by
  by_cases hlatin : encoding = .latin1
  · rw [hlatin]
    have := latin1_of_lossy (lossy_fromUtf8Lossy (slice src start stop))
    exact ⟨this.1, this.2.trans ⟨fun h _ => h, fun h => h rfl⟩⟩
  · have hsome := isSome_decode?_of_detect (hencoding ▸ hlatin)
    obtain ⟨_, htext⟩ := Option.isSome_iff_exists.1 hsome
    have hsrc := decode?_eq_some_iff.1 htext
    subst hsrc
    obtain ⟨piece, hpiece⟩ := exists_encode_slice h
    have hencode : encodePiece piece encoding = encode piece := by
      cases encoding with
      | latin1 => exact absurd rfl hlatin
      | _ => rfl
    rw [hpiece, fromUtf8Lossy_encode, hencode]
    exact ⟨le_rfl, fun _ hl => absurd hl hlatin, fun _ => rfl⟩

/-! ## The two passes -/

lemma mem_slice_iff {b : UInt8} :
    b ∈ slice src start stop ↔ ∃ off, start ≤ off ∧ off < stop ∧ src[off]? = some b := by
  rw [slice, mem_iff_getElem?]
  constructor
  · rintro ⟨i, hi⟩
    rw [getElem?_drop, getElem?_take] at hi
    split at hi
    · exact ⟨start + i, by omega, by omega, hi⟩
    · cases hi
  · rintro ⟨off, hstart, hstop, hb⟩
    refine ⟨off - start, ?_⟩
    rw [getElem?_drop, getElem?_take, if_pos (by omega)]
    rwa [show start + (off - start) = off by omega]

section Pass

variable {erase : UInt8 → UInt8} {virtuals : List VirtualDirective}

section

variable (hidempotent : ∀ b, erase (erase b) = erase b)

include hidempotent

lemma eraseAll_outside (hfree : ∀ v ∈ virtuals, ¬ v.Covers off) :
    (eraseAll erase virtuals src)[off]? = src[off]? := by
  have hnone : ¬ ∃ v ∈ virtuals, v.Covers off := fun ⟨v, hv, hcovers⟩ => hfree v hv hcovers
  rw [getElem?_eraseAll hidempotent]
  simp [hnone]

lemma eraseAll_covered (hcov : ∃ v ∈ virtuals, v.Covers off) :
    (eraseAll erase virtuals src)[off]? = src[off]?.map erase := by
  rw [getElem?_eraseAll hidempotent]
  simp [hcov]

/-- The breaks stay exactly when the pass erases none. -/
lemma breaks_iff (hbreak : ∀ b, isBreak (erase b) → erase b = b) :
    (∀ (off : Nat) b, isBreak b →
      ((eraseAll erase virtuals src)[off]? = some b ↔ src[off]? = some b)) ↔
      ∀ v ∈ virtuals, ∀ b ∈ slice src v.startByte v.endByte, isBreak b → erase b = b := by
  constructor
  · intro h v hv b hb hbreakb
    obtain ⟨off, hstart, hstop, hoff⟩ := mem_slice_iff.1 hb
    have hsome := (h off b hbreakb).2 hoff
    rw [eraseAll_covered hidempotent ⟨v, hv, hstart, hstop⟩, hoff, Option.map_some] at hsome
    exact Option.some.inj hsome
  · intro h off b hbreakb
    by_cases hcov : ∃ v ∈ virtuals, v.Covers off
    · rw [eraseAll_covered hidempotent hcov]
      obtain ⟨v, hv, hcovers⟩ := hcov
      cases hoff : src[off]? with
      | none => simp
      | some original =>
        rw [Option.map_some]
        constructor
        · intro heq
          have herased : erase original = b := Option.some.inj heq
          rw [← herased, hbreak original (by rw [herased]; exact hbreakb)]
        · intro heq
          cases heq
          rw [h v hv b (mem_slice_iff.2 ⟨off, hcovers.1, hcovers.2, hoff⟩) hbreakb]
    · rw [eraseAll_outside hidempotent fun v hv hcovers => hcov ⟨v, hv, hcovers⟩]

/-- Lossy texts restore the source exactly when it is not Latin-1, or they are ASCII. -/
lemma restores_iff (hapart : Apart src virtuals)
    (htexts : ∀ v ∈ virtuals, v.text = fromUtf8Lossy (slice src v.startByte v.endByte)) :
    writeBack (detectEncoding src) virtuals (eraseAll erase virtuals src) = src ↔
      (detectEncoding src = .latin1 →
        ∀ v ∈ virtuals, ∀ b ∈ slice src v.startByte v.endByte, b.toNat < 128) := by
  have hspec : ∀ v ∈ virtuals, _ := fun v hv => encodePiece_spec rfl (hapart.bounded v hv)
  have hord : Ordered src.length (virtuals.map (restoration (detectEncoding src))) := by
    apply ordered_of_pairwise
    · rw [pairwise_map]
      exact hapart.ordered
    · exact forall_mem_map.2 fun v hv =>
        ⟨(hapart.bounded v hv).lt.le, (hapart.bounded v hv).le⟩
  have hshort : ∀ edit ∈ virtuals.map (restoration (detectEncoding src)),
      edit.newText.length ≤ edit.endByte - edit.startByte := by
    refine forall_mem_map.2 fun v hv => ?_
    have hlen := (hspec v hv).1
    rw [length_slice (hapart.bounded v hv).le] at hlen
    simpa [restoration, htexts v hv] using hlen
  have hiff := joined_eq_drop_iff (length_eraseAll erase virtuals src) hord
    (fun _ _ => Nat.zero_le _) hshort fun off _ hfree =>
      eraseAll_outside hidempotent fun v hv hcovers => hfree _ (mem_map_of_mem hv) hcovers
  rw [drop_zero] at hiff
  rw [writeBack, hiff, forall_mem_map]
  constructor
  · intro h hlatin v hv
    have hnew := h v hv
    simp only [restoration, htexts v hv] at hnew
    exact (hspec v hv).2.1 hnew hlatin
  · intro h v hv
    simp only [restoration, htexts v hv]
    exact (hspec v hv).2.2 fun hlatin => h hlatin v hv

/-- When a pass obeys the law: it must not erase breaks, and in Latin-1 it must not touch
anything but ASCII. -/
lemma reversible_iff {patches : List DirectivePatch}
    (hblank : ∀ b, erase b = 32 ∨ isBreak (erase b)) (hbreak : ∀ b, isBreak (erase b) → erase b = b)
    (hvirtuals : patchesToVirtuals patches = virtuals) (hapart : Apart src virtuals)
    (htexts : ∀ v ∈ virtuals, v.text = fromUtf8Lossy (slice src v.startByte v.endByte)) :
    Reversible src (eraseAll erase virtuals src, patches) ↔
      (∀ v ∈ virtuals, ∀ b ∈ slice src v.startByte v.endByte, isBreak b → erase b = b) ∧
      (detectEncoding src = .latin1 →
        ∀ v ∈ virtuals, ∀ b ∈ slice src v.startByte v.endByte, b.toNat < 128) := by
  rw [← breaks_iff hidempotent hbreak, ← restores_iff hidempotent hapart htexts]
  constructor
  · intro h
    exact ⟨h.breaks, hvirtuals ▸ h.restores⟩
  · rintro ⟨hbreaks, hrestores⟩
    refine ⟨length_eraseAll erase virtuals src, hbreaks, ?_, ?_, ?_, ?_, ?_⟩ <;> rw [hvirtuals]
    · exact fun off => eraseAll_outside hidempotent
    · intro v hv off hcovers b hb
      rw [eraseAll_covered hidempotent ⟨v, hv, hcovers⟩] at hb
      obtain ⟨original, -, rfl⟩ := Option.map_eq_some_iff.1 hb
      exact hblank original
    · exact fun v hv => ⟨(hapart.bounded v hv).lt, (hapart.bounded v hv).le⟩
    · exact hapart.ordered
    · exact hrestores

end

end Pass

/-- The blocks of the source. -/
def directivePairs (source : Bytes) : List Pair := (scanDirectivePairs source).getD []

def partialPairs (source : Bytes) : List Pair :=
  (directivePairs source).filter (isPartialControlFlow source)

variable (parseable : Bytes → Bool)

def opaquePairs (source : Bytes) : List Pair :=
  (directivePairs source).filter (isOpaqueIf parseable source)

/-- The bytes of the two markers of a block. -/
def markerBytes (source : Bytes) (pair : Pair) : Bytes :=
  slice source pair.openingStart pair.openingEnd ++ slice source pair.closingStart pair.closingEnd

/-- The bytes of a block with its markers. -/
def blockBytes (source : Bytes) (pair : Pair) : Bytes :=
  slice source pair.openingStart pair.closingEnd

lemma directivePairs_spec (src : Bytes) :
    (∀ pair ∈ directivePairs src, pair.Valid src) ∧
      (directivePairs src).Pairwise fun pair other => pair.closingEnd ≤ other.openingStart := by
  unfold directivePairs
  cases hscan : scanDirectivePairs src with
  | none => simp
  | some pairs =>
    obtain ⟨hpairs, hpw⟩ := (pairsFrom_scan 0 false pairs hscan).spec
    exact ⟨fun pair hpair => (hpairs pair hpair).2, hpw⟩

/-- The ranges the first pass erases. -/
def markerVirtuals (source : Bytes) : List VirtualDirective :=
  (partialPairs source).flatMap fun pair => patchVirtuals (.markers (markersPatch source pair))

/-- The ranges the second pass erases. -/
def blockVirtuals (source : Bytes) : List VirtualDirective :=
  (opaquePairs parseable source).flatMap fun pair =>
    patchVirtuals (.opaqueBlock (opaqueBlockPatch source pair))

lemma rewritePartialControlFlow_eq (src : Bytes) :
    rewritePartialControlFlow src = (eraseAll toSpace (markerVirtuals src) src,
      (partialPairs src).map fun pair => .markers (markersPatch src pair)) := by
  unfold rewritePartialControlFlow markerVirtuals partialPairs directivePairs
  cases scanDirectivePairs src with
  | none => rfl
  | some =>
    simp only [Option.getD_some, map_map, foldl_map, eraseAll, foldl_flatMap]
    rfl

lemma rewriteOpaqueIfBlocks_eq (src : Bytes) :
    rewriteOpaqueIfBlocks parseable src =
      (eraseAll toSpaceKeepingBreaks (blockVirtuals parseable src) src,
        (opaquePairs parseable src).map fun pair => .opaqueBlock (opaqueBlockPatch src pair)) := by
  unfold rewriteOpaqueIfBlocks blockVirtuals opaquePairs directivePairs
  cases scanDirectivePairs src with
  | none => rfl
  | some =>
    simp only [Option.getD_some, map_map, foldl_map, eraseAll, foldl_flatMap]
    rfl

lemma apart_markerVirtuals (src : Bytes) : Apart src (markerVirtuals src) := by
  obtain ⟨hvalid, hpw⟩ := directivePairs_spec src
  have hmem : ∀ pair ∈ partialPairs src, pair.Valid src :=
    fun pair hpair => hvalid pair (mem_of_mem_filter hpair)
  constructor
  · refine pairwise_flatMap.2 ⟨fun pair hpair => ?_, ?_⟩
    · simpa [patchVirtuals, markersPatch] using (hmem pair hpair).apart
    · refine (hpw.filter _).imp_of_mem fun hpair hother hle v hv w hw => ?_
      have hv' := hmem _ hpair
      have hw' := hmem _ hother
      have := hv'.apart
      have := hv'.closing.lt
      have := hw'.opening.lt
      have := hw'.apart
      simp only [patchVirtuals, markersPatch, mem_cons, not_mem_nil, or_false] at hv hw
      rcases hv with rfl | rfl <;> rcases hw with rfl | rfl <;> simp only <;> omega
  · exact forall_mem_flatMap.2 fun pair hpair => forall_mem_cons.2
      ⟨(hmem pair hpair).opening, forall_mem_singleton.2 (hmem pair hpair).closing⟩

lemma apart_blockVirtuals (src : Bytes) : Apart src (blockVirtuals parseable src) := by
  obtain ⟨hvalid, hpw⟩ := directivePairs_spec src
  constructor
  · refine pairwise_flatMap.2 ⟨fun pair _ => by simp [patchVirtuals], ?_⟩
    refine (hpw.filter _).imp fun hle v hv w hw => ?_
    simp only [patchVirtuals, opaqueBlockPatch, mem_singleton] at hv hw
    rw [hv, hw]
    exact hle
  · exact forall_mem_flatMap.2 fun pair hpair =>
      forall_mem_singleton.2 (hvalid pair (mem_of_mem_filter hpair)).whole

/-- What holds of the bytes of every range of the first pass. -/
lemma forall_markerVirtuals_iff (src : Bytes) :
    (∀ v ∈ markerVirtuals src, ∀ b ∈ slice src v.startByte v.endByte, P b) ↔
      ∀ pair ∈ partialPairs src, ∀ b ∈ markerBytes src pair, P b := by
  simp only [markerVirtuals, forall_mem_flatMap, patchVirtuals, markersPatch, forall_mem_cons,
    not_mem_nil, false_implies, implies_true, and_true, markerBytes, forall_mem_append]

lemma forall_blockVirtuals_iff (src : Bytes) :
    (∀ v ∈ blockVirtuals parseable src, ∀ b ∈ slice src v.startByte v.endByte, P b) ↔
      ∀ pair ∈ opaquePairs parseable src, ∀ b ∈ blockBytes src pair, P b := by
  simp only [blockVirtuals, forall_mem_flatMap, patchVirtuals, opaqueBlockPatch,
    forall_mem_singleton, blockBytes]

lemma reversible_partial_iff (src : Bytes) :
    Reversible src (rewritePartialControlFlow src) ↔
      (∀ pair ∈ partialPairs src, ∀ b ∈ markerBytes src pair, ¬ isBreak b) ∧
      (detectEncoding src = .latin1 →
        ∀ pair ∈ partialPairs src, ∀ b ∈ markerBytes src pair, b.toNat < 128) := by
  have htexts : ∀ v ∈ markerVirtuals src,
      v.text = fromUtf8Lossy (slice src v.startByte v.endByte) :=
    forall_mem_flatMap.2 fun _ _ => forall_mem_cons.2 ⟨rfl, forall_mem_singleton.2 rfl⟩
  -- a break is not a space, so the pass keeps none
  have hbreak : ∀ b : UInt8, (isBreak b → toSpace b = b) ↔ ¬ isBreak b := by
    intro b
    constructor
    · intro h hb
      have hspace : 32 = b := h hb
      rw [← hspace] at hb
      exact absurd hb (by decide)
    · exact fun h hb => absurd hb h
  have hspace : ∀ b, isBreak (toSpace b) → toSpace b = b := by
    intro b hb
    have hb : isBreak 32 = true := hb
    exact absurd hb (by decide)
  have hblank : ∀ b, toSpace b = 32 ∨ isBreak (toSpace b) := fun _ => .inl rfl
  have hidempotent : ∀ b, toSpace (toSpace b) = toSpace b := fun _ => rfl
  have hvirtuals : patchesToVirtuals _ = markerVirtuals src := flatMap_map ..
  rw [rewritePartialControlFlow_eq, reversible_iff hidempotent hblank hspace hvirtuals
    (apart_markerVirtuals src) htexts, forall_markerVirtuals_iff, forall_markerVirtuals_iff]
  simp only [hbreak]

lemma reversible_opaque_iff (src : Bytes) :
    Reversible src (rewriteOpaqueIfBlocks parseable src) ↔ (detectEncoding src = .latin1 →
        ∀ pair ∈ opaquePairs parseable src, ∀ b ∈ blockBytes src pair, b.toNat < 128) := by
  have htexts : ∀ v ∈ blockVirtuals parseable src,
      v.text = fromUtf8Lossy (slice src v.startByte v.endByte) :=
    forall_mem_flatMap.2 fun _ _ => forall_mem_singleton.2 rfl
  have hbreak : ∀ b, isBreak b → toSpaceKeepingBreaks b = b := fun b hb => if_pos hb
  have herased : ∀ b, isBreak (toSpaceKeepingBreaks b) → toSpaceKeepingBreaks b = b := by
    intro b hb
    by_cases h : isBreak b
    · exact hbreak b h
    · rw [toSpaceKeepingBreaks, if_neg h] at hb
      exact absurd hb (by decide)
  have hblank : ∀ b, toSpaceKeepingBreaks b = 32 ∨ isBreak (toSpaceKeepingBreaks b) := by
    intro b
    by_cases h : isBreak b
    · exact .inr (by rwa [hbreak b h])
    · exact .inl (if_neg h)
  have hidempotent : ∀ b, toSpaceKeepingBreaks (toSpaceKeepingBreaks b) =
      toSpaceKeepingBreaks b := by
    intro b
    rcases hblank b with h | h
    · rw [h]
      rfl
    · exact hbreak _ h
  have hvirtuals : patchesToVirtuals _ = blockVirtuals parseable src := flatMap_map ..
  rw [rewriteOpaqueIfBlocks_eq, reversible_iff hidempotent hblank herased hvirtuals
    (apart_blockVirtuals parseable src) htexts, forall_blockVirtuals_iff, forall_blockVirtuals_iff]
  exact and_iff_right fun pair hpair b hb => hbreak b

/-- Both passes are reversible exactly when no erased marker of the first pass holds a
line break and, in a file that is not UTF-8, everything erased is ASCII. -/
theorem rewrites_reversible_iff (source : Bytes) (parseable : Bytes → Bool) :
    (Reversible source (rewritePartialControlFlow source) ∧
      Reversible source (rewriteOpaqueIfBlocks parseable source)) ↔
    (∀ pair ∈ partialPairs source, ∀ b ∈ markerBytes source pair, ¬ isBreak b) ∧
      (detectEncoding source = .latin1 →
        (∀ pair ∈ partialPairs source, ∀ b ∈ markerBytes source pair, b.toNat < 128) ∧
        ∀ pair ∈ opaquePairs parseable source, ∀ b ∈ blockBytes source pair, b.toNat < 128) := by
  rw [reversible_partial_iff, reversible_opaque_iff, and_assoc, ← imp_and]

/-- Markers on one line in an ASCII file. -/
theorem rewrites_reversible_then :
    Reversible (word "\x7b$IFDEF A\x7d if x then \x7b$ENDIF\x7d y;")
        (rewritePartialControlFlow (word "\x7b$IFDEF A\x7d if x then \x7b$ENDIF\x7d y;")) ∧
      Reversible (word "\x7b$IFDEF A\x7d if x then \x7b$ENDIF\x7d y;")
        (rewriteOpaqueIfBlocks (fun _ => true)
          (word "\x7b$IFDEF A\x7d if x then \x7b$ENDIF\x7d y;")) :=
  (rewrites_reversible_iff (word "\x7b$IFDEF A\x7d if x then \x7b$ENDIF\x7d y;")
    (fun _ => true)).2 ⟨by decide +kernel, by decide +kernel⟩

/-- The first pass erases the line feed inside a marker. -/
def brokenMarker : Bytes := word "\x7b$IFDEF\nA\x7d if x then \x7b$ENDIF\x7d y;"

/-- `é` in Latin-1 inside an erased block. -/
def latin1Block : Bytes := word "\x7b$IF A\x7d \u00e9 \x7b$IFEND\x7d"

/-- A marker over two lines loses its line feed, and a Latin-1 block comes back with a
question mark. -/
theorem rewrites_lose_bytes :
    (brokenMarker[7]? = some 10 ∧ (rewritePartialControlFlow brokenMarker).1[7]? = some 32 ∧
      ¬ Reversible brokenMarker (rewritePartialControlFlow brokenMarker)) ∧
    (latin1Block[8]? = some 0xE9 ∧ (writeBack (detectEncoding latin1Block)
        (patchesToVirtuals (rewriteOpaqueIfBlocks (fun _ => false) latin1Block).2)
        (rewriteOpaqueIfBlocks (fun _ => false) latin1Block).1)[8]? = some 0x3F ∧
      ¬ Reversible latin1Block (rewriteOpaqueIfBlocks (fun _ => false) latin1Block)) := by
  refine ⟨⟨by decide +kernel, by decide +kernel, fun h => ?_⟩,
    by decide +kernel, by decide +kernel, fun h => ?_⟩
  · have hbreak := (h.breaks 7 10 (by decide)).2 (by decide +kernel)
    exact absurd hbreak (by decide +kernel)
  · exact absurd h.restores (by decide +kernel)

end Lint4d.Directive
