import Lint4d.Lsp.Text

/-!
# The position index

The index keeps the byte range of every line and, for each character outside
ASCII, how many more bytes than code units the line has used up to its end.
Both conversions look up the nearest such correction instead of scanning the
line, and give the answers of the scan.
-/

namespace Lint4d.Lsp

open List hiding getElem?_eq_some_iff
open Lint4d.Lib.Utf8 (Text)
open Lint4d.Conditional (byteLen byteLen_nil byteLen_cons byteLen_append)

variable {text src : Text} {cancel : Nat → Bool} {off : Nat}

/-- The binary search of the standard library: on a list whose elements that satisfy the condition
come first it gives their number. -/
structure PartitionPoint where
  run : {α : Type} → (α → Bool) → List α → Nat
  partitioned : ∀ {α : Type} (p : α → Bool) (l : List α),
    (l.Pairwise fun a b => p b = true → p a = true) → run p l = l.countP p

/-- A character outside ASCII: where it ends in its line, and how many more bytes than code units
the line has used up to there. -/
structure Correction where
  byteEnd : Nat
  excess : Nat

structure IndexedLine where
  start : Nat
  stop : Nat
  corrections : List Correction

structure PositionIndex where
  sourceLen : Nat
  lines : List IndexedLine

def cancelCheckBytes : Nat := 4096

/-- Look at the cancellation flag when the scan has come far enough; the result is the byte of the
next look.  `cancel` is what the flag says at a byte of the scan. -/
def checkCancel (cancel : Nat → Bool) (nextCheck index : Nat) : Option Nat :=
  if nextCheck ≤ index then
    if cancel index then none else some (index + cancelCheckBytes)
  else some nextCheck

/-- The loop that builds the index. -/
def buildFrom (cancel : Nat → Bool) (start index excess nextCheck : Nat)
    (corrections : List Correction) : Text → Option (List IndexedLine)
  | '\r' :: '\n' :: rest =>
    (checkCancel cancel nextCheck index).bind fun nextCheck =>
      (buildFrom cancel (index + 2) (index + 2) 0 nextCheck [] rest).map
        (⟨start, index, corrections⟩ :: ·)
  | c :: rest =>
    (checkCancel cancel nextCheck index).bind fun nextCheck =>
      if c = '\n' ∨ c = '\r' then
        (buildFrom cancel (index + 1) (index + 1) 0 nextCheck [] rest).map
          (⟨start, index, corrections⟩ :: ·)
      else if c.toNat < 128 then
        buildFrom cancel start (index + 1) excess nextCheck corrections rest
      else
        let excess := excess + (c.utf8Size - lenUtf16 c)
        let index := index + c.utf8Size
        buildFrom cancel start index excess nextCheck
          (corrections ++ [⟨index - start, excess⟩]) rest
  | [] => some [⟨start, index, corrections⟩]

namespace PositionIndex

def build (source : Text) (cancel : Nat → Bool) : Option PositionIndex :=
  if cancel 0 then none
  else (buildFrom cancel 0 0 0 cancelCheckBytes [] source).map (⟨byteLen source, ·⟩)

/-- The excess up to the last of so many corrections. -/
def excessAfter (corrections : List Correction) : Nat → Nat
  | 0 => 0
  | last + 1 => (corrections[last]?).elim 0 (·.excess)

variable (search : PartitionPoint) (index : PositionIndex)

def offsetToPosition (source : Text) (offset : Nat) : Option Position :=
  if byteLen source ≠ index.sourceLen ∨ index.sourceLen < offset ∨
      isCharBoundary source offset = false then none
  else
    let lineIndex := search.run (fun line : IndexedLine => line.start ≤ offset) index.lines - 1
    (index.lines[lineIndex]?).bind fun line =>
      if line.start ≤ offset ∧ offset ≤ line.stop then
        let relative := offset - line.start
        let corrected :=
          search.run (fun correction : Correction => correction.byteEnd ≤ relative) line.corrections
        let excess := excessAfter line.corrections corrected
        (toU32 lineIndex).bind fun lineNumber =>
          (toU32 (relative - excess)).map (⟨lineNumber, ·⟩)
      else none

/-- Texts are shorter than `2 ^ 63` bytes, so that the checked additions always succeed. -/
def positionToOffset (source : Text) (position : Position) : Option Nat :=
  if byteLen source ≠ index.sourceLen then none
  else (index.lines[position.line.toNat]?).bind fun line =>
    let character := position.character.toNat
    let corrected := search.run
      (fun correction : Correction => correction.byteEnd - correction.excess ≤ character)
      line.corrections
    let offset := line.start + character + excessAfter line.corrections corrected
    if offset ≤ line.stop ∧ isCharBoundary source offset then some offset else none

end PositionIndex

/-! ## Corrections -/

/-- The corrections of a text that starts after so many bytes with so much excess. -/
def correctionsFrom (byte excess : Nat) : Text → List Correction
  | [] => []
  | c :: rest =>
    if c.toNat < 128 then correctionsFrom (byte + 1) excess rest
    else
      ⟨byte + c.utf8Size, excess + (c.utf8Size - lenUtf16 c)⟩ ::
        correctionsFrom (byte + c.utf8Size) (excess + (c.utf8Size - lenUtf16 c)) rest

lemma utf8Size_ascii {c : Char} (h : c.toNat < 128) : c.utf8Size = 1 ∧ lenUtf16 c = 1 := by
  constructor
  · rw [Char.utf8Size_eq_one_iff, UInt32.le_iff_toNat_le]
    exact Nat.le_of_lt_succ h
  · rw [lenUtf16, if_pos (by omega)]

lemma lenUtf16_le (c : Char) : lenUtf16 c ≤ c.utf8Size := by
  have hpos := c.utf8Size_pos
  unfold lenUtf16
  split
  · exact hpos
  · next hlarge =>
    have hone : c.utf8Size ≠ 1 := by
      rw [ne_eq, Char.utf8Size_eq_one_iff, UInt32.le_iff_toNat_le]
      exact fun h => hlarge (Nat.lt_of_le_of_lt h (by decide))
    omega

lemma utf16Len_le (text : Text) : utf16Len text ≤ byteLen text := by
  induction text with
  | nil => exact le_rfl
  | cons c =>
    have := lenUtf16_le c
    rw [utf16Len_cons, byteLen_cons]
    omega

/-- How many more bytes than code units a text has. -/
def excessOf (text : Text) : Nat := byteLen text - utf16Len text

lemma excessOf_cons (c : Char) (text : Text) :
    excessOf (c :: text) = c.utf8Size - lenUtf16 c + excessOf text := by
  have := lenUtf16_le c
  have := utf16Len_le text
  rw [excessOf, excessOf, byteLen_cons, utf16Len_cons]
  omega

lemma excessOf_append (s t : Text) : excessOf (s ++ t) = excessOf s + excessOf t := by
  have := utf16Len_le s
  have := utf16Len_le t
  rw [excessOf, excessOf, excessOf, byteLen_append, utf16Len_append]
  omega

lemma correctionsFrom_append (byte excess : Nat) (s t : Text) :
    correctionsFrom byte excess (s ++ t) =
      correctionsFrom byte excess s ++
        correctionsFrom (byte + byteLen s) (excess + excessOf s) t := by
  induction s generalizing byte excess with
  | nil => simp [correctionsFrom, excessOf]
  | cons c s ih =>
    rw [cons_append, correctionsFrom, correctionsFrom, excessOf_cons, byteLen_cons]
    split
    · next hc =>
      obtain ⟨hsize, hunits⟩ := utf8Size_ascii hc
      rw [ih, hsize, hunits, Nat.sub_self, Nat.zero_add, Nat.add_assoc]
    · rw [ih, cons_append, Nat.add_assoc byte, Nat.add_assoc excess]

/-- A correction ends after the start of the text and not after its end, in bytes and in units. -/
lemma correctionsFrom_bounds {byte excess : Nat} (units : Nat) (hbyte : byte = excess + units)
    {corr : Correction} (h : corr ∈ correctionsFrom byte excess text) :
    byte < corr.byteEnd ∧ corr.byteEnd ≤ byte + byteLen text ∧ units < corr.byteEnd - corr.excess ∧
      corr.byteEnd - corr.excess ≤ units + utf16Len text := by
  induction text generalizing byte excess units with
  | nil => cases h
  | cons c rest ih =>
    have hpos := lenUtf16_pos c
    have hle := lenUtf16_le c
    rw [byteLen_cons, utf16Len_cons]
    rw [correctionsFrom] at h
    split at h
    · next hc =>
      have := ih (units + 1) (by omega) h
      omega
    · rcases mem_cons.1 h with rfl | h
      · dsimp only
        omega
      · have := ih (units + lenUtf16 c) (by omega) h
        omega

/-- The last correction knows the excess of the whole text. -/
lemma getLast?_correctionsFrom (byte excess : Nat) (text : Text) :
    ((correctionsFrom byte excess text).getLast?).elim excess (·.excess) =
      excess + excessOf text := by
  induction text generalizing byte excess with
  | nil => rfl
  | cons c rest ih =>
    rw [correctionsFrom, excessOf_cons]
    split
    · next hc =>
      obtain ⟨hsize, hunits⟩ := utf8Size_ascii hc
      rw [ih, hsize, hunits, Nat.sub_self, Nat.zero_add]
    · have hstep := ih (byte + c.utf8Size) (excess + (c.utf8Size - lenUtf16 c))
      rw [getLast?_cons]
      cases hlast : (correctionsFrom (byte + c.utf8Size) (excess + (c.utf8Size - lenUtf16 c))
          rest).getLast? with
      | none | some last =>
        rw [hlast] at hstep
        simpa [Nat.add_assoc] using hstep

/-! ## What is built -/

/-- The indexed form of a line. -/
def indexLine (line : Line) : IndexedLine := ⟨line.start, line.stop, correctionsFrom 0 0 line.text⟩

/-- The loop indexes the lines of the scan. -/
lemma buildFrom_eq (start : Nat) (line : Text) {nextCheck : Nat} {res : List IndexedLine}
    (h : buildFrom cancel start (start + byteLen line) (excessOf line) nextCheck
      (correctionsFrom 0 0 line) src = some res) :
    res = (linesFrom start (start + byteLen line) line src).map indexLine := by
  fun_induction splitLines src generalizing start line nextCheck res with
  | case1 rest ih =>
    obtain ⟨check, -, h⟩ := Option.bind_eq_some_iff.1 h
    obtain ⟨more, hmore, rfl⟩ := Option.map_eq_some_iff.1 h
    have hrest : more = (linesFrom (start + byteLen line + 2) (start + byteLen line + 2) []
        rest).map indexLine := ih (start + byteLen line + 2) [] hmore
    rw [linesFrom, map_cons, hrest]
    rfl
  | case2 c rest hcrlf hc ih =>
    rw [buildFrom] at h
    · obtain ⟨check, -, h⟩ := Option.bind_eq_some_iff.1 h
      rw [if_pos hc] at h
      obtain ⟨more, hmore, rfl⟩ := Option.map_eq_some_iff.1 h
      have hrest : more = (linesFrom (start + byteLen line + 1) (start + byteLen line + 1) []
          rest).map indexLine := ih (start + byteLen line + 1) [] hmore
      rw [linesFrom, if_pos hc, map_cons, hrest]
      · rfl
      · exact hcrlf
    · exact hcrlf
  | case3 c rest hcrlf hc t b more _ ih =>
    rw [buildFrom] at h
    · obtain ⟨check, -, h⟩ := Option.bind_eq_some_iff.1 h
      rw [if_neg hc] at h
      have hadded : byteLen (line ++ [c]) = byteLen line + c.utf8Size := by
        rw [byteLen_append, byteLen_cons, byteLen_nil, Nat.add_zero]
      have hexcess : excessOf (line ++ [c]) = excessOf line + (c.utf8Size - lenUtf16 c) := by
        rw [excessOf_append, excessOf_cons]
        rfl
      -- the scan after one more character is the scan with the longer line
      have hstep : buildFrom cancel start (start + byteLen (line ++ [c])) (excessOf (line ++ [c]))
          check (correctionsFrom 0 0 (line ++ [c])) rest = some res := by
        rw [correctionsFrom_append, Nat.zero_add, Nat.zero_add, hexcess, hadded, correctionsFrom]
        split at h
        · next hascii =>
          obtain ⟨hsize, hunits⟩ := utf8Size_ascii hascii
          rw [if_pos hascii, hsize, hunits, Nat.sub_self, Nat.add_zero, correctionsFrom,
            append_nil, ← Nat.add_assoc]
          exact h
        · next hascii =>
          have hend : start + byteLen line + c.utf8Size - start = byteLen line + c.utf8Size := by
            omega
          rw [if_neg hascii, correctionsFrom, ← Nat.add_assoc]
          dsimp only at h
          rwa [hend] at h
      have hlines := ih start (line ++ [c]) hstep
      rw [linesFrom, if_neg hc, hlines, hadded, Nat.add_assoc]
      exact hcrlf
    · exact hcrlf
  | case4 c rest hcrlf hc hnil ih => exact absurd hnil (splitLines_ne_nil rest)
  | case5 =>
    cases h
    rfl

lemma PositionIndex.build_eq {index : PositionIndex} (h : build src cancel = some index) :
    index.sourceLen = byteLen src ∧ index.lines = (layout 0 (splitLines src)).map indexLine := by
  obtain ⟨lines, hlines, rfl⟩ := Option.map_eq_some_iff.1 (Option.ite_none_left_eq_some.1 h).2
  have hindexed : lines = (linesFrom 0 0 [] src).map indexLine := buildFrom_eq 0 [] hlines
  exact ⟨rfl, by rw [hindexed, ← lines_eq]; rfl⟩

lemma exists_checkCancel (nextCheck index : Nat) :
    ∃ next, checkCancel (fun _ => false) nextCheck index = some next := by
  unfold checkCancel
  split <;> exact ⟨_, rfl⟩

lemma exists_buildFrom (src : Text) (start index excess nextCheck : Nat)
    (corrections : List Correction) : ∃ lines,
      buildFrom (fun _ => false) start index excess nextCheck corrections src = some lines := by
  fun_induction splitLines src generalizing start index excess nextCheck corrections with
  | case1 rest ih =>
    obtain ⟨next, hnext⟩ := exists_checkCancel nextCheck index
    obtain ⟨lines, hlines⟩ := ih (index + 2) (index + 2) 0 next []
    exact ⟨_, by rw [buildFrom, hnext, Option.bind_some, hlines]; rfl⟩
  | case2 c rest hcrlf hc ih =>
    obtain ⟨next, hnext⟩ := exists_checkCancel nextCheck index
    obtain ⟨lines, hlines⟩ := ih (index + 1) (index + 1) 0 next []
    refine ⟨⟨start, index, corrections⟩ :: lines, ?_⟩
    rw [buildFrom, hnext, Option.bind_some, if_pos hc, hlines]
    · rfl
    · exact hcrlf
  | case3 c rest hcrlf hc t b _ _ ih =>
    obtain ⟨next, hnext⟩ := exists_checkCancel nextCheck index
    rw [buildFrom, hnext, Option.bind_some, if_neg hc]
    · split
      · exact ih _ _ _ _ _
      · exact ih _ _ _ _ _
    · exact hcrlf
  | case4 c rest hcrlf hc hnil ih => exact absurd hnil (splitLines_ne_nil rest)
  | case5 => exact ⟨[⟨start, index, corrections⟩], by rw [buildFrom]⟩

/-- Without cancellation the index is built. -/
lemma PositionIndex.exists_build (src : Text) :
    ∃ index, build src (fun _ => false) = some index := by
  obtain ⟨lines, hlines⟩ := exists_buildFrom src 0 0 0 cancelCheckBytes []
  exact ⟨⟨byteLen src, lines⟩, by simp [build, hlines]⟩

/-! ## Searching -/

section Search

variable (search : PartitionPoint)

lemma PartitionPoint.run_append {α : Type} {p : α → Bool} {front back : List α}
    (hfront : ∀ a ∈ front, p a = true) (hback : ∀ a ∈ back, p a = false) :
    search.run p (front ++ back) = front.length := by
  rw [search.partitioned, countP_append, countP_eq_length.2 hfront,
    countP_eq_zero.2 (by simpa using hback), Nat.add_zero]
  rw [pairwise_append]
  refine ⟨?_, ?_, fun a ha _ _ _ => hfront a ha⟩
  · exact Pairwise.imp_of_mem (fun ha _ _ _ => hfront _ ha)
      (pairwise_of_forall fun _ _ => trivial)
  · refine Pairwise.imp_of_mem (fun _ hb _ hp => ?_)
      (pairwise_of_forall fun _ _ => trivial)
    rw [hback _ hb] at hp
    cases hp

lemma excessAfter_append (front back : List Correction) :
    PositionIndex.excessAfter (front ++ back) front.length =
      (front.getLast?).elim 0 (·.excess) := by
  rcases eq_nil_or_concat front with rfl | ⟨_, _, rfl⟩
  · rfl
  · simp [PositionIndex.excessAfter]

/-- The corrections up to a byte of a line. -/
lemma excess_of_byte (before after : Text) :
    PositionIndex.excessAfter (correctionsFrom 0 0 (before ++ after))
        (search.run (fun corr : Correction => corr.byteEnd ≤ byteLen before)
          (correctionsFrom 0 0 (before ++ after))) = excessOf before := by
  rw [correctionsFrom_append, search.run_append, excessAfter_append, getLast?_correctionsFrom,
    Nat.zero_add]
  · intro corr h
    have := correctionsFrom_bounds 0 rfl h
    exact decide_eq_true (by omega)
  · intro corr h
    have := utf16Len_le before
    have := correctionsFrom_bounds (utf16Len before) (by rw [excessOf]; omega) h
    exact decide_eq_false (by omega)

/-- The corrections up to a code unit of a line, which may be inside the next character. -/
lemma excess_of_unit (before after : Text) {col : Nat} (hle : utf16Len before ≤ col)
    (hlt : ∀ c ∈ after.head?, col < utf16Len before + lenUtf16 c) :
    PositionIndex.excessAfter (correctionsFrom 0 0 (before ++ after))
        (search.run (fun corr : Correction =>
          corr.byteEnd - corr.excess ≤ col)
          (correctionsFrom 0 0 (before ++ after))) = excessOf before := by
  have hbefore := utf16Len_le before
  rw [correctionsFrom_append, search.run_append, excessAfter_append, getLast?_correctionsFrom,
    Nat.zero_add]
  · intro corr h
    have := correctionsFrom_bounds 0 rfl h
    exact decide_eq_true (by omega)
  · intro corr h
    apply decide_eq_false
    cases after with
    | nil => cases h
    | cons c after =>
      have hc := hlt c rfl
      have hsize := lenUtf16_le c
      rw [correctionsFrom] at h
      split at h
      · next hascii =>
        obtain ⟨hsize, hunits⟩ := utf8Size_ascii hascii
        have := correctionsFrom_bounds (utf16Len before + 1) (by rw [excessOf]; omega) h
        omega
      · rcases mem_cons.1 h with rfl | h
        · dsimp only
          rw [excessOf]
          omega
        · have := correctionsFrom_bounds (utf16Len before + lenUtf16 c)
            (by rw [excessOf]; omega) h
          omega

/-- The last line that starts at or before an offset is the line with the offset. -/
lemma run_lines {pieces front back : List (Text × Text)} {eol : Text}
    (hsplit : pieces = front ++ (text, eol) :: back) (hbroken : Broken pieces)
    (hstart : byteLen (joined front) ≤ off) (hstop : off ≤ byteLen (joined front) + byteLen text) :
    search.run (fun line : IndexedLine => line.start ≤ off)
      ((layout 0 pieces).map indexLine) = front.length + 1 := by
  rw [hsplit, ← singleton_append, ← append_assoc, layout_append, map_append,
    search.run_append, length_map, length_layout, length_append, length_singleton]
  · intro indexed hindexed
    obtain ⟨line, hline, rfl⟩ := mem_map.1 hindexed
    apply decide_eq_true
    rw [layout_append, mem_append] at hline
    rcases hline with hline | hline
    · have := (layout_range hline).2
      dsimp only [indexLine]
      omega
    · obtain rfl := mem_singleton.1 hline
      dsimp only [indexLine]
      omega
  · intro indexed hindexed
    obtain ⟨line, hline, rfl⟩ := mem_map.1 hindexed
    apply decide_eq_false
    cases back with
    | nil => cases hline
    | cons next back =>
      have hlines : pieces = (front ++ [(text, eol)]) ++ next :: back := by simp [hsplit]
      have hbreak := (broken_front (hlines ▸ hbroken) (text, eol) (by simp)).byteLen
      have := (layout_range hline).1
      have hjoined : byteLen (joined (front ++ [(text, eol)])) =
          byteLen (joined front) + byteLen text + byteLen eol := by
        simp [joined, Nat.add_assoc]
      dsimp only [indexLine] at hbreak ⊢
      omega

end Search

/-! ## The index gives the answers of the scan -/

/-- A code unit of a line is that of a character or the end, or inside a surrogate pair, or past
the end. -/
lemma unit_cases (text : Text) (col : Nat) :
    (∃ before after, text = before ++ after ∧ col = utf16Len before) ∨
    (∃ before c after, text = before ++ c :: after ∧ lenUtf16 c = 2 ∧ col = utf16Len before + 1) ∨
    utf16Len text < col := by
  induction text generalizing col with
  | nil =>
    cases col with
    | zero => exact .inl ⟨[], [], rfl, rfl⟩
    | succ n => exact .inr (.inr (Nat.succ_pos n))
  | cons c rest ih =>
    rw [utf16Len_cons]
    rcases Nat.lt_or_ge col (lenUtf16 c) with hlt | hge
    · cases col with
      | zero => exact .inl ⟨[], c :: rest, rfl, rfl⟩
      | succ n =>
        have htwo : lenUtf16 c = 2 ∧ n = 0 := by
          unfold lenUtf16 at hlt ⊢
          split at hlt
          · omega
          · next hlarge => exact ⟨if_neg hlarge, by omega⟩
        exact .inr (.inl ⟨[], c, rest, rfl, htwo.1, by simp [htwo.2]⟩)
    · obtain ⟨n, rfl⟩ := Nat.exists_eq_add_of_le hge
      rcases ih n with ⟨before, after, rfl, rfl⟩ | ⟨before, d, after, rfl, hd, rfl⟩ | hpast
      · exact .inl ⟨c :: before, after, rfl, by simp⟩
      · exact .inr (.inl ⟨c :: before, d, after, rfl, hd, by rw [utf16Len_cons]; omega⟩)
      · exact .inr (.inr (by omega))

section Answers

variable (search : PartitionPoint) {src : Text} {cancel : Nat → Bool} {index : PositionIndex}
  (hbuild : PositionIndex.build src cancel = some index) {pos : Position}

include hbuild

/-- The lines of the index are those of the scan. -/
lemma getElem?_index {number : Nat} {line : IndexedLine} :
    index.lines[number]? = some line ↔
      ∃ front text eol back, splitLines src = front ++ (text, eol) :: back ∧ number = front.length ∧
        line = ⟨byteLen (joined front), byteLen (joined front) + byteLen text,
          correctionsFrom 0 0 text⟩ := by
  rw [(PositionIndex.build_eq hbuild).2, getElem?_map, Option.map_eq_some_iff]
  constructor
  · rintro ⟨_, hscanned, rfl⟩
    obtain ⟨front, text, eol, back, hsplit, hnumber, rfl⟩ := getElem?_layout.1 hscanned
    exact ⟨front, text, eol, back, hsplit, hnumber, by simp [indexLine]⟩
  · rintro ⟨front, text, eol, back, hsplit, hnumber, rfl⟩
    exact ⟨_, getElem?_layout.2 ⟨front, text, eol, back, hsplit, hnumber, rfl⟩, by simp [indexLine]⟩

lemma index_offsetToPosition_eq_some_iff :
    index.offsetToPosition search src off = some pos ↔
      At src off pos.line.toNat pos.character.toNat := by
  obtain ⟨hlen, hlines⟩ := PositionIndex.build_eq hbuild
  unfold PositionIndex.offsetToPosition At
  constructor
  · intro h
    split at h
    · cases h
    · next hbound =>
      simp only [not_or, Bool.not_eq_false] at hbound
      obtain ⟨line, hline, h⟩ := Option.bind_eq_some_iff.1 h
      obtain ⟨front, text, eol, back, hsplit, hnumber, rfl⟩ := (getElem?_index hbuild).1 hline
      split at h
      · next hrange =>
        obtain ⟨hlineNumber, hcol⟩ := position_eq_some_iff.1 h
        obtain ⟨before, after, htext, rfl⟩ := cut_in_line hsplit hbound.2.2 hrange.1 hrange.2
        subst htext
        rw [byteLen_append, Nat.add_sub_cancel_left, excess_of_byte search] at hcol
        have hunits := utf16Len_le before
        refine ⟨front, before ++ after, eol, back, before, after, hsplit, rfl, ?_, rfl, ?_⟩
        · exact hlineNumber.symm.trans hnumber
        · rw [← hcol, excessOf]
          omega
      · cases h
  · rintro ⟨front, text, eol, back, before, after, hsplit, rfl, hline, rfl, hcol⟩
    obtain ⟨hinside, hbound⟩ := boundary_of_cut hsplit
    have hsearch := run_lines search hsplit (broken_splitLines src)
      (show byteLen (joined front) ≤ byteLen (joined front ++ before) by simp) (by simp)
    rw [if_neg (by simp [-byteLen_append, hlen, hinside, hbound])]
    dsimp only
    rw [hlines, hsearch, Nat.add_sub_cancel, ← hlines,
      (getElem?_index hbuild).2 ⟨front, before ++ after, eol, back, hsplit, rfl, rfl⟩,
      Option.bind_some, if_pos (by simp)]
    rw [byteLen_append, Nat.add_sub_cancel_left, excess_of_byte search]
    have hunits := utf16Len_le before
    have hcolumn : byteLen before - excessOf before = pos.character.toNat := by
      rw [hcol, excessOf]
      omega
    exact position_eq_some_iff.2 ⟨hline.symm, hcolumn⟩

lemma index_positionToOffset_eq_some_iff :
    index.positionToOffset search src pos = some off ↔
      At src off pos.line.toNat pos.character.toNat := by
  obtain ⟨hlen, -⟩ := PositionIndex.build_eq hbuild
  unfold PositionIndex.positionToOffset At
  rw [if_neg fun hne => hne hlen.symm, Option.bind_eq_some_iff]
  constructor
  · rintro ⟨line, hline, h⟩
    obtain ⟨front, text, eol, back, hsplit, hnumber, rfl⟩ := (getElem?_index hbuild).1 hline
    dsimp only at h
    split at h
    · next hinside =>
      cases h
      obtain ⟨before, after, htext, hoff⟩ := cut_in_line hsplit hinside.2 (by omega) hinside.1
      rcases unit_cases text pos.character.toNat with
        ⟨first, last, rfl, hunit⟩ | ⟨first, c, last, rfl, hpair, hunit⟩ | hpast
      · -- at a character: the cut is the one before it
        rw [hunit, excess_of_unit search first last le_rfl fun c hc => by
          have := lenUtf16_pos c
          omega] at hoff ⊢
        have hunits := utf16Len_le first
        rw [excessOf, byteLen_append] at hoff
        obtain ⟨rfl, rfl⟩ := prefix_eq_of_byteLen htext (by omega)
        refine ⟨front, first ++ last, eol, back, first, last, hsplit, rfl, hnumber, ?_, rfl⟩
        rw [excessOf, byteLen_append]
        omega
      · -- inside a surrogate pair: the offset is inside the character
        exfalso
        rw [hunit, excess_of_unit search first (c :: last) (by omega) fun d hd => by
          cases hd
          omega, excessOf, byteLen_append] at hoff
        have hunits := utf16Len_le first
        obtain ⟨middle, rfl, hmiddle⟩ := exists_between htext (by omega)
        rw [byteLen_append] at hoff
        have hsize := lenUtf16_le c
        cases middle with
        | nil =>
          rw [byteLen_nil] at hoff
          omega
        | cons d middle =>
          obtain ⟨rfl, -⟩ := cons.inj hmiddle
          rw [byteLen_cons] at hoff
          omega
      · -- past the end of the line
        exfalso
        have hexcess := excess_of_unit search text [] hpast.le (by simp)
        rw [append_nil] at hexcess
        have hle := hinside.1
        have hunits := utf16Len_le text
        rw [hexcess, excessOf] at hle
        omega
    · cases h
  · rintro ⟨front, text, eol, back, before, after, hsplit, rfl, hline, rfl, hcol⟩
    have hsrc := splitLines_cut hsplit
    refine ⟨_, (getElem?_index hbuild).2 ⟨front, before ++ after, eol, back, hsplit, hline,
      rfl⟩, ?_⟩
    have hunits := utf16Len_le before
    have hoff : byteLen (joined front) + utf16Len before + excessOf before =
        byteLen (joined front ++ before) := by
      rw [excessOf, byteLen_append]
      omega
    dsimp only
    rw [hcol, excess_of_unit search before after le_rfl fun c _ => by
      have := lenUtf16_pos c
      omega, hoff, if_pos]
    refine ⟨by simp, (isCharBoundary_iff _ _).2
      ⟨joined front ++ before, after ++ (eol ++ joined back), by simp [hsrc], rfl⟩⟩

end Answers

/-! ## Everything together -/

/-- A line and a column fit into a position. -/
def FitsU32 (line character : Nat) : Prop := line < 2 ^ 32 ∧ character < 2 ^ 32

lemma offsetToPosition_eq_none_iff (src : Text) (off : Nat) :
    offsetToPosition src off = none ↔ OffBoundary src off ∨ InLineBreak src off ∨
        ∃ line col, At src off line col ∧ ¬ FitsU32 line col := by
  have hfits : ∀ {line col : Nat}, At src off line col →
      FitsU32 line col → offsetToPosition src off ≠ none := by
    intro line col hat hfit
    have hpos : offsetToPosition src off = some ⟨UInt32.ofNat line, UInt32.ofNat col⟩ := by
      rw [offsetToPosition_eq_some_iff]
      rwa [UInt32.toNat_ofNat_of_lt' hfit.1, UInt32.toNat_ofNat_of_lt' hfit.2]
    simp [hpos]
  constructor
  · intro hnone
    by_cases hat : ∃ line col, At src off line col
    · obtain ⟨line, col, hat⟩ := hat
      exact .inr (.inr ⟨line, col, hat, fun hfit => hfits hat hfit hnone⟩)
    · rw [exists_at_iff] at hat
      by_cases hoff : OffBoundary src off
      · exact .inl hoff
      · exact .inr (.inl (by
          by_contra hbreak
          exact hat ⟨hoff, hbreak⟩))
  · intro h
    cases hpos : offsetToPosition src off with
    | none => rfl
    | some pos =>
      have hat := offsetToPosition_eq_some_iff.1 hpos
      obtain ⟨hoff, hbreak⟩ := (exists_at_iff src off).1 ⟨_, _, hat⟩
      rcases h with h | h | ⟨line, col, hother, hfit⟩
      · exact absurd h hoff
      · exact absurd h hbreak
      · obtain ⟨rfl, rfl⟩ := hother.unique hat
        exact absurd ⟨pos.line.toNat_lt, pos.character.toNat_lt⟩ hfit

/-- The code unit is inside the surrogate pair of a character. -/
def InSurrogatePair (text : Text) (character : Nat) : Prop :=
  ∃ before c after, text = before ++ c :: after ∧ lenUtf16 c = 2 ∧ character = utf16Len before + 1

lemma positionToOffset_eq_none_iff (src : Text) (pos : Position) :
    positionToOffset src pos = none ↔
      ∀ text eol, (splitLines src)[pos.line.toNat]? = some (text, eol) →
        InSurrogatePair text pos.character.toNat ∨ utf16Len text < pos.character.toNat := by
  constructor
  · intro hnone text eol hline
    rcases unit_cases text pos.character.toNat with ⟨before, after, htext, hunit⟩ | hpair | hpast
    · exfalso
      obtain ⟨hlt, hget⟩ := getElem?_eq_some_iff.1 hline
      have hat : At src (byteLen (joined ((splitLines src).take pos.line.toNat) ++ before))
          pos.line.toNat pos.character.toNat := by
        refine ⟨_, text, eol, (splitLines src).drop (pos.line.toNat + 1), before, after,
          ?_, htext, by simp [hlt.le], rfl, hunit⟩
        rw [← hget, ← drop_eq_getElem_cons hlt, take_append_drop]
      rw [positionToOffset_eq_some_iff.2 hat] at hnone
      cases hnone
    · exact .inl hpair
    · exact .inr hpast
  · intro h
    cases hoff : positionToOffset src pos with
    | none => rfl
    | some =>
      obtain ⟨_, text, eol, _, before, after, hsplit, rfl, hline, -, hunit⟩ :=
        positionToOffset_eq_some_iff.1 hoff
      have hget : (splitLines src)[pos.line.toNat]? = some (before ++ after, eol) := by
        rw [hsplit, hline]
        simp
      rcases h _ _ hget with ⟨_, c, _, hsplit', hpair, hunit'⟩ | hpast
      · -- no cut of the line has that many units before it
        exfalso
        rcases append_eq_append_iff.1 hsplit' with ⟨middle, rfl, -⟩ | ⟨middle, rfl, hmiddle⟩
        · rw [utf16Len_append] at hunit'
          omega
        · rw [utf16Len_append] at hunit
          cases middle with
          | nil =>
            rw [utf16Len_nil] at hunit
            omega
          | cons d middle =>
            obtain ⟨rfl, -⟩ := cons.inj hmiddle
            rw [utf16Len_cons] at hunit
            omega
      · rw [hunit, utf16Len_append] at hpast
        omega

/-- The index answers as the scan does; the two conversions invert each other, and have no answer
for offsets inside a character or a line break or behind the text, for lines that do not exist, for
units inside a surrogate pair or past the end of the line, and for offsets whose line or column
does not fit into 32 bits. -/
theorem position_index_is_scan (search : PartitionPoint) (source : Text) (cancel : Nat → Bool)
    (index : PositionIndex) (hbuild : PositionIndex.build source cancel = some index) :
    (∀ offset, index.offsetToPosition search source offset = offsetToPosition source offset) ∧
    (∀ position, index.positionToOffset search source position = positionToOffset source position) ∧
    (∀ offset position, offsetToPosition source offset = some position →
      positionToOffset source position = some offset) ∧
    (∀ offset, offsetToPosition source offset = none ↔
      OffBoundary source offset ∨ InLineBreak source offset ∨
        ∃ line character, At source offset line character ∧ ¬ FitsU32 line character) ∧
    ∀ position, positionToOffset source position = none ↔
      ∀ text lineBreak, (splitLines source)[position.line.toNat]? = some (text, lineBreak) →
        InSurrogatePair text position.character.toNat ∨
          utf16Len text < position.character.toNat := by
  refine ⟨fun offset => ?_, fun position => ?_, fun offset position h => ?_,
    offsetToPosition_eq_none_iff source, positionToOffset_eq_none_iff source⟩
  · apply Option.ext
    intro position
    rw [index_offsetToPosition_eq_some_iff search hbuild, offsetToPosition_eq_some_iff]
  · apply Option.ext
    intro offset
    rw [index_positionToOffset_eq_some_iff search hbuild, positionToOffset_eq_some_iff]
  · exact positionToOffset_eq_some_iff.2 (offsetToPosition_eq_some_iff.1 h)

/-- Counting the elements in front. -/
def leadingElements : PartitionPoint where
  run p l := l.countP p
  partitioned _ _ _ := rfl

def mixedSource : Text := "😀\r\nAlpha é".toList

theorem position_index_is_scan_mixedSource : ∃ index,
    PositionIndex.build mixedSource (fun _ => false) = some index ∧
    index.offsetToPosition leadingElements mixedSource 12 = some ⟨1, 6⟩ ∧
    index.positionToOffset leadingElements mixedSource ⟨1, 6⟩ = some 12 ∧
    index.positionToOffset leadingElements mixedSource ⟨0, 1⟩ = none := by
  obtain ⟨index, hbuild⟩ := PositionIndex.exists_build mixedSource
  obtain ⟨hoffset, hposition, -⟩ := position_index_is_scan leadingElements mixedSource
    (fun _ => false) index hbuild
  refine ⟨index, hbuild, ?_, ?_, ?_⟩
  · rw [hoffset]
    decide +kernel
  · rw [hposition]
    decide +kernel
  · rw [hposition]
    decide +kernel

lemma splitLines_newlines (n : Nat) :
    splitLines (replicate n '\n') = replicate n ([], ['\n']) ++ [([], [])] := by
  induction n with
  | zero => rfl
  | succ n ih =>
    rw [replicate_succ, replicate_succ, cons_append, ← ih, splitLines]
    · rfl
    · simp

lemma offsetToPosition_newlines {n : Nat} (hn : 2 ^ 32 ≤ n) :
    offsetToPosition (replicate n '\n') n = none ∧
      ¬ OffBoundary (replicate n '\n') n ∧ ¬ InLineBreak (replicate n '\n') n := by
  have hlen : ∀ n, byteLen (joined (replicate n ([], ['\n']))) = n := by
    intro n
    induction n with
    | zero => rfl
    | succ n ih =>
      have hstep : joined (replicate (n + 1) ([], ['\n'])) =
          '\n' :: joined (replicate n ([], ['\n'])) := by
        simp [joined, replicate_succ]
      rw [hstep, byteLen_cons, ih]
      exact Nat.add_comm _ _
  have hat : At (replicate n '\n') n n 0 :=
    ⟨_, [], [], [], [], [], splitLines_newlines n, rfl, by simp, by simp [hlen], rfl⟩
  have hplace := (exists_at_iff _ _).1 ⟨_, _, hat⟩
  refine ⟨?_, hplace⟩
  rw [offsetToPosition_eq_none_iff]
  exact .inr (.inr ⟨_, _, hat, fun hfit => absurd hfit.1 (Nat.not_lt.2 hn)⟩)

/-- The end of a text of `2 ^ 32` line feeds has no position, because its line number does not fit
into 32 bits. -/
theorem offsetToPosition_of_many_lines :
    offsetToPosition (replicate (2 ^ 32) '\n') (2 ^ 32) = none ∧
    ¬ OffBoundary (replicate (2 ^ 32) '\n') (2 ^ 32) ∧
    ¬ InLineBreak (replicate (2 ^ 32) '\n') (2 ^ 32) :=
  offsetToPosition_newlines (Nat.le_refl (2 ^ 32))

end Lint4d.Lsp
