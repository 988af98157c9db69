import Lint4d.Conditional.Lexer
import Lint4d.Lib.Utf8

/-!
# Positions in a document

The editor protocol counts lines and UTF-16 code units, the sources are indexed
by UTF-8 bytes.  These are the conversions that scan the source, and the
relation between offsets and positions that they compute.
-/

namespace Lint4d.Lsp

open List

open Lint4d.Lib.Utf8 (Text)
open Lint4d.Conditional (byteLen byteLen_nil byteLen_cons byteLen_append)

variable {piece : Text × Text} {rest : List (Text × Text)}
  {first firstBreak before after x y : Text} {start number col : Nat} {c : Char}

structure Position where
  line : UInt32
  character : UInt32
deriving DecidableEq

/-- The number as 32 bits when it fits. -/
def toU32 (n : Nat) : Option UInt32 := if n < 2 ^ 32 then some (UInt32.ofNat n) else none

/-- The UTF-16 code units of a character; supplementary characters have two. -/
def lenUtf16 (c : Char) : Nat := if c.toNat < 0x10000 then 1 else 2

def utf16Len (text : Text) : Nat := (text.map lenUtf16).sum

/-- The offset is that of a character or the end of the text. -/
def isCharBoundary : Text → Nat → Bool
  | _, 0 => true
  | [], _ + 1 => false
  | c :: rest, n + 1 => c.utf8Size ≤ n + 1 && isCharBoundary rest (n + 1 - c.utf8Size)

/-! ## Scanning -/

/-- A line with its text, and the byte ranges of the text and of the line break. -/
structure Line where
  text : Text
  start : Nat
  stop : Nat
  breakStart : Nat
  breakStop : Nat

/-- The lines of a text; `line` is what has been read of the current line, from byte `start` to
byte `index`.  A character is passed at once: line breaks are ASCII, so that no other byte of a
character is one. -/
def linesFrom (start index : Nat) (line : Text) : Text → List Line
  | '\r' :: '\n' :: rest =>
    ⟨line, start, index, index, index + 2⟩ :: linesFrom (index + 2) (index + 2) [] rest
  | c :: rest =>
    if c = '\n' ∨ c = '\r' then
      ⟨line, start, index, index, index + 1⟩ :: linesFrom (index + 1) (index + 1) [] rest
    else linesFrom start (index + c.utf8Size) (line ++ [c]) rest
  | [] => [⟨line, start, index, index, index⟩]

variable (source : Text)

def lines : List Line := linesFrom 0 0 [] source

/-- The loop over the characters of a line. -/
def offsetForUtf16From (start stop character units relative : Nat) : Text → Option Nat
  | [] => if units = character then some stop else none
  | c :: rest =>
    if units = character then some (start + relative)
    else if character < units + lenUtf16 c then none
    else offsetForUtf16From start stop character (units + lenUtf16 c) (relative + c.utf8Size) rest

def offsetForUtf16 (line : Line) (character : Nat) : Option Nat :=
  if utf16Len line.text < character then none
  else offsetForUtf16From line.start line.stop character 0 0 line.text

def positionToOffset (position : Position) : Option Nat :=
  ((lines source)[position.line.toNat]?).bind (offsetForUtf16 · position.character.toNat)

/-- The code units of the characters before a byte offset. -/
def utf16Before : Text → Nat → Nat
  | [], _ => 0
  | c :: rest, offset =>
    if offset < c.utf8Size then 0 else lenUtf16 c + utf16Before rest (offset - c.utf8Size)

/-- The loop over the lines, which stops at the line or line break with the offset. -/
def offsetInLines (offset number : Nat) : List Line → Option Position
  | [] => none
  | line :: rest =>
    if line.start ≤ offset ∧ offset ≤ line.stop then
      (toU32 number).bind fun lineNumber =>
        (toU32 (utf16Before line.text (offset - line.start))).map (⟨lineNumber, ·⟩)
    else if line.breakStart < offset ∧ offset < line.breakStop then none
    else offsetInLines offset (number + 1) rest

def offsetToPosition (offset : Nat) : Option Position :=
  if byteLen source < offset ∨ isCharBoundary source offset = false then none
  else offsetInLines offset 0 (lines source)

/-! ## Lines as texts -/

/-- The lines of a text, each with the line break after it. -/
def splitLines : Text → List (Text × Text)
  | '\r' :: '\n' :: rest => ([], ['\r', '\n']) :: splitLines rest
  | c :: rest =>
    if c = '\n' ∨ c = '\r' then ([], [c]) :: splitLines rest
    else match splitLines rest with
      | (line, lineBreak) :: more => (c :: line, lineBreak) :: more
      | [] => []
  | [] => [([], [])]

/-- Lines and line breaks put together. -/
def joined (pieces : List (Text × Text)) : Text := pieces.flatMap fun piece => piece.1 ++ piece.2

/-- The lines with their byte ranges. -/
def layout (start : Nat) : List (Text × Text) → List Line
  | [] => []
  | (line, lineBreak) :: rest =>
    ⟨line, start, start + byteLen line, start + byteLen line,
        start + byteLen line + byteLen lineBreak⟩ ::
      layout (start + byteLen line + byteLen lineBreak) rest

/-- The offset stands in the line with the number, after so many code units. -/
def At (offset line character : Nat) : Prop :=
  ∃ front text lineBreak back before after,
    splitLines source = front ++ (text, lineBreak) :: back ∧ text = before ++ after ∧
      line = front.length ∧ offset = byteLen (joined front ++ before) ∧ character = utf16Len before

variable (src : Text)

lemma splitLines_ne_nil : splitLines src ≠ [] := by
  fun_induction splitLines src with
  | case1 | case2 | case3 => simp
  | case4 c _ _ _ hnil ih => exact absurd hnil ih
  | case5 => simp

/-- The lines and line breaks are the text. -/
lemma joined_splitLines : joined (splitLines src) = src := by
  unfold joined
  fun_induction splitLines src with
  | case1 rest ih | case2 c rest hcrlf hc ih => simp [ih]
  | case3 c rest hcrlf hc _ _ _ hsplit ih =>
    rw [hsplit] at ih
    simpa using ih
  | case4 c rest hcrlf hc hnil ih => exact absurd hnil (splitLines_ne_nil rest)
  | case5 => rfl

/-- The line breaks of the protocol. -/
def IsLineBreak (lineBreak : Text) : Prop :=
  lineBreak = ['\r', '\n'] ∨ lineBreak = ['\n'] ∨ lineBreak = ['\r']

/-- Every line but the last is ended by a line break. -/
def Broken : List (Text × Text) → Prop
  | [] => True
  | [piece] => piece.2 = []
  | piece :: rest => IsLineBreak piece.2 ∧ Broken rest

lemma broken_cons (h : rest ≠ []) : Broken (piece :: rest) ↔ IsLineBreak piece.2 ∧ Broken rest := by
  obtain ⟨_, _, rfl⟩ := exists_cons_of_ne_nil h
  rfl

lemma broken_splitLines : Broken (splitLines src) := by
  fun_induction splitLines src with
  | case1 rest ih => exact (broken_cons (splitLines_ne_nil rest)).2 ⟨.inl rfl, ih⟩
  | case2 c rest hcrlf hc ih =>
    refine (broken_cons (splitLines_ne_nil rest)).2 ⟨?_, ih⟩
    rcases hc with rfl | rfl
    · exact .inr (.inl rfl)
    · exact .inr (.inr rfl)
  | case3 c rest hcrlf hc _ _ more hsplit ih =>
    rw [hsplit] at ih
    cases more with
    | nil | cons next more => exact ih
  | case4 c rest hcrlf hc hnil ih => exact absurd hnil (splitLines_ne_nil rest)
  | case5 => rfl

/-- From the start of a line nothing of it has been read. -/
lemma linesFrom_start {rest : Text}
    (h : linesFrom start (start + byteLen []) [] rest =
      layout start ((splitLines rest).modifyHead fun p => ([] ++ p.1, p.2))) :
    linesFrom start start [] rest = layout start (splitLines rest) := by
  have hid : (splitLines rest).modifyHead (fun p => ([] ++ p.1, p.2)) = splitLines rest := by
    cases splitLines rest <;> rfl
  rwa [byteLen_nil, Nat.add_zero, hid] at h

lemma linesFrom_eq (start : Nat) (line src : Text) :
    linesFrom start (start + byteLen line) line src =
      layout start ((splitLines src).modifyHead fun p => (line ++ p.1, p.2)) := by
  fun_induction splitLines src generalizing start line with
  | case1 rest ih =>
    rw [linesFrom, linesFrom_start (ih _ [])]
    simp [layout, show byteLen ['\r', '\n'] = 2 from rfl]
  | case2 c rest hcrlf hc ih =>
    have hlen : byteLen [c] = 1 := by
      rcases hc with rfl | rfl <;> rfl
    rw [linesFrom, if_pos hc, linesFrom_start (ih _ [])]
    · simp [layout, hlen]
    · exact hcrlf
  | case3 c rest hcrlf hc t b _ hsplit ih =>
    have hstep := ih start (line ++ [c])
    rw [hsplit] at hstep
    rw [linesFrom, if_neg hc]
    · simpa [Nat.add_assoc] using hstep
    · exact hcrlf
  | case4 c rest hcrlf hc hnil ih => exact absurd hnil (splitLines_ne_nil rest)
  | case5 => simp [linesFrom, layout]

lemma lines_eq : lines src = layout 0 (splitLines src) := linesFrom_start (linesFrom_eq 0 [] src)

variable {pieces : List (Text × Text)}

/-- A cut of a list that starts with an element is in front of it or behind it. -/
lemma exists_cut_cons {α : Type} {a : α} {l : List α} {P : List α → List α → Prop} :
    (∃ before after, a :: l = before ++ after ∧ P before after) ↔
      P [] (a :: l) ∨ ∃ before after, l = before ++ after ∧ P (a :: before) after := by
  constructor
  · rintro ⟨_ | ⟨b, before⟩, after, h, hcut⟩
    · exact .inl (h ▸ hcut)
    · obtain ⟨rfl, rfl⟩ := cons.inj h
      exact .inr ⟨before, after, rfl, hcut⟩
  · rintro (hcut | ⟨before, after, rfl, hcut⟩)
    · exact ⟨[], _, rfl, hcut⟩
    · exact ⟨a :: before, after, rfl, hcut⟩

/-- A line is the first one or one of the others. -/
lemma exists_line_cons {P : List (Text × Text) → Text → Text → List (Text × Text) → Prop} :
    (∃ front text lineBreak back,
      (first, firstBreak) :: pieces = front ++ (text, lineBreak) :: back ∧
        P front text lineBreak back) ↔
      P [] first firstBreak pieces ∨ ∃ front text lineBreak back,
        pieces = front ++ (text, lineBreak) :: back ∧
          P ((first, firstBreak) :: front) text lineBreak back := by
  constructor
  · rintro ⟨_ | ⟨_, front⟩, text, lineBreak, back, h, hline⟩
    · cases h
      exact .inl hline
    · obtain ⟨rfl, rfl⟩ := cons.inj h
      exact .inr ⟨front, text, lineBreak, back, rfl, hline⟩
  · rintro (hline | ⟨front, text, lineBreak, back, rfl, hline⟩)
    · exact ⟨[], _, _, _, rfl, hline⟩
    · exact ⟨_ :: front, text, lineBreak, back, rfl, hline⟩

lemma byteLen_joined_cons (text lineBreak : Text) (rest : List (Text × Text)) :
    byteLen (joined ((text, lineBreak) :: rest)) =
      byteLen text + byteLen lineBreak + byteLen (joined rest) := by
  simp [joined, Nat.add_assoc]

variable {line : Line}

lemma getElem?_layout :
    (layout start pieces)[number]? = some line ↔
      ∃ front text lineBreak back, pieces = front ++ (text, lineBreak) :: back ∧
        number = front.length ∧
        line = ⟨text, start + byteLen (joined front), start + byteLen (joined front) + byteLen text,
          start + byteLen (joined front) + byteLen text,
          start + byteLen (joined front) + byteLen text + byteLen lineBreak⟩ := by
  induction pieces generalizing start number with
  | nil => simp [layout]
  | cons _ _ ih =>
    rw [layout, exists_line_cons]
    cases number with
    | zero => simp [joined, eq_comm]
    | succ number =>
      rw [getElem?_cons_succ, ih]
      simp only [byteLen_joined_cons, length_cons, Nat.add_assoc, Nat.add_right_cancel_iff]
      simp

lemma layout_append (start : Nat) (front back : List (Text × Text)) :
    layout start (front ++ back) =
      layout start front ++ layout (start + byteLen (joined front)) back := by
  induction front generalizing start with
  | nil => simp [layout, joined]
  | cons _ front ih =>
    rw [cons_append, layout, layout, ih, cons_append]
    simp [joined, Nat.add_assoc]

lemma length_layout (start : Nat) (pieces : List (Text × Text)) :
    (layout start pieces).length = pieces.length := by
  induction pieces generalizing start with
  | nil => rfl
  | cons _ pieces ih => simp [layout, ih]

lemma layout_range (h : line ∈ layout start pieces) :
    start ≤ line.start ∧ line.start ≤ start + byteLen (joined pieces) := by
  induction pieces generalizing start with
  | nil => cases h
  | cons _ pieces ih =>
    rw [byteLen_joined_cons]
    rcases mem_cons.1 h with rfl | h
    · exact ⟨le_rfl, Nat.le_add_right _ _⟩
    · have := ih h
      omega

/-! ## Boundaries -/

lemma isCharBoundary_iff (text : Text) (offset : Nat) :
    isCharBoundary text offset = true ↔
      ∃ before after, text = before ++ after ∧ byteLen before = offset := by
  fun_induction isCharBoundary text offset with
  | case1 text => simp only [true_iff]; exact ⟨[], text, rfl, rfl⟩
  | case2 n =>
    simp only [Bool.false_eq_true, false_iff]
    rintro ⟨before, after, hsplit, hlen⟩
    obtain ⟨rfl, rfl⟩ := append_eq_nil_iff.1 hsplit.symm
    cases hlen
  | case3 c _ n ih =>
    rw [Bool.and_eq_true, decide_eq_true_eq, ih, exists_cut_cons]
    simp only [byteLen_nil, byteLen_cons]
    constructor
    · rintro ⟨hle, before, after, hrest, hlen⟩
      exact .inr ⟨before, after, hrest, by omega⟩
    · rintro (hzero | ⟨before, after, hrest, hlen⟩)
      · cases hzero
      · exact ⟨by omega, before, after, hrest, by omega⟩

lemma utf16Before_append (before after : Text) :
    utf16Before (before ++ after) (byteLen before) = utf16Len before := by
  induction before with
  | nil =>
    cases after with
    | nil => rfl
    | cons c rest => simp [utf16Before, utf16Len, Char.utf8Size_pos]
  | cons c rest ih =>
    rw [cons_append, utf16Before, byteLen_cons, if_neg (by omega), Nat.add_sub_cancel_left, ih]
    simp [utf16Len]

@[simp] lemma utf16Len_nil : utf16Len [] = 0 := rfl

@[simp] lemma utf16Len_cons (c : Char) (text : Text) :
    utf16Len (c :: text) = lenUtf16 c + utf16Len text := by
  simp [utf16Len]

@[simp] lemma utf16Len_append (s t : Text) : utf16Len (s ++ t) = utf16Len s + utf16Len t := by
  simp [utf16Len]

lemma lenUtf16_pos (c : Char) : 0 < lenUtf16 c := by
  unfold lenUtf16
  split <;> decide

variable {text : Text}

lemma eq_nil_of_byteLen (h : byteLen text = 0) : text = [] := by
  cases text with
  | nil => rfl
  | cons c =>
    have := c.utf8Size_pos
    rw [byteLen_cons] at h
    omega

/-- Of two ways to cut a text the one with fewer bytes before the cut is the earlier one. -/
lemma exists_between (h : x ++ y = before ++ after)
    (hle : byteLen x ≤ byteLen before) : ∃ middle, before = x ++ middle ∧ y = middle ++ after := by
  rcases append_eq_append_iff.1 h with ⟨middle, hbefore, hy⟩ | ⟨middle, hx, hafter⟩
  · exact ⟨middle, hbefore, hy⟩
  · have hnil : middle = [] := by
      apply eq_nil_of_byteLen
      rw [hx, byteLen_append] at hle
      omega
    subst hnil
    exact ⟨[], by simpa using hx.symm, by simpa using hafter.symm⟩

lemma prefix_eq_of_byteLen (h : x ++ y = before ++ after)
    (hlen : byteLen x = byteLen before) : x = before ∧ y = after := by
  obtain ⟨middle, rfl, rfl⟩ := exists_between h hlen.le
  rw [byteLen_append] at hlen
  obtain rfl := eq_nil_of_byteLen (show byteLen middle = 0 by omega)
  simp

/-! ## Positions to offsets -/

variable {offset : Nat}

lemma offsetForUtf16From_eq_some_iff {stop units relative : Nat}
    (hstop : stop = start + relative + byteLen text) :
    offsetForUtf16From start stop col units relative text = some offset ↔
      ∃ before after, text = before ++ after ∧ col = units + utf16Len before ∧
        offset = start + relative + byteLen before := by
  induction text generalizing units relative with
  | nil => simp [offsetForUtf16From, hstop, eq_comm]
  | cons c _ ih =>
    have hpos := lenUtf16_pos c
    rw [byteLen_cons] at hstop
    rw [offsetForUtf16From, exists_cut_cons]
    simp only [utf16Len_nil, utf16Len_cons, byteLen_nil, byteLen_cons, Nat.add_zero]
    by_cases heq : units = col
    · rw [if_pos heq]
      constructor
      · intro h
        cases h
        exact .inl ⟨heq.symm, rfl⟩
      · rintro (⟨-, rfl⟩ | ⟨before, after, -, hcol, -⟩)
        · rfl
        · omega
    rw [if_neg heq]
    by_cases hinside : col < units + lenUtf16 c
    · -- between the two units of the character
      rw [if_pos hinside]
      refine ⟨nofun, ?_⟩
      rintro (⟨hcol, -⟩ | ⟨before, after, -, hcol, -⟩) <;> omega
    · rw [if_neg hinside, ih (by omega)]
      simp only [Nat.add_assoc]
      exact (or_iff_right fun h => heq h.1.symm).symm

lemma offsetForUtf16_eq_some_iff (hstop : line.stop = line.start + byteLen line.text) :
    offsetForUtf16 line col = some offset ↔
      ∃ before after, line.text = before ++ after ∧ col = utf16Len before ∧
        offset = line.start + byteLen before := by
  have hloop : offsetForUtf16From line.start line.stop col 0 0 line.text = some offset ↔
      ∃ before after, line.text = before ++ after ∧ col = 0 + utf16Len before ∧
        offset = line.start + 0 + byteLen before := offsetForUtf16From_eq_some_iff hstop
  simp only [Nat.zero_add, Nat.add_zero] at hloop
  unfold offsetForUtf16
  split
  · next hpast =>
    refine ⟨nofun, ?_⟩
    rintro ⟨before, after, hsplit, rfl, -⟩
    rw [hsplit, utf16Len_append] at hpast
    omega
  · exact hloop

variable {pos : Position}

/-- Scanning for a position finds the offset that stands at it. -/
lemma positionToOffset_eq_some_iff {src : Text} :
    positionToOffset src pos = some offset ↔ At src offset pos.line.toNat pos.character.toNat := by
  unfold positionToOffset At
  rw [lines_eq, Option.bind_eq_some_iff]
  constructor
  · rintro ⟨line, hline, hoff⟩
    obtain ⟨front, text, lineBreak, back, hsplit, hnumber, rfl⟩ := getElem?_layout.1 hline
    obtain ⟨before, after, htext, hcol, rfl⟩ := (offsetForUtf16_eq_some_iff rfl).1 hoff
    exact ⟨front, text, lineBreak, back, before, after, hsplit, htext, hnumber,
      by simp [byteLen_append], hcol⟩
  · rintro ⟨front, text, lineBreak, back, before, after, hsplit, htext, hnumber, rfl, hcol⟩
    refine ⟨_, getElem?_layout.2 ⟨front, text, lineBreak, back, hsplit, hnumber, rfl⟩, ?_⟩
    exact (offsetForUtf16_eq_some_iff rfl).2 ⟨before, after, htext, hcol, by simp [byteLen_append]⟩

/-! ## Offsets to positions -/

lemma toU32_eq_some_iff {n : Nat} {value : UInt32} : toU32 n = some value ↔ n = value.toNat := by
  unfold toU32
  constructor
  · intro h
    split at h
    · next hlt =>
      cases h
      exact (UInt32.toNat_ofNat_of_lt' hlt).symm
    · cases h
  · rintro rfl
    rw [if_pos value.toNat_lt, UInt32.ofNat_toNat]

/-- A line number and a column as a position. -/
lemma position_eq_some_iff {line : Nat} :
    ((toU32 line).bind fun lineNumber => (toU32 col).map (⟨lineNumber, ·⟩)) = some pos ↔
      line = pos.line.toNat ∧ col = pos.character.toNat := by
  rw [← toU32_eq_some_iff, ← toU32_eq_some_iff, Option.bind_eq_some_iff]
  constructor
  · rintro ⟨lineNumber, hline, h⟩
    obtain ⟨_, hcol, rfl⟩ := Option.map_eq_some_iff.1 h
    exact ⟨hline, hcol⟩
  · rintro ⟨hline, hcol⟩
    exact ⟨_, hline, by rw [hcol]; rfl⟩

variable {front back : List (Text × Text)}

lemma Broken.tail (h : Broken (piece :: rest)) : Broken rest := by
  cases rest with
  | nil => trivial
  | cons _ rest => exact h.2

lemma broken_front (h : Broken (front ++ piece :: back)) :
    ∀ other ∈ front, IsLineBreak other.2 := by
  induction front with
  | nil => simp
  | cons _ front ih =>
    obtain ⟨hfirst, hrest⟩ := (broken_cons (by simp)).1 h
    exact forall_mem_cons.2 ⟨hfirst, ih hrest⟩

variable {lineBreak : Text}

lemma IsLineBreak.byteLen (h : IsLineBreak lineBreak) :
    byteLen lineBreak = 1 ∨ byteLen lineBreak = 2 := by
  rcases h with rfl | rfl | rfl
  · exact .inr rfl
  · exact .inl rfl
  · exact .inl rfl

/-- A later line starts behind the line break of the first one. -/
lemma Broken.later (h : Broken ((first, firstBreak) :: pieces))
    (hsplit : pieces = front ++ (text, lineBreak) :: back) :
    byteLen first < byteLen (joined ((first, firstBreak) :: front)) := by
  have hbreak := ((broken_cons (by simp [hsplit])).1 h).1.byteLen
  rw [byteLen_joined_cons]
  dsimp only at hbreak
  omega

/-- The loop stops at the one line whose range has the offset. -/
lemma offsetInLines_eq_some_iff (hbroken : Broken pieces) :
    offsetInLines offset number (layout start pieces) = some pos ↔
      ∃ front text lineBreak back, pieces = front ++ (text, lineBreak) :: back ∧
        start + byteLen (joined front) ≤ offset ∧
        offset ≤ start + byteLen (joined front) + byteLen text ∧
        number + front.length = pos.line.toNat ∧
        utf16Before text (offset - (start + byteLen (joined front))) = pos.character.toNat := by
  induction pieces generalizing number start with
  | nil => simp [layout, offsetInLines]
  | cons piece _ ih =>
    obtain ⟨first, firstBreak⟩ := piece
    rw [layout, offsetInLines, exists_line_cons]
    by_cases hhere : start ≤ offset ∧ offset ≤ start + byteLen first
    · rw [if_pos hhere, position_eq_some_iff]
      constructor
      · exact fun h => .inl ⟨hhere.1, hhere.2, h⟩
      · rintro (⟨-, -, h⟩ | ⟨front, text, lineBreak, back, hsplit, hstart, -⟩)
        · exact h
        · have := hbroken.later hsplit
          omega
    rw [if_neg hhere]
    by_cases hinside : start + byteLen first < offset ∧
        offset < start + byteLen first + byteLen firstBreak
    · rw [if_pos hinside]
      refine ⟨nofun, ?_⟩
      rintro (⟨hstart, hstop, -⟩ | ⟨front, text, lineBreak, back, hsplit, hstart, -⟩)
      · exact (hhere ⟨hstart, hstop⟩).elim
      · rw [byteLen_joined_cons] at hstart
        omega
    · rw [if_neg hinside, ih hbroken.tail]
      simp only [byteLen_joined_cons, length_cons, Nat.add_assoc, Nat.add_comm 1]
      refine (or_iff_right ?_).symm
      rintro ⟨hstart, hstop, -⟩
      exact hhere ⟨hstart, by simpa [joined] using hstop⟩

lemma splitLines_cut {src : Text} (h : splitLines src = front ++ (text, lineBreak) :: back) :
    src = joined front ++ (text ++ (lineBreak ++ joined back)) := by
  rw [← joined_splitLines src, h]
  simp [joined]

/-- A character boundary within the range of a line cuts the line. -/
lemma cut_in_line {src : Text} (hsplit : splitLines src = front ++ (text, lineBreak) :: back)
    (hbound : isCharBoundary src offset = true) (hstart : byteLen (joined front) ≤ offset)
    (hstop : offset ≤ byteLen (joined front) + byteLen text) :
    ∃ before after, text = before ++ after ∧ offset = byteLen (joined front ++ before) := by
  obtain ⟨_, _, hcut, rfl⟩ := (isCharBoundary_iff _ _).1 hbound
  have hsrc := splitLines_cut hsplit
  rw [hcut] at hsrc
  obtain ⟨before, rfl, htext⟩ := exists_between hsrc.symm hstart
  rw [byteLen_append] at hstop
  obtain ⟨after, rfl, -⟩ := exists_between htext.symm (by omega)
  exact ⟨before, after, rfl, rfl⟩

/-- A cut of a line is a character boundary within the source. -/
lemma boundary_of_cut {src : Text}
    (h : splitLines src = front ++ (before ++ after, lineBreak) :: back) :
    byteLen (joined front ++ before) ≤ byteLen src ∧
      isCharBoundary src (byteLen (joined front ++ before)) = true := by
  have hsrc : src = (joined front ++ before) ++ (after ++ (lineBreak ++ joined back)) := by
    simp [splitLines_cut h]
  refine ⟨?_, (isCharBoundary_iff _ _).2 ⟨_, _, hsrc, rfl⟩⟩
  rw [hsrc, byteLen_append _ (after ++ _)]
  exact Nat.le_add_right _ _

/-- Scanning for an offset finds the position at which it stands. -/
lemma offsetToPosition_eq_some_iff {src : Text} :
    offsetToPosition src offset = some pos ↔ At src offset pos.line.toNat pos.character.toNat := by
  unfold offsetToPosition At
  rw [lines_eq]
  constructor
  · intro h
    obtain ⟨hbound, h⟩ := Option.ite_none_left_eq_some.1 h
    simp only [not_or, Bool.not_eq_false] at hbound
    obtain ⟨front, text, lineBreak, back, hsplit, hstart, hstop, hline, hcol⟩ :=
      (offsetInLines_eq_some_iff (broken_splitLines src)).1 h
    rw [Nat.zero_add] at hstart hstop hline hcol
    obtain ⟨before, after, rfl, rfl⟩ := cut_in_line hsplit hbound.2 hstart hstop
    rw [byteLen_append, Nat.add_sub_cancel_left, utf16Before_append] at hcol
    exact ⟨front, before ++ after, lineBreak, back, before, after, hsplit, rfl, hline.symm, rfl,
      hcol.symm⟩
  · rintro ⟨front, text, lineBreak, back, before, after, hsplit, rfl, hline, rfl, hcol⟩
    obtain ⟨hlen, hbound⟩ := boundary_of_cut hsplit
    rw [if_neg (by simp [-byteLen_append, hlen, hbound]),
      offsetInLines_eq_some_iff (broken_splitLines src)]
    refine ⟨front, before ++ after, lineBreak, back, hsplit, ?_, ?_, ?_, ?_⟩
    · simp only [byteLen_append]
      omega
    · simp only [byteLen_append]
      omega
    · rw [Nat.zero_add, hline]
    · rw [Nat.zero_add, byteLen_append, Nat.add_sub_cancel_left, utf16Before_append, hcol]

/-- An offset stands in one line only. -/
lemma unique_of_broken (hbroken : Broken pieces) {front' back' : List (Text × Text)}
    {lineBreak' before' after' : Text} (h : pieces = front ++ (before ++ after, lineBreak) :: back)
    (h' : pieces = front' ++ (before' ++ after', lineBreak') :: back')
    (hoff : byteLen (joined front ++ before) = byteLen (joined front' ++ before')) :
    front = front' ∧ before = before' := by
  induction pieces generalizing front front' with
  | nil => simp at h
  | cons piece _ ih =>
    rw [byteLen_append, byteLen_append] at hoff
    cases front with
    | nil =>
      cases h
      cases front' with
      | nil =>
        obtain ⟨hsame, -⟩ := Prod.mk.inj (cons.inj h').1
        exact ⟨rfl, (prefix_eq_of_byteLen hsame (by simpa [joined] using hoff)).1⟩
      | cons piece front' =>
        obtain ⟨rfl, hrest⟩ := cons.inj h'
        have := hbroken.later hrest
        rw [byteLen_append] at this
        simp only [joined, flatMap_nil, byteLen_nil] at hoff this
        omega
    | cons piece front =>
      obtain ⟨rfl, hrest⟩ := cons.inj h
      cases front' with
      | nil =>
        obtain ⟨rfl, -⟩ := cons.inj h'
        have := hbroken.later hrest
        rw [byteLen_append] at this
        simp only [joined, flatMap_nil, byteLen_nil] at hoff this
        omega
      | cons piece front' =>
        obtain ⟨rfl, hrest'⟩ := cons.inj h'
        rw [byteLen_joined_cons, byteLen_joined_cons] at hoff
        obtain ⟨rfl, hbefore⟩ := ih hbroken.tail hrest hrest'
          (by rw [byteLen_append, byteLen_append]; omega)
        exact ⟨rfl, hbefore⟩

/-- An offset stands at one position only. -/
lemma At.unique {src : Text} {line line' character' : Nat}
    (h : At src offset line col) (h' : At src offset line' character') :
    line = line' ∧ col = character' := by
  obtain ⟨_, _, _, _, _, _, hsplit, rfl, rfl, rfl, rfl⟩ := h
  obtain ⟨_, _, _, _, _, _, hsplit', rfl, rfl, hoff, rfl⟩ := h'
  obtain ⟨rfl, rfl⟩ := unique_of_broken (broken_splitLines src) hsplit hsplit' hoff
  exact ⟨rfl, rfl⟩

/-! ## Offsets without a position -/

/-- The offset is inside a character or behind the text. -/
def OffBoundary (offset : Nat) : Prop :=
  ¬ ∃ before after, source = before ++ after ∧ byteLen before = offset

/-- The offset is inside a line break. -/
def InLineBreak (offset : Nat) : Prop :=
  ∃ before after, source = before ++ '\r' :: '\n' :: after ∧ offset = byteLen before + 1

/-- The offset stands in one of the lines. -/
def Placed (pieces : List (Text × Text)) (offset : Nat) : Prop :=
  ∃ front text lineBreak back, pieces = front ++ (text, lineBreak) :: back ∧
    ∃ before after, text = before ++ after ∧ offset = byteLen (joined front ++ before)

lemma placed_cons :
    Placed ((text, lineBreak) :: pieces) offset ↔
      (∃ before after, text = before ++ after ∧ offset = byteLen before) ∨
        ∃ later, offset = byteLen text + byteLen lineBreak + later ∧ Placed pieces later := by
  rw [Placed, exists_line_cons]
  refine or_congr (by simp [joined]) ?_
  constructor
  · rintro ⟨front, _, lineBreak', back, hsplit, before, after, rfl, rfl⟩
    exact ⟨byteLen (joined front ++ before), by
      rw [byteLen_append, byteLen_append, byteLen_joined_cons, Nat.add_assoc],
      front, _, lineBreak', back, hsplit, before, after, rfl, rfl⟩
  · rintro ⟨_, rfl, front, _, lineBreak', back, hsplit, before, after, rfl, rfl⟩
    exact ⟨front, _, lineBreak', back, hsplit, before, after, rfl, by
      rw [byteLen_append, byteLen_append, byteLen_joined_cons, ← Nat.add_assoc]⟩

lemma placed_line_cons :
    Placed ((c :: text, lineBreak) :: pieces) offset ↔
      offset = 0 ∨ ∃ later, offset = c.utf8Size + later ∧
        Placed ((text, lineBreak) :: pieces) later := by
  rw [placed_cons, exists_cut_cons, or_assoc]
  refine or_congr Iff.rfl ?_
  simp only [placed_cons, and_or_left, exists_or, byteLen_cons]
  refine or_congr ?_ ?_
  · constructor
    · rintro ⟨before, after, htext, rfl⟩
      exact ⟨_, rfl, before, after, htext, rfl⟩
    · rintro ⟨_, rfl, before, after, htext, rfl⟩
      exact ⟨before, after, htext, rfl⟩
  · constructor
    · rintro ⟨later, rfl, hlater⟩
      exact ⟨_, by omega, later, rfl, hlater⟩
    · rintro ⟨_, rfl, later, rfl, hlater⟩
      exact ⟨later, by omega, hlater⟩

lemma not_offBoundary_cons {rest : Text} :
    ¬ OffBoundary (c :: rest) offset ↔
      offset = 0 ∨ ∃ later, offset = c.utf8Size + later ∧ ¬ OffBoundary rest later := by
  simp only [OffBoundary, not_not, exists_cut_cons, byteLen_nil, byteLen_cons, eq_comm (a := 0)]
  refine or_congr Iff.rfl ?_
  constructor
  · rintro ⟨before, after, hrest, rfl⟩
    exact ⟨_, rfl, before, after, hrest, rfl⟩
  · rintro ⟨_, rfl, before, after, hrest, rfl⟩
    exact ⟨before, after, hrest, rfl⟩

lemma inLineBreak_cons {rest : Text} :
    InLineBreak (c :: rest) offset ↔ (c = '\r' ∧ rest.head? = some '\n' ∧ offset = 1) ∨
        ∃ later, offset = c.utf8Size + later ∧ InLineBreak rest later := by
  constructor
  · rintro ⟨_ | ⟨d, before⟩, after, h, rfl⟩
    · cases h
      exact .inl ⟨rfl, rfl, rfl⟩
    · obtain ⟨rfl, rfl⟩ := cons.inj h
      exact .inr ⟨_, Nat.add_assoc .., before, after, rfl, rfl⟩
  · rintro (⟨rfl, hnext, rfl⟩ | ⟨_, rfl, before, after, rfl, rfl⟩)
    · obtain ⟨after, rfl⟩ := head?_eq_some_iff.1 hnext
      exact ⟨[], after, rfl, rfl⟩
    · exact ⟨c :: before, after, rfl, (Nat.add_assoc ..).symm⟩

/-- A character that starts no line break of two characters is passed as a whole. -/
lemma placed_iff_of_char {rest : Text} (hcrlf : ¬ (c = '\r' ∧ rest.head? = some '\n'))
    (hplaced : Placed (splitLines (c :: rest)) offset ↔
      offset = 0 ∨ ∃ later, offset = c.utf8Size + later ∧ Placed (splitLines rest) later)
    (ih : ∀ later, Placed (splitLines rest) later ↔
      ¬ OffBoundary rest later ∧ ¬ InLineBreak rest later) :
    Placed (splitLines (c :: rest)) offset ↔
      ¬ OffBoundary (c :: rest) offset ∧ ¬ InLineBreak (c :: rest) offset := by
  have hsize := c.utf8Size_pos
  rw [hplaced, not_offBoundary_cons, inLineBreak_cons]
  constructor
  · rintro (rfl | ⟨later, rfl, hlater⟩)
    · refine ⟨.inl rfl, ?_⟩
      rintro (⟨-, -, h⟩ | ⟨later, h, -⟩) <;> omega
    · rw [ih] at hlater
      refine ⟨.inr ⟨later, rfl, hlater.1⟩, ?_⟩
      rintro (⟨hc, hnext, -⟩ | ⟨_, hother, hbreak⟩)
      · exact hcrlf ⟨hc, hnext⟩
      · obtain rfl := Nat.add_left_cancel hother
        exact hlater.2 hbreak
  · rintro ⟨rfl | ⟨later, rfl, hbound⟩, hbreak⟩
    · exact .inl rfl
    · exact .inr ⟨later, rfl, (ih later).2 ⟨hbound, fun h => hbreak (.inr ⟨later, rfl, h⟩)⟩⟩

/-- An offset has a line and a column unless it is inside a character or a line break. -/
lemma exists_at_iff (offset : Nat) :
    (∃ line col, At src offset line col) ↔ ¬ OffBoundary src offset ∧ ¬ InLineBreak src offset := by
  have hat : (∃ line col, At src offset line col) ↔ Placed (splitLines src) offset := by
    constructor
    · rintro ⟨_, _, front, text, lineBreak, back, before, after, hsplit, htext, -, hoff, -⟩
      exact ⟨front, text, lineBreak, back, hsplit, before, after, htext, hoff⟩
    · rintro ⟨front, text, lineBreak, back, hsplit, before, after, htext, hoff⟩
      exact ⟨_, _, front, text, lineBreak, back, before, after, hsplit, htext, rfl, hoff, rfl⟩
  rw [hat]
  clear hat
  -- along the lines: CRLF is one break of two bytes, so its middle is no position
  induction src using splitLines.induct generalizing offset with
  | case1 rest ih =>
    rw [splitLines, placed_cons]
    simp only [not_offBoundary_cons, inLineBreak_cons, ih, show byteLen ['\r', '\n'] = 2 from rfl,
      show '\r'.utf8Size = 1 from rfl, show '\n'.utf8Size = 1 from rfl, byteLen_nil, Nat.zero_add]
    constructor
    · rintro (⟨before, after, hnil, rfl⟩ | ⟨later, rfl, hbound, hbreak⟩)
      · obtain ⟨rfl, -⟩ := append_eq_nil_iff.1 hnil.symm
        exact ⟨.inl rfl, by rintro (⟨-, -, h⟩ | ⟨_, h, -⟩) <;> simp only [byteLen_nil] at h <;> omega⟩
      · refine ⟨.inr ⟨1 + later, by omega, .inr ⟨later, rfl, hbound⟩⟩, ?_⟩
        rintro (⟨-, -, h⟩ | ⟨_, h, ⟨hc, -⟩ | ⟨other, rfl, hother⟩⟩)
        · omega
        · exact absurd hc (by decide)
        · obtain rfl : later = other := by omega
          exact hbreak hother
    · rintro ⟨rfl | ⟨_, rfl, rfl | ⟨later, rfl, hbound⟩⟩, hbreak⟩
      · exact .inl ⟨[], [], rfl, rfl⟩
      · exact (hbreak (.inl ⟨trivial, rfl, rfl⟩)).elim
      · exact .inr ⟨later, by omega, hbound, fun h => hbreak (.inr ⟨_, rfl, .inr ⟨later, rfl, h⟩⟩)⟩
  | case2 c rest hcrlf hc ih =>
    have hsize : c.utf8Size = 1 := by rcases hc with rfl | rfl <;> rfl
    refine placed_iff_of_char ?_ ?_ ih
    · rintro ⟨rfl, hnext⟩
      obtain ⟨after, rfl⟩ := head?_eq_some_iff.1 hnext
      exact hcrlf after rfl rfl
    · rw [splitLines, if_pos hc, placed_cons]
      · simp [hsize]
      · exact hcrlf
  | case3 c rest hcrlf hc line lineBreak _ hsplit ih =>
    refine placed_iff_of_char (fun h => hc (.inr h.1)) ?_ ih
    rw [splitLines, if_neg hc, hsplit]
    · exact placed_line_cons
    · exact hcrlf
  | case4 c rest hcrlf hc hnil ih => exact absurd hnil (splitLines_ne_nil rest)
  | case5 =>
    rw [splitLines, placed_cons]
    simpa [Placed, OffBoundary, InLineBreak] using eq_comm

end Lint4d.Lsp
