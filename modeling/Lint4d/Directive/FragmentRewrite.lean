import Lint4d.Cache.Encoding
import Lint4d.Lib.Utf8Lossy

/-!
# Directive rewrites

Two passes over the source before it is parsed.  The first erases the markers of
conditional blocks whose body ends in the middle of a control-flow header; the
second erases whole `{$IF}` blocks whose body does not parse.  What is erased
is recorded in patches.

Offsets are byte offsets into the source, as in the code; the parser, which the
second pass asks about bodies, is a parameter.
-/

namespace Lint4d.Directive

open Lint4d.Cache Lint4d.Lib.Utf8

variable {offset cursor found : Nat} {body : Bytes}

/-! ## Bytes -/

def byteAt (source : Bytes) (offset : Nat) (c : Char) : Bool :=
  source[offset]? = some (UInt8.ofNat c.toNat)

def word (text : String) : Bytes := text.toList.map fun c => UInt8.ofNat c.toNat

def isAsciiAlphabetic (b : UInt8) : Bool := (65 ≤ b ∧ b ≤ 90) ∨ (97 ≤ b ∧ b ≤ 122)

def isAsciiAlphanumeric (b : UInt8) : Bool := isAsciiAlphabetic b ∨ (48 ≤ b ∧ b ≤ 57)

/-- The first offset from `cursor` on, below `limit`, that passes the test. -/
def position (found : Nat → Bool) (limit cursor : Nat) : Option Nat :=
  if cursor < limit then
    if found cursor then some cursor else position found limit (cursor + 1)
  else none
termination_by limit - cursor

lemma position_eq_some {found : Nat → Bool} {limit : Nat}
    (h : position found limit cursor = some offset) :
    cursor ≤ offset ∧ offset < limit ∧ found offset = true := by
  fun_induction position found limit cursor with
  | case1 cursor hlimit hfound =>
    cases h
    exact ⟨le_rfl, hlimit, hfound⟩
  | case2 cursor hlimit hfound ih =>
    obtain ⟨hle, hlt, hoff⟩ := ih h
    exact ⟨by omega, hlt, hoff⟩
  | case3 cursor hlimit => cases h

/-! ## Comments and strings -/

def skipStringFrom (source : Bytes) (cursor : Nat) : Nat :=
  if cursor < source.length then
    if byteAt source cursor '\'' then
      -- a doubled quote stays inside the literal
      if byteAt source (cursor + 1) '\'' then skipStringFrom source (cursor + 2) else cursor + 1
    else if byteAt source cursor '\n' then cursor
    else skipStringFrom source (cursor + 1)
  else cursor
termination_by source.length - cursor

def skipStringLiteral (source : Bytes) (start : Nat) : Nat := skipStringFrom source (start + 1)

def skipLineComment (source : Bytes) (start : Nat) : Nat :=
  (position (byteAt source · '\n') source.length (start + 2)).getD source.length

def isParenStarEnd (source : Bytes) (offset : Nat) : Bool :=
  byteAt source offset '*' && byteAt source (offset + 1) ')'

/-- The star of the opener may be the star of the closer. -/
def skipParenStarComment (source : Bytes) (start : Nat) : Nat :=
  match position (isParenStarEnd source) source.length (start + 1) with
  | some offset => offset + 2
  | none => source.length

def skipBraceComment (source : Bytes) (start : Nat) : Nat :=
  match position (byteAt source · '\x7d') source.length (start + 1) with
  | some offset => offset + 1
  | none => source.length

/-- The end of the comment or string that starts at the cursor. -/
def noiseEnd (source : Bytes) (cursor : Nat) : Option Nat :=
  if byteAt source cursor '\'' then some (skipStringLiteral source cursor)
  else if byteAt source cursor '/' && byteAt source (cursor + 1) '/' then
    some (skipLineComment source cursor)
  else if byteAt source cursor '(' && byteAt source (cursor + 1) '*' &&
      !byteAt source (cursor + 2) '$' then
    some (skipParenStarComment source cursor)
  else if byteAt source cursor '\x7b' && decide (cursor + 1 < source.length) &&
      !byteAt source (cursor + 1) '$' then
    some (skipBraceComment source cursor)
  else none

variable {source : Bytes}

lemma lt_length_of_byteAt {c : Char} (h : byteAt source offset c = true) :
    offset < source.length := by
  unfold byteAt at h
  rw [decide_eq_true_iff] at h
  exact (List.getElem?_eq_some_iff.1 h).1

lemma le_skipStringFrom (source : Bytes) (cursor : Nat) :
    cursor ≤ skipStringFrom source cursor := by
  fun_induction skipStringFrom source cursor <;> omega

lemma lt_noiseEnd (h : noiseEnd source cursor = some offset) :
    cursor < offset ∧ cursor < source.length := by
  unfold noiseEnd at h
  split at h
  · rename_i hquote
    cases h
    exact ⟨le_skipStringFrom source (cursor + 1), lt_length_of_byteAt hquote⟩
  split at h
  · rename_i hslash
    rw [Bool.and_eq_true] at hslash
    have hlen := lt_length_of_byteAt hslash.2
    cases h
    refine ⟨?_, by omega⟩
    unfold skipLineComment
    cases hfound : position (byteAt source · '\n') source.length (cursor + 2) with
    | none => simpa using by omega
    | some found =>
      have := (position_eq_some hfound).1
      simpa using by omega
  split at h
  · rename_i hparen
    simp only [Bool.and_eq_true] at hparen
    have hlen := lt_length_of_byteAt hparen.1.1
    cases h
    refine ⟨?_, hlen⟩
    unfold skipParenStarComment
    split
    · rename_i found hfound
      have := (position_eq_some hfound).1
      omega
    · exact hlen
  split at h
  · rename_i hbrace
    simp only [Bool.and_eq_true] at hbrace
    have hlen := lt_length_of_byteAt hbrace.1.1
    cases h
    refine ⟨?_, hlen⟩
    unfold skipBraceComment
    split
    · rename_i found hfound
      have := (position_eq_some hfound).1
      omega
    · exact hlen
  · cases h

def skipLexicalNoise (source : Bytes) (cursor : Nat) : Nat :=
  match _hend : noiseEnd source cursor with
  | some offset => skipLexicalNoise source offset
  | none => cursor
termination_by source.length - cursor
decreasing_by
  have := lt_noiseEnd _hend
  omega

lemma le_skipLexicalNoise (source : Bytes) (cursor : Nat) :
    cursor ≤ skipLexicalNoise source cursor := by
  fun_induction skipLexicalNoise source cursor with
  | case1 cursor _ h =>
    have := (lt_noiseEnd h).1
    omega
  | case2 cursor h => exact le_rfl

/-! ## Directives -/

/-- Where the keyword of a directive that starts at the cursor starts. -/
def directiveKeywordStart (source : Bytes) (cursor : Nat) : Option Nat :=
  if byteAt source cursor '\x7b' && byteAt source (cursor + 1) '$' then some (cursor + 2)
  else if byteAt source cursor '(' && byteAt source (cursor + 1) '*' &&
      byteAt source (cursor + 2) '$' then some (cursor + 3)
  else none

inductive DirectiveKind where
  | opening
  | alternative
  | closing
  | other
deriving DecidableEq

/-- The letters at an offset, in lower case. -/
def keywordAt (source : Bytes) (start : Nat) : Bytes :=
  ((source.drop start).takeWhile isAsciiAlphabetic).map byteLower

def directiveKeywordKind (source : Bytes) (start : Nat) : DirectiveKind :=
  let keyword := keywordAt source start
  if keyword = word "if" ∨ keyword = word "ifdef" ∨ keyword = word "ifndef" then .opening
  else if keyword = word "else" ∨ keyword = word "elseif" then .alternative
  else if keyword = word "endif" ∨ keyword = word "ifend" then .closing
  else .other

/-- The offset after the directive that starts at `start`. -/
def findDirectiveEnd (source : Bytes) (start : Nat) : Option Nat :=
  if byteAt source start '(' then
    (position (isParenStarEnd source) source.length (start + 3)).map (· + 2)
  else
    (position (byteAt source · '\x7d') source.length (start + 1)).map (· + 1)

lemma lt_of_findDirectiveEnd {start : Nat}
    (h : findDirectiveEnd source start = some offset) : start < offset := by
  unfold findDirectiveEnd at h
  split at h
  all_goals
    obtain ⟨_, hfound, rfl⟩ := Option.map_eq_some_iff.1 h
    have := (position_eq_some hfound).1
    omega

/-- The closer of the block whose opener ends at the cursor: its start, its end and
whether the block has an alternative. -/
def scanToEndifFrom (source : Bytes) (cursor depth : Nat) (sawElse : Bool) :
    Option (Nat × Nat × Bool) :=
  if cursor < source.length then
    let start := skipLexicalNoise source cursor
    if source.length ≤ start then none
    else match directiveKeywordStart source start with
      | none => scanToEndifFrom source (start + 1) depth sawElse
      | some keyword =>
        match directiveKeywordKind source keyword with
        | .opening =>
          match _hend : findDirectiveEnd source start with
          | none => none
          | some offset => scanToEndifFrom source offset (depth + 1) sawElse
        | .alternative =>
          match _hend : findDirectiveEnd source start with
          | none => none
          | some offset => scanToEndifFrom source offset depth (sawElse || depth = 1)
        | .closing =>
          match _hend : findDirectiveEnd source start with
          | none => none
          | some offset =>
            if depth = 1 then some (start, offset, sawElse)
            else scanToEndifFrom source offset (depth - 1) sawElse
        | .other =>
          match _hend : findDirectiveEnd source start with
          | none => scanToEndifFrom source (start + 1) depth sawElse
          | some offset => scanToEndifFrom source offset depth sawElse
  else none
termination_by source.length - cursor
decreasing_by
  all_goals
    have := le_skipLexicalNoise source cursor
    try have := lt_of_findDirectiveEnd _hend
    omega

def scanToEndif (source : Bytes) (openingEnd : Nat) : Option (Nat × Nat × Bool) :=
  scanToEndifFrom source openingEnd 1 false

/-- A conditional block: the offsets of its markers. -/
structure Pair where
  openingStart : Nat
  openingEnd : Nat
  closingStart : Nat
  closingEnd : Nat
  hasElseBranch : Bool
deriving DecidableEq

/-- A directive between two offsets. -/
def IsMarker (source : Bytes) (start offset : Nat) : Prop :=
  (directiveKeywordStart source start).isSome ∧ findDirectiveEnd source start = some offset

lemma marker_of_scanToEndifFrom {depth : Nat} {sawElse : Bool} {result : Nat × Nat × Bool}
    (h : scanToEndifFrom source cursor depth sawElse = some result) :
    cursor ≤ result.1 ∧ IsMarker source result.1 result.2.1 := by
  fun_induction scanToEndifFrom source cursor depth sawElse with
  | case2 cursor _ _ _ start _ _ ih | case10 cursor _ _ _ start _ _ _ _ _ ih =>
    have := le_skipLexicalNoise source cursor
    have := ih h
    exact ⟨by omega, this.2⟩
  | case4 cursor _ _ _ start _ _ _ _ _ hoff ih | case6 cursor _ _ _ start _ _ _ _ _ hoff ih
  | case9 cursor _ _ _ start _ _ _ _ _ hoff _ ih
  | case11 cursor _ _ _ start _ _ _ _ _ hoff ih =>
    have := le_skipLexicalNoise source cursor
    have := lt_of_findDirectiveEnd hoff
    have := ih h
    exact ⟨by omega, this.2⟩
  | case8 cursor sawElse _ start _ _ hkw _ _ hoff =>
    cases h
    exact ⟨le_skipLexicalNoise source cursor, by simp [start, hkw], hoff⟩
  | _ => cases h

/-- The scan gives up on an opener without an end. -/
def scanDirectivePairsFrom (source : Bytes) (cursor : Nat) (hasAny : Bool) : Option (List Pair) :=
  if cursor < source.length then
    let start := skipLexicalNoise source cursor
    if source.length ≤ start then if hasAny then some [] else none
    else match directiveKeywordStart source start with
      | none => scanDirectivePairsFrom source (start + 1) hasAny
      | some keyword =>
        match directiveKeywordKind source keyword with
        | .opening =>
          match _hend : findDirectiveEnd source start with
          | none => none
          | some openingEnd =>
            match _hscan : scanToEndif source openingEnd with
            | some (closingStart, closingEnd, hasElse) => do
              let pairs ← scanDirectivePairsFrom source closingEnd true
              some (⟨start, openingEnd, closingStart, closingEnd, hasElse⟩ :: pairs)
            | none => scanDirectivePairsFrom source openingEnd true
        | _ =>
          match _hend : findDirectiveEnd source start with
          | none => scanDirectivePairsFrom source (start + 1) hasAny
          | some offset => scanDirectivePairsFrom source offset hasAny
  else if hasAny then some [] else none
termination_by source.length - cursor
decreasing_by
  all_goals
    have := le_skipLexicalNoise source cursor
    try have := lt_of_findDirectiveEnd _hend
    try have := marker_of_scanToEndifFrom _hscan
    try have := lt_of_findDirectiveEnd this.2.2
    try dsimp only at *
    omega

def scanDirectivePairs (source : Bytes) : Option (List Pair) :=
  scanDirectivePairsFrom source 0 false

/-! ## Bodies -/

def trimTrailingWhitespace (body : Bytes) : Nat → Nat
  | 0 => 0
  | n + 1 =>
    if byteAt body n ' ' || byteAt body n '\t' || byteAt body n '\n' || byteAt body n '\r' then
      trimTrailingWhitespace body n
    else n + 1

/-- The opener of a brace comment below an offset, unless a directive comes first. -/
def findMatchingOpenBraceComment (body : Bytes) : Nat → Option Nat
  | 0 => none
  | n + 1 =>
    if byteAt body n '\x7b' then if byteAt body (n + 1) '$' then none else some n
    else findMatchingOpenBraceComment body n

/-- The opener of a paren-star comment whose star is below an offset. -/
def findParenStarBelow (body : Bytes) : Nat → Option Nat
  | n + 2 =>
    if byteAt body n '(' && byteAt body (n + 1) '*' then
      if byteAt body (n + 2) '$' then none else some n
    else findParenStarBelow body (n + 1)
  | _ => none

def findMatchingParenStar (body : Bytes) (starParenPos : Nat) : Option Nat :=
  findParenStarBelow body (starParenPos + 1)

def trimTrailingComment (body : Bytes) (offset : Nat) : Nat :=
  if offset < 2 then offset
  else
    let brace := if byteAt body (offset - 1) '\x7d' then
      findMatchingOpenBraceComment body (offset - 1) else none
    let parenStar := if byteAt body (offset - 2) '*' && byteAt body (offset - 1) ')' then
      findMatchingParenStar body (offset - 2) else none
    (brace.or parenStar).getD offset

lemma trimTrailingWhitespace_le (body : Bytes) (offset : Nat) :
    trimTrailingWhitespace body offset ≤ offset := by
  induction offset with
  | zero => exact le_rfl
  | succ n =>
    unfold trimTrailingWhitespace
    split <;> omega

lemma findMatchingOpenBraceComment_lt
    (h : findMatchingOpenBraceComment body offset = some found) : found < offset := by
  induction offset with
  | zero => cases h
  | succ n ih =>
    unfold findMatchingOpenBraceComment at h
    split at h
    · split at h
      · cases h
      · cases h
        omega
    · have := ih h
      omega

lemma findParenStarBelow_lt
    (h : findParenStarBelow body offset = some found) : found + 1 < offset := by
  fun_induction findParenStarBelow body offset with
  | case1 => cases h
  | case2 =>
    cases h
    omega
  | case3 n _ ih =>
    have := ih h
    omega
  | case4 => cases h

lemma trimTrailingComment_le (body : Bytes) (offset : Nat) :
    trimTrailingComment body offset ≤ offset := by
  unfold trimTrailingComment
  split
  · exact le_rfl
  · cases hfound : (if byteAt body (offset - 1) '\x7d' then
        findMatchingOpenBraceComment body (offset - 1) else none) with
    | some found =>
      have : found < offset - 1 := by
        split at hfound
        · exact findMatchingOpenBraceComment_lt hfound
        · cases hfound
      simpa using by omega
    | none =>
      cases hstar : (if byteAt body (offset - 2) '*' && byteAt body (offset - 1) ')' then
          findMatchingParenStar body (offset - 2) else none) with
      | none => exact le_rfl
      | some found =>
        have : found + 1 < offset - 2 + 1 := by
          split at hstar
          · exact findParenStarBelow_lt hstar
          · cases hstar
        simpa using by omega

/-- The end of the body without trailing blanks and comments. -/
def trimmedEnd (body : Bytes) (offset : Nat) : Nat :=
  let trimmed := trimTrailingWhitespace body offset
  let before := trimTrailingComment body trimmed
  if before = trimmed then trimmed else trimmedEnd body before
termination_by offset
decreasing_by
  rename_i hne
  have := trimTrailingWhitespace_le body offset
  have := trimTrailingComment_le body (trimTrailingWhitespace body offset)
  exact Nat.lt_of_lt_of_le (Nat.lt_of_le_of_ne this hne) ‹_›

def lastWordStart (body : Bytes) : Nat → Nat
  | 0 => 0
  | n + 1 => if body[n]?.any isAsciiAlphabetic then lastWordStart body n else n + 1

/-- The last word of the body, comments apart, is `then`, `else` or `do`. -/
def bodyEndsInContinuationKeyword (body : Bytes) : Bool :=
  let offset := trimmedEnd body body.length
  let start := lastWordStart body offset
  if start = offset then false
  else if start > 0 && body[start - 1]?.any (fun b => isAsciiAlphanumeric b || b = 95) then false
  else
    let last := ((body.take offset).drop start).map byteLower
    last = word "then" ∨ last = word "else" ∨ last = word "do"

/-! ## Patches -/

def rowColAt (source : Bytes) (offset : Nat) : Nat × Nat :=
  (source.take offset).foldl
    (fun (row, col) (b : UInt8) => if b = 10 then (row + 1, 0) else (row, col + 1)) (0, 0)

structure MarkersPatch where
  openingStart : Nat
  openingEnd : Nat
  openingText : Text
  openingRow : Nat
  openingCol : Nat
  closingStart : Nat
  closingEnd : Nat
  closingText : Text
  closingRow : Nat
  closingCol : Nat
deriving DecidableEq

structure OpaqueBlockPatch where
  start : Nat
  stop : Nat
  text : Text
  row : Nat
  col : Nat
deriving DecidableEq

inductive DirectivePatch where
  | markers (patch : MarkersPatch)
  | opaqueBlock (patch : OpaqueBlockPatch)
deriving DecidableEq

def slice (source : Bytes) (start stop : Nat) : Bytes := (source.take stop).drop start

def markersPatch (source : Bytes) (pair : Pair) : MarkersPatch where
  openingStart := pair.openingStart
  openingEnd := pair.openingEnd
  openingText := fromUtf8Lossy (slice source pair.openingStart pair.openingEnd)
  openingRow := (rowColAt source pair.openingStart).1
  openingCol := (rowColAt source pair.openingStart).2
  closingStart := pair.closingStart
  closingEnd := pair.closingEnd
  closingText := fromUtf8Lossy (slice source pair.closingStart pair.closingEnd)
  closingRow := (rowColAt source pair.closingStart).1
  closingCol := (rowColAt source pair.closingStart).2

def opaqueBlockPatch (source : Bytes) (pair : Pair) : OpaqueBlockPatch where
  start := pair.openingStart
  stop := pair.closingEnd
  text := fromUtf8Lossy (slice source pair.openingStart pair.closingEnd)
  row := (rowColAt source pair.openingStart).1
  col := (rowColAt source pair.openingStart).2

/-- Erase the bytes between two offsets. -/
def eraseRange (erase : UInt8 → UInt8) (start stop : Nat) (source : Bytes) : Bytes :=
  source.mapIdx fun offset b => if start ≤ offset ∧ offset < stop then erase b else b

def toSpace (_ : UInt8) : UInt8 := 32

def isBreak (b : UInt8) : Bool := b = 13 ∨ b = 10

def toSpaceKeepingBreaks (b : UInt8) : UInt8 := if isBreak b then b else 32

/-- The blocks whose markers the first pass erases. -/
def isPartialControlFlow (source : Bytes) (pair : Pair) : Bool :=
  !pair.hasElseBranch &&
    bodyEndsInContinuationKeyword (slice source pair.openingEnd pair.closingStart)

def rewritePartialControlFlow (source : Bytes) : Bytes × List DirectivePatch :=
  match scanDirectivePairs source with
  | none => (source, [])
  | some pairs =>
    let patches := (pairs.filter (isPartialControlFlow source)).map (markersPatch source)
    (patches.foldl
      (fun rewritten patch =>
        eraseRange toSpace patch.closingStart patch.closingEnd
          (eraseRange toSpace patch.openingStart patch.openingEnd rewritten)) source,
      patches.map .markers)

/-- An opener of `IF` itself. -/
def isIfOpener (source : Bytes) (openingStart : Nat) : Bool :=
  match directiveKeywordStart source openingStart with
  | none => false
  | some keyword =>
    ((slice source keyword (keyword + 2)).map byteLower = word "if") &&
      !(source[keyword + 2]?.any isAsciiAlphabetic)

/-- The blocks that the second pass erases. -/
def isOpaqueIf (parseable : Bytes → Bool) (source : Bytes) (pair : Pair) : Bool :=
  isIfOpener source pair.openingStart && !parseable (slice source pair.openingEnd pair.closingStart)

def rewriteOpaqueIfBlocks (parseable : Bytes → Bool) (source : Bytes) :
    Bytes × List DirectivePatch :=
  match scanDirectivePairs source with
  | none => (source, [])
  | some pairs =>
    let patches := (pairs.filter (isOpaqueIf parseable source)).map (opaqueBlockPatch source)
    (patches.foldl
      (fun rewritten patch => eraseRange toSpaceKeepingBreaks patch.start patch.stop rewritten)
      source,
      patches.map .opaqueBlock)

/-- A directive that the formatter puts back. -/
structure VirtualDirective where
  startByte : Nat
  endByte : Nat
  text : Text
  row : Nat
deriving DecidableEq

def patchVirtuals : DirectivePatch → List VirtualDirective
  | .markers patch =>
    [⟨patch.openingStart, patch.openingEnd, patch.openingText, patch.openingRow⟩,
      ⟨patch.closingStart, patch.closingEnd, patch.closingText, patch.closingRow⟩]
  | .opaqueBlock patch => [⟨patch.start, patch.stop, patch.text, patch.row⟩]

def patchesToVirtuals (patches : List DirectivePatch) : List VirtualDirective :=
  patches.flatMap patchVirtuals

end Lint4d.Directive
