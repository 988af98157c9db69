import Lint4d.Conditional.Lexer
import Lint4d.Fix.Suppressions

/-!
# The renderer of the formatter

A document is rendered by an explicit stack of documents with their indentation
and mode.  A group is flat when it fits on the rest of the line, counting what
comes after it; the rows of an alignment group are padded to common column widths.

Text is a list of characters and lengths are lengths in UTF-8, as in the code.
The loop runs on fuel; `Doc.weight` gives enough of it.
-/

namespace Lint4d.Format

open Lint4d.Lib.Utf8
open Lint4d.Conditional (byteLen isWhitespace)
open Lint4d.Fix (lines)

/-! ## Documents -/

/-- A cell of an alignment row. -/
structure AlignCell (D : Type) where
  content : D
  pad : Bool

inductive Doc where
  | token (text : Text) (kind parentKind : String)
  | raw (text : Text)
  | lineStart (indent : Text)
  | hardline
  | blankLine
  | line
  | softline
  | preservedLine
  | concat (docs : List Doc)
  | indent (inner : Doc)
  | group (inner : Doc)
  | ifBreak (broken flat : Doc)
  | fill (parts : List Doc)
  | fillRest (parts : List Doc)
  | alignGroup (children : List Doc)
  | alignRow (cells : List (AlignCell Doc))
  | empty

inductive Mode where
  | flat
  | broken
deriving DecidableEq

inductive IndentStyle where
  | space
  | tab
deriving DecidableEq

/-- The configuration, with the rule that puts a space between two tokens. -/
structure Settings where
  indentSize : Nat
  indentStyle : IndentStyle
  maxLineLength : Nat
  wouldNeedSpace : String → String → String → String → Bool

structure Renderer where
  output : Text
  currentColumn : Nat
  lastTokenKind : String
  lastTokenParentKind : String
  protectedSpans : List (Nat × Nat)
  /-- The modes chosen so far for groups and for separators of fills, which the
  statements refer to. -/
  modes : List Mode

def Renderer.new : Renderer := ⟨[], 0, "", "", [], []⟩

section Rendering

variable (settings : Settings)

/-! ## Emitting -/

def indentString (level : Nat) : Text :=
  match settings.indentStyle with
  | .space => List.replicate (level * settings.indentSize) ' '
  | .tab => List.replicate level '\t'

def indentWidth (level : Nat) : Nat :=
  match settings.indentStyle with
  | .space => level * settings.indentSize
  | .tab => level

namespace Renderer

variable (r : Renderer)

def atLineStart : Bool := r.currentColumn = 0 ∨ r.output.getLast? = some '\n'

def push (text : Text) : Renderer := { r with output := r.output ++ text }

def emitNewline : Renderer := { r.push ['\n'] with currentColumn := 0 }

def clearSpacing : Renderer := { r with lastTokenKind := "", lastTokenParentKind := "" }

/-- Text that spans more than one line is protected. -/
def pushVerbatim (text : Text) : Renderer :=
  let start := byteLen r.output
  let r := r.push text
  if '\n' ∈ text then
    { r with protectedSpans := r.protectedSpans ++ [(start, byteLen r.output)] }
  else r

def emitWithSpacing (text : Text) (kind parentKind : String) (indent : Nat) : Renderer :=
  let r :=
    if r.atLineStart then
      { r.push (indentString settings indent) with
        currentColumn := byteLen (indentString settings indent) }
    else if settings.wouldNeedSpace r.lastTokenKind r.lastTokenParentKind kind parentKind then
      { r.push [' '] with currentColumn := r.currentColumn + 1 }
    else r
  let r := r.pushVerbatim text
  { r with
    currentColumn := r.currentColumn + byteLen text
    lastTokenKind := kind
    lastTokenParentKind := parentKind }

/-- Raw text that ends in white space needs no space after it. -/
def emitRaw (text : Text) : Renderer :=
  let r := { r with
    currentColumn := text.foldl (fun column c => if c = '\n' then 0 else column + 1) r.currentColumn }
  let r := if text.getLast?.any isWhitespace then r.clearSpacing else r
  r.pushVerbatim text

def emitLineStart (indent : Text) : Renderer :=
  let r := if r.atLineStart then r else r.emitNewline
  { r.push indent with currentColumn := r.currentColumn + byteLen indent }

def emitSpace : Renderer :=
  { r.push [' '] with currentColumn := r.currentColumn + 1 }.clearSpacing

end Renderer

/-! ## Fitting -/

/-- What is left of a line, and the last token on it. -/
structure Budget where
  remaining : Nat
  lastKind : String
  lastParent : String

def Budget.spend (budget : Budget) (needed : Nat) : Option Budget :=
  if needed > budget.remaining then none
  else some { budget with remaining := budget.remaining - needed }

def Budget.token (budget : Budget) (text : Text) (kind parentKind : String) : Option Budget :=
  let space := if settings.wouldNeedSpace budget.lastKind budget.lastParent kind parentKind
    then 1 else 0
  (budget.spend (space + byteLen text)).map fun budget =>
    { budget with lastKind := kind, lastParent := parentKind }

mutual

/-- The flat document fits; `none` when it does not. -/
def fitsInner (indent : Nat) : Doc → Budget → Option Budget
  | .empty, budget => some budget
  | .token text kind parentKind, budget => budget.token settings text kind parentKind
  | .raw text, budget => if '\n' ∈ text then some budget else budget.spend (byteLen text)
  | .hardline, _ | .blankLine, _ | .lineStart _, _ =>
    some ⟨settings.maxLineLength - indentWidth settings indent, "", ""⟩
  | .line, budget | .preservedLine, budget => budget.spend 1
  | .softline, budget => some budget
  | .concat docs, budget => fitsInnerParts indent docs budget
  | .indent inner, budget => fitsInner (indent + 1) inner budget
  | .group inner, budget => fitsInner indent inner budget
  | .ifBreak _ flat, budget => fitsInner indent flat budget
  | .fill parts, budget | .fillRest parts, budget => fitsInnerParts indent parts budget
  | .alignGroup _, _ => none
  | .alignRow cells, budget => fitsInnerCells indent cells budget

def fitsInnerParts (indent : Nat) : List Doc → Budget → Option Budget
  | [], budget => some budget
  | part :: parts, budget =>
    match fitsInner indent part budget with
    | none => none
    | some budget => fitsInnerParts indent parts budget

def fitsInnerCells (indent : Nat) : List (AlignCell Doc) → Budget → Option Budget
  | [], budget => some budget
  | ⟨content, _⟩ :: cells, budget =>
    match fitsInner indent content budget with
    | none => none
    | some budget => fitsInnerCells indent cells budget

end

inductive FitsResult where
  | overflow
  | lineBreak
  | proceed (budget : Budget)

def FitsResult.ofOption : Option Budget → FitsResult
  | none => .overflow
  | some budget => .proceed budget

mutual

/-- Measure an item of the stack in the mode it has there. -/
def fitsStackItem (indent : Nat) (mode : Mode) : Doc → Budget → FitsResult
  | .empty, budget => .proceed budget
  | .hardline, _ | .blankLine, _ | .lineStart _, _ => .lineBreak
  | .token text kind parentKind, budget => .ofOption (budget.token settings text kind parentKind)
  | .raw text, budget => if '\n' ∈ text then .lineBreak else .ofOption (budget.spend (byteLen text))
  | .line, budget | .preservedLine, budget =>
    match mode with
    | .flat => .ofOption (budget.spend 1)
    | .broken => .lineBreak
  | .softline, budget =>
    match mode with
    | .flat => .proceed budget
    | .broken => .lineBreak
  | .concat docs, budget => fitsStackParts indent mode docs budget
  | .indent inner, budget => fitsStackItem (indent + 1) mode inner budget
  | .group inner, budget => .ofOption (fitsInner settings indent inner budget)
  | .ifBreak broken flat, budget =>
    match mode with
    | .flat => fitsStackItem indent mode flat budget
    | .broken => fitsStackItem indent mode broken budget
  | .fill parts, budget | .fillRest parts, budget => fitsStackParts indent .flat parts budget
  | .alignGroup _, _ => .lineBreak
  | .alignRow cells, budget => fitsStackCells indent mode cells budget

def fitsStackParts (indent : Nat) (mode : Mode) : List Doc → Budget → FitsResult
  | [], budget => .proceed budget
  | part :: parts, budget =>
    match fitsStackItem indent mode part budget with
    | .proceed budget => fitsStackParts indent mode parts budget
    | other => other

def fitsStackCells (indent : Nat) (mode : Mode) : List (AlignCell Doc) → Budget → FitsResult
  | [], budget => .proceed budget
  | ⟨content, _⟩ :: cells, budget =>
    match fitsStackItem indent mode content budget with
    | .proceed budget => fitsStackCells indent mode cells budget
    | other => other

end

/-- The top of the stack comes first. -/
abbrev Stack := List (Nat × Mode × Doc)

def fitsRest : Stack → Budget → Bool
  | [], _ => true
  | (indent, mode, doc) :: stack, budget =>
    match fitsStackItem settings indent mode doc budget with
    | .overflow => false
    | .lineBreak => true
    | .proceed budget => fitsRest stack budget

/-- The budget of the line the renderer is on. -/
def Renderer.budget (r : Renderer) (indent : Nat) : Budget :=
  if r.atLineStart then ⟨settings.maxLineLength - indentWidth settings indent, "", ""⟩
  else ⟨settings.maxLineLength - r.currentColumn, r.lastTokenKind, r.lastTokenParentKind⟩

def fitsGroupWithRest (r : Renderer) (inner : Doc) (indent : Nat) (stack : Stack) : Bool :=
  match fitsInner settings indent inner (r.budget settings indent) with
  | none => false
  | some budget => fitsRest settings stack budget

/-- A hard line forces a break, and so does a preserved one where the enclosing
group is broken; otherwise the pair decides. -/
def separatorMode (r : Renderer) (indent : Nat) (mode : Mode) (sep content : Doc) : Mode :=
  match sep, mode with
  | .hardline, _ => .broken
  | .preservedLine, .broken => .broken
  | _, _ =>
    match fitsInner settings indent sep (r.budget settings indent) with
    | none => .broken
    | some budget => if (fitsInner settings indent content budget).isSome then .flat else .broken

/-! ## Column widths -/

structure Measure where
  width : Nat
  lastKind : String
  lastParent : String

mutual

def measureWidthInner : Doc → Measure → Measure
  | .empty, m | .softline, m => m
  | .token text kind parentKind, m =>
    let space := if settings.wouldNeedSpace m.lastKind m.lastParent kind parentKind then 1 else 0
    ⟨m.width + space + byteLen text, kind, parentKind⟩
  | .raw text, m =>
    match (lines [] text).getLast? with
    | some last => { m with width := m.width + byteLen last }
    | none => m
  | .hardline, m | .blankLine, m | .lineStart _, m => { m with width := 0 }
  | .line, m | .preservedLine, m => { m with width := m.width + 1 }
  | .concat docs, m => measureParts docs m
  | .indent inner, m => measureWidthInner inner m
  | .group inner, m => measureWidthInner inner m
  | .ifBreak _ flat, m => measureWidthInner flat m
  | .fill parts, m | .fillRest parts, m => measureParts parts m
  | .alignGroup children, m => measureParts children m
  | .alignRow cells, m => measureCells cells m

def measureParts : List Doc → Measure → Measure
  | [], m => m
  | part :: parts, m => measureParts parts (measureWidthInner part m)

def measureCells : List (AlignCell Doc) → Measure → Measure
  | [], m => m
  | ⟨content, _⟩ :: cells, m => measureCells cells (measureWidthInner content m)

end

/-- The widths of the cells of a row; the spacing state goes from cell to cell. -/
def cellWidths (lastKind lastParent : String) : List (AlignCell Doc) → List Nat
  | [] => []
  | cell :: cells =>
    let m := measureWidthInner settings cell.content ⟨0, lastKind, lastParent⟩
    m.width :: cellWidths m.lastKind m.lastParent cells

/-- Four times a quartile, `quarter` of them, of sorted widths. -/
def quartile (quarter : Nat) (sorted : List Nat) : Nat :=
  let rank := quarter * (sorted.length - 1)
  let lower := sorted.getD (rank / 4) 0
  let upper := sorted.getD ((rank + 3) / 4) 0
  4 * lower + rank % 4 * (upper - lower)

/-- Widths far above the others, from six rows on. -/
def detectOutliers (widths : List Nat) : List Bool :=
  if widths.length < 6 then widths.map fun _ => false
  else
    let sorted := widths.mergeSort
    let q1 := quartile 1 sorted
    let q3 := quartile 3 sorted
    let iqr := max (q3 - q1) (4 * 5)
    -- a width above the third quartile by one and a half of the range
    widths.map fun width => decide (8 * width > 2 * q3 + 3 * iqr)

def maxWidths : List Nat → List Nat → List Nat
  | [], widths => widths
  | widths, [] => widths
  | a :: as, b :: bs => max a b :: maxWidths as bs

/-- A row at its position in the alignment group. -/
abbrev Row := Nat × List (AlignCell Doc)

/-- The widths for the rows of one group; an outlier has none. -/
def groupWidths (group : List Row) : List (Nat × Option (List Nat)) :=
  let measured := group.map fun row => cellWidths settings "" "" row.2
  let outliers := detectOutliers (measured.map fun widths => widths.headD 0)
  let columns := ((measured.zip outliers).filter fun entry => !entry.2).foldl
    (fun widths entry => maxWidths widths entry.1) []
  (group.zip outliers).map fun (row, outlier) => (row.1, if outlier then none else some columns)

/-! ## The loop -/

inductive MergedItem where
  | row (cells : List (AlignCell Doc))
  | other (doc : Doc)

/-- The rows of the children, in groups that blank lines separate, and the others. -/
def splitChildren (position : Nat) (group : List Row) :
    List Doc → List (List Row) × List (Nat × Doc)
  | [] => ([group], [])
  | .alignRow cells :: rest => splitChildren (position + 1) (group ++ [(position, cells)]) rest
  | .blankLine :: rest =>
    let (groups, others) := splitChildren (position + 1) [] rest
    (group :: groups, (position, .blankLine) :: others)
  | other :: rest =>
    let (groups, others) := splitChildren (position + 1) group rest
    (groups, (position, other) :: others)

/-- Rows and others back in the order of their positions. -/
def mergeItems (groups : List (List Row)) (others : List (Nat × Doc)) : List (Nat × MergedItem) :=
  (groups.flatten.map (fun row => (row.1, MergedItem.row row.2)) ++
      others.map fun other => (other.1, MergedItem.other other.2)).mergeSort
    fun a b => decide (a.1 ≤ b.1)

def startRow (r : Renderer) (indent : Nat) : Renderer :=
  let r := if r.atLineStart then r else r.emitNewline
  { r.push (indentString settings indent) with
    currentColumn := byteLen (indentString settings indent) }.clearSpacing

section Inline

variable (inline : Renderer → Nat → Doc → Option Renderer)

def renderCells (indent : Nat) : Renderer → List (AlignCell Doc) → Option Renderer
  | r, [] => some r
  | r, cell :: cells => do
    let r ← inline r indent cell.content
    renderCells indent r cells

/-- Cells are padded by the bytes that were rendered. -/
def renderPaddedCells (indent : Nat) :
    Renderer → List Nat → List (AlignCell Doc) → Option Renderer
  | r, _, [] => some r
  | r, widths, cell :: cells => do
    let before := byteLen r.output
    let r ← inline r indent cell.content
    let pad := if cell.pad then widths.headD 0 - (byteLen r.output - before) else 0
    renderPaddedCells indent
      { r.push (List.replicate pad ' ') with currentColumn := r.currentColumn + pad }
      widths.tail cells

def renderItem (indent : Nat) (widths : List (Nat × Option (List Nat))) (r : Renderer)
    (item : Nat × MergedItem) : Option Renderer :=
  match item.2 with
  | .row cells =>
    match widths.find? fun entry => entry.1 = item.1 with
    | some (_, none) => renderCells inline indent (startRow settings r indent) cells
    | some (_, some widths) =>
      renderPaddedCells inline indent (startRow settings r indent) widths cells
    | none => some r
  | .other doc => inline r indent doc

def renderItems (indent : Nat) (widths : List (Nat × Option (List Nat))) :
    Renderer → List (Nat × MergedItem) → Option Renderer
  | r, [] => some r
  | r, item :: items => do
    let r ← renderItem settings inline indent widths r item
    renderItems indent widths r items

def renderAlignGroup (r : Renderer) (children : List Doc) (indent : Nat) : Option Renderer :=
  let (groups, others) := splitChildren 0 [] children
  renderItems settings inline indent (groups.flatMap (groupWidths settings)) r
    (mergeItems groups others)

def Renderer.choose (r : Renderer) (mode : Mode) : Renderer := { r with modes := r.modes ++ [mode] }

/-- Render one document and say what goes on the stack for it. -/
def renderStep (r : Renderer) (indent : Nat) (mode : Mode) (doc : Doc) (stack : Stack) :
    Option (Renderer × Stack) :=
  match doc with
  | .empty => some (r, stack)
  | .token text kind parentKind =>
    some (r.emitWithSpacing settings text kind parentKind indent, stack)
  | .raw text => some (r.emitRaw text, stack)
  | .lineStart text => some (r.emitLineStart text, stack)
  | .hardline => some (r.emitNewline, stack)
  | .blankLine => some (r.emitNewline.push ['\n'], stack)
  | .line | .preservedLine =>
    match mode with
    | .flat => some (r.emitSpace, stack)
    | .broken => some (r.emitNewline, stack)
  | .softline =>
    match mode with
    | .flat => some (r, stack)
    | .broken => some (r.emitNewline, stack)
  | .concat docs => some (r, docs.map (fun doc => (indent, mode, doc)) ++ stack)
  | .indent inner => some (r, (indent + 1, mode, inner) :: stack)
  | .group inner =>
    let chosen := if fitsGroupWithRest settings r inner indent stack then .flat else .broken
    some (r.choose chosen, (indent, chosen, inner) :: stack)
  | .ifBreak broken flat =>
    match mode with
    | .flat => some (r, (indent, mode, flat) :: stack)
    | .broken => some (r, (indent, mode, broken) :: stack)
  | .fill parts => some (r, (indent, mode, .fillRest parts) :: stack)
  | .fillRest [] => some (r, stack)
  | .fillRest [part] => some (r, (indent, .flat, part) :: stack)
  | .fillRest (sep :: content :: rest) =>
    let chosen := separatorMode settings r indent mode sep content
    let remaining := if rest = [] then [] else [(indent, mode, .fillRest rest)]
    some (r.choose chosen, (indent, chosen, sep) :: (indent, .flat, content) :: remaining ++ stack)
  | .alignGroup children => do
    let r ← renderAlignGroup settings inline r children indent
    pure (r, stack)
  -- every cell goes on top of the one before it
  | .alignRow cells => some (r, (cells.map fun cell => (indent, mode, cell.content)).reverse ++ stack)

end Inline

def drainRenderStack : Nat → Renderer → Stack → Option Renderer
  | 0, _, _ => none
  | _ + 1, r, [] => some r
  | fuel + 1, r, (indent, mode, doc) :: stack => do
    let (r, stack) ← renderStep settings
      (fun r indent doc => drainRenderStack fuel r [(indent, .flat, doc)]) r indent mode doc stack
    drainRenderStack fuel r stack

mutual

/-- The steps a document takes at most. -/
def Doc.weight : Doc → Nat
  | .concat docs => Doc.weights docs + 1
  | .indent inner => inner.weight + 1
  | .group inner => inner.weight + 1
  | .ifBreak broken flat => broken.weight + flat.weight + 1
  | .fill parts => Doc.weights parts + 2
  | .fillRest parts => Doc.weights parts + 1
  | .alignGroup children => Doc.weights children + 1
  | .alignRow cells => Doc.cellWeights cells + 1
  | _ => 1

def Doc.weights : List Doc → Nat
  | [] => 0
  | doc :: docs => doc.weight + 1 + Doc.weights docs

def Doc.cellWeights : List (AlignCell Doc) → Nat
  | [] => 0
  | ⟨content, _⟩ :: cells => content.weight + 1 + Doc.cellWeights cells

end

def renderWithProtectedSpans (doc : Doc) : Option Renderer :=
  drainRenderStack settings (doc.weight + 1) .new [(0, .broken, doc)]

end Rendering

end Lint4d.Format
