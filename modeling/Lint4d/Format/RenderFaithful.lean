import Lint4d.Format.Renderer

/-!
# What is rendered

The output is made of pieces: texts of the document, which are written as they
are and in document order, and white space between them.  So nothing is lost or
reordered, and the protected spans are the ranges of the texts over several lines.
-/

namespace Lint4d.Format

open List hiding choose
open Lint4d.Lib.Utf8 Renderer
open Lint4d.Conditional (byteLen byteLen_append isWhitespace)

variable {other : Renderer}

/-! ## Well-placed documents -/

mutual

/-- Alignment rows are direct children of alignment groups. -/
def Doc.rowsInGroups : Doc → Bool
  | .concat docs | .fill docs | .fillRest docs => Doc.allRowsInGroups docs
  | .indent inner => inner.rowsInGroups
  | .group inner => inner.rowsInGroups
  | .ifBreak broken flat => broken.rowsInGroups && flat.rowsInGroups
  | .alignGroup children => Doc.childrenRowsInGroups children
  | .alignRow _ => false
  | _ => true

def Doc.allRowsInGroups : List Doc → Bool
  | [] => true
  | doc :: docs => doc.rowsInGroups && Doc.allRowsInGroups docs

def Doc.childrenRowsInGroups : List Doc → Bool
  | [] => true
  | .alignRow cells :: docs => Doc.cellsRowsInGroups cells && Doc.childrenRowsInGroups docs
  | doc :: docs => doc.rowsInGroups && Doc.childrenRowsInGroups docs

def Doc.cellsRowsInGroups : List (AlignCell Doc) → Bool
  | [] => true
  | ⟨content, _⟩ :: cells => content.rowsInGroups && Doc.cellsRowsInGroups cells

end

mutual

/-- The indentation of a line start is white space. -/
def Doc.indentsBlank : Doc → Bool
  | .lineStart text => text.all isWhitespace
  | .concat docs | .fill docs | .fillRest docs | .alignGroup docs => Doc.allIndentsBlank docs
  | .indent inner => inner.indentsBlank
  | .group inner => inner.indentsBlank
  | .ifBreak broken flat => broken.indentsBlank && flat.indentsBlank
  | .alignRow cells => Doc.cellsIndentsBlank cells
  | _ => true

def Doc.allIndentsBlank : List Doc → Bool
  | [] => true
  | doc :: docs => doc.indentsBlank && Doc.allIndentsBlank docs

def Doc.cellsIndentsBlank : List (AlignCell Doc) → Bool
  | [] => true
  | ⟨content, _⟩ :: cells => content.indentsBlank && Doc.cellsIndentsBlank cells

end

/-! ## The texts of a document -/

mutual

/-- The texts a document shows in document order, in a mode, with the modes chosen for
its groups and for the separators of its fills. -/
inductive Shows : Mode → Doc → List Mode → List Text → Prop where
  | token (mode : Mode) (text : Text) (kind parentKind : String) :
      Shows mode (.token text kind parentKind) [] [text]
  | raw (mode : Mode) (text : Text) : Shows mode (.raw text) [] [text]
  | lineStart (mode : Mode) (indent : Text) : Shows mode (.lineStart indent) [] []
  | hardline (mode : Mode) : Shows mode .hardline [] []
  | blankLine (mode : Mode) : Shows mode .blankLine [] []
  | line (mode : Mode) : Shows mode .line [] []
  | softline (mode : Mode) : Shows mode .softline [] []
  | preservedLine (mode : Mode) : Shows mode .preservedLine [] []
  | empty (mode : Mode) : Shows mode .empty [] []
  | concat {mode docs modes texts}
      (h : ShowsAll mode docs modes texts) : Shows mode (.concat docs) modes texts
  | indent {mode inner modes texts}
      (h : Shows mode inner modes texts) : Shows mode (.indent inner) modes texts
  | group {mode chosen inner modes texts}
      (h : Shows chosen inner modes texts) : Shows mode (.group inner) (chosen :: modes) texts
  | ifFlat {broken flat modes texts}
      (h : Shows .flat flat modes texts) : Shows .flat (.ifBreak broken flat) modes texts
  | ifBroken {broken flat modes texts}
      (h : Shows .broken broken modes texts) : Shows .broken (.ifBreak broken flat) modes texts
  | fill {mode parts modes texts}
      (h : ShowsFill mode parts modes texts) : Shows mode (.fill parts) modes texts
  | fillRest {mode parts modes texts}
      (h : ShowsFill mode parts modes texts) : Shows mode (.fillRest parts) modes texts
  | alignGroup {mode children modes texts}
      (h : ShowsChildren children modes texts) : Shows mode (.alignGroup children) modes texts

inductive ShowsAll : Mode → List Doc → List Mode → List Text → Prop where
  | nil (mode : Mode) : ShowsAll mode [] [] []
  | cons {mode doc docs modes others texts more} (h : Shows mode doc modes texts)
      (hs : ShowsAll mode docs others more) :
      ShowsAll mode (doc :: docs) (modes ++ others) (texts ++ more)

/-- The contents of a fill are flat, and each separator has a mode of its own. -/
inductive ShowsFill : Mode → List Doc → List Mode → List Text → Prop where
  | nil (mode : Mode) : ShowsFill mode [] [] []
  | single (mode : Mode) {part modes texts}
      (h : Shows .flat part modes texts) : ShowsFill mode [part] modes texts
  | pair {mode chosen sep content rest m₁ m₂ m₃ t₁ t₂ t₃} (hsep : Shows chosen sep m₁ t₁)
      (hcontent : Shows .flat content m₂ t₂) (hrest : ShowsFill mode rest m₃ t₃) :
      ShowsFill mode (sep :: content :: rest) (chosen :: (m₁ ++ (m₂ ++ m₃))) (t₁ ++ (t₂ ++ t₃))

/-- The children of an alignment group are flat, whatever the mode around it. -/
inductive ShowsChildren : List Doc → List Mode → List Text → Prop where
  | nil : ShowsChildren [] [] []
  | row {cells children modes others texts more}
      (h : ShowsAll .flat (cells.map AlignCell.content) modes texts)
      (hs : ShowsChildren children others more) :
      ShowsChildren (.alignRow cells :: children) (modes ++ others) (texts ++ more)
  | other {child children modes others texts more}
      (h : Shows .flat child modes texts) (hs : ShowsChildren children others more) :
      ShowsChildren (child :: children) (modes ++ others) (texts ++ more)

end

/-! ## Pieces of output -/

inductive Piece where
  | gap (text : Text)
  | verbatim (text : Text)

namespace Piece

def text : Piece → Text
  | gap text => text
  | verbatim text => text

def isBlank : Piece → Bool
  | gap text => text.all isWhitespace
  | verbatim _ => true

/-- The texts among the pieces. -/
def texts (pieces : List Piece) : List Text :=
  pieces.filterMap fun
    | gap _ => none
    | verbatim text => some text

/-- The ranges of the texts over several lines, in bytes. -/
def spans (offset : Nat) : List Piece → List (Nat × Nat)
  | [] => []
  | gap text :: pieces => spans (offset + byteLen text) pieces
  | verbatim text :: pieces =>
    (if '\n' ∈ text then [(offset, offset + byteLen text)] else []) ++
      spans (offset + byteLen text) pieces

end Piece

lemma spans_append (off : Nat) (pieces others : List Piece) :
    Piece.spans off (pieces ++ others) = Piece.spans off pieces ++
        Piece.spans (off + byteLen (pieces.flatMap Piece.text)) others := by
  induction pieces generalizing off with
  | nil => simp [Piece.spans, byteLen]
  | cons piece pieces ih =>
    cases piece with
    | gap text | verbatim text => simp [Piece.spans, ih, Piece.text, Nat.add_assoc]

/-- The renderer has written the pieces and chosen the modes. -/
structure Emits (r after : Renderer) (pieces : List Piece) (modes : List Mode) : Prop where
  output : after.output = r.output ++ pieces.flatMap Piece.text
  spans : after.protectedSpans = r.protectedSpans ++ Piece.spans (byteLen r.output) pieces
  blank : ∀ piece ∈ pieces, piece.isBlank
  modes : after.modes = r.modes ++ modes

namespace Emits

variable {r after last : Renderer} {pieces others : List Piece} {modes more : List Mode}

lemma refl (r : Renderer) : Emits r r [] [] := ⟨by simp, by simp [Piece.spans], by simp, by simp⟩

lemma trans (h : Emits r after pieces modes) (h' : Emits after last others more) :
    Emits r last (pieces ++ others) (modes ++ more) where
  output := by rw [h'.output, h.output, flatMap_append, append_assoc]
  spans := by
    rw [h'.spans, h.spans, h.output, spans_append, byteLen_append, append_assoc]
  blank := by
    exact forall_mem_append.2 ⟨h.blank, h'.blank⟩
  modes := by rw [h'.modes, h.modes, append_assoc]

/-- Only the output, the spans and the modes count. -/
lemma congr {before : Renderer} (h : Emits r after pieces modes)
    (houtput : before.output = r.output) (hspans : before.protectedSpans = r.protectedSpans)
    (hmodes : before.modes = r.modes) (houtput' : other.output = after.output)
    (hspans' : other.protectedSpans = after.protectedSpans) (hmodes' : other.modes = after.modes) :
    Emits before other pieces modes where
  output := by rw [houtput', houtput, h.output]
  spans := by rw [hspans', hspans, houtput, h.spans]
  blank := h.blank
  modes := by rw [hmodes', hmodes, h.modes]

end Emits

variable {text : Text}

lemma emits_push (r : Renderer) (h : text.all isWhitespace) :
    Emits r (r.push text) [.gap text] [] :=
  ⟨by simp [push, Piece.text], by simp [push, Piece.spans],
    by simpa [Piece.isBlank] using h, by simp [push]⟩

lemma emits_pushVerbatim (r : Renderer) (text : Text) :
    Emits r (r.pushVerbatim text) [.verbatim text] [] := by
  unfold pushVerbatim
  split <;> rename_i hnewline <;>
    exact ⟨by simp [push, Piece.text], by simp [push, Piece.spans, hnewline],
      by simp [Piece.isBlank], by simp [push]⟩

/-- The renderer has written the texts, with white space around them, and chosen the modes. -/
def Writes (r after : Renderer) (texts : List Text) (modes : List Mode) : Prop :=
  ∃ pieces, Emits r after pieces modes ∧ Piece.texts pieces = texts

namespace Writes

variable {r after last : Renderer} {texts more : List Text} {modes others : List Mode}

lemma refl (r : Renderer) : Writes r r [] [] := ⟨[], .refl r, rfl⟩

lemma trans (h : Writes r after texts modes) (h' : Writes after last more others) :
    Writes r last (texts ++ more) (modes ++ others) := by
  obtain ⟨pieces, hpieces, rfl⟩ := h
  obtain ⟨pieces', hpieces', rfl⟩ := h'
  exact ⟨pieces ++ pieces', hpieces.trans hpieces', by simp [Piece.texts]⟩

/-- White space first. -/
lemma after_gap (h : Writes r after [] []) (h' : Writes after last texts modes) :
    Writes r last texts modes := h.trans h'

lemma of_same (h : Writes r after texts modes) (houtput : other.output = after.output := by rfl)
    (hspans : other.protectedSpans = after.protectedSpans := by rfl)
    (hmodes : other.modes = after.modes := by rfl) : Writes r other texts modes := by
  obtain ⟨pieces, hpieces, htexts⟩ := h
  exact ⟨pieces, hpieces.congr rfl rfl rfl houtput hspans hmodes, htexts⟩

end Writes

/-- The renderer has written what a document shows. -/
def Renders (shows : List Mode → List Text → Prop) (r after : Renderer) : Prop :=
  ∃ modes texts, shows modes texts ∧ Writes r after texts modes

namespace Renders

variable {first second both : List Mode → List Text → Prop} {r middle after : Renderer}

lemma append (h : Renders first r middle) (h' : Renders second middle after)
    (hboth : ∀ {m₁ m₂ t₁ t₂}, first m₁ t₁ → second m₂ t₂ → both (m₁ ++ m₂) (t₁ ++ t₂)) :
    Renders both r after := by
  obtain ⟨m₁, t₁, hfirst, hwrites⟩ := h
  obtain ⟨m₂, t₂, hsecond, hwrites'⟩ := h'
  exact ⟨_, _, hboth hfirst hsecond, hwrites.trans hwrites'⟩

lemma after_gap (h : Writes r middle [] []) (h' : Renders first middle after) :
    Renders first r after := by
  obtain ⟨modes, texts, hfirst, hwrites⟩ := h'
  exact ⟨modes, texts, hfirst, h.after_gap hwrites⟩

end Renders

variable {mode : Mode}

section Steps

variable {settings : Settings} {docs : List Doc} {modes : List Mode} {doc : Doc} {fuel bound : Nat}

lemma writes_push (r : Renderer) (h : text.all isWhitespace) : Writes r (r.push text) [] [] :=
  ⟨_, emits_push r h, rfl⟩

lemma writes_pushVerbatim (r : Renderer) (text : Text) :
    Writes r (r.pushVerbatim text) [text] [] := ⟨_, emits_pushVerbatim r text, rfl⟩

lemma writes_emitNewline (r : Renderer) : Writes r r.emitNewline [] [] :=
  (writes_push r (by decide)).of_same rfl rfl rfl

lemma all_replicate_blank (count : Nat) {c : Char} (h : isWhitespace c = true) :
    (replicate count c).all isWhitespace := by
  simp [all_replicate, h]

lemma indentString_blank (settings : Settings) (level : Nat) :
    (indentString settings level).all isWhitespace := by
  unfold indentString
  split
  · exact all_replicate_blank _ (by decide)
  · exact all_replicate_blank _ (by decide)

lemma writes_emitWithSpacing (r : Renderer) (text : Text) (kind parentKind : String)
    (indent : Nat) :
    Writes r (r.emitWithSpacing settings text kind parentKind indent) [text] [] := by
  unfold emitWithSpacing
  split
  · have hindent : Writes r
        { r.push (indentString settings indent) with
          currentColumn := byteLen (indentString settings indent) } [] [] :=
      (writes_push r (indentString_blank settings indent)).of_same
    exact (hindent.after_gap (writes_pushVerbatim _ text)).of_same
  · split
    · have hspace : Writes r { r.push [' '] with currentColumn := r.currentColumn + 1 } [] [] :=
        (writes_push r (by decide)).of_same rfl rfl rfl
      exact (hspace.after_gap (writes_pushVerbatim _ text)).of_same
    · exact (writes_pushVerbatim r text).of_same

lemma writes_emitRaw (r : Renderer) (text : Text) : Writes r (r.emitRaw text) [text] [] := by
  unfold emitRaw
  -- the column and the spacing state do not show in the output
  have hstate : ∀ before : Renderer, before.output = r.output →
      before.protectedSpans = r.protectedSpans → before.modes = r.modes →
      Writes r (before.pushVerbatim text) [text] [] := by
    intro before houtput hspans hmodes
    have hsame : Writes r before [] [] := (Writes.refl r).of_same houtput hspans hmodes
    exact hsame.after_gap (writes_pushVerbatim before text)
  split
  · exact hstate _ rfl rfl rfl
  · exact hstate _ rfl rfl rfl

lemma writes_lineBreak (r : Renderer) :
    Writes r (if r.atLineStart then r else r.emitNewline) [] [] := by
  split
  · exact .refl r
  · exact writes_emitNewline r

lemma writes_emitLineStart (r : Renderer) (h : text.all isWhitespace) :
    Writes r (r.emitLineStart text) [] [] := by
  have hpush := (writes_lineBreak r).after_gap (writes_push _ h)
  exact hpush.of_same

lemma writes_emitSpace (r : Renderer) : Writes r r.emitSpace [] [] :=
  (writes_push r (by decide)).of_same rfl rfl rfl

lemma writes_startRow (settings : Settings) (r : Renderer) (indent : Nat) :
    Writes r (startRow settings r indent) [] [] := by
  have hpush := (writes_lineBreak r).after_gap
    (writes_push _ (indentString_blank settings indent))
  exact hpush.of_same

lemma writes_choose (r : Renderer) (mode : Mode) : Writes r (r.choose mode) [] [mode] :=
  ⟨[], ⟨by simp [choose], by simp [choose, Piece.spans], by simp, by simp [choose]⟩, rfl⟩

/-! ## The stack -/

/-- A document that is well placed all the way down. -/
def Good (doc : Doc) : Prop := doc.rowsInGroups = true ∧ doc.indentsBlank = true

inductive ShowsStack : Stack → List Mode → List Text → Prop where
  | nil : ShowsStack [] [] []
  | cons {indent mode doc stack modes others texts more} (h : Shows mode doc modes texts)
      (hs : ShowsStack stack others more) :
      ShowsStack ((indent, mode, doc) :: stack) (modes ++ others) (texts ++ more)

variable {indent : Nat} {stack : Stack}

lemma showsStack_append {texts : List Text}
    (h : ShowsStack (docs.map (fun doc => (indent, mode, doc)) ++ stack) modes texts) :
    ∃ m₁ m₂ t₁ t₂, ShowsAll mode docs m₁ t₁ ∧ ShowsStack stack m₂ t₂ ∧ modes = m₁ ++ m₂ ∧
      texts = t₁ ++ t₂ := by
  induction docs generalizing modes texts with
  | nil => exact ⟨[], modes, [], texts, .nil mode, h, rfl, rfl⟩
  | cons doc docs ih =>
    cases h with
    | cons hdoc hrest =>
      obtain ⟨m₁, m₂, t₁, t₂, hall, hstack, rfl, rfl⟩ := ih hrest
      exact ⟨_, m₂, _, t₂, .cons hdoc hall, hstack, by simp, by simp⟩

/-- What the inline rendering of a document must do. -/
def InlineWrites (inline : Renderer → Nat → Doc → Option Renderer) : Prop :=
  ∀ r indent doc after, inline r indent doc = some after → Good doc →
    ∃ modes texts, Shows .flat doc modes texts ∧ Writes r after texts modes

/-! ## Alignment groups -/

variable {inline : Renderer → Nat → Doc → Option Renderer} {cells : List (AlignCell Doc)}
  {r after : Renderer}

lemma writes_renderCells (hinline : InlineWrites inline) (hgood : ∀ cell ∈ cells, Good cell.content)
    (h : renderCells inline indent r cells = some after) :
    Renders (ShowsAll .flat (cells.map AlignCell.content)) r after := by
  induction cells generalizing r with
  | nil =>
    cases h
    exact ⟨[], [], .nil _, .refl _⟩
  | cons cell cells ih =>
    obtain ⟨middle, hcell, hrest⟩ := Option.bind_eq_some_iff.1 h
    exact Renders.append (hinline r indent _ middle hcell (hgood cell (by simp)))
      (ih (forall_mem_cons.1 hgood).2 hrest) .cons

lemma writes_renderPaddedCells (hinline : InlineWrites inline)
    (hgood : ∀ cell ∈ cells, Good cell.content) {widths : List Nat}
    (h : renderPaddedCells inline indent r widths cells = some after) :
    Renders (ShowsAll .flat (cells.map AlignCell.content)) r after := by
  induction cells generalizing r widths with
  | nil =>
    cases h
    exact ⟨[], [], .nil _, .refl _⟩
  | cons cell cells ih =>
    obtain ⟨middle, hcell, hrest⟩ := Option.bind_eq_some_iff.1 h
    refine Renders.append (hinline r indent _ middle hcell (hgood cell (by simp)))
      (.after_gap ?_ (ih (forall_mem_cons.1 hgood).2 hrest)) .cons
    exact (writes_push middle (all_replicate_blank _ (by decide))).of_same rfl rfl rfl

/-- The children as items, with their positions. -/
def itemsFrom (position : Nat) : List Doc → List (Nat × MergedItem)
  | [] => []
  | .alignRow cells :: rest => (position, .row cells) :: itemsFrom (position + 1) rest
  | other :: rest => (position, .other other) :: itemsFrom (position + 1) rest

lemma itemsFrom_spec (pos : Nat) (kids : List Doc) :
    (∀ item ∈ itemsFrom pos kids, pos ≤ item.1) ∧
      (itemsFrom pos kids).Pairwise fun a b => a.1 < b.1 := by
  induction kids generalizing pos with
  | nil => simp [itemsFrom]
  | cons child rest ih =>
    obtain ⟨hle, hpw⟩ := ih (pos + 1)
    have hcons : ∃ item, itemsFrom pos (child :: rest) =
        (pos, item) :: itemsFrom (pos + 1) rest := by
      cases child <;> exact ⟨_, rfl⟩
    obtain ⟨item, hcons⟩ := hcons
    rw [hcons]
    refine ⟨forall_mem_cons.2 ⟨le_rfl, fun other hother => ?_⟩, pairwise_cons.2 ⟨hle, hpw⟩⟩
    have := hle other hother
    omega

/-- The row of a group as an item. -/
def rowItem (row : Row) : Nat × MergedItem := (row.1, .row row.2)

def otherItem (other : Nat × Doc) : Nat × MergedItem := (other.1, .other other.2)

lemma splitChildren_perm (pos : Nat) (group : List Row) (kids : List Doc) :
    ((splitChildren pos group kids).1.flatten.map rowItem ++
        (splitChildren pos group kids).2.map otherItem).Perm
      (group.map rowItem ++ itemsFrom pos kids) := by
  fun_induction splitChildren pos group kids with
  | case1 pos group => simp [itemsFrom]
  | case2 pos group cells rest ih =>
    refine ih.trans ?_
    simp [itemsFrom, rowItem]
  | case3 pos group rest groups others hsplit ih =>
    rw [hsplit] at ih
    simp only [flatten_cons, map_append, map_cons, append_assoc]
    refine Perm.append_left _ (perm_middle.trans ?_)
    exact Perm.cons _ ih
  | case4 pos group other rest hrow _ groups others hsplit ih =>
    rw [hsplit] at ih
    have hitems : itemsFrom pos (other :: rest) =
        (pos, .other other) :: itemsFrom (pos + 1) rest := by
      cases other with
      | alignRow cells => exact (hrow cells rfl).elim
      | _ => rfl
    rw [hitems, map_cons]
    refine perm_middle.trans (Perm.trans ?_ perm_middle.symm)
    exact Perm.cons _ ih

/-- The items come back in the order of the children. -/
lemma mergeItems_splitChildren (kids : List Doc) :
    mergeItems (splitChildren 0 [] kids).1 (splitChildren 0 [] kids).2 = itemsFrom 0 kids := by
  have hperm := splitChildren_perm 0 [] kids
  obtain ⟨-, hpw⟩ := itemsFrom_spec 0 kids
  have hkeys : ((itemsFrom 0 kids).map Prod.fst).Nodup := by
    rw [Nodup, pairwise_map]
    exact hpw.imp fun h => Nat.ne_of_lt h
  have hmerge : (mergeItems (splitChildren 0 [] kids).1
      (splitChildren 0 [] kids).2).Perm (itemsFrom 0 kids) :=
    (mergeSort_perm _ _).trans hperm
  have hsorted : (mergeItems (splitChildren 0 [] kids).1
      (splitChildren 0 [] kids).2).Pairwise fun a b => a.1 ≤ b.1 := by
    refine (pairwise_mergeSort ?_ ?_ _).imp fun h => of_decide_eq_true h
    · intro a b c hab hbc
      simp only [decide_eq_true_eq] at hab hbc ⊢
      omega
    · intro a b
      simp only [Bool.or_eq_true, decide_eq_true_eq]
      omega
  have hitems : (itemsFrom 0 kids).Pairwise fun a b => a.1 ≤ b.1 :=
    hpw.imp fun h => Nat.le_of_lt h
  -- two items at one position are the same item
  refine Perm.eq_of_pairwise ?_ hsorted hitems hmerge
  intro a b ha hb hab hba
  exact inj_on_of_nodup_map hkeys (hmerge.mem_iff.1 ha) hb (Nat.le_antisymm hab hba)

lemma length_detectOutliers (widths : List Nat) : (detectOutliers widths).length = widths.length := by
  unfold detectOutliers
  split <;> simp

lemma map_fst_groupWidths (group : List Row) :
    (groupWidths settings group).map Prod.fst = group.map Prod.fst := by
  have hlen : group.length ≤ (detectOutliers (map (fun widths => headD widths 0)
      (map (fun row => cellWidths settings "" "" row.2) group))).length := by
    simp [length_detectOutliers]
  conv_rhs => rw [← map_fst_zip hlen, map_map]
  unfold groupWidths
  rw [map_map]
  rfl

/-- Every row has its widths, or is an outlier. -/
lemma exists_widths {groups : List (List Row)} {row : Row} (h : row ∈ groups.flatten) :
    ∃ entry, (groups.flatMap (groupWidths settings)).find? (fun entry => entry.1 = row.1) =
      some entry := by
  obtain ⟨group, hgroup, hrow⟩ := mem_flatten.1 h
  have hmem : row.1 ∈ (groupWidths settings group).map Prod.fst := by
    rw [map_fst_groupWidths]
    exact mem_map_of_mem hrow
  obtain ⟨entry, hentry, hfst⟩ := mem_map.1 hmem
  have hsome : ((groups.flatMap (groupWidths settings)).find?
      fun entry => decide (entry.1 = row.1)).isSome := find?_isSome.2
    ⟨entry, mem_flatMap.2 ⟨group, hgroup, hentry⟩, decide_eq_true hfst⟩
  exact Option.isSome_iff_exists.1 hsome

lemma good_cells (hrows : Doc.cellsRowsInGroups cells = true)
    (hind : Doc.cellsIndentsBlank cells = true) : ∀ cell ∈ cells, Good cell.content := by
  induction cells with
  | nil => simp
  | cons cell cells ih =>
    simp only [Doc.cellsRowsInGroups, Doc.cellsIndentsBlank, Bool.and_eq_true] at hrows hind
    exact forall_mem_cons.2 ⟨⟨hrows.1, hind.1⟩, ih hrows.2 hind.2⟩

lemma good_docs (hrows : Doc.allRowsInGroups docs = true)
    (hind : Doc.allIndentsBlank docs = true) : ∀ doc ∈ docs, Good doc := by
  induction docs with
  | nil => simp
  | cons doc docs ih =>
    simp only [Doc.allRowsInGroups, Doc.allIndentsBlank, Bool.and_eq_true] at hrows hind
    exact forall_mem_cons.2 ⟨⟨hrows.1, hind.1⟩, ih hrows.2 hind.2⟩

variable {widths : List (Nat × Option (List Nat))}

/-- A row is found with its widths and rendered cell by cell. -/
lemma writes_renderItem_row (hinline : InlineWrites inline) {pos : Nat}
    (hgood : ∀ cell ∈ cells, Good cell.content)
    (hwidths : ∃ entry, widths.find? (fun entry => entry.1 = pos) = some entry)
    (h : renderItem settings inline indent widths r (pos, .row cells) = some after) :
    Renders (ShowsAll .flat (cells.map AlignCell.content)) r after := by
  obtain ⟨⟨_, columns⟩, hentry⟩ := hwidths
  apply Renders.after_gap (writes_startRow settings r indent)
  simp only [renderItem, hentry] at h
  cases columns with
  | none => exact writes_renderCells hinline hgood h
  | some columns => exact writes_renderPaddedCells hinline hgood h

variable {kids : List Doc}

lemma writes_renderItems (hinline : InlineWrites inline) {pos : Nat}
    (hrows : Doc.childrenRowsInGroups kids = true) (hind : Doc.allIndentsBlank kids = true)
    (hwidths : ∀ place cells, (place, MergedItem.row cells) ∈ itemsFrom pos kids →
      ∃ entry, widths.find? (fun entry => entry.1 = place) = some entry)
    (h : renderItems settings inline indent widths r (itemsFrom pos kids) = some after) :
    Renders (ShowsChildren kids) r after := by
  -- a row is rendered by its cells, any other child inline
  fun_induction itemsFrom pos kids generalizing r with
  | case1 pos =>
    cases h
    exact ⟨[], [], .nil, .refl _⟩
  | case2 pos cells rest ih =>
    obtain ⟨middle, hitem, hrest⟩ := Option.bind_eq_some_iff.1 h
    simp only [Doc.childrenRowsInGroups, Doc.allIndentsBlank, Doc.indentsBlank,
      Bool.and_eq_true] at hrows hind
    exact (writes_renderItem_row hinline (good_cells hrows.1 hind.1) (hwidths pos cells (by simp))
      hitem).append (ih hrows.2 hind.2
        (fun place cells hmem => hwidths place cells (by simp [hmem])) hrest) .row
  | case3 pos other rest hother ih =>
    obtain ⟨middle, hitem, hrest⟩ := Option.bind_eq_some_iff.1 h
    rw [Doc.childrenRowsInGroups, Bool.and_eq_true] at hrows
    · simp only [Doc.allIndentsBlank, Bool.and_eq_true] at hind
      exact Renders.append (hinline r indent _ middle hitem ⟨hrows.1, hind.1⟩) (ih hrows.2 hind.2
        (fun place cells hmem => hwidths place cells (by simp [hmem])) hrest) .other
    · exact hother

lemma writes_renderAlignGroup (hinline : InlineWrites inline)
    (hrows : Doc.childrenRowsInGroups kids = true) (hind : Doc.allIndentsBlank kids = true)
    (h : renderAlignGroup settings inline r kids indent = some after) :
    Renders (ShowsChildren kids) r after := by
  simp only [renderAlignGroup, mergeItems_splitChildren] at h
  refine writes_renderItems hinline hrows hind ?_ h
  intro place cells hmem
  have hmem := (splitChildren_perm 0 [] kids).mem_iff.2 hmem
  rcases mem_append.1 hmem with hmem | hmem
  · obtain ⟨_, hrow, hitem⟩ := mem_map.1 hmem
    obtain ⟨rfl, -⟩ := Prod.mk.inj hitem
    exact exists_widths hrow
  · obtain ⟨_, -, hitem⟩ := mem_map.1 hmem
    obtain ⟨-, hitem⟩ := Prod.mk.inj hitem
    cases hitem

/-! ## Steps of the loop -/

/-- What one step does: it writes the first texts of the document and leaves the rest
of them to the stack. -/
structure StepShows (r : Renderer) (entry : Nat × Mode × Doc) (stack : Stack) (after : Renderer)
    (stack' : Stack) : Prop where
  good : (∀ item ∈ stack, Good item.2.2) → ∀ item ∈ stack', Good item.2.2
  shows : ∃ first firstTexts, Writes r after firstTexts first ∧
    ∀ modes texts, ShowsStack stack' modes texts →
      ShowsStack (entry :: stack) (first ++ modes) (firstTexts ++ texts)

/-- A document without parts is written at once. -/
lemma stepShows_leaf {texts : List Text} (hshows : Shows mode doc modes texts)
    (hwrites : Writes r after texts modes) :
    StepShows r (indent, mode, doc) stack after stack where
  good := id
  shows := ⟨modes, texts, hwrites, fun _ _ hstack => .cons hshows hstack⟩

/-- A document with one part to render leaves it on the stack. -/
lemma stepShows_inner {indent' : Nat} {mode' : Mode} {inner : Doc} {first : List Mode}
    (hgood : Good inner) (hwrites : Writes r after [] first)
    (hshows : ∀ modes texts, Shows mode' inner modes texts → Shows mode doc (first ++ modes) texts) :
    StepShows r (indent, mode, doc) stack after ((indent', mode', inner) :: stack) where
  good := fun hstack => forall_mem_cons.2 ⟨hgood, hstack⟩
  shows := by
    refine ⟨first, [], hwrites, fun modes texts hstack => ?_⟩
    cases hstack with
    | cons h hs =>
      rw [← append_assoc, nil_append]
      exact .cons (hshows _ _ h) hs

lemma stepShows_fillRest {chosen : Mode} {sep content : Doc} {rest : List Doc}
    (hgood : ∀ part ∈ sep :: content :: rest, Good part) (hrest : Good (.fillRest rest)) :
    StepShows r (indent, mode, .fillRest (sep :: content :: rest)) stack (r.choose chosen)
      ((indent, chosen, sep) :: (indent, .flat, content) ::
        (if rest = [] then [] else [(indent, mode, .fillRest rest)]) ++ stack) where
  good := by
    intro hstack
    simp only [cons_append, forall_mem_cons, forall_mem_append]
    refine ⟨hgood sep (by simp), hgood content (by simp), ?_, hstack⟩
    split
    · simp
    · simpa using hrest
  shows := by
    refine ⟨[chosen], [], writes_choose r chosen, fun modes texts hstack => ?_⟩
    -- what remains of the fill is empty or shown by the rest of it
    have hrem : ∀ m t, ShowsStack
        ((if rest = [] then [] else [(indent, mode, Doc.fillRest rest)]) ++ stack) m t →
        ∃ m₁ m₂ t₁ t₂, ShowsFill mode rest m₁ t₁ ∧ ShowsStack stack m₂ t₂ ∧ m = m₁ ++ m₂ ∧
          t = t₁ ++ t₂ := by
      intro m t h
      split at h
      · rename_i hnil
        subst hnil
        exact ⟨[], m, [], t, .nil mode, h, rfl, rfl⟩
      · cases h with
        | cons hfill hs =>
          cases hfill with
          | fillRest hfill => exact ⟨_, _, _, _, hfill, hs, rfl, rfl⟩
    cases hstack with
    | cons hsep hs =>
      cases hs with
      | cons hcont hs =>
        obtain ⟨m₁, m₂, t₁, t₂, hfill, hbelow, rfl, rfl⟩ := hrem _ _ hs
        have hshows : ShowsStack
            ((indent, mode, .fillRest (sep :: content :: rest)) :: stack) _ _ :=
          .cons (.fillRest (.pair hsep hcont hfill)) hbelow
        simpa only [cons_append, append_assoc, nil_append] using hshows

/-- One step, whatever the document on top of the stack. -/
lemma renderStep_shows (hinline : InlineWrites inline) {stack' : Stack} (hgood : Good doc)
    (h : renderStep settings inline r indent mode doc stack = some (after, stack')) :
    StepShows r (indent, mode, doc) stack after stack' := by
  obtain ⟨hrows, hind⟩ := hgood
  cases doc with
  | empty =>
    cases h
    exact stepShows_leaf (.empty mode) (.refl _)
  | token text kind parentKind =>
    cases h
    exact stepShows_leaf (.token mode text kind parentKind) (writes_emitWithSpacing r ..)
  | raw text =>
    cases h
    exact stepShows_leaf (.raw mode text) (writes_emitRaw r text)
  | lineStart text =>
    cases h
    exact stepShows_leaf (.lineStart mode text) (writes_emitLineStart r hind)
  | hardline =>
    cases h
    exact stepShows_leaf (.hardline mode) (writes_emitNewline r)
  | blankLine =>
    cases h
    exact stepShows_leaf (.blankLine mode)
      ((writes_emitNewline r).after_gap (writes_push _ (by decide)))
  | line =>
    cases mode <;> cases h
    · exact stepShows_leaf (.line .flat) (writes_emitSpace r)
    · exact stepShows_leaf (.line .broken) (writes_emitNewline r)
  | preservedLine =>
    cases mode <;> cases h
    · exact stepShows_leaf (.preservedLine .flat) (writes_emitSpace r)
    · exact stepShows_leaf (.preservedLine .broken) (writes_emitNewline r)
  | softline =>
    cases mode <;> cases h
    · exact stepShows_leaf (.softline .flat) (.refl _)
    · exact stepShows_leaf (.softline .broken) (writes_emitNewline r)
  -- the frames pushed are the parts, in order
  | concat =>
    cases h
    refine ⟨fun hstack => ?_, [], [], .refl _, fun modes texts hshows => ?_⟩
    · rw [forall_mem_append, forall_mem_map]
      exact ⟨good_docs hrows hind, hstack⟩
    · obtain ⟨_, _, _, _, hall, hs, rfl, rfl⟩ := showsStack_append hshows
      rw [nil_append, nil_append]
      exact .cons (.concat hall) hs
  | indent inner =>
    cases h
    exact stepShows_inner ⟨hrows, hind⟩ (.refl _) fun _ _ hshows => .indent hshows
  | group inner =>
    cases h
    exact stepShows_inner ⟨hrows, hind⟩ (writes_choose r _) fun _ _ hshows => .group hshows
  | ifBreak broken flat =>
    simp only [Doc.rowsInGroups, Doc.indentsBlank, Bool.and_eq_true] at hrows hind
    cases mode <;> cases h
    · exact stepShows_inner ⟨hrows.2, hind.2⟩ (.refl _) fun _ _ hshows => .ifFlat hshows
    · exact stepShows_inner ⟨hrows.1, hind.1⟩ (.refl _) fun _ _ hshows => .ifBroken hshows
  | fill parts =>
    cases h
    refine stepShows_inner ⟨hrows, hind⟩ (.refl _) fun _ _ hshows => ?_
    cases hshows with
    | fillRest hfill => exact .fill hfill
  | fillRest parts =>
    have hparts := good_docs hrows hind
    match parts with
    | [] =>
      cases h
      exact stepShows_leaf (.fillRest (.nil mode)) (.refl _)
    | [part] =>
      cases h
      exact stepShows_inner (hparts part (by simp)) (.refl _)
        fun _ _ hshows => .fillRest (.single mode hshows)
    | sep :: content :: rest =>
      cases h
      simp only [Doc.rowsInGroups, Doc.indentsBlank, Doc.allRowsInGroups, Doc.allIndentsBlank,
        Bool.and_eq_true] at hrows hind
      exact stepShows_fillRest hparts ⟨hrows.2.2, hind.2.2⟩
  | alignGroup =>
    obtain ⟨_, hgroup, hmiddle⟩ := Option.bind_eq_some_iff.1 h
    cases hmiddle
    obtain ⟨modes, texts, hshows, hwrites⟩ := writes_renderAlignGroup hinline hrows hind hgroup
    exact stepShows_leaf (.alignGroup hshows) hwrites
  -- a row stands only in its group
  | alignRow => exact absurd hrows (by simp [Doc.rowsInGroups])

/-- The loop writes the texts of the whole stack. -/
lemma drainRenderStack_shows (hgood : ∀ item ∈ stack, Good item.2.2)
    (h : drainRenderStack settings fuel r stack = some after) :
    Renders (ShowsStack stack) r after := by
  -- inline documents are drained with less fuel
  induction fuel generalizing r after stack with
  | zero => cases h
  | succ fuel ih =>
    match stack, h with
    | [], h =>
      cases h
      exact ⟨[], [], .nil, .refl _⟩
    | (indent, mode, doc) :: stack, h =>
      obtain ⟨⟨_, _⟩, hstep, hrest⟩ := Option.bind_eq_some_iff.1 h
      have hinline : InlineWrites fun r indent doc =>
          drainRenderStack settings fuel r [(indent, .flat, doc)] := by
        intro r indent doc after hdrain hdoc
        obtain ⟨modes, texts, hshows, hwrites⟩ := ih (by simpa using hdoc) hdrain
        cases hshows with
        | cons hshows hs =>
          cases hs
          refine ⟨_, _, hshows, ?_⟩
          simpa using hwrites
      obtain ⟨hdoc, hstack⟩ := forall_mem_cons.1 hgood
      obtain ⟨hgood', _, _, hwrites, hshows⟩ := renderStep_shows hinline hdoc hstep
      obtain ⟨modes, texts, hrestShows, hwrites'⟩ := ih (hgood' hstack) hrest
      exact ⟨_, _, hshows modes texts hrestShows, hwrites.trans hwrites'⟩

/-! ## The fuel -/

def stackWeight (stack : Stack) : Nat := (stack.map fun item => item.2.2.weight).sum

lemma weight_pos (doc : Doc) : 0 < doc.weight := by
  cases doc <;> simp [Doc.weight]

lemma weight_le_weights (h : doc ∈ docs) : doc.weight < Doc.weights docs := by
  induction docs with
  | nil => cases h
  | cons _ docs ih =>
    rw [Doc.weights]
    rcases mem_cons.1 h with rfl | h
    · omega
    · have := ih h
      omega

lemma cellWeights_eq (cells : List (AlignCell Doc)) :
    Doc.cellWeights cells = Doc.weights (cells.map AlignCell.content) := by
  induction cells with
  | nil => rfl
  | cons _ cells ih => rw [Doc.cellWeights, ih, map_cons, Doc.weights]

lemma stackWeight_docs_le (indent : Nat) (mode : Mode) (docs : List Doc) :
    stackWeight (docs.map fun doc => (indent, mode, doc)) ≤ Doc.weights docs := by
  induction docs with
  | nil => simp [stackWeight, Doc.weights]
  | cons doc docs ih =>
    simp only [stackWeight, map_cons, sum_cons, Doc.weights] at ih ⊢
    omega

/-- What the inline rendering of the documents below a weight must do. -/
def InlineEnds (bound : Nat) (inline : Renderer → Nat → Doc → Option Renderer) : Prop :=
  ∀ r indent doc, doc.weight < bound → (inline r indent doc).isSome

lemma isSome_bind {α β : Type} {first : Option α} {rest : α → Option β} (h : first.isSome)
    (hrest : ∀ a, (rest a).isSome) : (first >>= rest).isSome := by
  obtain ⟨a, rfl⟩ := Option.isSome_iff_exists.1 h
  exact hrest a

section

variable (hinline : InlineEnds bound inline)

include hinline

lemma renderCells_isSome (h : ∀ cell ∈ cells, cell.content.weight < bound) (r : Renderer) :
    (renderCells inline indent r cells).isSome := by
  induction cells generalizing r with
  | nil => rfl
  | cons cell cells ih =>
    exact isSome_bind (hinline r indent cell.content (h cell (by simp)))
      (ih (forall_mem_cons.1 h).2)

lemma renderPaddedCells_isSome
    (h : ∀ cell ∈ cells, cell.content.weight < bound) (r : Renderer) (widths : List Nat) :
    (renderPaddedCells inline indent r widths cells).isSome := by
  induction cells generalizing r widths with
  | nil => rfl
  | cons cell cells ih =>
    exact isSome_bind (hinline r indent cell.content (h cell (by simp)))
      fun _ => ih (forall_mem_cons.1 h).2 _ _

lemma renderItems_isSome {pos : Nat} (h : ∀ child ∈ kids, child.weight < bound) (r : Renderer) :
    (renderItems settings inline indent widths r (itemsFrom pos kids)).isSome := by
  fun_induction itemsFrom pos kids generalizing r with
  | case1 pos => rfl
  | case2 pos cells rest ih =>
    have hcells : ∀ cell ∈ cells, cell.content.weight < bound := by
      intro cell hcell
      have hrow := h (.alignRow cells) (by simp)
      have hlt := weight_le_weights (mem_map_of_mem (f := AlignCell.content) hcell)
      rw [Doc.weight, cellWeights_eq] at hrow
      omega
    have hitem : (renderItem settings inline indent widths r (pos, .row cells)).isSome := by
      unfold renderItem
      dsimp only
      split
      · exact renderCells_isSome hinline hcells _
      · exact renderPaddedCells_isSome hinline hcells _ _
      · rfl
    exact isSome_bind hitem (ih (forall_mem_cons.1 h).2)
  | case3 pos other rest _ ih =>
    exact isSome_bind (hinline r indent other (h other (by simp)))
      (ih (forall_mem_cons.1 h).2)

end

/-- A step takes weight off the stack. -/
lemma renderStep_weight (settings : Settings) (r : Renderer) (indent : Nat) (mode : Mode)
    (stack : Stack) (hinline : InlineEnds doc.weight inline) :
    ∃ after stack', renderStep settings inline r indent mode doc stack = some (after, stack') ∧
      stackWeight stack' < doc.weight + stackWeight stack := by
  cases doc with
  | concat docs =>
    refine ⟨_, _, rfl, ?_⟩
    have hle := stackWeight_docs_le indent mode docs
    simp only [stackWeight, map_append, sum_append, Doc.weight] at hle ⊢
    omega
  | alignRow cells =>
    refine ⟨_, _, rfl, ?_⟩
    have hle := stackWeight_docs_le indent mode (cells.map AlignCell.content)
    rw [← cellWeights_eq, map_map] at hle
    simp only [stackWeight, map_append, map_reverse, sum_append, sum_reverse, Doc.weight] at hle ⊢
    exact Nat.lt_of_le_of_lt (Nat.add_le_add_right hle _) (by omega)
  | alignGroup kids =>
    have hends : (renderAlignGroup settings inline r kids indent).isSome := by
      simp only [renderAlignGroup, mergeItems_splitChildren]
      refine renderItems_isSome hinline (fun child hchild => ?_) r
      have hlt := weight_le_weights hchild
      rw [Doc.weight]
      omega
    obtain ⟨after, hafter⟩ := Option.isSome_iff_exists.1 hends
    refine ⟨after, stack, by simp [renderStep, hafter], ?_⟩
    have hpos := weight_pos (.alignGroup kids)
    omega
  | fillRest parts =>
    match parts with
    | [] => exact ⟨_, _, rfl, by simp [stackWeight, Doc.weight]⟩
    | [part] =>
      refine ⟨_, _, rfl, ?_⟩
      simp only [stackWeight, map_cons, sum_cons, Doc.weight, Doc.weights]
      omega
    | sep :: content :: rest =>
      refine ⟨_, _, rfl, ?_⟩
      split <;> simp only [stackWeight, cons_append, nil_append, map_cons,
        sum_cons, Doc.weight, Doc.weights] <;> omega
  | line | preservedLine | softline => cases mode <;> exact ⟨_, _, rfl, by simp [Doc.weight]⟩
  | ifBreak =>
    cases mode <;>
      exact ⟨_, _, rfl, by
        simp only [stackWeight, map_cons, sum_cons, Doc.weight]; omega⟩
  | _ => exact ⟨_, _, rfl, by simp [stackWeight, Doc.weight]⟩

lemma drainRenderStack_isSome (h : stackWeight stack < fuel) (r : Renderer) :
    (drainRenderStack settings fuel r stack).isSome := by
  induction fuel generalizing r stack with
  | zero => omega
  | succ fuel ih =>
    match stack with
    | [] => rfl
    | (indent, mode, doc) :: stack =>
      have hweight : doc.weight + stackWeight stack < fuel + 1 := by
        simpa [stackWeight] using h
      have hinline : InlineEnds doc.weight fun r indent doc =>
          drainRenderStack settings fuel r [(indent, .flat, doc)] := by
        intro r indent inner hlt
        refine ih ?_ r
        simp only [stackWeight, map_cons, map_nil, sum_cons, sum_nil]
        omega
      obtain ⟨after, _, hstep, hless⟩ := renderStep_weight settings r indent mode stack hinline
      simp only [drainRenderStack, hstep, Option.bind_eq_bind, Option.bind_some]
      exact ih (by omega) after

end Steps

/-! ## The whole document -/

/-- The text without its white space. -/
def stripped (text : Text) : Text := text.filter fun c => !isWhitespace c

lemma stripped_flatMap_text {pieces : List Piece} (h : ∀ piece ∈ pieces, piece.isBlank) :
    stripped (pieces.flatMap Piece.text) = (Piece.texts pieces).flatMap stripped := by
  induction pieces with
  | nil => rfl
  | cons piece pieces ih =>
    obtain ⟨hpiece, hpieces⟩ := forall_mem_cons.1 h
    have htail := ih hpieces
    rw [flatMap_cons, stripped, filter_append]
    cases piece with
    | gap text =>
      have hnil : (Piece.gap text).text.filter (fun c => !isWhitespace c) = [] := by
        rw [filter_eq_nil_iff]
        intro c hc
        simpa using all_eq_true.1 hpiece c hc
      rw [hnil, nil_append]
      exact htail
    | verbatim text =>
      change stripped text ++ stripped (pieces.flatMap Piece.text) =
        stripped text ++ (Piece.texts pieces).flatMap stripped
      rw [htail]

lemma byteLen_pos_of_mem {c : Char} (h : c ∈ text) : 0 < byteLen text := by
  obtain ⟨_, _, rfl⟩ := append_of_mem h
  have hpos := Char.utf8Size_pos c
  rw [byteLen_append]
  simp only [byteLen, map_cons, sum_cons]
  omega

/-- The spans come in order, without an overlap. -/
lemma spans_pairwise (off : Nat) (pieces : List Piece) :
    (∀ span ∈ Piece.spans off pieces, off ≤ span.1 ∧ span.1 < span.2) ∧
      (Piece.spans off pieces).Pairwise fun a b => a.2 ≤ b.1 := by
  induction pieces generalizing off with
  | nil => simp [Piece.spans]
  | cons piece pieces ih =>
    obtain ⟨hbounds, hpw⟩ := ih (off + byteLen piece.text)
    have hlater : ∀ span ∈ Piece.spans (off + byteLen piece.text) pieces,
        off ≤ span.1 ∧ span.1 < span.2 := by
      intro span hspan
      have := hbounds span hspan
      omega
    cases piece with
    | gap text => exact ⟨hlater, hpw⟩
    | verbatim text =>
      rw [Piece.spans]
      split
      · rename_i hnewline
        have hpos := byteLen_pos_of_mem hnewline
        refine ⟨forall_mem_cons.2 ⟨?_, hlater⟩, pairwise_cons.2 ⟨?_, hpw⟩⟩
        · omega
        · exact fun span hspan => (hbounds span hspan).1
      · exact ⟨hlater, hpw⟩

/-- The render loop ends; its output is the texts of the document in order, each one
contiguous, with white space between them, and the protected spans are the ranges of
the texts over several lines. -/
theorem rendered_texts_in_order (settings : Settings) (doc : Doc) (hrows : doc.rowsInGroups)
    (hindents : doc.indentsBlank) :
    ∃ result pieces, renderWithProtectedSpans settings doc = some result ∧
      Shows .broken doc result.modes (Piece.texts pieces) ∧
      result.output = pieces.flatMap Piece.text ∧ (∀ piece ∈ pieces, piece.isBlank) ∧
      stripped result.output = (Piece.texts pieces).flatMap stripped ∧
      result.protectedSpans = Piece.spans 0 pieces ∧
      (∀ span ∈ result.protectedSpans, span.1 < span.2) ∧
      result.protectedSpans.Pairwise fun a b => a.2 ≤ b.1 := by
  have hends : (renderWithProtectedSpans settings doc).isSome :=
    drainRenderStack_isSome (by simp [stackWeight]) .new
  obtain ⟨result, hresult⟩ := Option.isSome_iff_exists.1 hends
  have hgood : ∀ item ∈ [(0, Mode.broken, doc)], Good item.2.2 := by
    simpa using ⟨hrows, hindents⟩
  obtain ⟨modes, texts, hstack, pieces, hemits, htexts⟩ := drainRenderStack_shows hgood hresult
  have houtput : result.output = pieces.flatMap Piece.text := by
    simpa [new] using hemits.output
  have hmodes : result.modes = modes := by simpa [new] using hemits.modes
  have hspans : result.protectedSpans = Piece.spans 0 pieces := by
    simpa [new, byteLen] using hemits.spans
  obtain ⟨hbounds, hpairwise⟩ := spans_pairwise 0 pieces
  refine ⟨result, pieces, hresult, ?_, houtput, hemits.blank, ?_, hspans, ?_, ?_⟩
  · rw [hmodes, htexts]
    cases hstack with
    | cons hshows hnil =>
      cases hnil
      simpa using hshows
  · rw [houtput]
    exact stripped_flatMap_text hemits.blank
  · rw [hspans]
    exact fun span hspan => (hbounds span hspan).2
  · rw [hspans]
    exact hpairwise

/-- A fill in a group and two rows, with a text over two lines. -/
def sampleDoc : Doc :=
  .concat [.group (.concat [.token ['a'] "identifier" "", .fill [.line, .raw ['x', '\n', 'y']]]),
    .alignGroup [.alignRow [⟨.token ['b'] "identifier" "", true⟩, ⟨.raw ['c'], false⟩],
      .blankLine, .alignRow [⟨.token ['d'] "identifier" "", true⟩]],
    .ifBreak (.lineStart [' ']) (.raw ['e'])]

def sampleSettings : Settings where
  indentSize := 2
  indentStyle := .space
  maxLineLength := 80
  wouldNeedSpace := fun _ _ _ _ => true

theorem rendered_texts_in_order_sample :
    sampleDoc.rowsInGroups ∧ sampleDoc.indentsBlank ∧
      ∃ result pieces, renderWithProtectedSpans sampleSettings sampleDoc = some result ∧
        Shows .broken sampleDoc result.modes (Piece.texts pieces) ∧
        result.output = pieces.flatMap Piece.text ∧ (∀ piece ∈ pieces, piece.isBlank) ∧
        stripped result.output = (Piece.texts pieces).flatMap stripped ∧
        result.protectedSpans = Piece.spans 0 pieces ∧
        (∀ span ∈ result.protectedSpans, span.1 < span.2) ∧
        result.protectedSpans.Pairwise fun a b => a.2 ≤ b.1 :=
  ⟨by decide, by decide, rendered_texts_in_order sampleSettings sampleDoc (by decide) (by decide)⟩

/-- The indentation of a line start is written whatever it is: here a letter that is
the text of no token. -/
theorem lineStart_writes_letters :
    (Doc.lineStart ['x']).rowsInGroups ∧
      (renderWithProtectedSpans sampleSettings (.lineStart ['x'])).map
        (fun result => stripped result.output) = some ['x'] ∧
      ∀ modes texts, Shows .broken (.lineStart ['x']) modes texts →
        texts.flatMap stripped = [] := by
  refine ⟨by decide, by decide, fun modes texts h => ?_⟩
  cases h
  rfl

end Lint4d.Format
