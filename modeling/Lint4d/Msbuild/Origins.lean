import Lint4d.Msbuild.Project

/-!
# Where the text of a value comes from

The evaluation records which bytes of a value came from where, as ranges that it shifts,
clamps and splits.  Here a value is a list of leaves instead, the pieces of text it was
put together from, each with the provenance of the file it stands in and of everything
it went through.  `Recorded` says that ranges are those of the leaves; it is kept by
trimming, and the ranges that touch an item of a list are those of the leaves in it.
-/

namespace Lint4d.Msbuild

open ProvenanceRange List

open Lint4d.Conditional (Text byteLen byteLen_nil byteLen_cons byteLen_append trim trimStart
  trimEnd isWhitespace)

/-! ## Leaves -/

/-- A piece of a value: the file that holds it comes first, then the files of the
properties it was substituted through.  A piece that is not known stands for the marker. -/
inductive Leaf (Path : Type) where
  | known (text : Text) (inner : ProjectPathProvenance Path)
      (outer : List (ProjectPathProvenance Path))
  | unknown
deriving DecidableEq

namespace Leaf

variable {Path : Type}

def text : Leaf Path → Text
  | .known text _ _ => text
  | .unknown => [unresolvedMarker]

def sources : Leaf Path → List (ProjectPathProvenance Path)
  | .known _ inner outer => inner :: outer
  | .unknown => []

def retext (f : Text → Text) : Leaf Path → Leaf Path
  | .known text inner outer => .known (f text) inner outer
  | .unknown => .unknown

/-- The leaf in the value of a property that was assigned in a file. -/
def within (file : ProjectPathProvenance Path) : Leaf Path → Leaf Path
  | .known text inner outer => .known text inner (file :: outer)
  | .unknown => .unknown

@[simp] lemma text_within (file : ProjectPathProvenance Path) (leaf : Leaf Path) :
    (leaf.within file).text = leaf.text := by cases leaf <;> rfl

end Leaf

variable {start : Nat}

section Leaves

variable {Path : Type} {text others part : Text} {range : ProvenanceRange Path} {stop middle : Nat}

def textOf (leaves : List (Leaf Path)) : Text := leaves.flatMap Leaf.text

@[simp] lemma textOf_nil : textOf ([] : List (Leaf Path)) = [] := rfl

@[simp] lemma textOf_cons (leaf : Leaf Path) (leaves : List (Leaf Path)) :
    textOf (leaf :: leaves) = leaf.text ++ textOf leaves := rfl

@[simp] lemma textOf_append (leaves others : List (Leaf Path)) :
    textOf (leaves ++ others) = textOf leaves ++ textOf others := by
  simp [textOf]

/-! ### Trimming -/

/-- Take the blanks off the front; leaves of blanks stay behind empty. -/
def trimFront : List (Leaf Path) → List (Leaf Path)
  | [] => []
  | leaf :: rest =>
    if trimStart leaf.text = [] then leaf.retext trimStart :: trimFront rest
    else leaf.retext trimStart :: rest

def trimBack : List (Leaf Path) → List (Leaf Path)
  | [] => []
  | leaf :: rest =>
    if trimEnd (textOf rest) = [] then leaf.retext trimEnd :: trimBack rest
    else leaf :: trimBack rest

def trimLeaves (leaves : List (Leaf Path)) : List (Leaf Path) := trimBack (trimFront leaves)

/-! ### Splitting -/

/-- Two lists of items of which the last and the first are one item. -/
def glue {α : Type} : List (List α) → List (List α) → List (List α)
  | [], items => items
  | [last], [] => [last]
  | [last], first :: items => (last ++ first) :: items
  | item :: next :: rest, items => item :: glue (next :: rest) items

/-- A part of a leaf, if there is one. -/
def chunkOf (inner : ProjectPathProvenance Path) (outer : List (ProjectPathProvenance Path))
    (part : Text) : List (Leaf Path) :=
  if part = [] then [] else [.known part inner outer]

@[simp] lemma textOf_chunkOf (inner : ProjectPathProvenance Path)
    (outer : List (ProjectPathProvenance Path)) (part : Text) :
    textOf (chunkOf inner outer part) = part := by
  unfold chunkOf
  split_ifs with hpart
  · exact hpart.symm
  · exact append_nil part

/-- The parts of a leaf between the semicolons; an empty leaf is where it is. -/
def Leaf.split : Leaf Path → List (List (Leaf Path))
  | .unknown => [[.unknown]]
  | .known text inner outer =>
    if text = [] then [[.known [] inner outer]]
    else (text.splitOn ';').map (chunkOf inner outer)

def splitLeaves : List (Leaf Path) → List (List (Leaf Path))
  | [] => [[]]
  | leaf :: rest => glue leaf.split (splitLeaves rest)

/-! ## Ranges of leaves -/

/-- The ranges are those of the leaves from a position on.  What is not known has no
range, or one of no matter which provenance. -/
inductive Recorded : Nat → List (Leaf Path) → List (ProvenanceRange Path) → Prop where
  | nil (start : Nat) : Recorded start [] []
  | known {start leaves ranges} (text : Text) (inner : ProjectPathProvenance Path)
      (outer : List (ProjectPathProvenance Path))
      (h : Recorded (start + byteLen text) leaves ranges) :
      Recorded start (.known text inner outer :: leaves)
        (⟨(start, start + byteLen text), inner⟩ :: ranges)
  | unknown {start leaves ranges}
      (h : Recorded (start + 1) leaves ranges) : Recorded start (.unknown :: leaves) ranges
  | unknowns {start leaves ranges} (count : Nat) (provenance : ProjectPathProvenance Path)
      (h : Recorded (start + (count + 1)) leaves ranges) :
      Recorded start (replicate (count + 1) .unknown ++ leaves)
        (⟨(start, start + (count + 1)), provenance⟩ :: ranges)

@[simp] lemma byteLen_text_unknown : byteLen (.unknown : Leaf Path).text = 1 := rfl

variable (count : Nat)

@[simp] lemma byteLen_unknowns :
    byteLen (textOf (replicate count (.unknown : Leaf Path))) = count := by
  induction count with
  | zero => rfl
  | succ count ih =>
    rw [replicate_succ, textOf_cons, byteLen_append, ih]
    exact Nat.add_comm _ _

namespace Recorded

variable {start : Nat} {leaves : List (Leaf Path)} {ranges : List (ProvenanceRange Path)}

lemma append (h : Recorded start leaves ranges) {others : List (Leaf Path)}
    {otherRanges : List (ProvenanceRange Path)}
    (h' : Recorded (start + byteLen (textOf leaves)) others otherRanges) :
    Recorded start (leaves ++ others) (ranges ++ otherRanges) := by
  induction h with
  | nil start => simpa using h'
  | known text inner outer h ih =>
    refine .known text inner outer (ih ?_)
    simpa [Leaf.text, Nat.add_assoc] using h'
  | unknown h ih =>
    refine .unknown (ih ?_)
    simpa [Nat.add_assoc] using h'
  | unknowns count prov h ih =>
    rw [append_assoc]
    refine .unknowns count prov (ih ?_)
    simpa only [textOf_append, byteLen_append, byteLen_unknowns, Nat.add_assoc] using h'

/-- The ranges moved by an offset. -/
lemma shift (h : Recorded start leaves ranges) (offset : Nat) :
    Recorded (offset + start) leaves (ranges.map fun range =>
      { range with range := (offset + range.range.1, offset + range.range.2) }) := by
  induction h with
  | nil start => exact .nil _
  | known text inner outer h ih =>
    rw [← Nat.add_assoc] at ih
    simpa only [map_cons, Nat.add_assoc] using ih.known text inner outer
  | unknown h ih => exact .unknown ih
  | unknowns count prov h ih =>
    rw [← Nat.add_assoc] at ih
    simpa only [map_cons, Nat.add_assoc] using ih.unknowns count prov

lemma bounds (h : Recorded start leaves ranges) :
    ∀ range ∈ ranges, start ≤ range.range.1 ∧ range.range.1 ≤ range.range.2 ∧
      range.range.2 ≤ start + byteLen (textOf leaves) := by
  induction h with
  | nil start => simp
  | @known start leaves ranges text _ _ h ih =>
    rw [forall_mem_cons, textOf_cons, byteLen_append]
    refine ⟨⟨le_rfl, Nat.le_add_right _ _, by simp only [Leaf.text]; omega⟩, fun range hrange => ?_⟩
    have := ih range hrange
    simp only [Leaf.text]
    omega
  | @unknown start leaves ranges h ih =>
    intro range hrange
    have := ih range hrange
    rw [textOf_cons, byteLen_append, byteLen_text_unknown]
    omega
  | @unknowns start leaves ranges _ _ h ih =>
    rw [forall_mem_cons, textOf_append, byteLen_append, byteLen_unknowns]
    refine ⟨⟨le_rfl, Nat.le_add_right _ _, by dsimp only; omega⟩, fun range hrange => ?_⟩
    have := ih range hrange
    omega

end Recorded

/-! ### Trimmed ranges -/

lemma trimStart_append_of_blank (h : trimStart text = []) (others : Text) :
    trimStart (text ++ others) = trimStart others := by
  unfold trimStart at h ⊢
  simp [dropWhile_append, h]

lemma trimStart_append (h : trimStart text ≠ []) (others : Text) :
    trimStart (text ++ others) = trimStart text ++ others := by
  unfold trimStart at h ⊢
  simp [dropWhile_append, h]

lemma trimEnd_append_of_blank (h : trimEnd others = []) (text : Text) :
    trimEnd (text ++ others) = trimEnd text := by
  unfold trimEnd at h ⊢
  simp [dropWhile_append, reverse_eq_nil_iff.1 h]

lemma trimEnd_append (h : trimEnd others ≠ []) (text : Text) :
    trimEnd (text ++ others) = text ++ trimEnd others := by
  unfold trimEnd at h ⊢
  simp [dropWhile_append, mt reverse_eq_nil_iff.2 h]

lemma byteLen_trimStart_le (text : Text) : byteLen (trimStart text) ≤ byteLen text := by
  conv_rhs => rw [← takeWhile_append_dropWhile (p := isWhitespace) (l := text)]
  rw [byteLen_append]
  exact Nat.le_add_left _ _

lemma byteLen_trimEnd_le (text : Text) : byteLen (trimEnd text) ≤ byteLen text := by
  have hrev : ∀ text : Text, byteLen text.reverse = byteLen text := by
    intro text
    simp [byteLen, sum_reverse]
  rw [trimEnd, hrev, ← hrev text]
  exact byteLen_trimStart_le text.reverse

lemma trimStart_marker (rest : Text) :
    trimStart (unresolvedMarker :: rest) = unresolvedMarker :: rest :=
  dropWhile_cons_of_neg (by decide)

lemma trimEnd_marker (rest : Text) :
    trimEnd (unresolvedMarker :: rest) = unresolvedMarker :: trimEnd rest := by
  by_cases hblank : trimEnd rest = []
  · have hmark : trimEnd [unresolvedMarker] = [unresolvedMarker] := by decide
    exact (trimEnd_append_of_blank hblank [unresolvedMarker]).trans (by rw [hmark, hblank])
  · exact trimEnd_append hblank [unresolvedMarker]

lemma textOf_trimFront (leaves : List (Leaf Path)) :
    textOf (trimFront leaves) = trimStart (textOf leaves) := by
  induction leaves with
  | nil => rfl
  | cons leaf _ ih =>
    have hretext : (leaf.retext trimStart).text = trimStart leaf.text := by
      cases leaf <;> simp [Leaf.retext, Leaf.text, trimStart_marker]
    rw [trimFront]
    split_ifs with hblank
    · rw [textOf_cons, textOf_cons, ih, trimStart_append_of_blank hblank, hretext, hblank]
      rfl
    · rw [textOf_cons, textOf_cons, trimStart_append hblank, hretext]

lemma textOf_trimBack (leaves : List (Leaf Path)) :
    textOf (trimBack leaves) = trimEnd (textOf leaves) := by
  induction leaves with
  | nil => rfl
  | cons leaf _ ih =>
    have hretext : (leaf.retext trimEnd).text = trimEnd leaf.text := by
      cases leaf <;> simp [Leaf.retext, Leaf.text, trimEnd_marker, show trimEnd [] = [] from rfl]
    rw [trimBack]
    split_ifs with hblank
    · rw [textOf_cons, textOf_cons, ih, trimEnd_append_of_blank hblank, hretext, hblank, append_nil]
    · rw [textOf_cons, textOf_cons, ih, trimEnd_append hblank]

def ProvenanceRange.mapEnds (f : Nat → Nat) (range : ProvenanceRange Path) : ProvenanceRange Path :=
  { range with range := (f range.range.1, f range.range.2) }

/-- Positions are clamped at the front and then at the end. -/
lemma trimProvenanceRanges_eq (ranges : List (ProvenanceRange Path)) (start length : Nat) :
    trimProvenanceRanges ranges start length = ranges.map (mapEnds (fun pos => min pos length) ∘
        mapEnds fun pos => max pos start - start) := by
  refine map_congr_left fun range _ => ?_
  simp only [Function.comp, mapEnds, clampTrim, mk.injEq, Prod.mk.injEq, and_true]
  omega

lemma trimFront_unknowns (leaves : List (Leaf Path)) :
    trimFront (replicate (count + 1) .unknown ++ leaves) =
      replicate (count + 1) .unknown ++ leaves := by
  have hmark : trimStart (.unknown : Leaf Path).text ≠ [] := by
    simp [Leaf.text, trimStart_marker]
  rw [replicate_succ, cons_append, trimFront, if_neg hmark]
  rfl

lemma trimBack_unknown (leaves : List (Leaf Path)) :
    trimBack (.unknown :: leaves) = .unknown :: trimBack leaves := by
  rw [trimBack]
  split_ifs <;> rfl

lemma trimBack_unknowns (leaves : List (Leaf Path)) :
    trimBack (replicate count .unknown ++ leaves) =
      replicate count .unknown ++ trimBack leaves := by
  induction count with
  | zero => rfl
  | succ count ih =>
    rw [replicate_succ, cons_append, trimBack_unknown, ih]
    rfl

lemma trimEnd_unknowns (leaves : List (Leaf Path)) :
    byteLen (trimEnd (textOf (replicate count .unknown ++ leaves))) =
      count + byteLen (trimEnd (textOf leaves)) := by
  rw [← textOf_trimBack, trimBack_unknowns, textOf_append, byteLen_append, byteLen_unknowns,
    textOf_trimBack]

variable {outer : List (ProjectPathProvenance Path)} {inner : ProjectPathProvenance Path}

namespace Recorded

variable {ranges : List (ProvenanceRange Path)} {leaves : List (Leaf Path)}
  {start : Nat} {front : Nat}

/-- A leaf whose two ends are moved to those of its new text. -/
lemma known_moved {f : Nat → Nat} {moved : Nat} {text' : Text} (hstart : f start = moved)
    (hend : f (start + byteLen text) = moved + byteLen text')
    (h : Recorded (moved + byteLen text') leaves (ranges.map (mapEnds f))) :
    Recorded moved (.known text' inner outer :: leaves)
      (map (mapEnds f) (⟨(start, start + byteLen text), inner⟩ :: ranges)) := by
  rw [map_cons, mapEnds, hstart, hend]
  exact h.known text' inner outer

lemma unknowns_moved {f : Nat → Nat} {moved count : Nat} {prov : ProjectPathProvenance Path}
    (hstart : f start = moved) (hend : f (start + (count + 1)) = moved + (count + 1))
    (h : Recorded (moved + (count + 1)) leaves (ranges.map (mapEnds f))) :
    Recorded moved (replicate (count + 1) .unknown ++ leaves)
      (map (mapEnds f) (⟨(start, start + (count + 1)), prov⟩ :: ranges)) := by
  rw [map_cons, mapEnds, hstart, hend]
  exact h.unknowns count prov

section

variable (h : Recorded start leaves ranges)

include h

/-- Positions that all lie behind the front are moved back by it. -/
lemma lower (hfront : front ≤ start) :
    Recorded (start - front) leaves
      (ranges.map (mapEnds fun pos => max pos front - front)) := by
  induction h with
  | nil start => exact .nil _
  | @known start leaves ranges text _ _ h ih =>
    have hrest := ih (by omega)
    rw [show start + byteLen text - front = start - front + byteLen text by omega] at hrest
    exact known_moved (by omega) (by omega) hrest
  | @unknown start leaves ranges h ih =>
    have hrest := ih (by omega)
    rw [show start + 1 - front = start - front + 1 by omega] at hrest
    exact hrest.unknown
  | @unknowns start leaves ranges count prov h ih =>
    have hrest := ih (by omega)
    rw [show start + (count + 1) - front = start - front + (count + 1) by omega] at hrest
    exact unknowns_moved (by omega) (by omega) hrest

section

variable (hfront : front + byteLen (trimStart (textOf leaves)) = start + byteLen (textOf leaves))

include hfront

/-- A leaf that is not trimmed to nothing ends the trimming. -/
lemma trimFront_of_eq (hleaves : Msbuild.trimFront leaves = leaves) :
    Recorded 0 (Msbuild.trimFront leaves)
      (ranges.map (mapEnds fun pos => max pos front - front)) := by
  rw [← textOf_trimFront, hleaves] at hfront
  obtain rfl : front = start := by omega
  have hlower := h.lower (le_refl front)
  rw [Nat.sub_self] at hlower
  rw [hleaves]
  exact hlower

/-- Everything before was blank, and `front` bytes are taken off in all. -/
lemma trimFront :
    Recorded 0 (Msbuild.trimFront leaves)
      (ranges.map (mapEnds fun pos => max pos front - front)) := by
  induction h with
  | nil start => exact .nil _
  | @known start leaves ranges text _ _ h ih =>
    rw [textOf_cons, byteLen_append] at hfront
    simp only [Leaf.text] at hfront
    rw [Msbuild.trimFront]
    split_ifs with hblank
    · -- the leaf is taken off as a whole, and its range with it
      simp only [Leaf.text] at hblank
      rw [trimStart_append_of_blank hblank] at hfront
      have hle := byteLen_trimStart_le (textOf leaves)
      rw [Leaf.retext, hblank]
      exact known_moved (by omega) (by rw [byteLen_nil]; omega) (ih (by omega))
    · simp only [Leaf.text] at hblank
      rw [trimStart_append hblank, byteLen_append] at hfront
      have hle := byteLen_trimStart_le text
      have hrest := h.lower (show front ≤ start + byteLen text by omega)
      rw [show start + byteLen text - front = 0 + byteLen (trimStart text) by omega] at hrest
      exact known_moved (by omega) (by omega) hrest
  | @unknown start leaves ranges h ih =>
    exact (h.unknown).trimFront_of_eq hfront (trimFront_unknowns 0 leaves)
  | @unknowns start leaves ranges count prov h ih =>
    exact (h.unknowns count prov).trimFront_of_eq hfront (trimFront_unknowns count leaves)

end

/-- Empty leaves are all at one place, which may be further in front. -/
lemma collapse (hempty : textOf leaves = []) {limit : Nat} (hlimit : limit ≤ start) :
    Recorded limit leaves (ranges.map (mapEnds fun pos =>
      min pos limit)) := by
  induction h with
  | nil start => exact .nil _
  | @known start leaves ranges text _ _ h ih =>
    obtain ⟨htext, hrest⟩ := append_eq_nil_iff.1 hempty
    subst htext
    exact known_moved (by omega) (by rw [byteLen_nil]; omega) (ih hrest hlimit)
  | unknown h ih | unknowns count prov h ih => cases hempty

lemma trimBack :
    Recorded start (Msbuild.trimBack leaves) (ranges.map (mapEnds fun pos =>
      min pos (start + byteLen (trimEnd (textOf leaves))))) := by
  induction h with
  | nil start => exact .nil _
  | @known start leaves ranges text inner outer h ih =>
    rw [Msbuild.trimBack]
    split_ifs with hblank
    · -- the leaves behind are empty, and so are their ranges at the new end
      have hlimit : trimEnd (textOf (.known text inner outer :: leaves)) = trimEnd text :=
        trimEnd_append_of_blank hblank text
      have hle := byteLen_trimEnd_le text
      have hrest := ih.collapse (by rw [textOf_trimBack, hblank])
        (show start + byteLen (trimEnd text) ≤ start + byteLen text by omega)
      have hends : ∀ range : ProvenanceRange Path, (range.mapEnds fun pos => min pos
            (start + byteLen text + byteLen (trimEnd (textOf leaves)))).mapEnds
              (fun pos => min pos (start + byteLen (trimEnd text))) =
            range.mapEnds fun pos => min pos (start + byteLen (trimEnd text)) := by
        intro range
        simp only [mapEnds, mk.injEq, Prod.mk.injEq, and_true]
        omega
      simp only [map_map, Function.comp_def, hends] at hrest
      rw [hlimit]
      exact known_moved (by omega) (by omega) hrest
    · have hlimit : trimEnd (textOf (.known text inner outer :: leaves)) =
          text ++ trimEnd (textOf leaves) := trimEnd_append hblank text
      rw [hlimit, byteLen_append, ← Nat.add_assoc]
      exact known_moved (by omega) (by omega) ih
  | @unknown start leaves ranges h ih =>
    rw [trimBack_unknown]
    refine .unknown ?_
    have hlen := trimEnd_unknowns 1 leaves
    rw [replicate_one, singleton_append] at hlen
    rw [hlen, ← Nat.add_assoc]
    exact ih
  | @unknowns start leaves ranges count prov h ih =>
    rw [trimBack_unknowns, trimEnd_unknowns, ← Nat.add_assoc]
    exact unknowns_moved (by omega) (by omega) ih

end

/-- Trimming a value trims its ranges. -/
lemma trim (h : Recorded 0 leaves ranges) :
    Recorded 0 (trimLeaves leaves) (trimProvenanceRanges ranges
      (byteLen (textOf leaves) - byteLen (trimStart (textOf leaves)))
      (byteLen (Conditional.trim (textOf leaves)))) := by
  have hle := byteLen_trimStart_le (textOf leaves)
  have hfront : byteLen (textOf leaves) - byteLen (trimStart (textOf leaves)) +
      byteLen (trimStart (textOf leaves)) = 0 + byteLen (textOf leaves) := by omega
  have htrimmed := (h.trimFront hfront).trimBack
  rw [textOf_trimFront, map_map, Nat.zero_add] at htrimmed
  rw [trimProvenanceRanges_eq]
  exact htrimmed

end Recorded

/-! ### Items of a list -/

lemma glue_ne_nil {α : Type} {items others : List (List α)} (h : others ≠ []) :
    glue items others ≠ [] := by
  fun_cases glue items others <;> simp_all

lemma splitOn_append (text others : Text) (c : Char) :
    (text ++ others).splitOn c = glue (text.splitOn c) (others.splitOn c) := by
  induction text with
  | nil =>
    obtain ⟨first, rest, hothers⟩ := exists_cons_of_ne_nil (splitOn_ne_nil c others)
    rw [nil_append, splitOn_nil, hothers]
    rfl
  | cons d text ih =>
    obtain ⟨first, rest, hfirst⟩ := exists_cons_of_ne_nil (splitOn_ne_nil c text)
    obtain ⟨_, _, hsecond⟩ := exists_cons_of_ne_nil (splitOn_ne_nil c others)
    rw [cons_append, splitOn_cons_eq_if_modifyHead, splitOn_cons_eq_if_modifyHead, ih, hfirst,
      hsecond]
    split_ifs
    · rfl
    · cases rest <;> rfl

lemma map_textOf_glue (items others : List (List (Leaf Path))) :
    (glue items others).map textOf = glue (items.map textOf) (others.map textOf) := by
  fun_induction glue items others with
  | case1 | case2 => rfl
  | case3 => simp [glue]
  | case4 _ _ _ others ih => simpa [glue] using ih

lemma texts_split (leaf : Leaf Path) : leaf.split.map textOf = leaf.text.splitOn ';' := by
  cases leaf with
  | unknown => rfl
  | known text =>
    rw [Leaf.split]
    split_ifs with hempty
    · subst hempty
      rfl
    · simp [Function.comp_def, Leaf.text]

/-- The items of the leaves have the texts of the items of the value. -/
lemma texts_splitLeaves (leaves : List (Leaf Path)) :
    (splitLeaves leaves).map textOf = (textOf leaves).splitOn ';' := by
  induction leaves with
  | nil => rfl
  | cons _ leaves ih =>
    rw [splitLeaves, map_textOf_glue, texts_split, ih, textOf_cons, splitOn_append]

/-- The ranges that touch an item have the provenances of the leaves in it. -/
def Exact (ranges : List (ProvenanceRange Path)) (item : List (Leaf Path)) (span : Range) : Prop :=
  .unknown ∉ item → ∀ provenance,
    (∃ range ∈ ranges, touches span range.range = true ∧ range.provenance = provenance) ↔
      ∃ text outer, .known text provenance outer ∈ item

/-- Items from a position on; an item without text need only be exact in front, where it
is to be joined with what comes before. -/
def ItemsExact (ranges : List (ProvenanceRange Path)) : Bool → Nat → List (List (Leaf Path)) → Prop
  | _, _, [] => True
  | inFront, start, item :: rest =>
    ((inFront = true ∨ textOf item ≠ []) →
      Exact ranges item (start, start + byteLen (textOf item))) ∧
    ItemsExact ranges false (start + byteLen (textOf item) + 1) rest

lemma not_touches {item range : Range} (h : range.2 < item.1 ∨ item.2 < range.1) :
    touches item range = false := by
  unfold touches
  split_ifs <;> simp only [decide_eq_false_iff_not] <;> omega

variable {ranges : List (ProvenanceRange Path)}

lemma Exact.cons_of_not_touches {item : List (Leaf Path)} {span : Range}
    (h : Exact ranges item span)
    (hrange : touches span range.range = false) : Exact (range :: ranges) item span := by
  intro hknown prov
  rw [← h hknown prov]
  simp [hrange]

lemma ItemsExact.cons_of_lt {items : List (List (Leaf Path))}
    (h : ItemsExact ranges false start items) (hlt : range.range.2 < start) :
    ItemsExact (range :: ranges) false start items := by
  induction items generalizing start with
  | nil => trivial
  | cons _ items ih =>
    refine ⟨fun htext => (h.1 htext).cons_of_not_touches (not_touches (.inl hlt)),
      ih h.2 (by omega)⟩

/-- What is behind a position touches an item across it as it touches the part of the
item from the position on. -/
lemma touches_of_le {range : Range} (hstart : start ≤ middle) (hrange : middle ≤ range.1)
    (hle : range.1 ≤ range.2) : touches (start, stop) range = touches (middle, stop) range := by
  unfold touches
  split_ifs <;> simp only [decide_eq_decide] <;> omega

variable {first : List (Leaf Path)}

lemma Exact.append_front (h : Exact ranges first (middle, stop)) (hstart : start ≤ middle)
    (hranges : ∀ range ∈ ranges, middle ≤ range.range.1 ∧ range.range.1 ≤ range.range.2)
    (chunk : List (Leaf Path)) (range : ProvenanceRange Path)
    (hchunk : ∀ leaf ∈ chunk, ∃ text outer, leaf = .known text range.provenance outer)
    (htouch : touches (start, stop) range.range = true ↔ chunk ≠ []) :
    Exact (range :: ranges) (chunk ++ first) (start, stop) := by
  intro hknown prov
  rw [mem_append, not_or] at hknown
  have hfirst := h hknown.2 prov
  constructor
  · rintro ⟨other, hother, htouched, rfl⟩
    rcases mem_cons.1 hother with rfl | hother
    · obtain ⟨leaf, hleaf⟩ := exists_mem_of_ne_nil _ (htouch.1 htouched)
      obtain ⟨text, outer, rfl⟩ := hchunk leaf hleaf
      exact ⟨text, outer, mem_append_left _ hleaf⟩
    · rw [touches_of_le hstart (hranges other hother).1 (hranges other hother).2] at htouched
      obtain ⟨text, outer, hmem⟩ := hfirst.1 ⟨other, hother, htouched, rfl⟩
      exact ⟨text, outer, mem_append_right _ hmem⟩
  · rintro ⟨text, outer, hmem⟩
    rcases mem_append.1 hmem with hmem | hmem
    · obtain ⟨_, _, heq⟩ := hchunk _ hmem
      cases heq
      exact ⟨range, mem_cons_self, htouch.2 (ne_nil_of_mem hmem), rfl⟩
    · obtain ⟨other, hother, htouched, rfl⟩ := hfirst.2 ⟨text, outer, hmem⟩
      rw [← touches_of_le hstart (hranges other hother).1 (hranges other hother).2] at htouched
      exact ⟨other, mem_cons_of_mem _ hother, htouched, rfl⟩

/-- The length of parts with a semicolon between any two. -/
def joinedLength : List Text → Nat
  | [] => 0
  | [part] => byteLen part
  | part :: next :: rest => byteLen part + 1 + joinedLength (next :: rest)

lemma joinedLength_splitOn (text : Text) : joinedLength (text.splitOn ';') = byteLen text := by
  induction text with
  | nil => rfl
  | cons c text ih =>
    obtain ⟨first, rest, hfirst⟩ := exists_cons_of_ne_nil (splitOn_ne_nil ';' text)
    rw [hfirst] at ih
    rw [splitOn_cons_eq_if_modifyHead, hfirst, byteLen_cons, ← ih]
    split_ifs with hc
    · rw [beq_iff_eq] at hc
      subst hc
      rw [joinedLength, byteLen_nil]
      rfl
    · cases rest with
      | nil => exact byteLen_cons c first
      | cons _ rest =>
        rw [modifyHead_cons, joinedLength, joinedLength, byteLen_cons]
        omega

lemma known_of_mem_chunkOf {leaf : Leaf Path}
    (h : leaf ∈ chunkOf inner outer part) : ∃ text outer, leaf = .known text inner outer := by
  unfold chunkOf at h
  split_ifs at h with hpart
  · cases h
  · exact ⟨part, outer, mem_singleton.1 h⟩

lemma chunkOf_ne_nil : chunkOf inner outer part ≠ [] ↔ part ≠ [] := by
  unfold chunkOf
  split_ifs with hpart <;> simp [hpart]

lemma byteLen_pos : 0 < byteLen text ↔ text ≠ [] := by
  cases text with
  | nil => simp
  | cons c text =>
    have := c.utf8Size_pos
    simp only [byteLen_cons, ne_eq, reduceCtorEq, not_false_eq_true, iff_true]
    omega

variable {more : List (List (Leaf Path))}

/-- The parts of one leaf, whose range goes over all of them.  A part in the middle that
is empty lies inside the range, which is why it has to have a text. -/
lemma itemsExact_chunks (h : ItemsExact ranges true stop (first :: more))
    (hranges : ∀ range ∈ ranges, stop ≤ range.range.1 ∧ range.range.1 ≤ range.range.2)
    (inner : ProjectPathProvenance Path) (outer : List (ProjectPathProvenance Path)) {begin : Nat}
    (hbegin : begin < stop) {parts : List Text} (hparts : parts ≠ []) (hstart : begin ≤ start)
    (hlen : start + joinedLength parts = stop) :
    ItemsExact (⟨(begin, stop), inner⟩ :: ranges) (decide (start = begin)) start
      (glue (parts.map (chunkOf inner outer)) (first :: more)) := by
  induction parts generalizing start with
  | nil => exact (hparts rfl).elim
  | cons part parts ih =>
    have hpos : 0 < byteLen part ↔ part ≠ [] := byteLen_pos
    cases parts with
    | nil =>
      -- the last part goes on in the first item behind the leaf
      rw [joinedLength] at hlen
      have hend : start + byteLen (textOf (chunkOf inner outer part ++ first)) =
          stop + byteLen (textOf first) := by
        rw [textOf_append, textOf_chunkOf, byteLen_append]
        omega
      have hhead : Exact (⟨(begin, stop), inner⟩ :: ranges) (chunkOf inner outer part ++ first)
          (start, stop + byteLen (textOf first)) := by
        refine (h.1 (.inl rfl)).append_front (by omega) hranges _ _
          (fun leaf hleaf => known_of_mem_chunkOf hleaf) ?_
        rw [chunkOf_ne_nil, ← hpos]
        simp only [touches, hbegin.ne, if_false, decide_eq_true_eq]
        omega
      refine ⟨fun _ => hend ▸ hhead, ?_⟩
      rw [hend]
      exact h.2.cons_of_lt (by dsimp only; omega)
    | cons next rest =>
      rw [joinedLength] at hlen
      have hrest := ih (by simp) (show begin ≤ start + byteLen part + 1 by omega) (by omega)
      rw [decide_eq_false (by omega)] at hrest
      have hglue : glue ((part :: next :: rest).map (chunkOf inner outer)) (first :: more) =
          chunkOf inner outer part ::
            glue ((next :: rest).map (chunkOf inner outer)) (first :: more) := rfl
      rw [hglue]
      refine ⟨fun hfront => ?_, by rwa [textOf_chunkOf]⟩
      rw [textOf_chunkOf] at hfront ⊢
      -- nothing behind the leaf touches a part before its last one
      have hnone : Exact ranges [] (start, start + byteLen part) := by
        intro _ prov
        refine ⟨?_, fun ⟨_, _, hmem⟩ => by cases hmem⟩
        rintro ⟨range, hrange, htouched, -⟩
        rw [not_touches (.inr (by have := hranges range hrange; dsimp only; omega))] at htouched
        cases htouched
      have hchunk := hnone.append_front le_rfl
        (fun range hrange => ⟨by have := hranges range hrange; omega, (hranges range hrange).2⟩)
        (chunkOf inner outer part) ⟨(begin, stop), inner⟩
        (fun leaf hleaf => known_of_mem_chunkOf hleaf) (by
          rw [chunkOf_ne_nil, ← hpos]
          rw [decide_eq_true_eq, ← hpos] at hfront
          simp only [touches, hbegin.ne, if_false, decide_eq_true_eq]
          omega)
      rwa [append_nil] at hchunk

lemma splitLeaves_ne_nil (leaves : List (Leaf Path)) : splitLeaves leaves ≠ [] := by
  induction leaves with
  | nil => simp [splitLeaves]
  | cons _ leaves ih => exact glue_ne_nil ih

variable {leaves : List (Leaf Path)}

lemma splitLeaves_unknowns (h : splitLeaves leaves = first :: more) :
    splitLeaves (replicate count .unknown ++ leaves) =
      (replicate count .unknown ++ first) :: more := by
  induction count with
  | zero => exact h
  | succ count ih =>
    rw [replicate_succ, cons_append, splitLeaves, ih]
    rfl

lemma itemsExact_splitLeaves (h : Recorded start leaves ranges) :
    ItemsExact ranges true start (splitLeaves leaves) := by
  induction h with
  | nil start =>
    refine ⟨fun _ _ prov => ?_, trivial⟩
    simp
  | @known start leaves ranges text inner outer h ih =>
    obtain ⟨first, more, hsplit⟩ := exists_cons_of_ne_nil (splitLeaves_ne_nil leaves)
    rw [hsplit] at ih
    rw [splitLeaves, hsplit, Leaf.split]
    have hranges := fun range hrange => (h.bounds range hrange).imp_right And.left
    split_ifs with hempty
    · -- an empty leaf is inside the item or at its border
      subst hempty
      have hhead := (ih.1 (.inl rfl)).append_front le_rfl hranges
        [.known [] inner outer] ⟨(start, start), inner⟩ (by simp) (by simp [touches])
      exact ⟨fun _ => hhead, ih.2.cons_of_lt (by dsimp only; omega)⟩
    · have hpos := byteLen_pos.2 hempty
      have hchunks := itemsExact_chunks ih hranges inner outer
        (show start < start + byteLen text by omega) (splitOn_ne_nil ';' text) le_rfl
        (by rw [joinedLength_splitOn])
      rwa [decide_eq_true rfl] at hchunks
  | @unknown start leaves ranges h ih =>
    obtain ⟨first, more, hsplit⟩ := exists_cons_of_ne_nil (splitLeaves_ne_nil leaves)
    rw [hsplit] at ih
    have hunk := splitLeaves_unknowns 1 hsplit
    rw [replicate_one, singleton_append, singleton_append] at hunk
    rw [hunk]
    refine ⟨fun _ hknown => (hknown mem_cons_self).elim, ?_⟩
    rw [textOf_cons, byteLen_append, byteLen_text_unknown, ← Nat.add_assoc]
    exact ih.2
  | @unknowns start leaves ranges count prov h ih =>
    obtain ⟨first, more, hsplit⟩ := exists_cons_of_ne_nil (splitLeaves_ne_nil leaves)
    rw [hsplit] at ih
    rw [splitLeaves_unknowns _ hsplit]
    refine ⟨fun _ hknown => (hknown (by simp)).elim, ?_⟩
    rw [textOf_append, byteLen_append, byteLen_unknowns,
      ← Nat.add_assoc start (count + 1) (byteLen (textOf first))]
    refine ih.2.cons_of_lt ?_
    dsimp only
    omega

/-- The items of a value and their ranges, one by one. -/
lemma exact_of_mem_zip (h : Recorded 0 leaves ranges) {item : Range × Text}
    {leavesOf : List (Leaf Path)}
    (hmem : (item, leavesOf) ∈ (listSpans 0 ((textOf leaves).splitOn ';')).zip (splitLeaves leaves))
    (htext : item.2 ≠ []) : textOf leavesOf = item.2 ∧ Exact ranges leavesOf item.1 := by
  have hexact := itemsExact_splitLeaves h
  rw [← texts_splitLeaves] at hmem
  generalize splitLeaves leaves = items at hexact hmem
  generalize true = inFront, 0 = start at hexact hmem
  induction items generalizing inFront start with
  | nil => simp [listSpans] at hmem
  | cons _ items ih =>
    rw [map_cons, listSpans, zip_cons_cons, mem_cons] at hmem
    rcases hmem with heq | hmem
    · cases heq
      exact ⟨rfl, hexact.1 (.inr htext)⟩
    · exact ih false _ hexact.2 hmem

end Leaves

end Lint4d.Msbuild
