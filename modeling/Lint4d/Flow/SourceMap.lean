import Lint4d.Lib.Checked
import Lint4d.Lsp.PositionIndex

/-!
# Source maps

A prepared buffer is put together from parts of source files.  A map of it is a list of
segments that the constructor checks once; a query then cuts the segments to a range, starting
where a binary search over their ends says.  The search is right because the checked segments
tile the buffer, and for the same reason the pieces tile the range.
-/

namespace Lint4d.Flow

open List
open Lint4d.Lib
open Lint4d.Lsp (PartitionPoint)

variable {prepared : List UInt8} {a b c : Nat}

/-! ## The map -/

structure ByteRange where
  start : Nat
  stop : Nat
deriving DecidableEq

def ByteRange.len (range : ByteRange) : Nat := range.stop - range.start

def slice (bytes : List UInt8) (range : ByteRange) : List UInt8 :=
  (bytes.drop range.start).take range.len

structure SourceSnapshot where
  sourceId : String
  bytes : List UInt8

structure SourceSpan where
  sourceId : String
  byteRange : ByteRange
deriving DecidableEq

inductive SourceSegmentKind where
  | copied
  | masked
  | synthetic
deriving DecidableEq

structure SourceMapSegment where
  preparedRange : ByteRange
  original : Option SourceSpan
  expansionId : String
  kind : SourceSegmentKind

structure MappedSourceSpan where
  preparedRange : ByteRange
  original : Option SourceSpan
  expansionId : String
  kind : SourceSegmentKind
deriving DecidableEq

inductive SourceMapError where
  | emptySourceId (id : String)
  | duplicateSourceId (id : String)
  | conflictingSourceId (id : String)
  | unknownSourceId (id : String)
  | emptyExpansionId
  | invalidRange (range : ByteRange) (space : String)
  | emptySegment (range : ByteRange)
  | preparedRangeOutOfBounds (range : ByteRange) (preparedLen : Nat)
  | originalRangeOutOfBounds (sourceId : String) (range : ByteRange) (sourceLen : Nat)
  | incompleteCoverage (expectedStart actualStart preparedLen : Nat)
  | overlappingSegments (previous next : ByteRange)
  | overlappingOriginalRanges (sourceId expansionId : String) (previous next : ByteRange)
  | expansionSourceMismatch (expansionId expected found : String)
  | missingOrigin (preparedRange : ByteRange) (kind : SourceSegmentKind)
  | syntheticHasOrigin (preparedRange : ByteRange)
  | lengthMismatch (preparedRange originalRange : ByteRange)
  | copiedBytesMismatch (sourceId : String) (preparedRange originalRange : ByteRange)
  | maskedBytesNotWhitespace (preparedRange : ByteRange) (offset : Nat) (byte : UInt8)
  | maskedLineBreakMismatch (preparedRange originalRange : ByteRange) (offset : Nat)
  | mapRangeOutOfBounds (range : ByteRange) (preparedLen : Nat)
deriving DecidableEq

structure SourceMap where
  preparedBytes : List UInt8
  originalSources : List SourceSnapshot
  segments : List SourceMapSegment
  preparedLen : Nat

/-! ## The checks of the constructor -/

def isLineBreak (byte : UInt8) : Bool := byte == 13 || byte == 10

def isAsciiWhitespace (byte : UInt8) : Bool := byte ∈ [9, 10, 12, 13, 32]

def validateMask (preparedRange originalRange : ByteRange) :
    Nat → List UInt8 → List UInt8 → Except SourceMapError Unit
  | offset, byte :: prepared, other :: original =>
    if isAsciiWhitespace byte = false then
      .error (.maskedBytesNotWhitespace preparedRange offset byte)
    else if isLineBreak byte ≠ isLineBreak other ∨ isLineBreak byte ∧ byte ≠ other then
      .error (.maskedLineBreakMismatch preparedRange originalRange offset)
    else validateMask preparedRange originalRange (offset + 1) prepared original
  | _, _, _ => .ok ()

def validateBytes (prepared : List UInt8) (source : SourceSnapshot) (preparedRange : ByteRange)
    (original : SourceSpan) : SourceSegmentKind → Except SourceMapError Unit
  | .copied =>
    if slice prepared preparedRange ≠ slice source.bytes original.byteRange then
      .error (.copiedBytesMismatch original.sourceId preparedRange original.byteRange)
    else .ok ()
  | .masked => validateMask preparedRange original.byteRange 0 (slice prepared preparedRange)
      (slice source.bytes original.byteRange)
  -- a synthetic segment with an origin was rejected before
  | .synthetic => .error (.syntheticHasOrigin preparedRange)

def findSource (sources : List SourceSnapshot) (id : String) : Option SourceSnapshot :=
  sources.find? fun source => source.sourceId == id

/-- Identities are not empty and not used twice. -/
def validateSources (seen : List SourceSnapshot) :
    List SourceSnapshot → Except SourceMapError Unit
  | [] => .ok ()
  | source :: rest =>
    if source.sourceId = "" then .error (.emptySourceId source.sourceId)
    else match findSource seen source.sourceId with
      | some previous =>
        if previous.bytes = source.bytes then .error (.duplicateSourceId source.sourceId)
        else .error (.conflictingSourceId source.sourceId)
      | none => validateSources (seen ++ [source]) rest

/-- What the loop over the segments carries. -/
structure Validation where
  expectedStart : Nat
  previousRange : Option ByteRange
  expansionSources : List (String × String)
  originalRanges : List ((String × String) × ByteRange)

namespace Validation

variable (prepared : List UInt8) (sources : List SourceSnapshot) (state : Validation)

/-- The source an expansion belongs to is the one of its first segment. -/
def expansionSource (expansionId : String) (original : SourceSpan) :
    Except SourceMapError Validation :=
  match state.expansionSources.lookup expansionId with
  | some expected =>
    if expected ≠ original.sourceId then
      .error (.expansionSourceMismatch expansionId expected original.sourceId)
    else .ok state
  | none => .ok { state with
      expansionSources := (expansionId, original.sourceId) :: state.expansionSources }

def origin (segment : SourceMapSegment) (original : SourceSpan) :
    Except SourceMapError Validation :=
  match findSource sources original.sourceId with
  | none => .error (.unknownSourceId original.sourceId)
  | some source => do
    let state ← state.expansionSource segment.expansionId original
    let range := original.byteRange
    if range.stop < range.start then .error (.invalidRange range "original")
    else if source.bytes.length < range.stop then
      .error (.originalRangeOutOfBounds original.sourceId range source.bytes.length)
    else if segment.preparedRange.len ≠ range.len then
      .error (.lengthMismatch segment.preparedRange range)
    else do
      validateBytes prepared source segment.preparedRange original segment.kind
      .ok { state with originalRanges :=
              state.originalRanges ++ [((original.sourceId, segment.expansionId), range)] }

def segment (segment : SourceMapSegment) : Except SourceMapError Validation :=
  let range := segment.preparedRange
  if segment.expansionId = "" then .error .emptyExpansionId
  else if range.stop < range.start then .error (.invalidRange range "prepared")
  else if prepared.length < range.stop then
    .error (.preparedRangeOutOfBounds range prepared.length)
  else if range.start < state.expectedStart then
    .error (.overlappingSegments (state.previousRange.getD ⟨0, state.expectedStart⟩) range)
  else if state.expectedStart < range.start then
    .error (.incompleteCoverage state.expectedStart range.start prepared.length)
  else if range.start = range.stop then .error (.emptySegment range)
  else
    let state := { state with expectedStart := range.stop, previousRange := some range }
    match segment.kind, segment.original with
    | .synthetic, some _ => .error (.syntheticHasOrigin range)
    | .synthetic, none => .ok state
    | kind, none => .error (.missingOrigin range kind)
    | _, some original => state.origin prepared sources segment original

end Validation

def rangesOverlap (left right : ByteRange) : Bool :=
  left.start < right.stop && right.start < left.stop

/-- The ranges of each source and expansion do not overlap.  The groups are taken as they come;
which of them is reported first depends on the order of a hash map. -/
def validateOriginalRanges (ranges : List ((String × String) × ByteRange)) :
    Except SourceMapError Unit :=
  (ranges.map Prod.fst).eraseDups.forM fun key =>
    let group := ((ranges.filter fun item => item.1 == key).map Prod.snd).mergeSort
      fun left right =>
        left.start < right.start || left.start == right.start && left.stop ≤ right.stop
    (group.zip group.tail).forM fun pair =>
      if rangesOverlap pair.1 pair.2 then
        .error (.overlappingOriginalRanges key.1 key.2 pair.1 pair.2)
      else .ok ()

def SourceMap.new (preparedBytes : List UInt8) (originalSources : List SourceSnapshot)
    (segments : List SourceMapSegment) : Except SourceMapError SourceMap := do
  validateSources [] originalSources
  let state ← segments.foldlM (Validation.segment preparedBytes originalSources) ⟨0, none, [], []⟩
  if state.expectedStart ≠ preparedBytes.length then
    .error (.incompleteCoverage state.expectedStart state.expectedStart preparedBytes.length)
  else do
    validateOriginalRanges state.originalRanges
    .ok ⟨preparedBytes, originalSources, segments, preparedBytes.length⟩

/-! ## Queries -/

/-- The part of a segment that lies in a range. -/
def SourceMapSegment.clip (range : ByteRange) (segment : SourceMapSegment) : MappedSourceSpan :=
  let start := max segment.preparedRange.start range.start
  let stop := min segment.preparedRange.stop range.stop
  { preparedRange := ⟨start, stop⟩
    original := segment.original.map fun original =>
      let offset := start - segment.preparedRange.start
      ⟨original.sourceId, original.byteRange.start + offset,
        original.byteRange.start + offset + (stop - start)⟩
    expansionId := segment.expansionId
    kind := segment.kind }

/-- The loop of a query: it skips the segments before the range and ends at the first one
after it. -/
def mapSegments (range : ByteRange) : List SourceMapSegment → List MappedSourceSpan
  | [] => []
  | segment :: rest =>
    if segment.preparedRange.stop ≤ range.start then mapSegments range rest
    else if range.stop ≤ segment.preparedRange.start then []
    else segment.clip range :: mapSegments range rest

def SourceMap.mapRange (search : PartitionPoint) (map : SourceMap) (range : ByteRange) :
    Except SourceMapError (List MappedSourceSpan) :=
  if range.stop < range.start then .error (.invalidRange range "mapping")
  else if map.preparedLen < range.stop then .error (.mapRangeOutOfBounds range map.preparedLen)
  else if range.start = range.stop then .ok []
  else
    let firstSegment := search.run
      (fun segment : SourceMapSegment => segment.preparedRange.stop ≤ range.start) map.segments
    .ok (mapSegments range (map.segments.drop firstSegment))

/-! ## What an accepted map satisfies -/

/-- Ranges that follow one another without gap, none of them empty. -/
inductive Tiles {α : Type} (range : α → ByteRange) : Nat → List α → Nat → Prop where
  | nil (place : Nat) : Tiles range place [] place
  | cons {item items stop} (hlt : (range item).start < (range item).stop)
      (h : Tiles range (range item).stop items stop) :
      Tiles range (range item).start (item :: items) stop

/-- The line breaks of some bytes, each at its place. -/
def lineBreaks (bytes : List UInt8) : List (Option UInt8) :=
  bytes.map fun byte => if isLineBreak byte then some byte else none

/-- Copied bytes are those of the source, masked ones have its line breaks. -/
def SourceSegmentKind.Agrees (prepared original : List UInt8) : SourceSegmentKind → Prop
  | .copied => prepared = original
  | .masked => lineBreaks prepared = lineBreaks original
  | .synthetic => False

/-- The origin of a range is as long as the range and inside its source, and the bytes agree;
only a synthetic range has none. -/
def HasOrigin (prepared : List UInt8) (sources : List SourceSnapshot) (kind : SourceSegmentKind)
    (range : ByteRange) : Option SourceSpan → Prop
  | none => kind = .synthetic
  | some origin => ∃ source, findSource sources origin.sourceId = some source ∧
      origin.byteRange.start + range.len = origin.byteRange.stop ∧
      origin.byteRange.stop ≤ source.bytes.length ∧
      kind.Agrees (slice prepared range) (slice source.bytes origin.byteRange)

variable {range : ByteRange} {kind : SourceSegmentKind} {seg : SourceMapSegment}
  {segs : List SourceMapSegment}

section New

variable {prepared : List UInt8} {sources : List SourceSnapshot} {state after : Validation}
  {preparedRange : ByteRange} {bytes : List UInt8}

lemma lineBreaks_of_validateMask {orig : ByteRange} {off : Nat} {others : List UInt8}
    (hlen : bytes.length = others.length)
    (h : validateMask preparedRange orig off bytes others = .ok ()) :
    lineBreaks bytes = lineBreaks others := by
  induction bytes generalizing off others with
  | nil =>
    obtain rfl := length_eq_zero_iff.1 hlen.symm
    rfl
  | cons byte bytes ih =>
    cases others with
    | nil => cases hlen
    | cons _ others =>
      rw [validateMask, refuse_ok_iff, refuse_ok_iff, not_or, not_not, not_and, not_not] at h
      obtain ⟨-, ⟨hbreak, hsame⟩, hrest⟩ := h
      have htail := ih (Nat.succ.inj hlen) hrest
      simp only [lineBreaks, map_cons] at htail ⊢
      rw [htail, ← hbreak]
      cases hbyte : isLineBreak byte with
      | false => rfl
      | true => rw [hsame hbyte]

lemma length_slice (h : range.stop ≤ bytes.length) : (slice bytes range).length = range.len := by
  simp only [slice, ByteRange.len, length_take, length_drop]
  omega

variable {original : SourceSpan}

lemma agrees_of_validateBytes {src : SourceSnapshot}
    (hlen : (slice prepared preparedRange).length = (slice src.bytes original.byteRange).length)
    (h : validateBytes prepared src preparedRange original kind = .ok ()) :
    kind.Agrees (slice prepared preparedRange) (slice src.bytes original.byteRange) := by
  cases kind with
  | copied => exact not_not.1 (refuse_ok_iff.1 h).1
  | masked => exact lineBreaks_of_validateMask hlen h
  | synthetic => cases h

lemma hasOrigin_of_origin (hprep : seg.preparedRange.stop ≤ prepared.length)
    (h : state.origin prepared sources seg original = .ok after) :
    after.expectedStart = state.expectedStart ∧
      HasOrigin prepared sources seg.kind seg.preparedRange (some original) := by
  unfold Validation.origin at h
  split at h
  · cases h
  · rename_i src hsrc
    simp only [bind_ok_iff, refuse_ok_iff, not_lt, not_not] at h
    obtain ⟨_, hknown, hstart, hstop, hlen, _, hbytes, heq⟩ := h
    cases heq
    refine ⟨?_, src, hsrc, ?_, hstop, ?_⟩
    · unfold Validation.expansionSource at hknown
      split at hknown
      · cases (refuse_ok_iff.1 hknown).2
        rfl
      · cases hknown
        rfl
    · rw [hlen, ByteRange.len]
      omega
    · refine agrees_of_validateBytes ?_ hbytes
      rw [length_slice hprep, length_slice hstop, hlen]

/-- One segment that passes continues the buffer and has its origin. -/
lemma tiles_of_segment (h : state.segment prepared sources seg = .ok after) :
    seg.preparedRange.start = state.expectedStart ∧
      seg.preparedRange.start < seg.preparedRange.stop ∧
      after.expectedStart = seg.preparedRange.stop ∧
      HasOrigin prepared sources seg.kind seg.preparedRange seg.original := by
  unfold Validation.segment at h
  simp only [refuse_ok_iff, not_lt] at h
  obtain ⟨-, hord, hinside, hle, hge, hne, h⟩ := h
  have hstart := le_antisymm hge hle
  have hlt := lt_of_le_of_ne hord hne
  split at h
  · cases h
  · rename_i hkind horig
    cases h
    exact ⟨hstart, hlt, rfl, by rw [horig]; exact hkind⟩
  · cases h
  · rename_i original horig _
    obtain ⟨hexp, horigin⟩ := hasOrigin_of_origin hinside h
    exact ⟨hstart, hlt, hexp, by rw [horig]; exact horigin⟩

lemma tiles_of_foldlM (h : segs.foldlM (Validation.segment prepared sources) state = .ok after) :
    Tiles SourceMapSegment.preparedRange state.expectedStart segs after.expectedStart ∧
      ∀ seg ∈ segs, HasOrigin prepared sources seg.kind seg.preparedRange seg.original := by
  induction segs generalizing state with
  | nil =>
    cases h
    exact ⟨.nil _, by simp⟩
  | cons seg segs ih =>
    rw [foldlM_cons, bind_ok_iff] at h
    obtain ⟨_, hseg, hrest⟩ := h
    obtain ⟨hstart, hlt, hnext, horigin⟩ := tiles_of_segment hseg
    obtain ⟨htiles, horigins⟩ := ih hrest
    rw [hnext] at htiles
    exact ⟨hstart ▸ .cons hlt htiles, forall_mem_cons.2 ⟨horigin, horigins⟩⟩

end New

/-! ## Pieces of a range -/

section Pieces

variable {segs : List SourceMapSegment} {seg : SourceMapSegment} {range : ByteRange}
  {α : Type} {place : α → ByteRange} {items : List α} {start stop : Nat}

lemma Tiles.le_start (h : Tiles place start items stop) :
    ∀ item ∈ items, start ≤ (place item).start ∧ (place item).start < (place item).stop := by
  induction h with
  | nil => simp
  | cons hlt h ih =>
    refine forall_mem_cons.2 ⟨⟨le_rfl, hlt⟩, fun item hitem => ?_⟩
    exact ⟨hlt.le.trans (ih item hitem).1, (ih item hitem).2⟩

/-- At a place the tiles are those before it and those after it, and perhaps one across. -/
lemma Tiles.split (h : Tiles place start items stop) (cut : Nat) :
    ∃ front across back, items = front ++ across ++ back ∧
      (∀ item ∈ front, (place item).stop ≤ cut) ∧
      (∀ item ∈ back, cut ≤ (place item).start) ∧
      (across = [] ∨ ∃ item, across = [item] ∧ (place item).start < cut ∧
        cut < (place item).stop) := by
  induction h with
  | nil => exact ⟨[], [], [], rfl, by simp, by simp, .inl rfl⟩
  | @cons item rest stop _ h ih =>
    by_cases hbefore : (place item).stop ≤ cut
    · obtain ⟨front, across, back, rfl, hfront, hback, hacross⟩ := ih
      exact ⟨item :: front, across, back, rfl, forall_mem_cons.2 ⟨hbefore, hfront⟩, hback, hacross⟩
    · have hrest : ∀ other ∈ rest, cut ≤ (place other).start := fun other hother =>
        (not_le.1 hbefore).le.trans (h.le_start other hother).1
      by_cases hafter : cut ≤ (place item).start
      · exact ⟨[], [], item :: rest, rfl, by simp, forall_mem_cons.2 ⟨hafter, hrest⟩, .inl rfl⟩
      · exact ⟨[], [item], rest, rfl, by simp, hrest,
          .inr ⟨item, rfl, not_le.1 hafter, not_le.1 hbefore⟩⟩

def SourceMapSegment.touches (range : ByteRange) (segment : SourceMapSegment) : Bool :=
  max segment.preparedRange.start range.start < min segment.preparedRange.stop range.stop

/-- The pieces of the segments that a range touches. -/
def pieces (range : ByteRange) (segments : List SourceMapSegment) : List MappedSourceSpan :=
  (segments.filter (·.touches range)).map (·.clip range)

open SourceMapSegment (preparedRange touches clip)

lemma pieces_append (range : ByteRange) (front back : List SourceMapSegment) :
    pieces range (front ++ back) = pieces range front ++ pieces range back := by
  simp [pieces]

lemma pieces_eq_nil (h : ∀ seg ∈ segs, seg.touches range = false) :
    pieces range segs = [] := by
  rw [pieces, filter_eq_nil_iff.2 (by simpa using h), map_nil]

/-- Only the ends of a piece depend on the range. -/
lemma pieces_congr {other : ByteRange} (hstart : ∀ seg ∈ segs,
      max seg.preparedRange.start range.start = max seg.preparedRange.start other.start)
    (hstop : ∀ seg ∈ segs,
      min seg.preparedRange.stop range.stop = min seg.preparedRange.stop other.stop) :
    pieces range segs = pieces other segs := by
  unfold pieces
  rw [filter_congr fun seg hmem => by
    rw [touches, hstart seg hmem, hstop seg hmem, ← touches]]
  refine map_congr_left fun seg hmem => ?_
  have hmem := mem_of_mem_filter hmem
  simp only [clip, hstart seg hmem, hstop seg hmem]

lemma mapSegments_eq_pieces (hrange : range.start < range.stop)
    (h : Tiles preparedRange start segs stop) :
    mapSegments range segs = pieces range segs := by
  induction h with
  | nil => rfl
  | @cons seg rest stop _ h ih =>
    have hcons : pieces range (seg :: rest) =
        (if seg.touches range then [seg.clip range] else []) ++ pieces range rest := by
      unfold pieces
      rw [filter_cons]
      split <;> rfl
    rw [mapSegments, hcons]
    simp only [touches, decide_eq_true_eq]
    by_cases hbefore : seg.preparedRange.stop ≤ range.start
    · rw [if_pos hbefore, if_neg (by omega), ih, nil_append]
    by_cases hafter : range.stop ≤ seg.preparedRange.start
    · -- past the end of the range the loop stops: no later segment starts inside
      rw [if_neg hbefore, if_pos hafter, if_neg (by omega), nil_append]
      refine (pieces_eq_nil fun other hother => decide_eq_false ?_).symm
      have := h.le_start other hother
      omega
    · rw [if_neg hbefore, if_neg hafter, if_pos (by omega), ih, singleton_append]

lemma mapSegments_append {front back : List SourceMapSegment}
    (h : ∀ seg ∈ front, seg.preparedRange.stop ≤ range.start) :
    mapSegments range (front ++ back) = mapSegments range back := by
  induction front with
  | nil => rfl
  | cons seg front ih =>
    rw [forall_mem_cons] at h
    rw [cons_append, mapSegments, if_pos h.1, ih h.2]

/-- The binary search leaves out segments that the loop skips. -/
lemma mapSegments_drop (search : PartitionPoint) (h : Tiles preparedRange start segs stop) :
    mapSegments range (segs.drop (search.run
      (fun seg => seg.preparedRange.stop ≤ range.start) segs)) = mapSegments range segs := by
  have hnonempty := h.le_start
  obtain ⟨_, _, _, rfl, hfront, hback, hacross⟩ := h.split range.start
  rw [append_assoc, search.run_append, drop_left, mapSegments_append hfront]
  · exact fun seg hmem => decide_eq_true (hfront seg hmem)
  · intro seg hmem
    have hlt := (hnonempty seg (by simpa using .inr (mem_append.1 hmem))).2
    apply decide_eq_false
    rcases mem_append.1 hmem with hmem | hmem
    · obtain ⟨_, rfl, -, hstop⟩ := hacross.resolve_left (ne_nil_of_mem hmem)
      obtain rfl := mem_singleton.1 hmem
      omega
    · have := hback seg hmem
      omega

/-- The pieces of tiles are tiles, between the ends brought into the range. -/
lemma tiles_pieces (hrange : range.start ≤ range.stop) (h : Tiles preparedRange start segs stop) :
    Tiles MappedSourceSpan.preparedRange (max range.start (min range.stop start))
      (pieces range segs) (max range.start (min range.stop stop)) := by
  induction h with
  | nil => exact .nil _
  | @cons seg _ stop _ h ih =>
    unfold pieces at ih ⊢
    rw [filter_cons]
    split_ifs with htouch
    all_goals simp only [touches, decide_eq_true_eq] at htouch
    · have hstart : max range.start (min range.stop seg.preparedRange.start) =
          (seg.clip range).preparedRange.start := by
        simp only [clip]
        omega
      have hstop : max range.start (min range.stop seg.preparedRange.stop) =
          (seg.clip range).preparedRange.stop := by
        simp only [clip]
        omega
      rw [hstart]
      rw [hstop] at ih
      exact .cons htouch ih
    · have hsame : max range.start (min range.stop seg.preparedRange.start) =
          max range.start (min range.stop seg.preparedRange.stop) := by
        omega
      rw [hsame]
      exact ih

end Pieces

open SourceMapSegment (preparedRange touches clip)

/-! ## Origins of pieces -/

lemma slice_slice (bytes : List UInt8) (range : ByteRange) {inner : ByteRange}
    (hstart : range.start ≤ inner.start) (hstop : inner.stop ≤ range.stop) :
    slice bytes inner = ((slice bytes range).drop (inner.start - range.start)).take inner.len := by
  simp only [slice, ByteRange.len, drop_take, drop_drop, take_take]
  congr 1
  · omega
  · rw [Nat.add_sub_cancel' hstart]

lemma SourceSegmentKind.Agrees.part {original : List UInt8} (h : kind.Agrees prepared original)
    (skip length : Nat) :
    kind.Agrees ((prepared.drop skip).take length) ((original.drop skip).take length) := by
  cases kind with
  | copied => exact congrArg (fun bytes => (bytes.drop skip).take length) h
  | masked =>
    unfold Agrees lineBreaks at h ⊢
    rw [map_take, map_drop, map_take, map_drop, h]
  | synthetic => exact h

/-- A piece of a segment: what lies in the range of it, with the part of its origin that is as
far inside. -/
structure PieceOf (prepared : List UInt8) (sources : List SourceSnapshot) (range : ByteRange)
    (span : MappedSourceSpan) (segment : SourceMapSegment) : Prop where
  preparedRange : span.preparedRange = ⟨max segment.preparedRange.start range.start,
    min segment.preparedRange.stop range.stop⟩
  expansionId : span.expansionId = segment.expansionId
  kind : span.kind = segment.kind
  offset : ∀ part ∈ span.original, ∃ whole ∈ segment.original, part.sourceId = whole.sourceId ∧
    part.byteRange.start + segment.preparedRange.start =
      whole.byteRange.start + span.preparedRange.start
  origin : HasOrigin prepared sources span.kind span.preparedRange span.original

lemma pieceOf_clip {sources : List SourceSnapshot} (htouch : seg.touches range = true)
    (h : HasOrigin prepared sources seg.kind seg.preparedRange seg.original) :
    PieceOf prepared sources range (seg.clip range) seg := by
  simp only [touches, decide_eq_true_eq] at htouch
  refine ⟨rfl, rfl, rfl, ?_, ?_⟩
  · intro part hpart
    obtain ⟨whole, hwhole, rfl⟩ := Option.map_eq_some_iff.1 hpart
    refine ⟨whole, hwhole, rfl, ?_⟩
    simp only [clip]
    omega
  · cases horig : seg.original with
    | none =>
      simpa [clip, horig, HasOrigin] using h
    | some whole =>
      rw [horig] at h
      obtain ⟨src, hsrc, hlen, hinside, hagrees⟩ := h
      simp only [clip, horig, Option.map_some]
      simp only [ByteRange.len] at hlen
      refine ⟨src, hsrc, by simp only [ByteRange.len], by dsimp only; omega, ?_⟩
      -- both slices are the same part of the slices of the whole segment
      rw [slice_slice prepared seg.preparedRange (by simp) (by simp),
        slice_slice src.bytes whole.byteRange (by simp) (by dsimp only; omega)]
      have hskip : ∀ place shift : Nat, place + shift - place = shift := fun _ _ =>
        Nat.add_sub_cancel_left ..
      simp only [ByteRange.len, hskip]
      exact hagrees.part _ _

/-! ## Cutting a range -/

/-- Two pieces of one segment that touch. -/
def MappedSourceSpan.join (left right : MappedSourceSpan) : MappedSourceSpan :=
  { left with
    preparedRange := ⟨left.preparedRange.start, right.preparedRange.stop⟩
    original := left.original.bind fun first => right.original.map fun last =>
      ⟨first.sourceId, first.byteRange.start, last.byteRange.stop⟩ }

def SourceMapSegment.isCutAt (place : Nat) (segment : SourceMapSegment) : Bool :=
  segment.preparedRange.start < place && place < segment.preparedRange.stop

/-- The pieces before and after a place, with the two pieces of a segment cut there joined. -/
def joinAt (segments : List SourceMapSegment) (place : Nat) (left right : List MappedSourceSpan) :
    List MappedSourceSpan :=
  match left.getLast?, right with
  | some last, first :: rest =>
    if segments.any (·.isCutAt place) then left.dropLast ++ last.join first :: rest
    else left ++ right
  | _, _ => left ++ right

lemma join_clip (hab : a ≤ b) (hbc : b ≤ c) (hstart : seg.preparedRange.start < b)
    (hstop : b < seg.preparedRange.stop) :
    (seg.clip ⟨a, b⟩).join (seg.clip ⟨b, c⟩) = seg.clip ⟨a, c⟩ := by
  unfold MappedSourceSpan.join clip
  cases seg.original with
  | none => rfl
  | some =>
    simp only [Option.map_some, Option.bind_some, MappedSourceSpan.mk.injEq, Option.some.injEq,
      SourceSpan.mk.injEq, ByteRange.mk.injEq, true_and, and_true]
    omega

lemma pieces_cut {start stop : Nat} (h : Tiles preparedRange start segs stop)
    (hab : a ≤ b) (hbc : b ≤ c) :
    pieces ⟨a, c⟩ segs = joinAt segs b (pieces ⟨a, b⟩ segs) (pieces ⟨b, c⟩ segs) := by
  have hempty : ∀ place, pieces ⟨place, place⟩ segs = [] := fun place =>
    pieces_eq_nil fun seg _ => decide_eq_false (by dsimp only; omega)
  rcases hab.eq_or_lt with rfl | hab
  · rw [hempty]
    rfl
  rcases hbc.eq_or_lt with rfl | hbc
  · rw [hempty, joinAt, append_nil]
    simp
  -- at most one segment lies across the cut
  obtain ⟨front, _, back, rfl, hfront, hback, hacross⟩ := h.split b
  have hfirst : pieces ⟨a, c⟩ front = pieces ⟨a, b⟩ front :=
    pieces_congr (fun _ _ => rfl) fun seg hmem => by
      have := hfront seg hmem
      dsimp only
      omega
  have hlast : pieces ⟨a, c⟩ back = pieces ⟨b, c⟩ back :=
    pieces_congr (fun seg hmem => by
      have := hback seg hmem
      dsimp only
      omega) fun _ _ => rfl
  have hfirst' : pieces ⟨b, c⟩ front = [] := pieces_eq_nil fun seg hmem => by
    have := hfront seg hmem
    exact decide_eq_false (by dsimp only; omega)
  have hlast' : pieces ⟨a, b⟩ back = [] := pieces_eq_nil fun seg hmem => by
    have := hback seg hmem
    exact decide_eq_false (by dsimp only; omega)
  have huncut : front.any (·.isCutAt b) = false ∧ back.any (·.isCutAt b) = false := by
    simp only [any_eq_false, SourceMapSegment.isCutAt, Bool.and_eq_true, decide_eq_true_eq]
    exact ⟨fun seg hmem hcut => absurd (hfront seg hmem) (not_le.2 hcut.2),
      fun seg hmem hcut => absurd (hback seg hmem) (not_le.2 hcut.1)⟩
  simp only [pieces_append, hfirst, hlast, hfirst', hlast', nil_append, append_nil]
  rcases hacross with rfl | ⟨seg, rfl, hstart, hstop⟩
  · have hjoin : joinAt (front ++ [] ++ back) b (pieces ⟨a, b⟩ front) (pieces ⟨b, c⟩ back) =
        pieces ⟨a, b⟩ front ++ pieces ⟨b, c⟩ back := by
      unfold joinAt
      rw [append_nil, any_append, huncut.1, huncut.2]
      split <;> rfl
    simpa [pieces] using hjoin.symm
  · have hpiece : ∀ {range : ByteRange}, seg.touches range = true →
        pieces range [seg] = [seg.clip range] := fun htouch => by
      rw [pieces, filter_singleton, htouch]
      rfl
    have htouch : seg.touches ⟨a, b⟩ = true ∧ seg.touches ⟨b, c⟩ = true ∧
        seg.touches ⟨a, c⟩ = true := by
      simp only [touches, decide_eq_true_eq]
      omega
    rw [hpiece htouch.1, hpiece htouch.2.1, hpiece htouch.2.2]
    have hcut : (front ++ [seg] ++ back).any (·.isCutAt b) = true := by
      simp [SourceMapSegment.isCutAt, hstart, hstop]
    unfold joinAt
    rw [getLast?_concat, singleton_append]
    dsimp only
    rw [if_pos hcut, dropLast_concat, join_clip hab.le hbc.le hstart hstop, append_assoc,
      singleton_append]

/-! ## The result -/

lemma mapRange_eq_pieces (search : PartitionPoint) {map : SourceMap}
    (h : Tiles preparedRange 0 map.segments map.preparedLen)
    (hrange : range.start ≤ range.stop) (hinside : range.stop ≤ map.preparedLen) :
    map.mapRange search range = .ok (pieces range map.segments) := by
  rw [SourceMap.mapRange, if_neg (not_lt.2 hrange), if_neg (not_lt.2 hinside)]
  rcases hrange.eq_or_lt with heq | hlt
  · rw [if_pos heq, pieces_eq_nil fun seg _ => decide_eq_false (by omega)]
  · rw [if_neg hlt.ne]
    dsimp only
    rw [mapSegments_drop search h, mapSegments_eq_pieces hlt h]

/-- The pieces a query gives tile its range, one for each segment the range touches, each with
the part of its origin that belongs to it; and a query is put together from the queries of its
two parts, wherever it is cut. -/
theorem map_range_tiles (search : PartitionPoint) {prepared : List UInt8}
    {sources : List SourceSnapshot} {segments : List SourceMapSegment} {map : SourceMap}
    (h : SourceMap.new prepared sources segments = .ok map) {a b c : Nat} (hab : a ≤ b)
    (hbc : b ≤ c) (hc : c ≤ prepared.length) :
    ∃ spans left right, map.mapRange search ⟨a, c⟩ = .ok spans ∧
      map.mapRange search ⟨a, b⟩ = .ok left ∧ map.mapRange search ⟨b, c⟩ = .ok right ∧
      Tiles MappedSourceSpan.preparedRange a spans c ∧
      List.Forall₂ (PieceOf prepared sources ⟨a, c⟩) spans
        (segments.filter (·.touches ⟨a, c⟩)) ∧
      spans = joinAt segments b left right := by
  unfold SourceMap.new at h
  simp only [bind_ok_iff, refuse_ok_iff, not_not] at h
  obtain ⟨_, -, _, hstate, hstop, _, -, heq⟩ := h
  cases heq
  obtain ⟨htiles, horigins⟩ := tiles_of_foldlM hstate
  rw [hstop] at htiles
  refine ⟨pieces ⟨a, c⟩ segments, pieces ⟨a, b⟩ segments, pieces ⟨b, c⟩ segments,
    mapRange_eq_pieces search htiles (hab.trans hbc) hc,
    mapRange_eq_pieces search htiles hab (hbc.trans hc),
    mapRange_eq_pieces search htiles hbc hc, ?_, ?_, pieces_cut htiles hab hbc⟩
  · have hpieces := tiles_pieces (show (ByteRange.mk a c).start ≤ _ from hab.trans hbc) htiles
    rwa [Nat.min_zero, Nat.max_zero, min_eq_left hc, max_eq_right (hab.trans hbc)] at hpieces
  · rw [pieces, forall₂_map_left_iff, forall₂_same]
    intro segment hsegment
    obtain ⟨hmem, htouches⟩ := mem_filter.1 hsegment
    exact pieceOf_clip htouches (horigins segment hmem)

def maskedBytes : List UInt8 := [97, 10, 32, 32, 59]

def maskedSources : List SourceSnapshot := [⟨"unit", [97, 10, 98, 99]⟩]

/-- A line of a source, the next one masked, and a byte that no source has. -/
def maskedSegments : List SourceMapSegment := [⟨⟨0, 2⟩, some ⟨"unit", 0, 2⟩, "root", .copied⟩,
  ⟨⟨2, 4⟩, some ⟨"unit", 2, 4⟩, "root", .masked⟩,
  ⟨⟨4, 5⟩, none, "root", .synthetic⟩]

theorem map_range_tiles_maskedSegments : ∃ map spans,
    SourceMap.new maskedBytes maskedSources maskedSegments = .ok map ∧
    map.mapRange Lsp.leadingElements ⟨1, 5⟩ = .ok spans ∧
    Tiles MappedSourceSpan.preparedRange 1 spans 5 ∧ spans.length = 3 := by
  have hranges : validateOriginalRanges
      [(("unit", "root"), ⟨0, 2⟩), (("unit", "root"), ⟨2, 4⟩)] = .ok () := by
    simp [validateOriginalRanges, List.mergeSort, List.eraseDups_cons, rangesOverlap]
  have hnew : SourceMap.new maskedBytes maskedSources maskedSegments =
      .ok ⟨maskedBytes, maskedSources, maskedSegments, 5⟩ := by
    unfold SourceMap.new
    simp only [bind_ok_iff, refuse_ok_iff, not_not]
    exact ⟨(), rfl, _, rfl, rfl, (), hranges, rfl⟩
  obtain ⟨spans, _, _, hspans, -, -, htiles, hpieces, -⟩ :=
    map_range_tiles Lsp.leadingElements hnew (a := 1) (b := 3) (c := 5) (by decide) (by decide)
      (by decide)
  exact ⟨_, spans, hnew, hspans, htiles, hpieces.length_eq.trans (by decide)⟩

end Lint4d.Flow
