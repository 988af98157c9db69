import Lint4d.Cache.Outcome
import Lint4d.Facts.Model

/-!
# Row encoding of facts

`facts/encode.rs`: one row per fact with the name as its index key, a posting
list split over as many rows as a batch bound needs, and a supplemental header
with the row counts, the slot lengths and the coverage.
-/

namespace Lint4d.Facts

open List Lint4d.Cache

variable {α : Type} {size : Nat}

/-! ## Tags -/

/-- Tags are stored in rows, so their numbers are part of the format. -/
def DeclarationKind.tag : DeclarationKind → UInt8
  | unit => 1
  | type => 2
  | routine => 3
  | «variable» => 4
  | constant => 5
  | field => 6
  | property => 7
  | enumValue => 8

def DeclarationShape.tag : DeclarationShape → UInt8
  | unit => 1
  | «class» => 2
  | record => 3
  | interface => 4
  | enum => 5
  | array => 6
  | pointer => 7
  | callable => 8
  | string => 9
  | file => 10
  | otherType => 11
  | constructor => 12
  | function => 13
  | operator => 14
  | method => 15
  | procedure => 16
  | «variable» => 17
  | constant => 18
  | field => 19
  | property => 20
  | enumValue => 21

def Visibility.tag : Visibility → UInt8
  | «public» => 1
  | published => 2
  | «private» => 3
  | «protected» => 4
  | strictPrivate => 5
  | strictProtected => 6

def Region.tag : Region → UInt8
  | interface => 1
  | implementation => 2
  | other => 3

def Origin.tag : Origin → UInt8
  | declaration => 1
  | definition => 2

def ImportSection.tag : ImportSection → UInt8
  | module => 1
  | interface => 2
  | implementation => 3

def Activity.tag : Activity → UInt8
  | active => 1
  | inactive => 2
  | unknown => 3

def PostingActivity.tag : PostingActivity → UInt8
  | active => 1
  | inactive => 2
  | unknown => 3
  | directive => 4

def IncludeExpansion.tag : IncludeExpansion → UInt8
  | expanded => 1
  | unresolved => 2

def CoverageReason.tag : CoverageReason → UInt8
  | conditionalUnknown => 1
  | parserRecovery => 2
  | unresolvedInclude => 3
  | expansionIncomplete => 4
  | unmappedLocation => 5

/-! ## Rows -/

/-- The kinds of rows. -/
def declarationRow : UInt8 := 1
def importRow : UInt8 := 2
def postingRow : UInt8 := 3
def includeRow : UInt8 := 4
def segmentRow : UInt8 := 5

/-- Bytes of one posting occurrence: slot, start, end and activity. -/
def occurrenceBytes : Nat := 13

/-- Bytes of a `u64` length prefix. -/
def lengthBytes : Nat := 8

/-- A stored row of an artifact, without its ordinal. -/
structure Row where
  rowKind : UInt8
  indexKey : Option (Vec UInt8)
  payload : Bytes
deriving DecidableEq

/-- The rows of an artifact and its supplemental header. -/
structure EncodedFacts where
  rows : List Row
  supplemental : Bytes
deriving DecidableEq

/-! ## Admission before encoding -/

/-- The bytes of an encoded location: a variant tag, the slot if there is one, a range. -/
def locationBytes : FactLocation → Nat
  | .source .. => 13
  | .expanded _ => 9

/-- The payload of a declaration row, counted without encoding it. -/
def declarationBytes (fact : DeclarationFact) : Nat :=
  4 + lengthBytes + Str.len fact.display + 5 + (if fact.parent.isSome then 5 else 1) +
    locationBytes fact.location + 2 + locationBytes fact.extent + 2 +
    (fact.owner.map fun owner => 1 + lengthBytes + Str.len owner).getD 1

def importBytes (fact : ImportFact) : Nat :=
  4 + lengthBytes + Str.len fact.display + 1 + locationBytes fact.location + 2

def includeBytes : Nat := 17

def segmentBytes (segment : SegmentFact) : Nat :=
  9 + match segment.target with
    | .source .. => 8
    | .synthetic => 0

variable (facts : ArtifactFacts)

/-- Five row counts, the slot lengths, the expanded length and the coverage. -/
def supplementalBytes : Nat :=
  20 + lengthBytes + 4 * facts.slotLengths.length + 4 + lengthBytes + facts.coverage.length

/-- How many occurrences of `name` one posting row holds within a batch. -/
def occurrencesPerRow (name : Str) : Nat :=
  (maxRowBatchBytes - Str.len name - lengthBytes) / occurrenceBytes

/-- `slice::chunks`: consecutive parts of `size` items, the last one shorter. -/
def chunks {α : Type} (size : Nat) (items : List α) : List (List α) :=
  go items.length items
where
  go : Nat → List α → List (List α)
    | _, [] => []
    | 0, _ => []
    | fuel + 1, items => items.take size :: go fuel (items.drop size)

/-- No item is lost, and they keep their order. -/
lemma flatten_chunks (hsize : 0 < size) (items : List α) : (chunks size items).flatten = items := by
  suffices hgo : ∀ fuel (items : List α), items.length ≤ fuel →
      (chunks.go size fuel items).flatten = items from hgo _ items le_rfl
  intro fuel items hle
  fun_induction chunks.go size fuel items with
  | case1 => rfl
  | case2 items hne => exact (hne (length_eq_zero_iff.mp (by omega))).elim
  | case3 fuel items hne ih =>
    rw [flatten_cons, ih (by rw [length_drop]; omega), take_append_drop]

/-- No chunk is empty or longer than `size`. -/
lemma mem_chunks (hsize : 0 < size) {items chunk : List α}
    (h : chunk ∈ chunks size items) : chunk ≠ [] ∧ chunk.length ≤ size := by
  unfold chunks at h
  generalize items.length = fuel at h
  fun_induction chunks.go size fuel items with
  | case1 | case2 => cases h
  | case3 fuel items hne ih =>
    rcases mem_cons.1 h with rfl | h
    · exact ⟨by simpa [hsize.ne'] using hne, length_take_le ..⟩
    · exact ih h

/-- The rows and content bytes admitted so far. -/
structure Plan where
  rows : Nat := 0
  content : Nat := 0
deriving DecidableEq

/-- An index key within its limit. -/
def Plan.key (plan : Plan) (bytes : Nat) : Except TooLarge Unit :=
  if maxIndexKeyBytes < bytes then .error (.indexKey plan.rows bytes) else .ok ()

/-- One more row, within the limits of a batch, of an artifact and of its content. -/
def Plan.admit (plan : Plan) (bytes : Nat) : Except TooLarge Plan :=
  if maxRowBatchBytes < bytes then .error (.row plan.rows bytes)
  else if maxArtifactRows < plan.rows + 1 then .error (.rows (plan.rows + 1))
  else if maxArtifactContentBytes < plan.content + bytes then
    .error (.content (plan.content + bytes))
  else .ok { rows := plan.rows + 1, content := plan.content + bytes }

/-- A row whose index key, if it has one, counts as content. -/
def Plan.row (plan : Plan) (key : Option Nat) (payload : Nat) : Except TooLarge Plan :=
  match key with
  | some bytes => do
    plan.key bytes
    plan.admit (payload + bytes)
  | none => plan.admit payload

/-- The rows of a posting list; its key is checked even if it has none. -/
def Plan.posting (plan : Plan) (posting : PostingFact) : Except TooLarge Plan := do
  plan.key (Str.len posting.name)
  (chunks (occurrencesPerRow posting.name) posting.occurrences).foldlM
    (fun plan chunk =>
      plan.row (some (Str.len posting.name)) (lengthBytes + occurrenceBytes * chunk.length))
    plan

def checkSupplemental (bytes : Nat) : Except TooLarge Unit :=
  if maxSupplementalBytes < bytes then .error (.supplemental bytes) else .ok ()

/-- The content bytes `encodeFacts` produces, checked against every store limit. -/
def encodedContentBytes : Except TooLarge Nat := do
  checkSupplemental (supplementalBytes facts)
  let plan ← facts.declarations.foldlM
    (fun plan fact => Plan.row plan (some (Str.len fact.name)) (declarationBytes fact)) {}
  let plan ← facts.imports.foldlM
    (fun plan fact => plan.row (some (Str.len fact.name)) (importBytes fact)) plan
  let plan ← facts.postings.foldlM Plan.posting plan
  let plan ← facts.includes.foldlM (fun plan _ => plan.row none includeBytes) plan
  let plan ← facts.segments.foldlM (fun plan segment => plan.row none (segmentBytes segment)) plan
  pure plan.content

/-! ## Encoding -/

open Encoder

def encodeRange (range : TextRange) : Bytes := u32 range.start ++ u32 range.end

/-- A place in a source slot, or in the expanded text. -/
def encodeLocation : FactLocation → Bytes
  | .source slot range => variant 1 ++ u32 slot ++ encodeRange range
  | .expanded range => variant 2 ++ encodeRange range

def encodeCertainty (certainty : Certainty) : Bytes :=
  u8 certainty.activity.tag ++ Encoder.bool certainty.recovered

/-- The name is the index key; the payload has the name as displayed. -/
def encodeDeclaration (fact : DeclarationFact) : Row where
  rowKind := declarationRow
  indexKey := some fact.name.bytes
  payload :=
    u32 fact.id ++ str fact.display ++
    u8 fact.kind.tag ++ u8 fact.visibility.tag ++ u8 fact.region.tag ++ u8 fact.origin.tag ++
    Encoder.bool fact.exported ++ option fact.parent u32 ++
    encodeLocation fact.location ++ encodeCertainty fact.certainty ++
    encodeLocation fact.extent ++ u8 fact.shape.tag ++ Encoder.bool fact.unitScope ++
    option fact.owner str

def encodeImport (fact : ImportFact) : Row where
  rowKind := importRow
  indexKey := some fact.name.bytes
  payload :=
    u32 fact.id ++ str fact.display ++ u8 fact.section.tag ++
    encodeLocation fact.location ++ encodeCertainty fact.certainty

def encodeOccurrence (occurrence : PostingOccurrence) : Bytes :=
  u32 occurrence.slot ++ encodeRange occurrence.range ++ u8 occurrence.activity.tag

/-- One row of a posting list: a counted chunk of its occurrences. -/
def encodeChunk (name : Str) (chunk : List PostingOccurrence) : Row where
  rowKind := postingRow
  indexKey := some name.bytes
  payload := seq chunk encodeOccurrence

/-- As many rows as the batch bound makes of the occurrences. -/
def encodePosting (posting : PostingFact) : List Row :=
  (chunks (occurrencesPerRow posting.name) posting.occurrences).map (encodeChunk posting.name)

def encodeInclude (fact : IncludeFact) : Row where
  rowKind := includeRow
  indexKey := none
  payload := u32 fact.slot ++ u32 fact.parent ++ encodeRange fact.directive ++ u8 fact.expansion.tag

def encodeTarget : SegmentTarget → Bytes
  | .source slot start => variant 1 ++ u32 slot ++ u32 start
  | .synthetic => variant 2

def encodeSegment (segment : SegmentFact) : Row where
  rowKind := segmentRow
  indexKey := none
  payload := encodeRange segment.expanded ++ encodeTarget segment.target

/-- The rows of all facts, kind by kind. -/
def encodeRows : List Row :=
  facts.declarations.map encodeDeclaration ++
  facts.imports.map encodeImport ++
  facts.postings.flatMap encodePosting ++
  facts.includes.map encodeInclude ++
  facts.segments.map encodeSegment

/-- The header that the decoder checks the rows against. -/
def encodeSupplemental (postingRows : Nat) : Bytes :=
  [facts.declarations.length, facts.imports.length, postingRows, facts.includes.length,
    facts.segments.length].flatMap (fun count => u32 (UInt32.ofNat count)) ++
  seq facts.slotLengths u32 ++
  u32 facts.expandedLength ++
  seq facts.coverage fun reason => u8 reason.tag

/-- Encode `facts` as rows and a supplemental header, refusing anything over a
store limit first. -/
def encodeFacts : Except TooLarge EncodedFacts := do
  let _ ← encodedContentBytes facts
  let rows := encodeRows facts
  let postingRows := rows.countP fun row => row.rowKind == postingRow
  pure { rows, supplemental := encodeSupplemental facts postingRows }

end Lint4d.Facts
