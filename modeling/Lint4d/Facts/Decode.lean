import Lint4d.Facts.Encode

/-!
# Decoding stored facts

`facts/decode.rs`: a decoder that takes the stored rows batch by batch, checks
each row on its own and charges what it retains, and that checks the
supplemental header and every cross-row invariant at the end.
-/

namespace Lint4d.Facts

open Lint4d.Lib Lint4d.Cache

inductive FactDecodeError where
  | budget
  | malformed (reason : String)
deriving DecidableEq

/-- `ByteReader`: bounded positional reads of one payload. -/
abbrev ByteReader := Parser FactDecodeError UInt8

def malformed {α : Type} (reason : String) : ByteReader α := throw (.malformed reason)

namespace ByteReader

/-- The error of a read beyond the payload. -/
def truncated : FactDecodeError := .malformed "truncated payload"

def remaining : ByteReader Nat := do
  let bytes ← get
  pure bytes.length

def u8 : ByteReader UInt8 := Parser.byte truncated

def u32 : ByteReader UInt32 := Parser.word32 truncated

def length : ByteReader UInt64 := Parser.word64 truncated

def bool : ByteReader Bool := Parser.flag truncated (.malformed "invalid bool")

def str : ByteReader Str := do
  let ⟨bytes, bounded⟩ ← Parser.counted truncated
  if h : isUtf8 bytes = true then pure ⟨⟨bytes, bounded⟩, h⟩
  else malformed "text is not UTF-8"

def range : ByteReader TextRange := do
  let start ← u32
  let «end» ← u32
  if h : start ≤ «end» then pure ⟨start, «end», h⟩ else malformed "inverted range"

def location : ByteReader FactLocation := do
  match ← u8 with
  | 1 => do
    let slot ← u32
    let range ← range
    pure (.source slot range)
  | 2 => do
    let range ← range
    pure (.expanded range)
  | _ => malformed "unknown location tag"

/-- The variant whose encoder tag is the next byte. -/
def tagged {α : Type} (variants : List α) (tag : α → UInt8) : ByteReader α := do
  let found ← u8
  match variants.find? fun variant => tag variant == found with
  | some variant => pure variant
  | none => malformed "unknown tag"

/-- An option written as 0, or 1 and the value. -/
def option {α : Type} (read : ByteReader α) : ByteReader (Option α) := do
  match ← u8 with
  | 0 => pure none
  | 1 => do
    let value ← read
    pure (some value)
  | _ => malformed "invalid option"

end ByteReader

/-! ## Variant tables -/

def kinds : List DeclarationKind :=
  [.unit, .type, .routine, .variable, .constant, .field, .property, .enumValue]

def shapes : List DeclarationShape :=
  [.unit, .class, .record, .interface, .enum, .array, .pointer, .callable, .string, .file,
    .otherType, .constructor, .function, .operator, .method, .procedure, .variable, .constant,
    .field, .property, .enumValue]

def visibilities : List Visibility :=
  [.public, .published, .private, .protected, .strictPrivate, .strictProtected]

def regions : List Region := [.interface, .implementation, .other]

def origins : List Origin := [.declaration, .definition]

def sections : List ImportSection := [.module, .interface, .implementation]

def activities : List Activity := [.active, .inactive, .unknown]

def postingActivities : List PostingActivity := [.active, .inactive, .unknown, .directive]

def expansions : List IncludeExpansion := [.expanded, .unresolved]

def reasons : List CoverageReason :=
  [.conditionalUnknown, .parserRecovery, .unresolvedInclude, .expansionIncomplete,
    .unmappedLocation]

def ByteReader.certainty : ByteReader Certainty := do
  let activity ← tagged activities Activity.tag
  let recovered ← bool
  pure { activity, recovered }

/-! ## Index keys -/

def indexName (key : Option (Vec UInt8)) : Except FactDecodeError Str :=
  match key with
  | some key =>
    if key.toList.isEmpty then .error (.malformed "missing index key")
    else if h : isUtf8 key.toList = true then .ok ⟨key, h⟩
    else .error (.malformed "index key is not UTF-8")
  | none => .error (.malformed "missing index key")

/-- A posting key is a normalized lexical run. -/
def postingName (key : Option (Vec UInt8)) : Except FactDecodeError Str := do
  let name ← indexName key
  if isNormalizedRun name.bytes.toList then pure name
  else throw (.malformed "posting name is not a normalized run")

/-! ## The decoder -/

structure FactDecoder where
  budget : FactBudget
  facts : ArtifactFacts
  postingRows : Nat
  lastKind : UInt8
deriving DecidableEq

namespace FactDecoder

open ByteReader

def new (budget : FactBudget) : FactDecoder :=
  { budget, facts := {}, postingRows := 0, lastKind := 0 }

/-- Charge the admission, or report that the facts do not fit. -/
def charge (decoder : FactDecoder) (bytes : Nat) : ByteReader FactDecoder :=
  match decoder.budget.charge bytes with
  | some budget => pure { decoder with budget }
  | none => throw .budget

variable (sizes : FactSizes)

def declaration (decoder : FactDecoder) (name : Str) : ByteReader FactDecoder := do
  let id ← u32
  if id.toNat ≠ decoder.facts.declarations.length then
    malformed "declaration ids are not dense"
  let display ← str
  let kind ← tagged kinds DeclarationKind.tag
  let visibility ← tagged visibilities Visibility.tag
  let region ← tagged regions Region.tag
  let origin ← tagged origins Origin.tag
  let exported ← bool
  let parent ← option u32
  let location ← location
  let certainty ← certainty
  let extent ← ByteReader.location
  let shape ← tagged shapes DeclarationShape.tag
  let unitScope ← bool
  let owner ← option str
  let decoder ← decoder.charge
    (sizes.declaration + Str.len name + Str.len display + (owner.map Str.len).getD 0)
  let fact : DeclarationFact := {
    id := UInt32.ofNat decoder.facts.declarations.length
    name, display, kind, visibility, region, origin, exported, parent, location, certainty
    extent, shape, unitScope, owner }
  pure { decoder with
    facts := { decoder.facts with declarations := decoder.facts.declarations ++ [fact] } }

variable (decoder : FactDecoder)

def «import» (name : Str) : ByteReader FactDecoder := do
  let id ← u32
  if id.toNat ≠ decoder.facts.imports.length then
    malformed "import ids are not dense"
  let display ← str
  let «section» ← tagged sections ImportSection.tag
  let location ← location
  let certainty ← certainty
  let decoder ← decoder.charge (sizes.import + Str.len name + Str.len display)
  let fact : ImportFact := {
    id := UInt32.ofNat decoder.facts.imports.length
    name, display, «section», location, certainty }
  pure { decoder with facts := { decoder.facts with imports := decoder.facts.imports ++ [fact] } }

/-- Read `count` occurrences of `name` after the ones already read. -/
def occurrences (name : Str) : Nat → List PostingOccurrence → ByteReader (List PostingOccurrence)
  | 0, read => pure read
  | count + 1, read => do
    let slot ← u32
    let range ← range
    let activity ← tagged postingActivities PostingActivity.tag
    let occurrence : PostingOccurrence := { slot, range, activity }
    if range.len.toNat ≠ Str.len name then
      malformed "posting range is not the name"
    if read.getLast?.any fun previous => outOfOrder previous occurrence then
      malformed "posting occurrences out of order"
    occurrences name count (read ++ [occurrence])

/-- The list a posting row continues, or a new one: the postings before it and
the occurrences it already has. -/
def openPosting (name : Str) :
    ByteReader (FactDecoder × List PostingFact × List PostingOccurrence) :=
  match decoder.facts.postings.getLast? with
  | some last =>
    if last.name = name then
      pure (decoder, decoder.facts.postings.dropLast, last.occurrences)
    else if name.bytes.toList < last.name.bytes.toList then
      malformed "posting names out of order"
    else do
      let decoder ← decoder.charge (sizes.posting + Str.len name)
      pure (decoder, decoder.facts.postings, [])
  | none => do
    let decoder ← decoder.charge (sizes.posting + Str.len name)
    pure (decoder, decoder.facts.postings, [])

def posting (decoder : FactDecoder) (name : Str) : ByteReader FactDecoder := do
  let count ← length
  if count.toNat = 0 || (← remaining) / occurrenceBytes < count.toNat then
    malformed "invalid posting count"
  let decoder ← decoder.charge (count.toNat * sizes.occurrence)
  let (decoder, before, read) ← decoder.openPosting sizes name
  let read ← occurrences name count.toNat read
  pure { decoder with
    facts := { decoder.facts with postings := before ++ [{ name, occurrences := read }] }
    postingRows := decoder.postingRows + 1 }

def «include» : ByteReader FactDecoder := do
  let slot ← u32
  let parent ← u32
  let directive ← range
  let expansion ← tagged expansions IncludeExpansion.tag
  if slot.toNat ≠ decoder.facts.includes.length + 1 || slot ≤ parent then
    malformed "include slots are not in expansion order"
  let decoder ← decoder.charge sizes.include
  let fact : IncludeFact := { slot, parent, directive, expansion }
  pure { decoder with facts := { decoder.facts with includes := decoder.facts.includes ++ [fact] } }

def target : ByteReader SegmentTarget := do
  match ← u8 with
  | 1 => do
    let slot ← u32
    let start ← u32
    pure (.source slot start)
  | 2 => pure .synthetic
  | _ => malformed "unknown segment tag"

def segment (decoder : FactDecoder) : ByteReader FactDecoder := do
  let expanded ← range
  let target ← target
  if expanded.start ≠ segmentsEnd 0 decoder.facts.segments || expanded.isEmpty then
    malformed "segments are not contiguous"
  let decoder ← decoder.charge sizes.segment
  let fact : SegmentFact := { expanded, target }
  pure { decoder with facts := { decoder.facts with segments := decoder.facts.segments ++ [fact] } }

/-- Read one whole payload. -/
def payload {α : Type} (read : ByteReader α) (bytes : Bytes) : Except FactDecodeError α := do
  let (value, rest) ← read.run bytes
  if rest.isEmpty then pure value else throw (.malformed "trailing payload bytes")

/-- The payload of a row, read by the reader of its kind. -/
def rowOfKind (row : Row) : Except FactDecodeError FactDecoder :=
  if row.rowKind = declarationRow then do
    let name ← indexName row.indexKey
    payload (decoder.declaration sizes name) row.payload
  else if row.rowKind = importRow then do
    let name ← indexName row.indexKey
    payload (decoder.import sizes name) row.payload
  else if row.rowKind = postingRow then do
    let name ← postingName row.indexKey
    payload (decoder.posting sizes name) row.payload
  else if (row.rowKind = includeRow ∨ row.rowKind = segmentRow) ∧ row.indexKey.isSome then
    .error (.malformed "unexpected index key")
  else if row.rowKind = includeRow then
    payload (decoder.include sizes) row.payload
  else if row.rowKind = segmentRow then
    payload (decoder.segment sizes) row.payload
  else .error (.malformed "unknown row kind")

/-- Decode one row; only row-local invariants are checked here. -/
def pushRow (row : Row) : Except FactDecodeError FactDecoder :=
  if row.rowKind < decoder.lastKind then .error (.malformed "row kinds out of order")
  else rowOfKind sizes { decoder with lastKind := row.rowKind } row

/-- Decode one batch, in ordinal order. -/
def push (rows : List Row) : Except FactDecodeError FactDecoder :=
  rows.foldlM (pushRow sizes) decoder

/-- Decode batch after batch. -/
def pushAll (batches : List (List Row)) :
    Except FactDecodeError FactDecoder :=
  batches.foldlM (push sizes) decoder

end FactDecoder

/-! ## Cross-row checks -/

namespace ArtifactFacts

variable (facts : ArtifactFacts)

/-- The length of a slot's text. -/
def slot (index : UInt32) : Except FactDecodeError UInt32 :=
  match facts.slotLengths[index.toNat]? with
  | some length => .ok length
  | none => .error (.malformed "unknown slot")

def within (range : TextRange) (length : UInt32) : Except FactDecodeError Unit :=
  if range.end ≤ length then .ok () else .error (.malformed "range beyond its text")

def located (location : FactLocation) : Except FactDecodeError Unit :=
  match location with
  | .source index range => do
    let length ← facts.slot index
    within range length
  | .expanded range => within range facts.expandedLength

def validateDeclaration (fact : DeclarationFact) : Except FactDecodeError Unit := do
  facts.located fact.location
  if fact.parent.any fun parent => fact.id ≤ parent then
    throw (.malformed "invalid declaration parent")

def validateImport (fact : ImportFact) : Except FactDecodeError Unit :=
  facts.located fact.location

def validateOccurrence (occurrence : PostingOccurrence) : Except FactDecodeError Unit := do
  let length ← facts.slot occurrence.slot
  within occurrence.range length

def validateInclude (fact : IncludeFact) : Except FactDecodeError Unit := do
  let length ← facts.slot fact.parent
  within fact.directive length

/-- The source map covers the analysed text, and is absent without includes. -/
def validateCover : Except FactDecodeError Unit :=
  match facts.includes.isEmpty, facts.segments.getLast? with
  | true, none =>
    if facts.slotLengths[0]? = some facts.expandedLength then .ok ()
    else .error (.malformed "segments do not cover the analysed text")
  | false, some last =>
    if last.expanded.end = facts.expandedLength then .ok ()
    else .error (.malformed "segments do not cover the analysed text")
  | _, _ => .error (.malformed "segments do not cover the analysed text")

def validateSegment (segment : SegmentFact) : Except FactDecodeError Unit :=
  match segment.target with
  | .source index start => do
    let length ← facts.slot index
    if length.toNat < start.toNat + segment.expanded.len.toNat then
      throw (.malformed "segment beyond its slot")
  | .synthetic => .ok ()

def validateSlots : Except FactDecodeError Unit :=
  if facts.slotLengths.length ≠ facts.includes.length + 1 then
    .error (.malformed "slots disagree with includes")
  else .ok ()

/-- An incomplete extraction says so. -/
def validateCoverage : Except FactDecodeError Unit :=
  if !facts.coverage.contains .unresolvedInclude
      && facts.includes.any fun fact => fact.expansion == .unresolved then
    .error (.malformed "unresolved include is not in the coverage")
  else if !facts.coverage.contains .unmappedLocation
      && (facts.declarations.any (fun fact => fact.location.isExpanded)
        || facts.imports.any fun fact => fact.location.isExpanded) then
    .error (.malformed "expanded location is not in the coverage")
  else .ok ()

def validate : Except FactDecodeError Unit := do
  facts.validateSlots
  facts.validateCoverage
  facts.declarations.forM facts.validateDeclaration
  facts.imports.forM facts.validateImport
  facts.postings.forM fun posting => posting.occurrences.forM facts.validateOccurrence
  facts.includes.forM facts.validateInclude
  facts.validateCover
  facts.segments.forM facts.validateSegment

end ArtifactFacts

namespace FactDecoder

open ByteReader

/-- Read `count` coverage reasons after the ones already read; they are sorted. -/
def coverage : Nat → List CoverageReason → ByteReader (List CoverageReason)
  | 0, read => pure read
  | count + 1, read => do
    let reason ← tagged reasons CoverageReason.tag
    if read.getLast?.any fun last => reason.rank ≤ last.rank then
      malformed "coverage is not sorted"
    coverage count (read ++ [reason])

/-- What the supplemental header holds, with the budget charged for the slots. -/
structure Supplemental where
  counts : List UInt32
  slotLengths : List UInt32
  expandedLength : UInt32
  coverage : List CoverageReason
deriving DecidableEq

def supplemental (decoder : FactDecoder) : ByteReader (FactDecoder × Supplemental) := do
  let counts ← Parser.times u32 5
  let slots ← length
  if (← remaining) / 4 < slots.toNat then
    malformed "slot count exceeds the header"
  let decoder ← decoder.charge (slots.toNat * 4)
  let slotLengths ← Parser.times u32 slots.toNat
  let expandedLength ← u32
  let count ← length
  if (← remaining) < count.toNat then
    malformed "coverage count exceeds the header"
  let coverage ← coverage count.toNat []
  pure (decoder, { counts := counts.val, slotLengths := slotLengths.val, expandedLength, coverage })

/-- The row counts a header must agree with. -/
def counts (decoder : FactDecoder) : List Nat :=
  [decoder.facts.declarations.length, decoder.facts.imports.length, decoder.postingRows,
    decoder.facts.includes.length, decoder.facts.segments.length]

def checkCounts (decoder : FactDecoder) (header : Supplemental) : Except FactDecodeError Unit :=
  if header.counts.map UInt32.toNat ≠ decoder.counts then
    .error (.malformed "row counts disagree with the header")
  else .ok ()

/-- The facts of the rows, with what the header adds. -/
def Supplemental.complete (header : Supplemental) (facts : ArtifactFacts) : ArtifactFacts :=
  { facts with
    slotLengths := header.slotLengths
    expandedLength := header.expandedLength
    coverage := header.coverage }

/-- Check the decoded rows against the supplemental header and every cross-row
invariant. -/
def finish (decoder : FactDecoder) (bytes : Bytes) : Except FactDecodeError ArtifactFacts := do
  let (decoder, header) ← payload decoder.supplemental bytes
  decoder.checkCounts header
  let facts := header.complete decoder.facts
  facts.validate
  pure facts

end FactDecoder

end Lint4d.Facts
