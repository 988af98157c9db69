import Lint4d.Cache.Encoding

/-!
# Artifact facts

The compact facts of one analysed source (`pascal-core`, `facts/mod.rs`): the
values the cache stores as rows and reads back.  A fact is located by a source
slot and a byte range in that slot's decoded text; slot 0 is the root and slot
`n` the `n`th include occurrence in expansion order.

`FactsWf` collects the invariants a well-formed `ArtifactFacts` has.
-/

namespace Lint4d.Facts

open Lint4d.Cache

variable {α : Type} {base : Nat} {number : α → Nat} {a : α} {items : List α}

/-! ## Locations -/

/-- A byte range in 32-bit fact coordinates; `TextRange::new` refuses an
inverted one. -/
@[ext]
structure TextRange where
  start : UInt32
  «end» : UInt32
  ordered : start ≤ «end»
deriving DecidableEq

def TextRange.len (range : TextRange) : UInt32 := range.end - range.start

def TextRange.isEmpty (range : TextRange) : Bool := range.start == range.end

inductive FactLocation where
  | source (slot : UInt32) (range : TextRange)
  | expanded (range : TextRange)
deriving DecidableEq

def FactLocation.isExpanded : FactLocation → Bool
  | source .. => false
  | expanded _ => true

/-! ## Facts -/

inductive Activity where
  | active
  | inactive
  | unknown
deriving DecidableEq

structure Certainty where
  activity : Activity
  recovered : Bool
deriving DecidableEq

inductive DeclarationKind where
  | unit
  | type
  | routine
  | «variable»
  | constant
  | field
  | property
  | enumValue
deriving DecidableEq

inductive Visibility where
  | «public»
  | published
  | «private»
  | «protected»
  | strictPrivate
  | strictProtected
deriving DecidableEq

inductive Region where
  | interface
  | implementation
  | other
deriving DecidableEq

inductive Origin where
  | declaration
  | definition
deriving DecidableEq

inductive DeclarationShape where
  | unit
  | «class»
  | record
  | interface
  | enum
  | array
  | pointer
  | callable
  | string
  | file
  | otherType
  | constructor
  | function
  | operator
  | method
  | procedure
  | «variable»
  | constant
  | field
  | property
  | enumValue
deriving DecidableEq

structure DeclarationFact where
  id : UInt32
  name : Str
  display : Str
  kind : DeclarationKind
  visibility : Visibility
  region : Region
  origin : Origin
  exported : Bool
  parent : Option UInt32
  location : FactLocation
  certainty : Certainty
  extent : FactLocation
  shape : DeclarationShape
  unitScope : Bool
  owner : Option Str
deriving DecidableEq

inductive ImportSection where
  | module
  | interface
  | implementation
deriving DecidableEq

structure ImportFact where
  id : UInt32
  name : Str
  display : Str
  «section» : ImportSection
  location : FactLocation
  certainty : Certainty
deriving DecidableEq

inductive PostingActivity where
  | active
  | inactive
  | unknown
  | directive
deriving DecidableEq

structure PostingOccurrence where
  slot : UInt32
  range : TextRange
  activity : PostingActivity
deriving DecidableEq

structure PostingFact where
  name : Str
  occurrences : List PostingOccurrence
deriving DecidableEq

inductive IncludeExpansion where
  | expanded
  | unresolved
deriving DecidableEq

structure IncludeFact where
  slot : UInt32
  parent : UInt32
  directive : TextRange
  expansion : IncludeExpansion
deriving DecidableEq

inductive SegmentTarget where
  | source (slot : UInt32) (start : UInt32)
  | synthetic
deriving DecidableEq

structure SegmentFact where
  expanded : TextRange
  target : SegmentTarget
deriving DecidableEq

inductive CoverageReason where
  | conditionalUnknown
  | parserRecovery
  | unresolvedInclude
  | expansionIncomplete
  | unmappedLocation
deriving DecidableEq

/-- The derived order of `CoverageReason`: its declaration order. -/
def CoverageReason.rank : CoverageReason → Nat
  | conditionalUnknown => 0
  | parserRecovery => 1
  | unresolvedInclude => 2
  | expansionIncomplete => 3
  | unmappedLocation => 4

structure ArtifactFacts where
  slotLengths : List UInt32 := []
  expandedLength : UInt32 := 0
  declarations : List DeclarationFact := []
  imports : List ImportFact := []
  postings : List PostingFact := []
  includes : List IncludeFact := []
  segments : List SegmentFact := []
  coverage : List CoverageReason := []
deriving DecidableEq

/-! ## Identifiers -/

def isAsciiDigit (byte : UInt8) : Bool := 0x30 ≤ byte && byte ≤ 0x39

def isAsciiUppercase (byte : UInt8) : Bool := 0x41 ≤ byte && byte ≤ 0x5A

def isAsciiLowercase (byte : UInt8) : Bool := 0x61 ≤ byte && byte ≤ 0x7A

/-- ASCII letters, digits and `_`. -/
def isIdentifierByte (byte : UInt8) : Bool :=
  isAsciiDigit byte || isAsciiUppercase byte || isAsciiLowercase byte || byte == 0x5F

/-- A posting key: a nonempty lowercase identifier run that no digit leads. -/
def isNormalizedRun (name : Bytes) : Bool :=
  match name with
  | [] => false
  | first :: _ =>
    !isAsciiDigit first && name.all fun byte => isIdentifierByte byte && !isAsciiUppercase byte

def Str.len (text : Str) : Nat := text.bytes.toList.length

/-! ## Admission -/

/-- Retained-byte admission, charged before each fact is built. -/
structure FactBudget where
  limit : Nat
  used : Nat
deriving DecidableEq

/-- Reserve `bytes`, or refuse without reserving anything. -/
def FactBudget.charge (budget : FactBudget) (bytes : Nat) : Option FactBudget :=
  if budget.used + bytes ≤ budget.limit then some { budget with used := budget.used + bytes }
  else none

/-- The `size_of` values of the fact structures, which the layout of the target
decides. -/
structure FactSizes where
  declaration : Nat
  «import» : Nat
  posting : Nat
  occurrence : Nat
  «include» : Nat
  segment : Nat

namespace FactSizes

variable (sizes : FactSizes)

def declarationCost (fact : DeclarationFact) : Nat :=
  sizes.declaration + Str.len fact.name + Str.len fact.display + (fact.owner.map Str.len).getD 0

def importCost (fact : ImportFact) : Nat :=
  sizes.import + Str.len fact.name + Str.len fact.display

def postingCost (fact : PostingFact) : Nat :=
  sizes.posting + Str.len fact.name + fact.occurrences.length * sizes.occurrence

/-- The bytes admission charges for retaining all of `facts`. -/
def retainedBytes (facts : ArtifactFacts) : Nat :=
  (facts.declarations.map sizes.declarationCost).sum +
  (facts.imports.map sizes.importCost).sum +
  (facts.postings.map sizes.postingCost).sum +
  facts.includes.length * sizes.include +
  facts.segments.length * sizes.segment +
  facts.slotLengths.length * 4

end FactSizes

/-! ## Well-formed facts -/

/-- The items are numbered consecutively from `base`. -/
def Dense {α : Type} (number : α → Nat) (base : Nat) (items : List α) : Prop :=
  ∀ i a, items[i]? = some a → number a = base + i

lemma Dense.cons_iff :
    Dense number base (a :: items) ↔ number a = base ∧ Dense number (base + 1) items := by
  constructor
  · intro h
    refine ⟨h 0 a rfl, ?_⟩
    intro i b hb
    have := h (i + 1) b (by simpa using hb)
    omega
  · intro h i b hb
    cases i with
    | zero =>
      obtain rfl : a = b := by simpa using hb
      exact h.1
    | succ i =>
      have := h.2 i b (by simpa using hb)
      omega

lemma Dense.append_singleton (h : Dense number base items) (ha : number a = base + items.length) :
    Dense number base (items ++ [a]) := by
  intro i b hb
  rcases Nat.lt_trichotomy i items.length with hi | rfl | hi
  · rw [List.getElem?_append_left hi] at hb
    exact h i b hb
  · obtain rfl : a = b := by simpa using hb
    exact ha
  · rw [List.getElem?_eq_none (by simp; omega)] at hb
    cases hb

lemma Dense.at_append {done todo : List α}
    (h : Dense number base (done ++ a :: todo)) : number a = base + done.length :=
  h done.length a (by simp)

/-- The check of two neighbouring occurrences: the later one starts, in slot
order, before the earlier one ends. -/
def outOfOrder (previous next : PostingOccurrence) : Bool :=
  next.slot < previous.slot || (previous.slot == next.slot && next.range.start < previous.range.end)

/-- Nonempty segments that follow each other from `start`. -/
def SegmentsFrom (start : UInt32) : List SegmentFact → Prop
  | [] => True
  | segment :: segments =>
    segment.expanded.start = start ∧ segment.expanded.isEmpty = false ∧
      SegmentsFrom segment.expanded.end segments

/-- Where the segments end: the last one's end, or `start` when there are none. -/
def segmentsEnd (start : UInt32) (segments : List SegmentFact) : UInt32 :=
  (segments.getLast?.map fun last => last.expanded.end).getD start

lemma SegmentsFrom.at_append {start : UInt32} {done todo : List SegmentFact}
    {fact : SegmentFact} (h : SegmentsFrom start (done ++ fact :: todo)) :
    fact.expanded.start = segmentsEnd start done ∧ fact.expanded.isEmpty = false := by
  induction done generalizing start with
  | nil => exact ⟨h.1, h.2.1⟩
  | cons _ done ih =>
    obtain ⟨hstart, hne⟩ := ih h.2.2
    refine ⟨?_, hne⟩
    rw [hstart]
    cases done with
    | nil => rfl
    | cons second done =>
      rw [segmentsEnd, segmentsEnd, List.getLast?_cons_cons,
        List.getLast?_eq_some_getLast (List.cons_ne_nil second done)]
      rfl

namespace ArtifactFacts

variable (facts : ArtifactFacts)

/-- The range ends within the text of an existing slot. -/
def InSlot (slot : UInt32) (range : TextRange) : Prop :=
  ∃ length, facts.slotLengths[slot.toNat]? = some length ∧ range.end ≤ length

def Located : FactLocation → Prop
  | .source slot range => facts.InSlot slot range
  | .expanded range => range.end ≤ facts.expandedLength

/-- A segment copied from a slot is a run of that slot's text. -/
def SegmentInSlot (segment : SegmentFact) : Prop :=
  ∀ slot start, segment.target = .source slot start →
    ∃ length, facts.slotLengths[slot.toNat]? = some length ∧
      start.toNat + segment.expanded.len.toNat ≤ length.toNat

/-- Without includes there is no source map; with includes it covers the
analysed text. -/
def Covered : Prop :=
  if facts.includes = [] then
    facts.segments = [] ∧ facts.slotLengths[0]? = some facts.expandedLength
  else
    ∃ last, facts.segments.getLast? = some last ∧ last.expanded.end = facts.expandedLength

end ArtifactFacts

/-- The invariants of one posting list. -/
structure PostingWf (posting : PostingFact) : Prop where
  name : isNormalizedRun posting.name.bytes.toList = true
  nonempty : posting.occurrences ≠ []
  ordered : posting.occurrences.IsChain fun previous next => outOfOrder previous next = false
  lengths : ∀ occurrence ∈ posting.occurrences, occurrence.range.len.toNat = Str.len posting.name

/-- The invariants of well-formed facts. -/
structure FactsWf (facts : ArtifactFacts) : Prop where
  declaration_ids : Dense (fun fact : DeclarationFact => fact.id.toNat) 0 facts.declarations
  declaration_names : ∀ fact ∈ facts.declarations, fact.name.bytes.toList ≠ []
  declaration_parents : ∀ fact ∈ facts.declarations, ∀ parent, fact.parent = some parent →
    parent < fact.id
  import_ids : Dense (fun fact : ImportFact => fact.id.toNat) 0 facts.imports
  import_names : ∀ fact ∈ facts.imports, fact.name.bytes.toList ≠ []
  posting_order : facts.postings.IsChain fun previous next =>
    previous.name.bytes.toList < next.name.bytes.toList
  postings : ∀ posting ∈ facts.postings, PostingWf posting
  include_slots : Dense (fun fact : IncludeFact => fact.slot.toNat) 1 facts.includes
  include_parents : ∀ fact ∈ facts.includes, fact.parent < fact.slot
  slots : facts.slotLengths.length = facts.includes.length + 1
  segments : SegmentsFrom 0 facts.segments
  covered : facts.Covered
  coverage_order : facts.coverage.IsChain fun previous next => previous.rank < next.rank
  coverage_includes : ∀ fact ∈ facts.includes, fact.expansion = .unresolved →
    CoverageReason.unresolvedInclude ∈ facts.coverage
  coverage_declarations : ∀ fact ∈ facts.declarations, fact.location.isExpanded = true →
    CoverageReason.unmappedLocation ∈ facts.coverage
  coverage_imports : ∀ fact ∈ facts.imports, fact.location.isExpanded = true →
    CoverageReason.unmappedLocation ∈ facts.coverage
  declarations_located : ∀ fact ∈ facts.declarations, facts.Located fact.location
  imports_located : ∀ fact ∈ facts.imports, facts.Located fact.location
  occurrences_located : ∀ posting ∈ facts.postings, ∀ occurrence ∈ posting.occurrences,
    facts.InSlot occurrence.slot occurrence.range
  includes_located : ∀ fact ∈ facts.includes, facts.InSlot fact.parent fact.directive
  segments_located : ∀ segment ∈ facts.segments, facts.SegmentInSlot segment

end Lint4d.Facts
