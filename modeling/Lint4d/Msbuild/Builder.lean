import Lint4d.Msbuild.Document

/-!
# Evaluation of a project

The properties of a project are assigned in the order of its operations.  A value
carries the ranges of its text that came from the configuration and the provenance of
each part of it; a value the evaluation cannot know is marked.  An import that is not
read makes everything unknown that it could have assigned.

`openImport` is the part of an import up to the operations of the file; nested files
are bounded by the number of imports.
-/

namespace Lint4d.Msbuild

open Lint4d.Lib (Truth)
open Lint4d.Conditional (Text byteLen trim trimStart lower)

/-! ## Ranges -/

abbrev Range := Nat × Nat

structure ProvenanceRange (Path : Type) where
  range : Range
  provenance : ProjectPathProvenance Path
deriving DecidableEq

section Ranges

variable {Path : Type}

/-- A position moved into a trimmed text. -/
def clampTrim (start length position : Nat) : Nat :=
  min (max position start) (start + length) - start

def trimRanges (ranges : List Range) (start length : Nat) : List Range :=
  ranges.filterMap fun range =>
    let trimmed := (clampTrim start length range.1, clampTrim start length range.2)
    if trimmed.1 < trimmed.2 then some trimmed else none

def trimProvenanceRanges (ranges : List (ProvenanceRange Path)) (start length : Nat) :
    List (ProvenanceRange Path) :=
  ranges.map fun range =>
    { range with
      range := (clampTrim start length range.range.1, clampTrim start length range.range.2) }

def combinePathProvenance : ProjectPathProvenance Path → ProjectPathProvenance Path →
    ProjectPathProvenance Path
  | .mapped root, _ => .mapped root
  | _, .mapped root => .mapped root
  | .configured, _ => .configured
  | _, .configured => .configured
  | _, _ => .legacyNative

def inheritPathProvenance (entry : ProjectPathEntry Path) (parent : ProjectPathProvenance Path) :
    ProjectPathEntry Path :=
  match entry.provenance with
  | .legacyNative => { entry with provenance := parent }
  | _ => entry

end Ranges

structure ExpandedValue (Path : Type) where
  value : Text
  unknown : Bool
  explicitDependency : Bool
  configuredRanges : List Range
  provenanceRanges : List (ProvenanceRange Path)
  undefinedPropertyUnknown : Bool
  emptyExpansions : List Nat

def ExpandedValue.start {Path : Type} : ExpandedValue Path := ⟨[], false, false, [], [], false, []⟩

/-- A value over its budget, or with a reference that is not closed. -/
def ExpandedValue.failed {Path : Type} (acc : ExpandedValue Path) : ExpandedValue Path :=
  { acc with
    value := [unresolvedMarker], unknown := true, configuredRanges := []
    provenanceRanges := [], emptyExpansions := [] }

def expandedPathProvenance {Path : Type} (expanded : ExpandedValue Path)
    (source : ProjectPathProvenance Path) : ProjectPathProvenance Path :=
  expanded.provenanceRanges.foldl
    (fun current range => combinePathProvenance current range.provenance) source

/-! ## The state of an evaluation -/

/-- An element that was included, with the file it stands in. -/
structure IncludedReference (Path : Type) where
  included : Text
  sourceFile : Path
  sourceProvenance : ProjectPathProvenance Path

structure ProjectBuilder (Path : Type) where
  properties : Map Text
  configuredRanges : Map (List Range)
  propertyProvenanceRanges : Map (List (ProvenanceRange Path))
  propertyDefaultProvenances : Map (ProjectPathProvenance Path)
  propertyEmptyExpansions : Map (List Nat)
  configuredProperties : Finset Text
  globalProperties : Finset Text
  unknownProperties : Finset Text
  unknownImportTaint : Bool
  opaqueImport : Bool
  installationDataMode : Bool
  references : List (IncludedReference Path)
  incomplete : Bool
  unevaluatedAssignments : Finset Text
  activeImports : List Path
  importCount : Nat
  propertyBytes : Nat
  metadataFiles : List Path

def maxTotalPropertyBytes : Nat := 16 * 1024 * 1024

def maxImportCount : Nat := 64

namespace ProjectBuilder

variable {Path : Type} (builder : ProjectBuilder Path)

def undefinedIsEmpty : Bool := !builder.unknownImportTaint && !builder.opaqueImport

def conditionEnvironment : ConditionEnvironment where
  properties := builder.properties
  unknownProperties := builder.unknownProperties
  unknownImportTaint := builder.unknownImportTaint
  undefinedIsEmpty := builder.undefinedIsEmpty

/-! ## Expansion of a value -/

section Expansion

variable (files : Files Path) (sourceFile : Path) (source : ProjectPathProvenance Path)

def appendWithProvenance (acc : ExpandedValue Path) (addition : Text) :
    Option (ExpandedValue Path) :=
  (appendExpansion acc.value addition).map fun value =>
    { acc with
      value := value
      provenanceRanges := acc.provenanceRanges ++ if byteLen acc.value < byteLen value then
          [⟨(byteLen acc.value, byteLen value), source⟩] else [] }

/-- The ranges of a replaced property, at the place it is put; one without ranges has
the provenance it was assigned with, even where it is empty. -/
def replacementProvenance (key replacement : Text) (start : Nat) : List (ProvenanceRange Path) :=
  match builder.propertyProvenanceRanges.lookup key with
  | some ranges =>
    (ranges.filter fun range =>
      decide (range.range.1 ≤ range.range.2 ∧ range.range.2 ≤ byteLen replacement)).map fun range =>
        { range with range := (start + range.range.1, start + range.range.2) }
  | none =>
    let place := (start, start + byteLen replacement)
    if 0 < byteLen replacement then
      [⟨place, (builder.propertyDefaultProvenances.lookup key).getD source⟩]
    else
      match builder.propertyDefaultProvenances.lookup key with
      | some provenance => [⟨place, provenance⟩]
      | none => []

def replacementEmptyExpansions (key replacement : Text) (start : Nat) : List Nat :=
  (((builder.propertyEmptyExpansions.lookup key).getD []).filter fun point =>
    decide (point ≤ byteLen replacement)).map fun point => start + point

def replacementConfiguredRanges (key replacement : Text) (start : Nat) : List Range :=
  (((builder.configuredRanges.lookup key).getD []).filter fun range =>
    decide (range.1 < range.2 ∧ range.2 ≤ byteLen replacement)).map fun range =>
      (start + range.1, start + range.2)

def isExplicit (key : Text) : Bool :=
  key ∈ builder.configuredProperties || (builder.configuredRanges.lookup key).getD [] ≠ []

/-- Put the value of a property at the end. -/
def substitute (acc : ExpandedValue Path) (key replacement value : Text) : ExpandedValue Path :=
  let start := byteLen acc.value
  { acc with
    value := value
    unknown := acc.unknown || (unresolvedMarker ∈ replacement || key ∈ builder.unknownProperties)
    explicitDependency := acc.explicitDependency || builder.isExplicit key
    configuredRanges := acc.configuredRanges ++
      builder.replacementConfiguredRanges key replacement start
    provenanceRanges := acc.provenanceRanges ++
      builder.replacementProvenance source key replacement start
    emptyExpansions := acc.emptyExpansions ++
      builder.replacementEmptyExpansions key replacement start }

variable (currentProperty : Text)

def expandPieces : List Piece → ExpandedValue Path → ExpandedValue Path
  | [], acc => acc
  | .unclosed :: _, acc => acc.failed
  | .literal text :: rest, acc =>
    match appendWithProvenance source acc text with
    | none => acc.failed
    | some acc => expandPieces rest acc
  | .reference name :: rest, acc =>
    if isThisFileDirectory name then
      match appendWithProvenance source acc (files.directoryText sourceFile) with
      | none => acc.failed
      | some acc => expandPieces rest acc
    else
      match builder.properties.lookup (lower name) with
      | some replacement =>
        match appendExpansion acc.value replacement with
        | none => acc.failed
        | some value =>
          expandPieces rest (builder.substitute source acc (lower name) replacement value)
      | none =>
        if eqIgnoreAsciiCase name currentProperty then
          -- an unset property that ends its own list
          expandPieces rest
            { acc with unknown := acc.unknown || lower name ∈ builder.unknownProperties }
        else if builder.undefinedIsEmpty && !isEnvironmentProvidedProperty name then
          expandPieces rest
            { acc with emptyExpansions := acc.emptyExpansions ++ [byteLen acc.value] }
        else
          let acc := { acc with unknown := true, undefinedPropertyUnknown := true }
          match appendExpansion acc.value [unresolvedMarker] with
          | none => acc.failed
          | some value => expandPieces rest { acc with value }

def expandValue (value : Text) : ExpandedValue Path :=
  builder.expandPieces files sourceFile source currentProperty (pieces value) .start

end Expansion

/-! ## Assignments -/

/-- What an assignment brings besides the name. -/
structure Assignment (Path : Type) where
  value : Text
  unknown : Bool
  configuredRanges : List Range
  explicitDependency : Bool
  provenanceRanges : List (ProvenanceRange Path)

def setOrErase {α : Type} (map : Map (List α)) (key : Text) (items : List α) : Map (List α) :=
  if items = [] then map.erase key else map.insert key items

/-- The bytes of all properties with the new value in place of the old one. -/
def bytesWith (key value : Text) : Nat :=
  builder.propertyBytes - ((builder.properties.lookup key).map byteLen).getD 0 + byteLen value

def setProperty (name : Text) (assignment : Assignment Path)
    (source : ProjectPathProvenance Path) : ProjectBuilder Path :=
  let key := lower name
  if key ∈ builder.globalProperties then builder
  else if builder.bytesWith key assignment.value > maxTotalPropertyBytes then
    { builder with
      incomplete := true
      unevaluatedAssignments := insert key builder.unevaluatedAssignments
      unknownProperties := insert key builder.unknownProperties }
  else
    let isUnknown := assignment.unknown || unresolvedMarker ∈ assignment.value
    { builder with
      propertyBytes := builder.bytesWith key assignment.value
      propertyEmptyExpansions := builder.propertyEmptyExpansions.erase key
      unknownProperties :=
        if isUnknown then insert key builder.unknownProperties
        else builder.unknownProperties.erase key
      unevaluatedAssignments :=
        if isUnknown then builder.unevaluatedAssignments
        else builder.unevaluatedAssignments.erase key
      configuredProperties :=
        if assignment.explicitDependency then insert key builder.configuredProperties
        else builder.configuredProperties.erase key
      configuredRanges := setOrErase builder.configuredRanges key assignment.configuredRanges
      propertyProvenanceRanges :=
        setOrErase builder.propertyProvenanceRanges key assignment.provenanceRanges
      propertyDefaultProvenances := builder.propertyDefaultProvenances.insert key source
      properties := builder.properties.insert key assignment.value }

def markPropertyUnknown (name : Text) (source : ProjectPathProvenance Path) :
    ProjectBuilder Path :=
  if lower name ∈ builder.globalProperties then builder
  else
    let builder := builder.setProperty name ⟨[unresolvedMarker], true, [], false, []⟩ source
    { builder with unknownProperties := insert (lower name) builder.unknownProperties }

/-- One property that an import could have changed. -/
def taintKey (key : Text) : ProjectBuilder Path :=
  if key ∈ builder.globalProperties then builder
  else if isNamed key "mainsource" then
    { builder with unknownProperties := insert key builder.unknownProperties }
  else
    { builder with
      propertyBytes := builder.bytesWith key [unresolvedMarker]
      properties := builder.properties.insert key [unresolvedMarker]
      configuredRanges := builder.configuredRanges.erase key
      propertyProvenanceRanges := builder.propertyProvenanceRanges.erase key
      propertyEmptyExpansions := builder.propertyEmptyExpansions.erase key
      unknownProperties := insert key builder.unknownProperties }

def taintUnknownImport : ProjectBuilder Path :=
  builder.properties.keys.foldl taintKey { builder with unknownImportTaint := true }

section Operations

variable [DecidableEq Path] (files : Files Path) (sourceFile : Path)
  (source : ProjectPathProvenance Path)

/-- Evaluate a condition in the state, noting the files it looks at. -/
def evaluateCondition (condition : Option Text) : Truth × ProjectBuilder Path :=
  let (truth, metadataFiles) := conditionMatches files builder.conditionEnvironment sourceFile
    condition builder.metadataFiles
  (truth, { builder with metadataFiles })

/-- An element that may or may not be evaluated. -/
def leaveUnevaluated (name : Text) : ProjectBuilder Path :=
  { builder with unevaluatedAssignments := insert (lower name) builder.unevaluatedAssignments }
    |>.markPropertyUnknown name source

/-- Assign the expanded value of an element whose conditions hold. -/
def assignProperty (entry : PropertyEntry) : ProjectBuilder Path :=
  let key := lower entry.name
  if key ∈ builder.globalProperties then builder
  else
    let value := builder.expandValue files sourceFile source entry.name entry.value
    let trimmed := trim value.value
    let trimmedFront := byteLen value.value - byteLen (trimStart value.value)
    let emptyExpansions := (value.emptyExpansions.filter fun point =>
      decide (trimmedFront ≤ point ∧ point - trimmedFront ≤ byteLen trimmed)).map fun point =>
        point - trimmedFront
    let builder :=
      { builder with incomplete := builder.incomplete || value.undefinedPropertyUnknown }
    let builder := builder.setProperty entry.name
      ⟨trimmed, value.unknown, trimRanges value.configuredRanges trimmedFront (byteLen trimmed),
        value.explicitDependency,
        trimProvenanceRanges value.provenanceRanges trimmedFront (byteLen trimmed)⟩ source
    let builder := if value.undefinedPropertyUnknown then
      { builder with unevaluatedAssignments := insert key builder.unevaluatedAssignments }
      else builder
    if emptyExpansions ≠ [] ∧ builder.properties.lookup key = some trimmed then
      { builder with
        propertyEmptyExpansions := builder.propertyEmptyExpansions.insert key emptyExpansions }
    else builder

/-- An element of a group whose condition holds. -/
def processProperty (entry : PropertyEntry) : ProjectBuilder Path :=
  match builder.evaluateCondition files sourceFile entry.condition with
  | (.false, builder) => builder
  | (.unknown, builder) => { builder with incomplete := true }.leaveUnevaluated source entry.name
  | (.true, builder) => builder.assignProperty files sourceFile source entry

/-- The elements of a group whose condition has this truth. -/
def applyGroup (truth : Truth) (properties : List PropertyEntry) : ProjectBuilder Path :=
  match truth with
  | .false => builder
  | .unknown =>
    properties.foldl (fun builder entry => builder.leaveUnevaluated source entry.name)
      { builder with incomplete := true }
  | .true =>
    properties.foldl
      (fun builder entry => builder.processProperty files sourceFile source entry) builder

def processPropertyGroup (group : PropertyGroup) : ProjectBuilder Path :=
  let (truth, builder) := builder.evaluateCondition files sourceFile group.condition
  builder.applyGroup files sourceFile source truth group.properties

def processReference (reference : DccReference) (isCompiledReference : Text → Bool) :
    ProjectBuilder Path :=
  if isCompiledReference reference.included then builder
  else
    -- references are evaluated after every property, so an undefined one is not empty here
    let (truth, metadataFiles) := conditionMatches files
      { builder.conditionEnvironment with undefinedIsEmpty := false } sourceFile
      reference.condition builder.metadataFiles
    let builder := { builder with metadataFiles }
    match truth with
    | .true =>
      { builder with
        references := builder.references ++ [⟨reference.included, sourceFile, source⟩] }
    | .false => builder
    | .unknown => { builder with incomplete := true }

end Operations

end ProjectBuilder

/-! ## Imports -/

def withSlashes (text : Text) : Text := text.map fun c => if c = '\\' then '/' else c

/-- The part of a path after its last slash. -/
def lastName (path : Text) : Text := (path.reverse.takeWhile fun c => c ≠ '/').reverse

def endsWith (text : Text) (ending : String) : Bool := ending.toList.isSuffixOf text

def isCompiledReference (included : Text) : Bool :=
  let name := lastName (withSlashes (trim included))
  let extension := (name.reverse.takeWhile fun c => c ≠ '.').reverse
  '.' ∈ name && isNamed extension "dcp"

def looksLikeSupportedProjectImport (project : Text) : Bool :=
  let name := lower (lastName (withSlashes project))
  endsWith name ".optset" || endsWith name ".props"

/-- The text contains the start of a property reference. -/
def hasReference : Text → Bool
  | '$' :: '(' :: _ => true
  | _ :: rest => hasReference rest
  | [] => false

/-- The name of the file may end in an extension that is evaluated. -/
def importMayBeEvaluated (project : Text) : Bool :=
  let project := trim project
  if looksLikeSupportedProjectImport project then true
  else
    let name := lastName (withSlashes project)
    if !hasReference name then false
    else if ')' ∈ name then
      let suffix := (name.reverse.takeWhile fun c => c ≠ ')').reverse
      suffix = [] || isNamed suffix ".props" || isNamed suffix ".optset"
    else true

/-- The build files that define no properties of a project. -/
def isStandardEmbarcaderoImport (project : Text) : Bool :=
  let normalized := lower (withSlashes (trim project))
  let name := lastName normalized
  ("$(bds)/bin/".toList.isPrefixOf normalized && endsWith name ".targets") ||
    name = "codegear.delphi.targets".toList || name = "codegear.common.targets".toList ||
    name = "usertools.proj".toList

/-- The files with what reading one of them gives, which may differ from one read to
the next. -/
structure Host (Path : Type) extends Files Path where
  isSupportedProjectImport : Path → Bool
  read : Nat → ProjectPathEntry Path → Except String (List (Except String Event))
  isTransientError : String → Bool

inductive ImportError (Path : Type) where
  | unknownCondition (sourceFile : Path) (project : Text)
  | unsupported (sourceFile : Path) (project : Text)
  | unknownImport (sourceFile : Path) (reason : String)
  | read (message : String)

/-- What becomes of an import: its condition does not hold, it is not evaluated as a file
of targets, it cannot be read, or its operations come next. -/
inductive ImportStep (Path : Type) where
  | skip (builder : ProjectBuilder Path)
  | ignore (builder : ProjectBuilder Path) (error : Option (ImportError Path))
  | unread (builder : ProjectBuilder Path) (error : Option (ImportError Path))
  | enter (builder : ProjectBuilder Path) (entry : ProjectPathEntry Path)
      (operations : List XmlOperation)

namespace ProjectBuilder

variable {Path : Type} [DecidableEq Path] (host : Host Path) (sourceFile : Path)
  (source : ProjectPathProvenance Path) (builder : ProjectBuilder Path)

/-- Installation data must be complete. -/
def unreadImport (error : ImportError Path) : ImportStep Path :=
  .unread { builder with incomplete := true }
    (if builder.installationDataMode then some error else none)

def unknownInstallationImport (reason : String) : ImportStep Path :=
  builder.unreadImport (.unknownImport sourceFile reason)

/-- An import that is not evaluated, as a file of targets. -/
def ignoreImport (project : Text) : ImportStep Path :=
  if builder.installationDataMode then .ignore builder (some (.unsupported sourceFile project))
  else
    .ignore { builder with
      opaqueImport := builder.opaqueImport || !isStandardEmbarcaderoImport project } none

/-- Read the file of an entry that may be read. -/
def readImport (path : Path) (entry : ProjectPathEntry Path) : ImportStep Path :=
  if builder.importCount ≥ maxImportCount then
    builder.unknownInstallationImport sourceFile "project import limit reached"
  else if path ∈ builder.activeImports then
    builder.unknownInstallationImport sourceFile "project import cycle"
  else
    let builder := { builder with importCount := builder.importCount + 1 }
    match host.read builder.importCount entry >>= parseXmlOperations with
    | .ok operations =>
      .enter { builder with activeImports := path :: builder.activeImports } entry operations
    | .error message =>
      .unread { builder with incomplete := true }
        (if host.isTransientError message || builder.installationDataMode then
          some (.read message) else none)

/-- The entry an import names. -/
def importEntry (expanded : ExpandedValue Path) (path : Path) (resolved : ResolvedPath Path) :
    ProjectPathEntry Path :=
  inheritPathProvenance (.resolved path resolved expanded.explicitDependency)
    (expandedPathProvenance expanded source)

/-- Find the file of an import whose path is known. -/
def locateImport (expanded : ExpandedValue Path) (resolved : ResolvedPath Path) :
    ImportStep Path :=
  let note (path : Path) (next : ProjectBuilder Path → ImportStep Path) : ImportStep Path :=
    match addMetadataFile builder.metadataFiles path with
    | (false, metadataFiles) =>
      { builder with metadataFiles }.unknownInstallationImport sourceFile
        "metadata import limit reached"
    | (true, metadataFiles) => next { builder with metadataFiles }
  match host.status resolved with
  | .unresolvable => builder.unknownInstallationImport sourceFile "unresolvable import location"
  | .missing =>
    note resolved.path fun builder =>
      if builder.importCount ≥ maxImportCount then
        builder.unknownInstallationImport sourceFile "project import limit reached"
      else builder.unknownInstallationImport sourceFile "import file is missing"
  | .found path =>
    let entry := importEntry source expanded path resolved
    if !host.allowsEntry entry then
      builder.unknownInstallationImport sourceFile "import is outside authorized read roots"
    else note path fun builder => builder.readImport host sourceFile path entry

/-- An import whose condition has this truth. -/
def openImportWhen (truth : Truth) (target : Import) : ImportStep Path :=
  match truth with
  | .false => .skip builder
  | .unknown => builder.unreadImport (.unknownCondition sourceFile target.project)
  | .true =>
    if !importMayBeEvaluated target.project then builder.ignoreImport sourceFile target.project
    else
      let expanded := builder.expandValue host.toFiles sourceFile source [] target.project
      if expanded.unknown || unresolvedMarker ∈ expanded.value then
        builder.unknownInstallationImport sourceFile "unresolved import path"
      else
        match host.candidate (host.parent sourceFile) expanded.value with
        | none => builder.unknownInstallationImport sourceFile "unresolvable import path"
        | some resolved =>
          if !host.isSupportedProjectImport resolved.path then
            builder.ignoreImport sourceFile target.project
          else builder.locateImport host sourceFile source expanded resolved

def openImport (target : Import) : ImportStep Path :=
  let (truth, builder) := builder.evaluateCondition host.toFiles sourceFile target.condition
  builder.openImportWhen host sourceFile source truth target

/-! ## Streams of operations -/

/-- What evaluating the operations of an imported file gives. -/
abbrev Nested (Path : Type) := ProjectPathEntry Path → List XmlOperation → ProjectBuilder Path →
  ProjectBuilder Path × Option (ImportError Path)

/-- Evaluate the file behind an import; one that cannot be read could have assigned
anything. -/
def finishImport (nested : Nested Path) :
    ImportStep Path → ProjectBuilder Path × Option (ImportError Path)
  | .skip builder => (builder, none)
  | .ignore builder error => (builder, error)
  | .unread builder error => (builder.taintUnknownImport, error)
  | .enter builder entry operations =>
    let (builder, error) := nested entry operations builder
    ({ builder with activeImports := builder.activeImports.erase entry.path }, error)

def processImport (nested : Nested Path) (target : Import) :
    ProjectBuilder Path × Option (ImportError Path) :=
  finishImport nested (builder.openImport host sourceFile source target)

/-- One operation that is not cut off by an error. -/
def processOperation (nested : Nested Path) :
    XmlOperation → ProjectBuilder Path × Option (ImportError Path)
  | .propertyGroup group =>
    (builder.processPropertyGroup host.toFiles sourceFile source group, none)
  | .dccReference reference =>
    (builder.processReference host.toFiles sourceFile source reference isCompiledReference, none)
  | .importFile target => builder.processImport host sourceFile source nested target
  | .unsupported => (builder, none)

def runOperations (nested : Nested Path) (builder : ProjectBuilder Path) :
    List XmlOperation → ProjectBuilder Path × Option (ImportError Path)
  | [] => (builder, none)
  | operation :: rest =>
    match builder.processOperation host sourceFile source nested operation with
    | (builder, some error) => (builder, some error)
    | (builder, none) => runOperations nested builder rest

end ProjectBuilder

/-- Evaluate operations with at most `depth` files nested in one another; the limit on
imports is reached before that. -/
def processOperations {Path : Type} [DecidableEq Path] (host : Host Path) :
    Nat → ProjectPathEntry Path → List XmlOperation → ProjectBuilder Path →
      ProjectBuilder Path × Option (ImportError Path)
  | 0, entry, operations, builder =>
    builder.runOperations host entry.path entry.provenance (fun _ _ builder => (builder, none))
      operations
  | depth + 1, entry, operations, builder =>
    builder.runOperations host entry.path entry.provenance (processOperations host depth) operations

end Lint4d.Msbuild
