import Lint4d.Msbuild.Origins

/-!
# Recorded evaluations of a project

Every property has an origin: the leaves of its value and the file it was assigned in.
An evaluation is recorded with the moments at which it changes a property or comes to an
import, and the origins are carried along.
-/

namespace Lint4d.Msbuild

open ProjectBuilder

open Lint4d.Lib (Truth)
open Lint4d.Conditional (Text byteLen byteLen_nil byteLen_append trim trimStart trimEnd lower)

/-! ## Origins -/

def restriction {Path : Type} : ProjectPathProvenance Path → Nat
  | .legacyNative => 0
  | .configured => 1
  | .mapped _ => 2

/-- An entry as restricted as all its contributions, with the root of a mapped one. -/
structure Keeps {Path : Type} (contributions : List (ProjectPathProvenance Path))
    (provenance : ProjectPathProvenance Path) : Prop where
  least : ∀ contribution ∈ contributions, restriction contribution ≤ restriction provenance
  root : (∃ root, .mapped root ∈ contributions) →
    ∃ root, .mapped root ∈ contributions ∧ provenance = .mapped root

structure Origin (Path : Type) where
  leaves : List (Leaf Path)
  file : ProjectPathProvenance Path

/-- The leaves a property gives to a value it is substituted into; one without any is
still there. -/
def Origin.put {Path : Type} (origin : Origin Path) : List (Leaf Path) :=
  if origin.leaves = [] then [.known [] origin.file []]
  else origin.leaves.map (Leaf.within origin.file)

abbrev Origins (Path : Type) := Map (Origin Path)

def contributions {Path : Type} (leaves : List (Leaf Path)) : List (ProjectPathProvenance Path) :=
  leaves.flatMap Leaf.sources

section Expansion

variable {Path : Type} (files : Files Path) (sourceFile : Path)
  (source : ProjectPathProvenance Path) (origins : Origins Path) (undefinedIsEmpty : Bool)
  (currentProperty : Text)

/-- Leaves at the end, within the limit on values. -/
def appendLeaves (leaves others : List (Leaf Path)) : Option (List (Leaf Path)) :=
  (appendExpansion (textOf leaves) (textOf others)).map fun _ => leaves ++ others

def literalLeaves (text : Text) : List (Leaf Path) :=
  if text = [] then [] else [.known text source []]

/-- The leaves of a text that stands in a file; none if the text cannot be expanded. -/
def expandLeaves : List Piece → List (Leaf Path) → Option (List (Leaf Path))
  | [], leaves => some leaves
  | .unclosed :: _, _ => none
  | .literal text :: rest, leaves =>
    (appendLeaves leaves (literalLeaves source text)).bind (expandLeaves rest)
  | .reference name :: rest, leaves =>
    if isThisFileDirectory name then
      (appendLeaves leaves (literalLeaves source (files.directoryText sourceFile))).bind
        (expandLeaves rest)
    else
      match origins.lookup (lower name) with
      | some origin => (appendLeaves leaves origin.put).bind (expandLeaves rest)
      | none =>
        if eqIgnoreAsciiCase name currentProperty then expandLeaves rest leaves
        else if undefinedIsEmpty && !isEnvironmentProvidedProperty name then
          expandLeaves rest leaves
        else (appendLeaves leaves [.unknown]).bind (expandLeaves rest)

def leavesOf (value : Text) : List (Leaf Path) :=
  (expandLeaves files sourceFile source origins undefinedIsEmpty currentProperty (pieces value)
    []).getD [.unknown]

end Expansion

/-! ## Moments of a run -/

/-- What an evaluation does to its properties, and the imports it comes to. -/
inductive Action (Path : Type) where
  | assign (sourceFile : Path) (source : ProjectPathProvenance Path) (entry : PropertyEntry)
  | leave (source : ProjectPathProvenance Path) (name : Text)
  | taint
  | openImport (sourceFile : Path) (source : ProjectPathProvenance Path) (target : Import)

structure Moment (Path : Type) where
  builder : ProjectBuilder Path
  action : Action Path

section Moments

variable {Path : Type} (files : Files Path)

/-- The property takes a new value. -/
def ProjectBuilder.stores (builder : ProjectBuilder Path) (key value : Text) : Bool :=
  decide (key ∉ builder.globalProperties) &&
    decide (builder.bytesWith key value ≤ maxTotalPropertyBytes)

/-- The origins after an action. -/
def Origins.after (origins : Origins Path) (moment : Moment Path) : Origins Path :=
  match moment.action with
  | .assign sourceFile source entry =>
    let leaves := trimLeaves (leavesOf files sourceFile source origins
      moment.builder.undefinedIsEmpty entry.name entry.value)
    if moment.builder.stores (lower entry.name) (textOf leaves) then
      origins.insert (lower entry.name) ⟨leaves, source⟩
    else origins
  | .leave source name =>
    let leaves : List (Leaf Path) := [.unknown]
    if moment.builder.stores (lower name) (textOf leaves) then
      origins.insert (lower name) ⟨leaves, source⟩
    else origins
  | .taint =>
    Map.choose (fun key origin =>
      some (if moment.builder.taints key then ⟨[.unknown], origin.file⟩ else origin)) origins
  | .openImport .. => origins

def trace (origins : Origins Path) : List (Moment Path) → List (Origins Path × Moment Path)
  | [] => []
  | moment :: rest => (origins, moment) :: trace (origins.after files moment) rest

end Moments

section Recording

variable {Path : Type} [DecidableEq Path] (host : Host Path) (sourceFile : Path)
  (source : ProjectPathProvenance Path)

/-- What the recording does with an imported file. -/
abbrev RecordNested (Path : Type) := ProjectPathEntry Path → List XmlOperation →
  ProjectBuilder Path → Run (Moment Path) Path

def recordLeave (name : Text) (builder : ProjectBuilder Path) : Run (Moment Path) Path :=
  ⟨[⟨builder, .leave source name⟩], builder.leaveUnevaluated source name, none⟩

def recordProperty (entry : PropertyEntry) (builder : ProjectBuilder Path) :
    Run (Moment Path) Path :=
  match builder.evaluateCondition host.toFiles sourceFile entry.condition with
  | (.false, builder) => .stay builder
  | (.unknown, builder) => recordLeave source entry.name { builder with incomplete := true }
  | (.true, builder) =>
    ⟨[⟨builder, .assign sourceFile source entry⟩],
      builder.assignProperty host.toFiles sourceFile source entry, none⟩

/-- One after the other. -/
def recordAll {α : Type} (record : α → ProjectBuilder Path → Run (Moment Path) Path) :
    List α → ProjectBuilder Path → Run (Moment Path) Path
  | [], builder => .stay builder
  | item :: items, builder => (record item builder).bind (recordAll record items)

def recordGroup (group : PropertyGroup) (builder : ProjectBuilder Path) : Run (Moment Path) Path :=
  match builder.evaluateCondition host.toFiles sourceFile group.condition with
  | (.false, builder) => .stay builder
  | (.unknown, builder) =>
    recordAll (fun entry => recordLeave source entry.name) group.properties
      { builder with incomplete := true }
  | (.true, builder) => recordAll (recordProperty host sourceFile source) group.properties builder

def recordFinish (nested : RecordNested Path) : ImportStep Path → Run (Moment Path) Path
  | .skip builder => .stay builder
  | .ignore builder error => ⟨[], builder, error⟩
  | .unread builder error => ⟨[⟨builder, .taint⟩], builder.taintUnknownImport, error⟩
  | .enter builder entry operations =>
    let run := nested entry operations builder
    { run with builder :=
        { run.builder with activeImports := run.builder.activeImports.erase entry.path } }

def recordOperation (nested : RecordNested Path) (operation : XmlOperation)
    (builder : ProjectBuilder Path) : Run (Moment Path) Path :=
  match operation with
  | .propertyGroup group => recordGroup host sourceFile source group builder
  | .dccReference reference =>
    .stay (builder.processReference host.toFiles sourceFile source reference isCompiledReference)
  | .importFile target =>
    let (truth, after) := builder.evaluateCondition host.toFiles sourceFile target.condition
    let run := recordFinish nested (after.openImportWhen host sourceFile source truth target)
    { run with steps :=
        (if truth = .true then [⟨after, .openImport sourceFile source target⟩] else []) ++
          run.steps }
  | .unsupported => .stay builder

end Recording

/-- An evaluation with its moments. -/
def recordOperations {Path : Type} [DecidableEq Path] (host : Host Path) :
    Nat → ProjectPathEntry Path → List XmlOperation → ProjectBuilder Path → Run (Moment Path) Path
  | 0, entry, operations, builder =>
    recordAll (recordOperation host entry.path entry.provenance fun _ _ builder => .stay builder)
      operations builder
  | depth + 1, entry, operations, builder =>
    recordAll (recordOperation host entry.path entry.provenance (recordOperations host depth))
      operations builder

/-! ## The recording is the evaluation -/

section Projection

variable {Path : Type} [DecidableEq Path] {host : Host Path} {sourceFile : Path}
  {source : ProjectPathProvenance Path}

/-- How a run ended. -/
def Run.outcome {Step : Type} (run : Run Step Path) :
    ProjectBuilder Path × Option (ImportError Path) := (run.builder, run.error)

omit [DecidableEq Path] in
lemma recordAll_foldl {α : Type} {record : α → ProjectBuilder Path → Run (Moment Path) Path}
    {step : ProjectBuilder Path → α → ProjectBuilder Path}
    (h : ∀ item builder, (record item builder).outcome = (step builder item, none))
    (items : List α) (builder : ProjectBuilder Path) :
    (recordAll record items builder).outcome = (items.foldl step builder, none) := by
  induction items generalizing builder with
  | nil => rfl
  | cons item items ih =>
    obtain ⟨hbuilder, herror⟩ := Prod.mk.inj (h item builder)
    rw [recordAll, Run.bind, herror, List.foldl_cons, ← ih, ← hbuilder]
    rfl

lemma recordProperty_outcome (entry : PropertyEntry) (builder : ProjectBuilder Path) :
    (recordProperty host sourceFile source entry builder).outcome =
      (builder.processProperty host.toFiles sourceFile source entry, none) := by
  unfold recordProperty processProperty
  rcases builder.evaluateCondition host.toFiles sourceFile entry.condition with ⟨truth, _⟩
  cases truth <;> rfl

lemma recordGroup_outcome (group : PropertyGroup) (builder : ProjectBuilder Path) :
    (recordGroup host sourceFile source group builder).outcome =
      (builder.processPropertyGroup host.toFiles sourceFile source group, none) := by
  unfold recordGroup processPropertyGroup
  rcases builder.evaluateCondition host.toFiles sourceFile group.condition with ⟨truth, _⟩
  cases truth with
  | false => rfl
  | unknown => exact recordAll_foldl (fun _ _ => rfl) group.properties _
  | true => exact recordAll_foldl recordProperty_outcome group.properties _

variable {nested : RecordNested Path} {inner : ProjectBuilder.Nested Path}

section

variable (hnested : ∀ entry ops builder, (nested entry ops builder).outcome = inner entry ops
  builder)

include hnested

lemma recordOperation_outcome (op : XmlOperation) (builder : ProjectBuilder Path) :
    (recordOperation host sourceFile source nested op builder).outcome =
      builder.processOperation host sourceFile source inner op := by
  cases op with
  | propertyGroup group => exact recordGroup_outcome group builder
  | dccReference | unsupported => rfl
  | importFile target =>
    rw [recordOperation, processOperation, processImport, openImport]
    dsimp only
    cases openImportWhen host sourceFile source
      (builder.evaluateCondition host.toFiles sourceFile target.condition).2
      (builder.evaluateCondition host.toFiles sourceFile target.condition).1 target with
    | enter after entry ops =>
      rw [finishImport, ← hnested entry ops after]
      rfl
    | _ => rfl

lemma recordAll_runOperations (ops : List XmlOperation) (builder : ProjectBuilder Path) :
    (recordAll (recordOperation host sourceFile source nested) ops builder).outcome =
      builder.runOperations host sourceFile source inner ops := by
  induction ops generalizing builder with
  | nil => rfl
  | cons op ops ih =>
    rw [recordAll, runOperations, ← recordOperation_outcome hnested]
    generalize recordOperation host sourceFile source nested op builder = run
    obtain ⟨_, after, error⟩ := run
    cases error with
    | some error => rfl
    | none => exact ih after

end

end Projection

lemma recordOperations_outcome {Path : Type} [DecidableEq Path] (host : Host Path) (depth : Nat)
    (entry : ProjectPathEntry Path) (ops : List XmlOperation) (builder : ProjectBuilder Path) :
    (recordOperations host depth entry ops builder).outcome =
      processOperations host depth entry ops builder := by
  induction depth generalizing entry ops builder with
  | zero => exact recordAll_runOperations (fun _ _ _ => rfl) ops builder
  | succ depth ih => exact recordAll_runOperations ih ops builder

end Lint4d.Msbuild
