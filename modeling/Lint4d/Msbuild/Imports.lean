import Lint4d.Msbuild.Builder

/-!
# What an import can do

Everything but reading a file leaves the imports as they are, and reading one counts it.
The number of imports bounds how deep files are nested, so from some depth on the
evaluation does not depend on the depth it is given.
-/

namespace Lint4d.Msbuild

open Lint4d.Lib (Truth)
open Lint4d.Conditional (Text lower)

namespace ProjectBuilder

variable {Path : Type} {first second third : ProjectBuilder Path}

/-- What only an import changes, or nothing at all. -/
structure SameImports (before after : ProjectBuilder Path) : Prop where
  importCount : after.importCount = before.importCount
  activeImports : after.activeImports = before.activeImports
  globalProperties : after.globalProperties = before.globalProperties
  installationDataMode : after.installationDataMode = before.installationDataMode

variable (builder : ProjectBuilder Path)

lemma SameImports.refl : SameImports builder builder := ⟨rfl, rfl, rfl, rfl⟩

lemma SameImports.trans (h : SameImports first second)
    (h' : SameImports second third) : SameImports first third :=
  ⟨h'.importCount.trans h.importCount, h'.activeImports.trans h.activeImports,
    h'.globalProperties.trans h.globalProperties,
    h'.installationDataMode.trans h.installationDataMode⟩

/-! ## What an import that is not read could have changed -/

/-- The import could have assigned the property. -/
def taints (builder : ProjectBuilder Path) (key : Text) : Bool :=
  decide (key ∉ builder.globalProperties) && !isNamed key "mainsource"

/-- What is known of a property after some keys were tainted. -/
structure Tainted (before : ProjectBuilder Path) (keys : List Text) (after : ProjectBuilder Path)
    (key : Text) : Prop where
  value : after.properties.lookup key =
    if key ∈ keys ∧ before.taints key = true then some [unresolvedMarker]
    else before.properties.lookup key
  ranges : after.propertyProvenanceRanges.lookup key =
    if key ∈ keys ∧ before.taints key = true then none
    else before.propertyProvenanceRanges.lookup key
  provenance : after.propertyDefaultProvenances.lookup key =
    before.propertyDefaultProvenances.lookup key
  unknown : key ∈ after.unknownProperties ↔
    key ∈ before.unknownProperties ∨ key ∈ keys ∧ key ∉ before.globalProperties

lemma tainted_taintKey (first key : Text) :
    Tainted builder [first] (builder.taintKey first) key := by
  unfold taintKey
  split_ifs with hglobal hmain
  · rcases eq_or_ne key first with rfl | hkey
    · constructor <;> simp [hglobal, taints]
    · constructor <;> simp [hkey]
  · rcases eq_or_ne key first with rfl | hkey
    · constructor <;> simp [hglobal, hmain, taints]
    · constructor <;> simp [hkey]
  · rcases eq_or_ne key first with rfl | hkey
    · constructor <;> simp [hglobal, hmain, taints]
    · constructor <;> simp [hkey, AList.lookup_insert_ne, AList.lookup_erase_ne]

lemma tainted_foldl (keys : List Text) (builder : ProjectBuilder Path) (key : Text) :
    Tainted builder keys (keys.foldl taintKey builder) key := by
  induction keys generalizing builder with
  | nil => constructor <;> simp
  | cons first keys ih =>
    have hfirst := tainted_taintKey builder first key
    have hrest := ih (builder.taintKey first)
    have hglobal : (builder.taintKey first).globalProperties = builder.globalProperties :=
      by unfold taintKey; split_ifs <;> rfl
    have htaints : (builder.taintKey first).taints key = builder.taints key := by
      rw [taints, hglobal, taints]
    have hor : ∀ {α : Type} (tainted value : Option α),
        (if key ∈ keys ∧ builder.taints key = true then tainted
          else if key ∈ [first] ∧ builder.taints key = true then tainted else value) =
          if key ∈ first :: keys ∧ builder.taints key = true then tainted else value := by
      intro α tainted value
      simp only [List.mem_cons]
      split_ifs <;> tauto
    rw [List.foldl_cons]
    constructor
    · rw [hrest.value, hfirst.value, htaints, hor]
    · rw [hrest.ranges, hfirst.ranges, htaints, hor]
    · rw [hrest.provenance, hfirst.provenance]
    · rw [hrest.unknown, hfirst.unknown, hglobal, List.mem_singleton, List.mem_cons]
      tauto

lemma tainted_taintUnknownImport (key : Text) :
    Tainted builder builder.properties.keys builder.taintUnknownImport key := by
  have h := tainted_foldl builder.properties.keys { builder with unknownImportTaint := true } key
  exact ⟨h.value, h.ranges, h.provenance, h.unknown⟩

lemma importCount_foldl {α : Type} {step : ProjectBuilder Path → α → ProjectBuilder Path}
    (hstep : ∀ builder item, (step builder item).importCount = builder.importCount)
    (items : List α) (builder : ProjectBuilder Path) :
    (items.foldl step builder).importCount = builder.importCount := by
  induction items generalizing builder with
  | nil => rfl
  | cons item items ih => rw [List.foldl_cons, ih, hstep]

lemma importCount_leaveUnevaluated (src : ProjectPathProvenance Path) (name : Text) :
    (builder.leaveUnevaluated src name).importCount = builder.importCount := by
  unfold leaveUnevaluated markPropertyUnknown setProperty
  dsimp only
  split_ifs <;> rfl

lemma importCount_taintUnknownImport :
    builder.taintUnknownImport.importCount = builder.importCount := by
  refine importCount_foldl (fun builder key => ?_) _ _
  unfold taintKey
  split_ifs <;> rfl

variable {nested : Nested Path}

section Operations

variable [DecidableEq Path] {step : ImportStep Path} {count : Nat} {nested' : Nested Path}

/-! ## The steps of an import -/

/-- The properties and all that is recorded of them. -/
structure SameValues (before after : ProjectBuilder Path) : Prop where
  properties : after.properties = before.properties
  propertyProvenanceRanges : after.propertyProvenanceRanges = before.propertyProvenanceRanges
  propertyDefaultProvenances : after.propertyDefaultProvenances = before.propertyDefaultProvenances
  globalProperties : after.globalProperties = before.globalProperties
  unknownProperties : after.unknownProperties = before.unknownProperties
  unknownImportTaint : after.unknownImportTaint = before.unknownImportTaint

omit [DecidableEq Path] in
lemma SameValues.refl : SameValues builder builder := ⟨rfl, rfl, rfl, rfl, rfl, rfl⟩

omit [DecidableEq Path] in
lemma SameValues.trans (h : SameValues first second)
    (h' : SameValues second third) : SameValues first third :=
  ⟨h'.properties.trans h.properties, h'.propertyProvenanceRanges.trans h.propertyProvenanceRanges,
    h'.propertyDefaultProvenances.trans h.propertyDefaultProvenances,
    h'.globalProperties.trans h.globalProperties, h'.unknownProperties.trans h.unknownProperties,
    h'.unknownImportTaint.trans h.unknownImportTaint⟩

variable (host : Host Path) (builder : ProjectBuilder Path) in
/-- What an import leads to: nothing new, or a file that is counted and is active
while it is evaluated. -/
inductive Opened : ImportStep Path → Prop where
  | skip {after} (same : SameImports builder after)
      (values : SameValues builder after) : Opened (.skip after)
  | ignore {after error} (same : SameImports builder after) (values : SameValues builder after) :
      Opened (.ignore after error)
  | unread {after error}
      (counted : builder.importCount ≤ after.importCount) (values : SameValues builder after) :
      Opened (.unread after error)
  | enter {after entry operations} (limit : builder.importCount < maxImportCount)
      (counted : after.importCount = builder.importCount + 1) (values : SameValues builder after)
      (read : host.read after.importCount entry >>= parseXmlOperations = .ok operations) :
      Opened (.enter after entry operations)

variable {host : Host Path} {file : Path} {src : ProjectPathProvenance Path}

omit [DecidableEq Path] in
lemma Opened.trans (h : SameImports first second) (hvalues : SameValues first second)
    (hstep : Opened host second step) : Opened host first step := by
  cases hstep with
  | skip same values => exact .skip (h.trans same) (hvalues.trans values)
  | ignore same values => exact .ignore (h.trans same) (hvalues.trans values)
  | unread counted values => exact .unread (h.importCount ▸ counted) (hvalues.trans values)
  | enter limit counted values read =>
    exact .enter (h.importCount ▸ limit) (counted.trans (by rw [h.importCount]))
      (hvalues.trans values) read

omit [DecidableEq Path] in
lemma opened_unknownInstallationImport (reason : String) :
    Opened host builder (builder.unknownInstallationImport file reason) :=
  .unread le_rfl ⟨rfl, rfl, rfl, rfl, rfl, rfl⟩

omit [DecidableEq Path] in
lemma opened_ignoreImport (project : Text) :
    Opened host builder (builder.ignoreImport file project) := by
  unfold ignoreImport
  split_ifs
  · exact .ignore (.refl builder) (.refl builder)
  · exact .ignore ⟨rfl, rfl, rfl, rfl⟩ ⟨rfl, rfl, rfl, rfl, rfl, rfl⟩

lemma opened_readImport (path : Path) (entry : ProjectPathEntry Path) :
    Opened host builder (builder.readImport host file path entry) := by
  unfold readImport
  split_ifs with hlimit hcycle
  · exact opened_unknownInstallationImport builder _
  · exact opened_unknownInstallationImport builder _
  · dsimp only
    split
    · rename_i ops hread
      exact .enter (by omega) rfl ⟨rfl, rfl, rfl, rfl, rfl, rfl⟩ hread
    · exact .unread (Nat.le_succ _) ⟨rfl, rfl, rfl, rfl, rfl, rfl⟩

lemma opened_locateImport (expanded : ExpandedValue Path) (resolved : ResolvedPath Path) :
    Opened host builder (builder.locateImport host file src expanded resolved) := by
  have hnoted : ∀ metadataFiles step, Opened host { builder with metadataFiles } step →
      Opened host builder step := fun _ _ =>
    .trans ⟨rfl, rfl, rfl, rfl⟩ ⟨rfl, rfl, rfl, rfl, rfl, rfl⟩
  unfold locateImport
  dsimp only
  split
  · exact opened_unknownInstallationImport builder _
  · split
    · exact hnoted _ _ (opened_unknownInstallationImport _ _)
    · split_ifs <;> exact hnoted _ _ (opened_unknownInstallationImport _ _)
  · split_ifs
    · exact opened_unknownInstallationImport builder _
    · split
      · exact hnoted _ _ (opened_unknownInstallationImport _ _)
      · exact hnoted _ _ (opened_readImport _ _ _)

lemma opened_openImportWhen (truth : Truth) (target : Import) :
    Opened host builder (builder.openImportWhen host file src truth target) := by
  unfold openImportWhen
  cases truth with
  | false => exact .skip (.refl builder) (.refl builder)
  | unknown => exact .unread le_rfl ⟨rfl, rfl, rfl, rfl, rfl, rfl⟩
  | true =>
    dsimp only
    split_ifs
    · exact opened_ignoreImport builder _
    · exact opened_unknownInstallationImport builder _
    · split
      · exact opened_unknownInstallationImport builder _
      · split_ifs
        · exact opened_ignoreImport builder _
        · exact opened_locateImport builder _ _

variable (host file src) in
/-- Opening an import keeps the values and counts the file it enters. -/
lemma opened_openImport (builder : ProjectBuilder Path) (target : Import) :
    Opened host builder (builder.openImport host file src target) := by
  have hcond : SameImports builder
      (builder.evaluateCondition host.toFiles file target.condition).2 := ⟨rfl, rfl, rfl, rfl⟩
  exact .trans hcond ⟨rfl, rfl, rfl, rfl, rfl, rfl⟩ (opened_openImportWhen _ _ target)

/-! ## The number of imports -/

lemma importCount_processProperty (files : Files Path) (entry : PropertyEntry) :
    (builder.processProperty files file src entry).importCount = builder.importCount := by
  have hcond : (builder.evaluateCondition files file entry.condition).2.importCount =
    builder.importCount := rfl
  unfold processProperty
  generalize builder.evaluateCondition files file entry.condition = res at hcond ⊢
  obtain ⟨truth, _⟩ := res
  cases truth with
  | true =>
    unfold assignProperty setProperty
    dsimp only
    split_ifs <;> exact hcond
  | false => exact hcond
  | unknown => exact (importCount_leaveUnevaluated _ _ _).trans hcond

lemma importCount_processPropertyGroup (files : Files Path) (group : PropertyGroup) :
    (builder.processPropertyGroup files file src group).importCount = builder.importCount := by
  unfold processPropertyGroup applyGroup
  dsimp only
  split
  · rfl
  · exact importCount_foldl (fun _ _ => importCount_leaveUnevaluated _ _ _) _ _
  · exact importCount_foldl (fun _ => importCount_processProperty _ files) _ _

lemma importCount_processReference (files : Files Path) (reference : DccReference)
    (isCompiledReference : Text → Bool) :
    (builder.processReference files file src reference
      isCompiledReference).importCount = builder.importCount := by
  unfold processReference
  dsimp only
  split_ifs
  · rfl
  · split <;> rfl

/-- Evaluating a file takes no import back, and from `count` imports on it does not matter in
which of the two ways it is evaluated. -/
def AgreeFrom (count : Nat) (nested nested' : Nested Path) : Prop :=
  ∀ entry operations builder,
    builder.importCount ≤ (nested entry operations builder).1.importCount ∧
    (count ≤ builder.importCount → builder.importCount ≤ maxImportCount →
      nested entry operations builder = nested' entry operations builder)

variable (host file src) in
lemma processOperation_agree (hagree : AgreeFrom (count + 1) nested nested')
    (builder : ProjectBuilder Path) (op : XmlOperation) :
    builder.importCount ≤ (builder.processOperation host file src nested op).1.importCount ∧
    (count ≤ builder.importCount → builder.processOperation host file src nested op =
      builder.processOperation host file src nested' op) := by
  cases op with
  | propertyGroup group => exact ⟨(importCount_processPropertyGroup _ _ group).ge, fun _ => rfl⟩
  | dccReference => exact ⟨(importCount_processReference _ _ _ _).ge, fun _ => rfl⟩
  | unsupported => exact ⟨le_rfl, fun _ => rfl⟩
  | importFile target =>
    have hopened := opened_openImport host file src builder target
    rw [processOperation, processOperation, processImport, processImport]
    generalize builder.openImport host file src target = step at hopened ⊢
    cases hopened with
    | skip same | ignore same => exact ⟨same.importCount.ge, fun _ => rfl⟩
    | unread counted => exact ⟨counted.trans (importCount_taintUnknownImport _).ge, fun _ => rfl⟩
    | @enter after entry ops limit counted =>
      obtain ⟨hinside, heq⟩ := hagree entry ops after
      refine ⟨(by omega : builder.importCount ≤ after.importCount).trans hinside, fun hcount => ?_⟩
      rw [finishImport, finishImport, heq (by omega) (by omega)]

/-- Only the imports still allowed decide what the operations do. -/
lemma runOperations_agree (hagree : AgreeFrom (count + 1) nested nested') (ops : List XmlOperation)
    (builder : ProjectBuilder Path) :
    builder.importCount ≤ (builder.runOperations host file src nested ops).1.importCount ∧
    (count ≤ builder.importCount → builder.runOperations host file src nested ops =
      builder.runOperations host file src nested' ops) := by
  induction ops generalizing builder with
  | nil => exact ⟨le_rfl, fun _ => rfl⟩
  | cons op ops ih =>
    obtain ⟨hstep, heq⟩ := processOperation_agree host file src hagree builder op
    unfold runOperations
    generalize builder.processOperation host file src nested op = res at hstep heq ⊢
    obtain ⟨after, _ | error⟩ := res
    · refine ⟨hstep.trans (ih after).1, fun hcount => ?_⟩
      rw [← heq hcount]
      exact (ih after).2 (hcount.trans hstep)
    · exact ⟨hstep, fun hcount => by rw [← heq hcount]⟩

end Operations

end ProjectBuilder

/-! ## Recorded evaluations -/

/-- An evaluation with the steps it went through. -/
structure Run (Step Path : Type) where
  steps : List Step
  builder : ProjectBuilder Path
  error : Option (ImportError Path)

namespace Run

variable {Step Path : Type}

def stay (builder : ProjectBuilder Path) : Run Step Path := ⟨[], builder, none⟩

/-- Go on unless there was an error. -/
def bind (run : Run Step Path) (next : ProjectBuilder Path → Run Step Path) : Run Step Path :=
  match run.error with
  | some _ => run
  | none => { next run.builder with steps := run.steps ++ (next run.builder).steps }

lemma bind_steps {run : Run Step Path} {next : ProjectBuilder Path → Run Step Path}
    {P : Step → Prop} (h : ∀ step ∈ (run.bind next).steps, P step) :
    (∀ step ∈ run.steps, P step) ∧
      (run.error = none → ∀ step ∈ (next run.builder).steps, P step) := by
  unfold bind at h
  cases herror : run.error with
  | none =>
    rw [herror] at h
    exact ⟨fun step hstep => h step (by simp [hstep]), fun _ step hstep => h step (by simp [hstep])⟩
  | some error =>
    rw [herror] at h
    exact ⟨h, fun hnone => by cases hnone⟩

end Run

/-! ## The depth -/

section Depth

variable {Path : Type} [DecidableEq Path] (host : Host Path)

/-- Once the imports left are no more than the depth, a greater depth changes nothing:
at depth zero no file can be entered any more. -/
lemma agreeFrom_processOperations (depth count : Nat) (hdepth : maxImportCount ≤ count + depth) :
    ProjectBuilder.AgreeFrom count (processOperations host depth)
      (processOperations host (depth + 1)) := by
  induction depth generalizing count with
  | zero =>
    intro entry ops builder
    have hnone : ProjectBuilder.AgreeFrom (count + 1) (fun _ _ builder => (builder, none))
        (processOperations host 0) := fun _ _ _ => ⟨le_rfl, fun _ _ => by omega⟩
    obtain ⟨hle, heq⟩ := ProjectBuilder.runOperations_agree hnone ops builder
    exact ⟨hle, fun hcount _ => heq hcount⟩
  | succ depth ih =>
    intro entry ops builder
    obtain ⟨hle, heq⟩ := ProjectBuilder.runOperations_agree (ih (count + 1) (by omega)) ops builder
    exact ⟨hle, fun hcount _ => heq hcount⟩

/-- However files import each other, the evaluation comes to its end within the limit on
imports: allowing more files to be nested changes nothing. -/
theorem evaluation_depth_stable (depth : Nat) (entry : ProjectPathEntry Path)
    (ops : List XmlOperation) (builder : ProjectBuilder Path) :
    processOperations host (maxImportCount + depth) entry ops builder =
      processOperations host maxImportCount entry ops builder := by
  induction depth with
  | zero => rfl
  | succ depth ih =>
    obtain ⟨rest, hrest⟩ : ∃ rest, maxImportCount + depth = rest + 1 :=
      Nat.exists_eq_add_one_of_ne_zero (by simp [maxImportCount])
    rw [← ih, ← Nat.add_assoc, hrest]
    exact ((ProjectBuilder.runOperations_agree
      (agreeFrom_processOperations host rest 1 (by omega)) ops builder).2 (Nat.zero_le _)).symm

end Depth

end Lint4d.Msbuild
