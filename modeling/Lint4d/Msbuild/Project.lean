import Lint4d.Msbuild.Imports

/-!
# The two ends of an evaluation

An evaluation starts from the properties of the configuration, the selections of the
client and the installation.  When it is over the path properties are split into the
entries that may be read.
-/

namespace Lint4d.Msbuild

open List
open Lint4d.Conditional (Text byteLen trim lower)

/-! ## Maps -/

namespace Map

variable {α β : Type}

variable (f : Text → α → Option β)

/-- The entries that are not left out, with their new values. -/
def chosen (entries : List (Σ _ : Text, α)) : List (Σ _ : Text, β) :=
  entries.filterMap fun entry => (f entry.1 entry.2).map fun value => ⟨entry.1, value⟩

lemma keys_chosen_sublist (entries : List (Σ _ : Text, α)) :
    (chosen f entries).keys.Sublist entries.keys := by
  induction entries with
  | nil => exact .refl _
  | cons entry entries ih =>
    rw [chosen, filterMap_cons]
    cases f entry.1 entry.2 with
    | none => exact ih.cons _
    | some => exact ih.cons_cons _

def choose (map : Map α) : Map β :=
  ⟨chosen f map.entries, List.Nodup.sublist (keys_chosen_sublist f map.entries) map.nodupKeys⟩

lemma dlookup_chosen {entries : List (Σ _ : Text, α)} (hnodup : entries.NodupKeys) (key : Text) :
    (chosen f entries).dlookup key = (entries.dlookup key).bind (f key) := by
  induction entries with
  | nil => rfl
  | cons entry entries ih =>
    obtain ⟨name, value⟩ := entry
    rw [nodupKeys_cons] at hnodup
    have hcons : chosen f (⟨name, value⟩ :: entries) =
        ((f name value).map fun value => (⟨name, value⟩ : Σ _ : Text, β)).toList ++
          chosen f entries := by
      unfold chosen
      rw [filterMap_cons]
      cases f name value <;> rfl
    rw [hcons]
    by_cases hname : key = name
    · subst hname
      rw [dlookup_cons_eq]
      cases hvalue : f key value with
      | some result => simp [hvalue]
      | none =>
        -- the name comes once, so nothing is found after it either
        have hnone : (chosen f entries).dlookup key = none := by
          rw [dlookup_eq_none]
          exact fun hmem => hnodup.1 ((keys_chosen_sublist f entries).subset hmem)
        simp [hvalue, hnone]
    · rw [dlookup_cons_ne _ _ hname, ← ih hnodup.2]
      cases f name value with
      | none => rfl
      | some result => exact dlookup_cons_ne _ _ hname

lemma lookup_choose (map : Map α) (key : Text) :
    (choose f map).lookup key = (map.lookup key).bind (f key) :=
  dlookup_chosen f map.nodupKeys key

end Map

/-! ## The start -/

/-- The selections of the client that are not blank. -/
def clientProperties (buildConfig platform : Option Text) : List (Text × Text) :=
  [("config".toList, buildConfig), ("platform".toList, platform)].filterMap fun (name, value) =>
    (value.filter fun value => trim value ≠ []).map fun value => (name, value)

def fullRange (value : Text) : List Range := if value = [] then [] else [(0, byteLen value)]

/-- Leave what is there, or put the empty value. -/
def orDefault (map : Map Text) (key : Text) : Map Text :=
  if key ∈ map then map else map.insert key []

namespace ProjectBuilder

variable {Path : Type}

def new (buildConfig platform : Option Text) (overrides : Map Text) : ProjectBuilder Path :=
  let client := clientProperties buildConfig platform
  let isConfigured (key : Text) : Bool := decide (key ∈ overrides) && !(client.any (·.1 = key))
  let properties := client.foldl (fun map (name, value) => map.insert name value) overrides
  let configured : Map Text := Map.choose (fun key value =>
    if isConfigured key then some value else none) overrides
  let globalProperties := properties.keys.toFinset
  let properties := orDefault (orDefault properties "config".toList) "platform".toList
  let provenance (key : Text) : ProjectPathProvenance Path :=
    if isConfigured key then .configured else .legacyNative
  { properties
    configuredRanges := Map.choose (fun _ value => some (fullRange value)) configured
    propertyProvenanceRanges := Map.choose (fun key value =>
      if value = [] then none else some [⟨(0, byteLen value), provenance key⟩]) properties
    propertyDefaultProvenances := Map.choose (fun key _ => some (provenance key)) properties
    propertyEmptyExpansions := ∅
    configuredProperties := configured.keys.toFinset
    globalProperties
    unknownProperties := ∅
    unknownImportTaint := false
    opaqueImport := false
    installationDataMode := false
    references := []
    incomplete :=
      decide ((properties.entries.map fun entry => byteLen entry.2).sum > maxTotalPropertyBytes) ||
        properties.entries.any fun entry => maxExpandedValueBytes < byteLen entry.2
    unevaluatedAssignments := ∅
    activeImports := []
    importCount := 0
    propertyBytes := (properties.entries.map fun entry => byteLen entry.2).sum
    metadataFiles := [] }

/-- A property of the installation. -/
def seedInstallationProperty (builder : ProjectBuilder Path) (property : Text × Text) :
    ProjectBuilder Path :=
  let (name, value) := property
  let key := lower name
  if key ∈ builder.globalProperties then builder
  else
    { builder with
      properties := builder.properties.insert key value
      propertyBytes := builder.bytesWith key value
      configuredRanges := builder.configuredRanges.erase key
      configuredProperties := builder.configuredProperties.erase key
      propertyProvenanceRanges := builder.propertyProvenanceRanges.insert key
        [⟨(0, byteLen value), .legacyNative⟩]
      propertyDefaultProvenances := builder.propertyDefaultProvenances.insert key .legacyNative }

def seedInstallationProperties (builder : ProjectBuilder Path) (properties : List (Text × Text)) :
    ProjectBuilder Path :=
  properties.foldl seedInstallationProperty builder

def projectNameKey : Text := "msbuildprojectname".toList

/-- The root project, which gives its name to the evaluation. -/
def startRoot (builder : ProjectBuilder Path) (path : Path) (stem : Option Text) :
    ProjectBuilder Path :=
  let builder := { builder with metadataFiles := builder.metadataFiles ++ [path] }
  match stem with
  | none => builder
  | some name =>
    if projectNameKey ∈ builder.globalProperties then builder
    else
      let builder := builder.setProperty projectNameKey ⟨name, false, [], false, []⟩ .legacyNative
      { builder with globalProperties := insert projectNameKey builder.globalProperties }

end ProjectBuilder

/-! ## Path lists -/

/-- The parts of a list with their places in it. -/
def listSpans (start : Nat) : List Text → List (Range × Text)
  | [] => []
  | part :: rest =>
    ((start, start + byteLen part), part) :: listSpans (start + byteLen part + 1) rest

/-- A range has a part in common with an item, or is empty and at most at its border. -/
def touches (item range : Range) : Bool :=
  if range.1 = range.2 then decide (item.1 ≤ range.1 ∧ range.1 ≤ item.2)
  else decide (range.1 < item.2 ∧ item.1 < range.2)

section Lists

variable {Path : Type}

def propertyListItem (item : Range × Text) (ranges : List (ProvenanceRange Path))
    (defaultProvenance : ProjectPathProvenance Path) : Text × ProjectPathProvenance Path :=
  (trim item.2, (ranges.filter fun range => touches item.1 range.range).foldl
    (fun current range => combinePathProvenance current range.provenance) defaultProvenance)

def ProjectBuilder.propertyListWithProvenance (builder : ProjectBuilder Path) (name : Text) :
    List (Text × ProjectPathProvenance Path) :=
  match builder.properties.lookup (lower name) with
  | none => []
  | some value =>
    (listSpans 0 (value.splitOn ';')).map fun item =>
      propertyListItem item ((builder.propertyProvenanceRanges.lookup (lower name)).getD [])
        ((builder.propertyDefaultProvenances.lookup (lower name)).getD .legacyNative)

def resolvedSearchPathEntry (files : Files Path) (raw : Text) (base : Path)
    (provenance : ProjectPathProvenance Path) : Option (ProjectPathEntry Path) :=
  let raw := trim raw
  if raw = [] ∨ unresolvedMarker ∈ raw then none
  else
    (files.candidate base raw).map fun resolved =>
      let isConfigured := match provenance with
        | .configured => true
        | _ => false
      match files.status resolved with
      | .found path => inheritPathProvenance (.resolved path resolved isConfigured) provenance
      | .missing | .unresolvable =>
        inheritPathProvenance (.resolved resolved.path resolved isConfigured) provenance

end Lists

end Lint4d.Msbuild
