import Lint4d.Msbuild.OriginFits

/-!
# Restrictions of paths

The ranges fit the origins at every moment of a run, so an entry is at least as restricted
as everything its text was put together from.  There are two ways to lose a restriction,
and the runs the result is about use neither: an import that refers to a configured
property is configured even where something is mapped, and a value that is copied through
a file keeps the ranges of its parts only.
-/

namespace Lint4d.Msbuild

open ProjectBuilder List

open Lint4d.Lib (Truth)
open Lint4d.Conditional (Text byteLen byteLen_nil byteLen_append trim trimStart trimEnd lower)

variable {α : Type}

/-! ## Whole runs -/

/-- What is asked of an import: the properties its target refers to were not assigned in a
file more restricted than a part of their values, and none of them is configured where
something the target comes from is mapped. -/
structure ImportClean {Path : Type} (builder : ProjectBuilder Path)
    (source : ProjectPathProvenance Path) (target : Import) : Prop where
  passes : ∀ name ∈ references (pieces target.project), builder.Passes name
  unmixed : (∀ name ∈ references (pieces target.project), builder.isExplicit (lower name) = false) ∨
    restriction source < 2 ∧ ∀ name ∈ references (pieces target.project),
      (∀ file ∈ builder.propertyDefaultProvenances.lookup (lower name), restriction file < 2) ∧
      ∀ ranges ∈ builder.propertyProvenanceRanges.lookup (lower name),
        ∀ range ∈ ranges, restriction range.provenance < 2

def Moment.Clean {Path : Type} (moment : Moment Path) : Prop :=
  match moment.action with
  | .assign _ _ entry => ∀ name ∈ references (pieces entry.value), moment.builder.Passes name
  | .openImport _ source target => ImportClean moment.builder source target
  | _ => True

section Runs

variable {Path : Type} {host : Host Path} {files : Files Path}

/-- The origins fit at every moment of the run and at its end. -/
structure RunFits (host : Host Path) (origins : Origins Path) (run : Run (Moment Path) Path) :
    Prop where
  moments : ∀ pair ∈ trace host.toFiles origins run.steps, Fits pair.2.builder pair.1
  final : Fits run.builder (run.steps.foldl (fun origins moment =>
    origins.after host.toFiles moment) origins)

variable {origins : Origins Path} {builder : ProjectBuilder Path}

lemma RunFits.stay (h : Fits builder origins) (error : Option (ImportError Path)) :
    RunFits host origins ⟨[], builder, error⟩ :=
  ⟨by simp [trace], h⟩

lemma RunFits.single {after : ProjectBuilder Path} {action : Action Path}
    (h : Fits builder origins) (h' : Fits after (origins.after host.toFiles ⟨builder, action⟩))
    (error : Option (ImportError Path)) :
    RunFits host origins ⟨[⟨builder, action⟩], after, error⟩ :=
  ⟨by simpa [trace] using h, h'⟩

lemma mem_of_mem_trace {moments : List (Moment Path)} {pair : Origins Path × Moment Path}
    (h : pair ∈ trace files origins moments) : pair.2 ∈ moments := by
  induction moments generalizing origins with
  | nil => cases h
  | cons _ moments ih =>
    rcases mem_cons.1 h with rfl | h
    · exact mem_cons_self
    · exact mem_cons_of_mem _ (ih h)

lemma trace_append (origins : Origins Path) (moments others : List (Moment Path)) :
    trace files origins (moments ++ others) = trace files origins moments ++
      trace files (moments.foldl (fun origins moment => origins.after files moment) origins)
        others := by
  induction moments generalizing origins with
  | nil => rfl
  | cons moment moments ih => simp [trace, ih]

lemma RunFits.bind {run : Run (Moment Path) Path}
    {next : ProjectBuilder Path → Run (Moment Path) Path} (h : RunFits host origins run)
    (h' : run.error = none → RunFits host
      (run.steps.foldl (fun origins moment => origins.after host.toFiles moment) origins)
      (next run.builder)) :
    RunFits host origins (run.bind next) := by
  unfold Run.bind
  cases herror : run.error with
  | some error => exact h
  | none =>
    obtain ⟨hmoments, hfinal⟩ := h' herror
    refine ⟨fun pair hpair => ?_, ?_⟩
    · rw [trace_append, mem_append] at hpair
      rcases hpair with hpair | hpair
      · exact h.moments pair hpair
      · exact hmoments pair hpair
    · rw [foldl_append]
      exact hfinal

lemma Fits.of_same {after : ProjectBuilder Path} (h : Fits builder origins)
    (hsame : ProjectBuilder.SameValues builder after) : Fits after origins :=
  h.congr hsame.properties hsame.propertyProvenanceRanges hsame.propertyDefaultProvenances

lemma runFits_recordAll {record : α → ProjectBuilder Path → Run (Moment Path) Path}
    (hrecord : ∀ item builder origins, Fits builder origins →
      (∀ moment ∈ (record item builder).steps, moment.Clean) →
      RunFits host origins (record item builder)) (items : List α) (hfits : Fits builder origins)
    (hclean : ∀ moment ∈ (recordAll record items builder).steps, moment.Clean) :
    RunFits host origins (recordAll record items builder) := by
  induction items generalizing builder origins with
  | nil => exact .stay hfits none
  | cons item items ih =>
    obtain ⟨hfirst, hrest⟩ := Run.bind_steps hclean
    have hitem := hrecord item builder origins hfits hfirst
    exact hitem.bind fun hnone => ih hitem.final (hrest hnone)

variable {sourceFile : Path} {source : ProjectPathProvenance Path}

lemma runFits_recordLeave (name : Text) (hfits : Fits builder origins) :
    RunFits host origins (recordLeave source name builder) :=
  .single hfits (fits_leaveUnevaluated hfits name) none

variable [DecidableEq Path]

lemma runFits_recordProperty (entry : PropertyEntry) (hfits : Fits builder origins)
    (hclean : ∀ moment ∈ (recordProperty host sourceFile source entry builder).steps, moment.Clean) :
    RunFits host origins (recordProperty host sourceFile source entry builder) := by
  unfold recordProperty at hclean ⊢
  generalize hres : builder.evaluateCondition host.toFiles sourceFile entry.condition = res
    at hclean ⊢
  have hafter : Fits res.2 origins := hres ▸ hfits.congr rfl rfl rfl
  obtain ⟨truth, after⟩ := res
  cases truth with
  | false => exact .stay hafter none
  | unknown => exact runFits_recordLeave entry.name (hafter.congr rfl rfl rfl)
  | true =>
    have hpasses := hclean ⟨after, .assign sourceFile source entry⟩ (by simp)
    exact .single hafter (fits_assignProperty hafter entry hpasses) none

lemma runFits_recordGroup (group : PropertyGroup) (hfits : Fits builder origins)
    (hclean : ∀ moment ∈ (recordGroup host sourceFile source group builder).steps, moment.Clean) :
    RunFits host origins (recordGroup host sourceFile source group builder) := by
  unfold recordGroup at hclean ⊢
  generalize hres : builder.evaluateCondition host.toFiles sourceFile group.condition = res
    at hclean ⊢
  have hafter : Fits res.2 origins := hres ▸ hfits.congr rfl rfl rfl
  obtain ⟨truth, after⟩ := res
  cases truth with
  | false => exact .stay hafter none
  | unknown =>
    have hinc : Fits { after with incomplete := true } origins := hafter.congr rfl rfl rfl
    exact runFits_recordAll (fun entry _ _ hfits _ => runFits_recordLeave entry.name hfits)
      group.properties hinc hclean
  | true =>
    exact runFits_recordAll
      (fun entry _ _ hfits hclean => runFits_recordProperty entry hfits hclean)
      group.properties hafter hclean

variable {nested : RecordNested Path}

/-- Evaluating a file keeps the origins fitting. -/
def NestedFits (host : Host Path) (nested : RecordNested Path) : Prop :=
  ∀ entry operations builder origins, Fits builder origins →
    (∀ moment ∈ (nested entry operations builder).steps, moment.Clean) →
    RunFits host origins (nested entry operations builder)

lemma runFits_recordFinish (hnested : NestedFits host nested) {step : ImportStep Path}
    (hopened : ProjectBuilder.Opened host builder step) (hfits : Fits builder origins)
    (hclean : ∀ moment ∈ (recordFinish nested step).steps, moment.Clean) :
    RunFits host origins (recordFinish nested step) := by
  cases hopened with
  | skip same values => exact .stay (hfits.of_same values) none
  | ignore same values => exact .stay (hfits.of_same values) _
  | unread counted values =>
    have hafter := hfits.of_same values
    exact .single hafter (fits_taintUnknownImport hafter) _
  | @enter after entry ops _ counted values =>
    have hinside := hnested entry ops after origins (hfits.of_same values) hclean
    exact ⟨hinside.moments, hinside.final.congr rfl rfl rfl⟩

lemma runFits_recordOperation (hnested : NestedFits host nested) (op : XmlOperation)
    (builder : ProjectBuilder Path) (origins : Origins Path) (hfits : Fits builder origins)
    (hclean : ∀ moment ∈ (recordOperation host sourceFile source nested op builder).steps,
      moment.Clean) :
    RunFits host origins (recordOperation host sourceFile source nested op builder) := by
  cases op with
  | propertyGroup group => exact runFits_recordGroup group hfits hclean
  | dccReference =>
    refine .stay (hfits.of_same ?_) none
    unfold processReference
    dsimp only
    split_ifs
    · exact .refl builder
    · split <;> exact ⟨rfl, rfl, rfl, rfl, rfl, rfl⟩
  | unsupported => exact .stay hfits none
  | importFile target =>
    unfold recordOperation at hclean ⊢
    dsimp only at hclean ⊢
    generalize hres : builder.evaluateCondition host.toFiles sourceFile target.condition =
      res at hclean ⊢
    have hafter : Fits res.2 origins := hres ▸ hfits.congr rfl rfl rfl
    obtain ⟨truth, after⟩ := res
    have hfinish := runFits_recordFinish hnested
      (opened_openImportWhen after truth target) hafter
      fun moment hmoment => hclean moment (mem_append_right _ hmoment)
    split_ifs
    · exact ⟨forall_mem_cons.2 ⟨hafter, hfinish.moments⟩, hfinish.final⟩
    · exact hfinish

end Runs

lemma runFits_recordOperations {Path : Type} [DecidableEq Path] (host : Host Path) (depth : Nat) :
    NestedFits host (recordOperations host depth) := by
  induction depth with
  | zero =>
    intro entry ops builder origins hfits hclean
    exact runFits_recordAll
      (runFits_recordOperation fun _ _ _ _ hfits _ => .stay hfits none) ops hfits hclean
  | succ depth ih =>
    intro entry ops builder origins hfits hclean
    exact runFits_recordAll (runFits_recordOperation ih) ops hfits hclean

/-! ## Entries -/

section Entries

variable {Path : Type} {file : ProjectPathProvenance Path} {part : Leaf Path}
  {item : List (Leaf Path)}

lemma restriction_combine (first second : ProjectPathProvenance Path) :
    restriction (combinePathProvenance first second) =
      max (restriction first) (restriction second) := by
  cases first <;> cases second <;> rfl

variable {prov : ProjectPathProvenance Path}

lemma restriction_mapped : 2 ≤ restriction prov ↔ ∃ root, prov = .mapped root := by
  cases prov <;> simp [restriction]

/-- One that is at least as restricted, and mapped only to the root of a contribution. -/
lemma Keeps.of_le {contributions : List (ProjectPathProvenance Path)}
    (hleast : ∀ contribution ∈ contributions, restriction contribution ≤ restriction prov)
    (hroot : ∀ root, prov = .mapped root → .mapped root ∈ contributions) :
    Keeps contributions prov := by
  refine ⟨hleast, ?_⟩
  rintro ⟨root, hmem⟩
  obtain ⟨root', heq⟩ := restriction_mapped.1 (hleast _ hmem)
  exact ⟨root', hroot root' heq, heq⟩

lemma foldl_combine (provs : List (ProjectPathProvenance Path))
    (start : ProjectPathProvenance Path) :
    (∀ contribution ∈ start :: provs, restriction contribution ≤
      restriction (provs.foldl combinePathProvenance start)) ∧
    ∀ root, provs.foldl combinePathProvenance start = .mapped root →
      .mapped root ∈ start :: provs := by
  induction provs generalizing start with
  | nil => exact ⟨by simp, fun root h => by simp [← h]⟩
  | cons first provs ih =>
    obtain ⟨hleast, hroot⟩ := ih (combinePathProvenance start first)
    rw [forall_mem_cons, restriction_combine, max_le_iff] at hleast
    refine ⟨forall_mem_cons.2 ⟨hleast.1.1, forall_mem_cons.2 ⟨hleast.1.2, hleast.2⟩⟩, ?_⟩
    intro root h
    rcases mem_cons.1 (hroot root h) with hmem | hmem
    · cases start <;> cases first <;> simp_all [combinePathProvenance]
    · simp [hmem]

variable {leaves : List (Leaf Path)}

lemma restriction_contribution_le (hranked : ∀ leaf ∈ leaves, leaf.Ranked) {bound : Nat}
    (h : ∀ text inner outer, .known text inner outer ∈ leaves → restriction inner ≤ bound) :
    ∀ contribution ∈ contributions leaves, restriction contribution ≤ bound := by
  intro contribution hmem
  obtain ⟨leaf, hleaf, hsrc⟩ := mem_flatMap.1 hmem
  cases leaf with
  | unknown => cases hsrc
  | known text inner outer =>
    have hle := h text inner outer hleaf
    rcases mem_cons.1 hsrc with rfl | hsrc
    · exact hle
    · exact (hranked _ hleaf contribution hsrc).trans hle

/-- Leaves that went through nothing more restricted than the files that hold them. -/
lemma keeps_of_leaves {provs : List (ProjectPathProvenance Path)}
    (hranked : ∀ leaf ∈ leaves, leaf.Ranked) (hinner : ∀ prov, prov ∈ provs ↔
      ∃ text outer, .known text prov outer ∈ leaves) :
    Keeps (file :: contributions leaves) (provs.foldl combinePathProvenance file) := by
  obtain ⟨hleast, hroot⟩ := foldl_combine provs file
  refine .of_le (forall_mem_cons.2 ⟨hleast file mem_cons_self, ?_⟩) fun root h => ?_
  · exact restriction_contribution_le hranked fun text inner outer hleaf =>
      hleast inner (mem_cons_of_mem _ ((hinner inner).2 ⟨text, outer, hleaf⟩))
  · rcases mem_cons.1 (hroot root h) with rfl | hmem
    · exact mem_cons_self
    · obtain ⟨text, outer, hleaf⟩ := (hinner _).1 hmem
      exact mem_cons_of_mem _ (mem_flatMap.2 ⟨_, hleaf, mem_cons_self⟩)

lemma unknown_notMem (h : unresolvedMarker ∉ textOf leaves) :
    .unknown ∉ leaves := fun hmem =>
  h (mem_flatMap.2 ⟨.unknown, hmem, mem_singleton_self _⟩)

/-- Where everything is known the ranges are those of the leaves. -/
lemma Recorded.mem_provenance_iff {start : Nat} {ranges : List (ProvenanceRange Path)}
    (h : Recorded start leaves ranges) (hknown : .unknown ∉ leaves)
    (prov : ProjectPathProvenance Path) :
    prov ∈ ranges.map ProvenanceRange.provenance ↔
      ∃ text outer, .known text prov outer ∈ leaves := by
  constructor
  · induction h with
    | nil start => simp
    | known text _ outer h ih =>
      rw [map_cons, mem_cons]
      rintro (rfl | hmem)
      · exact ⟨text, outer, mem_cons_self⟩
      · obtain ⟨text', outer', hleaf⟩ := ih (fun hmem => hknown (mem_cons_of_mem _ hmem)) hmem
        exact ⟨text', outer', mem_cons_of_mem _ hleaf⟩
    | unknown h ih => exact (hknown mem_cons_self).elim
    | unknowns _ prov h ih => exact (hknown (by simp)).elim
  · rintro ⟨text, outer, hleaf⟩
    obtain ⟨_, hrange, rfl⟩ := exists_range_of_mem h hleaf
    exact mem_map_of_mem hrange

/-! ### Import targets -/

variable {files : Files Path} {sourceFile : Path} {source : ProjectPathProvenance Path}
  {builder : ProjectBuilder Path} {origins : Origins Path}

/-- What holds of the provenances of an expanded value if it holds of its parts. -/
lemma expandPieces_induction (P : ExpandedValue Path → Prop) (prop : Text) {pieces : List Piece}
    (hcleared : ∀ acc after : ExpandedValue Path, P acc →
      after.explicitDependency = acc.explicitDependency →
      after.provenanceRanges = acc.provenanceRanges ∨ after.provenanceRanges = [] → P after)
    (hliteral : ∀ (acc : ExpandedValue Path) (value : Text) (ranges : List Range), P acc →
      P { acc with
        value := value
        provenanceRanges := acc.provenanceRanges ++ ranges.map fun range => ⟨range, source⟩ })
    (hproperty : ∀ acc name replacement value, name ∈ references pieces → P acc →
      P (builder.substitute source acc (lower name) replacement value))
    {acc : ExpandedValue Path} (hacc : P acc) :
    P (builder.expandPieces files sourceFile source prop pieces acc) := by
  have happend : ∀ {acc after : ExpandedValue Path} (text : Text), P acc →
      appendWithProvenance source acc text = some after → P after := by
    intro acc after text hacc hafter
    obtain ⟨value, -, rfl⟩ := Option.map_eq_some_iff.1 hafter
    have hranges := hliteral acc value
      (if byteLen acc.value < byteLen value then [(byteLen acc.value, byteLen value)] else []) hacc
    rw [apply_ite (map fun range => (⟨range, source⟩ : ProvenanceRange Path))] at hranges
    exact hranges
  have hfailed : ∀ acc, P acc → P acc.failed := fun acc hacc => hcleared acc _ hacc rfl (.inr rfl)
  induction pieces generalizing acc with
  | nil => exact hacc
  | cons piece rest ih =>
    have hrest : ∀ {acc : ExpandedValue Path}, P acc →
        P (builder.expandPieces files sourceFile source prop rest acc) := by
      refine ih fun acc name replacement value hname => hproperty acc name replacement value ?_
      cases piece <;> simp only [references, filterMap_cons, mem_cons] at hname ⊢
      all_goals first | exact .inr hname | exact hname
    cases piece with
    | unclosed => exact hfailed acc hacc
    | literal text =>
      rw [expandPieces]
      split
      · exact hfailed acc hacc
      · rename_i after hafter
        exact hrest (happend text hacc hafter)
    | reference name =>
      rw [expandPieces]
      -- `MSBuildThisFileDirectory` is text; a set property is substituted; an unset one is kept
      by_cases hdir : isThisFileDirectory name = true
      · rw [if_pos hdir]
        split
        · exact hfailed acc hacc
        · rename_i after hafter
          exact hrest (happend _ hacc hafter)
      · rw [if_neg hdir]
        split
        · split
          · exact hfailed acc hacc
          · exact hrest (hproperty acc name _ _ (by simp [references]) hacc)
        · split_ifs
          · exact hrest (hcleared acc _ hacc rfl (.inl rfl))
          · exact hrest (hcleared acc _ hacc rfl (.inl rfl))
          · dsimp only
            split
            · exact hcleared acc _ hacc rfl (.inr rfl)
            · exact hrest (hcleared acc _ hacc rfl (.inl rfl))

variable {value : Text}

/-- Only a configured property that is referred to makes a dependency explicit. -/
lemma explicitDependency_expandValue (prop : Text)
    (h : ∀ name ∈ references (pieces value), builder.isExplicit (lower name) = false) :
    (builder.expandValue files sourceFile source prop value).explicitDependency = false := by
  refine expandPieces_induction (fun acc => acc.explicitDependency = false) prop
    (fun acc after hacc hsame _ => hsame.trans hacc) (fun acc value ranges hacc => hacc)
    (fun acc name replacement value hname hacc => ?_) rfl
  change (acc.explicitDependency || builder.isExplicit (lower name)) = false
  rw [hacc, h name hname]
  rfl

/-- A range of an expanded value has the provenance of the file or one recorded of a
property that is referred to. -/
lemma provenance_expandValue (P : ProjectPathProvenance Path → Prop) (hsrc : P source)
    (prop : Text) (h : ∀ name ∈ references (pieces value),
      (∀ file ∈ builder.propertyDefaultProvenances.lookup (lower name), P file) ∧
      ∀ ranges ∈ builder.propertyProvenanceRanges.lookup (lower name),
        ∀ range ∈ ranges, P range.provenance) :
    ∀ range ∈ (builder.expandValue files sourceFile source prop value).provenanceRanges,
      P range.provenance := by
  refine expandPieces_induction (fun acc => ∀ range ∈ acc.provenanceRanges, P range.provenance)
    prop ?_ ?_ ?_ (by simp [ExpandedValue.start])
  · rintro acc _ hacc - (hsame | hsame)
    · rwa [hsame]
    · simp [hsame]
  · intro acc value ranges hacc range hrange
    rcases mem_append.1 hrange with hrange | hrange
    · exact hacc range hrange
    · obtain ⟨_, -, rfl⟩ := mem_map.1 hrange
      exact hsrc
  · intro acc name replacement value hname hacc range hrange
    obtain ⟨hdefault, hranges⟩ := h name hname
    rcases mem_append.1 hrange with hrange | hrange
    · exact hacc range hrange
    · unfold replacementProvenance at hrange
      split at hrange
      · rename_i ranges hlookup
        obtain ⟨inside, hinside, rfl⟩ := mem_map.1 hrange
        exact hranges ranges hlookup inside (mem_filter.1 hinside).1
      · split_ifs at hrange
        · cases mem_singleton.1 hrange
          cases hfile : builder.propertyDefaultProvenances.lookup (lower name) with
          | none => exact hsrc
          | some file => exact hdefault file hfile
        · split at hrange
          · cases mem_singleton.1 hrange
            exact hdefault _ ‹_›
          · cases hrange

lemma foldl_ranges (ranges : List (ProvenanceRange Path)) (start : ProjectPathProvenance Path) :
    ranges.foldl (fun current range => combinePathProvenance current range.provenance) start =
      (ranges.map ProvenanceRange.provenance).foldl combinePathProvenance start := by
  rw [foldl_map]

/-- Configured is restricted enough where nothing is mapped. -/
lemma Expanded.importEntry_keeps {expanded : ExpandedValue Path} (h : Expanded leaves expanded)
    (hmark : unresolvedMarker ∉ expanded.value)
    (hunmixed : expanded.explicitDependency = false ∨ restriction source < 2 ∧
      ∀ range ∈ expanded.provenanceRanges, restriction range.provenance < 2)
    (path : Path) {resolved : ResolvedPath Path} (hunmapped : resolved.mappingRoot = none) :
    Keeps (source :: contributions leaves)
      (importEntry source expanded path resolved).provenance := by
  cases hexplicit : expanded.explicitDependency with
  | false =>
    have hentry : (importEntry source expanded path resolved).provenance =
        expandedPathProvenance expanded source := by
      simp [importEntry, ProjectPathEntry.resolved, hunmapped, hexplicit, inheritPathProvenance]
    rw [hentry, expandedPathProvenance, foldl_ranges]
    rw [← h.text] at hmark
    exact keeps_of_leaves h.ranked (h.recorded.mem_provenance_iff (unknown_notMem hmark))
  | true =>
    have hentry : (importEntry source expanded path resolved).provenance = .configured := by
      simp [importEntry, ProjectPathEntry.resolved, hunmapped, hexplicit, inheritPathProvenance]
    rw [hentry]
    obtain ⟨hfile, hranges⟩ := hunmixed.resolve_left (by simp [hexplicit])
    refine .of_le (forall_mem_cons.2 ⟨Nat.le_of_lt_succ hfile, ?_⟩) fun root h => by cases h
    refine restriction_contribution_le h.ranked fun text inner outer hleaf => ?_
    obtain ⟨range, hrange, rfl⟩ := exists_range_of_mem h.recorded hleaf
    exact Nat.le_of_lt_succ (hranges range hrange)

lemma ImportClean.unmixed_expanded {target : Import} (h : ImportClean builder source target) :
    let expanded := builder.expandValue files sourceFile source [] target.project
    expanded.explicitDependency = false ∨ restriction source < 2 ∧
      ∀ range ∈ expanded.provenanceRanges, restriction range.provenance < 2 := by
  exact h.unmixed.imp (explicitDependency_expandValue []) fun ⟨hfile, hnames⟩ =>
    ⟨hfile, provenance_expandValue (fun prov => restriction prov < 2) hfile [] hnames⟩

/-! ### Items of path lists -/

/-- What the items of a list come from, with the file the list was assigned in. -/
def Origins.listItems (origins : Origins Path) (name : Text) :
    List (List (ProjectPathProvenance Path)) :=
  match origins.lookup (lower name) with
  | none => []
  | some origin => (splitLeaves origin.leaves).map fun leaves => origin.file :: contributions leaves

/-- The entry of an item that no mapping translates keeps the restrictions. -/
def ItemKeeps (files : Files Path) (item : Text × ProjectPathProvenance Path)
    (sources : List (ProjectPathProvenance Path)) : Prop :=
  ∀ base entry, resolvedSearchPathEntry files item.1 base item.2 = some entry →
    (∀ resolved ∈ files.candidate base (trim item.1), resolved.mappingRoot = none) →
    Keeps sources entry.provenance

/-- A part of a leaf comes from where the leaf does. -/
lemma mem_split {leaf : Leaf Path} (hitem : item ∈ leaf.split)
    (hpart : part ∈ item) : ∃ text, part = leaf.retext fun _ => text := by
  cases leaf with
  | unknown =>
    obtain rfl := mem_singleton.1 hitem
    exact ⟨[], mem_singleton.1 hpart⟩
  | known text =>
    rw [Leaf.split] at hitem
    split_ifs at hitem
    · obtain rfl := mem_singleton.1 hitem
      exact ⟨[], mem_singleton.1 hpart⟩
    · obtain ⟨part', -, rfl⟩ := mem_map.1 hitem
      rw [chunkOf] at hpart
      split_ifs at hpart
      · cases hpart
      · exact ⟨part', mem_singleton.1 hpart⟩

lemma mem_glue {first second : List (List α)} {item : List α} {x : α}
    (hitem : item ∈ glue first second) (hx : x ∈ item) :
    (∃ item ∈ first, x ∈ item) ∨ ∃ item ∈ second, x ∈ item := by
  fun_induction glue first second with
  | case1 second => exact .inr ⟨item, hitem, hx⟩
  | case2 last => exact .inl ⟨item, hitem, hx⟩
  | case3 last next rest =>
    rcases mem_cons.1 hitem with rfl | hitem
    · exact (mem_append.1 hx).imp (⟨last, mem_cons_self, ·⟩) (⟨next, mem_cons_self, ·⟩)
    · exact .inr ⟨item, mem_cons_of_mem _ hitem, hx⟩
  | case4 _ next rest second ih =>
    rcases mem_cons.1 hitem with rfl | hitem
    · exact .inl ⟨item, mem_cons_self, hx⟩
    · rcases ih hitem with ⟨other, hother, hmem⟩ | hsecond
      · exact .inl ⟨other, mem_cons_of_mem _ hother, hmem⟩
      · exact .inr hsecond

lemma mem_splitLeaves (hitem : item ∈ splitLeaves leaves) (hpart : part ∈ item) :
    ∃ leaf ∈ leaves, ∃ text, part = leaf.retext fun _ => text := by
  induction leaves generalizing item with
  | nil =>
    obtain rfl := mem_singleton.1 hitem
    cases hpart
  | cons leaf leaves ih =>
    rcases mem_glue hitem hpart with ⟨other, hother, hmem⟩ | ⟨other, hother, hmem⟩
    · obtain ⟨text, rfl⟩ := mem_split hother hmem
      exact ⟨leaf, mem_cons_self, text, rfl⟩
    · obtain ⟨whole, hwhole, htext⟩ := ih hother hmem
      exact ⟨whole, mem_cons_of_mem _ hwhole, htext⟩

lemma mem_trim {c : Char} {text : Text} (hmem : c ∈ text)
    (hblank : Conditional.isWhitespace c = false) : c ∈ trim text := by
  have hstart : ∀ {text : Text}, c ∈ text → c ∈ trimStart text := by
    intro text hmem
    rw [← takeWhile_append_dropWhile (p := Conditional.isWhitespace) (l := text),
      mem_append] at hmem
    rcases hmem with hmem | hmem
    · rw [mem_takeWhile_imp hmem] at hblank
      cases hblank
    · exact hmem
  have hend := hstart (mem_reverse.2 (hstart hmem))
  exact mem_reverse.2 hend

/-- Where no mapping translates the path the entry has the provenance it is given. -/
lemma resolvedSearchPathEntry_provenance {raw : Text} {base : Path}
    {entry : ProjectPathEntry Path} (h : resolvedSearchPathEntry files raw base prov = some entry)
    (hunmapped : ∀ resolved ∈ files.candidate base (trim raw), resolved.mappingRoot = none) :
    trim raw ≠ [] ∧ unresolvedMarker ∉ trim raw ∧ entry.provenance = prov := by
  unfold resolvedSearchPathEntry at h
  dsimp only at h
  split_ifs at h with hraw
  rw [not_or] at hraw
  obtain ⟨resolved, hres, rfl⟩ := Option.map_eq_some_iff.1 h
  have hroot := hunmapped resolved hres
  refine ⟨hraw.1, hraw.2, ?_⟩
  cases prov <;> split <;>
    simp [ProjectPathEntry.resolved, hroot, inheritPathProvenance]

lemma keeps_replicate {contributions : List (ProjectPathProvenance Path)}
    (h : ∀ other ∈ contributions, other = file) : Keeps (file :: contributions) file :=
  .of_le (forall_mem_cons.2 ⟨le_rfl, fun other hother => (h other hother) ▸ le_rfl⟩)
    fun root hroot => by simp [hroot]

lemma length_listSpans (start : Nat) (parts : List Text) :
    (listSpans start parts).length = parts.length := by
  induction parts generalizing start with
  | nil => rfl
  | cons _ parts ih => simp [listSpans, ih]

/-- The items of one value, with what they come from. -/
lemma item_keeps {ranges : Option (List (ProvenanceRange Path))}
    {prov : Option (ProjectPathProvenance Path)} {origin : Origin Path}
    (h : OriginFits (some value) ranges prov (some origin)) {item : Range × Text}
    (hmem : (item, leaves) ∈ (listSpans 0 (value.splitOn ';')).zip (splitLeaves origin.leaves)) :
    ItemKeeps files (propertyListItem item (ranges.getD []) (prov.getD .legacyNative))
      (origin.file :: contributions leaves) := by
  intro base entry hentry hunmapped
  obtain ⟨hnonempty, hmark, hprov⟩ := resolvedSearchPathEntry_provenance hentry hunmapped
  rw [hprov]
  have hitem := (of_mem_zip hmem).2
  cases h with
  | @recorded _ ranges file _ hrecd hranked =>
    have htext : item.2 ≠ [] := by
      rintro hempty
      exact hnonempty (by rw [propertyListItem, hempty]; rfl)
    obtain ⟨hsame, hexact⟩ := exact_of_mem_zip hrecd hmem htext
    have hknown : .unknown ∉ leaves := by
      refine unknown_notMem fun hin => hmark ?_
      rw [hsame] at hin
      exact mem_trim (mem_trim hin (by decide)) (by decide)
    have hinner := hexact hknown
    rw [propertyListItem, Option.getD_some, Option.getD_some, foldl_ranges]
    refine keeps_of_leaves ?_ fun prov => ?_
    · intro part hpart
      obtain ⟨leaf, hleaf, text, rfl⟩ := mem_splitLeaves hitem hpart
      exact (hranked leaf hleaf).retext _
    · rw [← hinner prov]
      simp only [mem_map, mem_filter, and_assoc]
  | plain value file =>
    refine keeps_replicate fun other hother => ?_
    obtain ⟨part, hpart, hsrc⟩ := mem_flatMap.1 hother
    obtain ⟨leaf, hleaf, text, rfl⟩ := mem_splitLeaves hitem hpart
    obtain rfl := mem_singleton.1 hleaf
    exact mem_singleton.1 hsrc
  | unknowns _ file =>
    refine keeps_replicate fun other hother => ?_
    obtain ⟨part, hpart, hsrc⟩ := mem_flatMap.1 hother
    obtain ⟨leaf, hleaf, text, rfl⟩ := mem_splitLeaves hitem hpart
    obtain rfl := eq_of_mem_replicate hleaf
    cases hsrc

lemma listItems_keep (hfits : Fits builder origins) (name : Text) :
    List.Forall₂ (ItemKeeps files) (builder.propertyListWithProvenance name)
      (origins.listItems name) := by
  unfold propertyListWithProvenance Origins.listItems
  rcases hfits.cases (lower name) with ⟨hnone, hnone'⟩ | ⟨_, origin, hsome, hsome', hkey⟩
  · rw [hnone, hnone']
    exact .nil
  · rw [hsome, hsome']
    rw [forall₂_map_left_iff, forall₂_map_right_iff, forall₂_iff_zip]
    refine ⟨?_, fun hmem => item_keeps hkey hmem⟩
    have htexts := congrArg length (texts_splitLeaves origin.leaves)
    rw [length_map, hkey.text] at htexts
    rw [length_listSpans, htexts]

end Entries

/-! ## From the start of a project -/

/-- Where the properties come from before anything is evaluated. -/
def ProjectBuilder.origins {Path : Type} (builder : ProjectBuilder Path) : Origins Path :=
  Map.choose (fun key value => (builder.propertyDefaultProvenances.lookup key).map fun file =>
    ⟨[.known value file []], file⟩) builder.properties

section Start

variable {Path : Type}

/-- A value that has one provenance. -/
inductive OneFile : Option Text → Option (List (ProvenanceRange Path)) →
    Option (ProjectPathProvenance Path) → Prop where
  | absent (ranges : Option (List (ProvenanceRange Path)))
      (provenance : Option (ProjectPathProvenance Path)) : OneFile none ranges provenance
  | whole (value : Text) (file : ProjectPathProvenance Path) :
      OneFile (some value) (some [⟨(0, byteLen value), file⟩]) (some file)
  | plain (value : Text) (file : ProjectPathProvenance Path) : OneFile (some value) none (some file)

def ProjectBuilder.Plain (builder : ProjectBuilder Path) : Prop :=
  ∀ key, OneFile (builder.properties.lookup key) (builder.propertyProvenanceRanges.lookup key)
    (builder.propertyDefaultProvenances.lookup key)

variable {builder : ProjectBuilder Path}

lemma ProjectBuilder.Plain.fits (h : builder.Plain) : Fits builder builder.origins := by
  intro key
  rw [origins, Map.lookup_choose]
  have hkey := h key
  generalize builder.properties.lookup key = value at hkey ⊢
  generalize builder.propertyProvenanceRanges.lookup key = ranges at hkey ⊢
  generalize builder.propertyDefaultProvenances.lookup key = prov at hkey ⊢
  cases hkey with
  | absent ranges prov => exact .absent _ _
  | whole value file =>
    have hrecd := (Recorded.nil (0 + byteLen value)).known value file []
    rw [Nat.zero_add] at hrecd
    have hfits := OriginFits.recorded file (cons_ne_nil _ _) hrecd
      (by simp [Leaf.Ranked])
    rwa [show textOf [Leaf.known value file []] = value from append_nil value] at hfits
  | plain value file => exact .plain value file

lemma plain_new (buildConfig platform : Option Text) (overrides : Map Text) :
    (new buildConfig platform overrides : ProjectBuilder Path).Plain := by
  intro key
  unfold new
  rw [Map.lookup_choose, Map.lookup_choose]
  generalize (orDefault (orDefault _ _) _).lookup key = value
  cases value with
  | none => exact .absent _ _
  | some value =>
    dsimp only [Option.bind]
    split_ifs
    all_goals first | exact .plain _ _ | exact .whole _ _

lemma plain_seedInstallationProperties (props : List (Text × Text)) (h : builder.Plain) :
    (builder.seedInstallationProperties props).Plain := by
  induction props generalizing builder with
  | nil => exact h
  | cons prop props ih =>
    refine ih ?_
    unfold seedInstallationProperty
    dsimp only
    split_ifs
    · exact h
    · intro key
      by_cases hkey : key = lower prop.1
      · subst hkey
        rw [AList.lookup_insert, AList.lookup_insert, AList.lookup_insert]
        exact .whole _ _
      · rw [AList.lookup_insert_ne hkey, AList.lookup_insert_ne hkey, AList.lookup_insert_ne hkey]
        exact h key

lemma plain_startRoot (h : builder.Plain) (path : Path) (stem : Option Text) :
    (builder.startRoot path stem).Plain := by
  unfold startRoot
  cases stem with
  | none => exact h
  | some name =>
    dsimp only
    split_ifs
    · exact h
    · intro key
      refine setProperty_cases OneFile (fun _ _ => ?_) fun _ => h key
      exact .plain name .legacyNative

end Start

/-- A project before its first operation. -/
def startProject {Path : Type} (buildConfig platform : Option Text) (overrides : Map Text)
    (installation : List (Text × Text)) (path : Path) (stem : Option Text) : ProjectBuilder Path :=
  ((new buildConfig platform overrides).seedInstallationProperties
    installation).startRoot path stem

/-! ## The result -/

section Result

variable {Path : Type}

instance (builder : ProjectBuilder Path) (name : Text) : Decidable (builder.Passes name) :=
  inferInstanceAs (Decidable (∀ ranges ∈ builder.propertyProvenanceRanges.lookup (lower name),
    ∀ file ∈ builder.propertyDefaultProvenances.lookup (lower name),
      ∀ range ∈ ranges, restriction file ≤ restriction range.provenance))

instance (builder : ProjectBuilder Path) (source : ProjectPathProvenance Path) (target : Import) :
    Decidable (ImportClean builder source target) :=
  decidable_of_iff (_ ∧ _) ⟨fun h => ⟨h.1, h.2⟩, fun h => ⟨h.passes, h.unmixed⟩⟩

instance (moment : Moment Path) : Decidable moment.Clean :=
  match moment with
  | ⟨builder, .assign _ _ entry⟩ =>
    inferInstanceAs (Decidable (∀ name ∈ references (pieces entry.value), builder.Passes name))
  | ⟨builder, .openImport _ source target⟩ =>
    inferInstanceAs (Decidable (ImportClean builder source target))
  | ⟨_, .leave ..⟩ => .isTrue trivial
  | ⟨_, .taint⟩ => .isTrue trivial

/-- The entry an import is read by, where no mapping translates its path. -/
def MomentKeeps (host : Host Path) (origins : Origins Path) (moment : Moment Path) : Prop :=
  match moment.action with
  | .openImport sourceFile source target =>
    let expanded := moment.builder.expandValue host.toFiles sourceFile source [] target.project
    ∀ path, ∀ resolved ∈ host.candidate (host.parent sourceFile) expanded.value,
      unresolvedMarker ∉ expanded.value → resolved.mappingRoot = none →
      Keeps (source :: contributions (leavesOf host.toFiles sourceFile source origins
          moment.builder.undefinedIsEmpty [] target.project))
        (importEntry source expanded path resolved).provenance
  | _ => True

/-- The origins at the end of a run. -/
def Origins.afterAll (files : Files Path) (origins : Origins Path) (moments : List (Moment Path)) :
    Origins Path :=
  moments.foldl (fun origins moment => origins.after files moment) origins

end Result

/-- The entries of an evaluation keep the restrictions of everything their paths were put
together from, in every evaluation whose moments are clean. -/
theorem entries_keep_restrictions {Path : Type} [DecidableEq Path] (host : Host Path)
    (buildConfig platform : Option Text) (overrides : Map Text)
    (installation : List (Text × Text)) (stem : Option Text) (entry : ProjectPathEntry Path)
    (operations : List XmlOperation) (depth : Nat)
    (hclean : ∀ moment ∈ (recordOperations host depth entry operations
      (startProject buildConfig platform overrides installation entry.path stem)).steps,
      moment.Clean) :
    let start := startProject buildConfig platform overrides installation entry.path stem
    let run := recordOperations host depth entry operations start
    processOperations host depth entry operations start = run.outcome ∧
    (∀ pair ∈ trace host.toFiles start.origins run.steps, MomentKeeps host pair.1 pair.2) ∧
    ∀ name, List.Forall₂ (ItemKeeps host.toFiles) (run.builder.propertyListWithProvenance name)
      ((start.origins.afterAll host.toFiles run.steps).listItems name) := by
  intro start run
  have hstart : Fits start start.origins :=
    (plain_startRoot (plain_seedInstallationProperties installation
      (plain_new buildConfig platform overrides)) entry.path stem).fits
  have hrun :=
    runFits_recordOperations host depth entry operations start start.origins hstart hclean
  refine ⟨(recordOperations_outcome host depth entry operations start).symm, ?_,
    fun name => listItems_keep hrun.final name⟩
  rintro ⟨origins, moment⟩ hpair
  have hfits := hrun.moments _ hpair
  have hmoment := hclean moment (mem_of_mem_trace hpair)
  unfold MomentKeeps
  unfold Moment.Clean at hmoment
  cases haction : moment.action with
  | openImport =>
    rw [haction] at hmoment
    exact fun path resolved _ hmarker hunmapped => (expanded_expandValue hfits []
      hmoment.passes).importEntry_keeps hmarker hmoment.unmixed_expanded path hunmapped
  | _ => trivial

/-! ### Runs of a project with a mapping -/

/-- Files of which a mapping translates the path of one. -/
def mappedHost (inner : List Event) : Host Nat where
  parent := id
  display _ := []
  candidate _ text := some (if text = "a.optset".toList then ⟨1, some 9⟩ else ⟨2, none⟩)
  status resolved := .found resolved.path
  allowsLocation _ := true
  allowsEntry _ := true
  isSupportedProjectImport _ := true
  read _ entry := .ok (if entry.path = 1 then inner.map .ok else [])
  isTransientError _ := false

/-- A project with one configured property that imports the mapped file. -/
def mappedRun (inner : List Event) (rest : List XmlOperation) : Run (Moment Nat) Nat :=
  recordOperations (mappedHost inner) maxImportCount ⟨0, .legacyNative⟩
    (.importFile ⟨"a.optset".toList, none⟩ :: rest)
    (startProject none none (AList.singleton "p".toList []) [] 0 none)

def importing (project : String) : Event :=
  .empty "Import".toList [("Project".toList, project.toList)]

theorem entries_keep_restrictions_mapped :
    (∀ moment ∈ (mappedRun [importing "b.optset"] []).steps, moment.Clean) ∧
    ∀ pair ∈ trace (mappedHost [importing "b.optset"]).toFiles
      (startProject none none (AList.singleton "p".toList []) [] 0 none).origins
      (mappedRun [importing "b.optset"] []).steps,
      MomentKeeps (mappedHost [importing "b.optset"]) pair.1 pair.2 := by
  have hclean : ∀ moment ∈ (mappedRun [importing "b.optset"] []).steps, moment.Clean := by
    decide +kernel
  exact ⟨hclean, (entries_keep_restrictions (mappedHost [importing "b.optset"]) none none
    (AList.singleton "p".toList []) [] none ⟨0, .legacyNative⟩
    [.importFile ⟨"a.optset".toList, none⟩] maxImportCount hclean).2.1⟩

/-- An import from a mapped file that no mapping translates and whose entry is not mapped. -/
def shedsMapping (inner : List Event) (moment : Moment Nat) : Bool :=
  match moment.action with
  | .openImport sourceFile (.mapped root) target =>
    let expanded := moment.builder.expandValue (mappedHost inner).toFiles sourceFile (.mapped root)
      [] target.project
    decide (expanded.value ≠ "a.optset".toList ∧ unresolvedMarker ∉ expanded.value ∧
      (importEntry (.mapped root) expanded 2 ⟨2, none⟩).provenance = .configured)
  | _ => false

/-- The mapped file imports `$(P)b.optset`, where `P` is configured and empty. -/
theorem configured_import_sheds_mapping :
    ∃ pair ∈ trace (mappedHost [importing "$(P)b.optset"]).toFiles
      (startProject none none (AList.singleton "p".toList []) [] 0 none).origins
      (mappedRun [importing "$(P)b.optset"] []).steps,
      ¬MomentKeeps (mappedHost [importing "$(P)b.optset"]) pair.1 pair.2 := by
  have hsheds : (trace (mappedHost [importing "$(P)b.optset"]).toFiles
      (startProject none none (AList.singleton "p".toList []) [] 0 none).origins
      (mappedRun [importing "$(P)b.optset"] []).steps).any
      (fun pair => shedsMapping [importing "$(P)b.optset"] pair.2) = true := by
    decide +kernel
  obtain ⟨⟨origins, moment⟩, hpair, hmoment⟩ := any_eq_true.1 hsheds
  refine ⟨_, hpair, fun hkeeps => ?_⟩
  unfold MomentKeeps at hkeeps
  unfold shedsMapping at hmoment
  cases haction : moment.action with
  | openImport sourceFile source target =>
    rw [haction] at hkeeps hmoment
    cases source with
    | mapped root =>
      obtain ⟨hvalue, hmarker, hentry⟩ := of_decide_eq_true hmoment
      have hcandidate : ⟨2, none⟩ ∈ (mappedHost [importing "$(P)b.optset"]).candidate
          ((mappedHost [importing "$(P)b.optset"]).parent sourceFile)
          (moment.builder.expandValue (mappedHost [importing "$(P)b.optset"]).toFiles sourceFile
            (.mapped root) [] target.project).value := congrArg some (if_neg hvalue)
      have hle := (hkeeps 2 _ hcandidate hmarker rfl).least (.mapped root) mem_cons_self
      rw [hentry] at hle
      exact absurd hle (by simp [restriction])
    | _ => cases hmoment
  | _ =>
    rw [haction] at hmoment
    cases hmoment

end Lint4d.Msbuild
