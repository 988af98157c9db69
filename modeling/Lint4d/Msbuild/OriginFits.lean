import Lint4d.Msbuild.Recording

/-!
# Ranges fit origins

The ranges the evaluation records of a property are those of the leaves of its origin.
Expanding a value puts leaves and ranges together in the same way, and so every step of
an evaluation keeps them fitting.
-/

namespace Lint4d.Msbuild

open ProjectBuilder List

open Lint4d.Lib (Truth)
open Lint4d.Conditional (Text byteLen byteLen_nil byteLen_append trim trimStart trimEnd lower)

/-! ## Origins that fit -/

/-- What a leaf went through is no more restricted than the file that holds it. -/
def Leaf.Ranked {Path : Type} : Leaf Path → Prop
  | .known _ inner outer => ∀ file ∈ outer, restriction file ≤ restriction inner
  | .unknown => True

/-- What is recorded of a property fits its origin. -/
inductive OriginFits {Path : Type} : Option Text → Option (List (ProvenanceRange Path)) →
    Option (ProjectPathProvenance Path) → Option (Origin Path) → Prop where
  | absent (ranges : Option (List (ProvenanceRange Path)))
      (provenance : Option (ProjectPathProvenance Path)) : OriginFits none ranges provenance none
  | recorded {leaves ranges}
      (file : ProjectPathProvenance Path) (hne : leaves ≠ []) (h : Recorded 0 leaves ranges)
      (hranked : ∀ leaf ∈ leaves, leaf.Ranked) :
      OriginFits (some (textOf leaves)) (some ranges) (some file) (some ⟨leaves, file⟩)
  | plain (value : Text) (file : ProjectPathProvenance Path) :
      OriginFits (some value) none (some file) (some ⟨[.known value file []], file⟩)
  | unknowns (count : Nat) (file : ProjectPathProvenance Path) :
      OriginFits (some (textOf (replicate count (.unknown : Leaf Path)))) none (some file)
        (some ⟨replicate count .unknown, file⟩)

def Fits {Path : Type} (builder : ProjectBuilder Path) (origins : Origins Path) : Prop :=
  ∀ key, OriginFits (builder.properties.lookup key) (builder.propertyProvenanceRanges.lookup key)
    (builder.propertyDefaultProvenances.lookup key) (origins.lookup key)

/-- The names a text refers to. -/
def references (pieces : List Piece) : List Text :=
  pieces.filterMap fun piece =>
    match piece with
    | .reference name => some name
    | _ => none

/-- A property was not assigned in a file that is more restricted than a part of its
value. -/
def ProjectBuilder.Passes {Path : Type} (builder : ProjectBuilder Path) (name : Text) : Prop :=
  ∀ ranges ∈ builder.propertyProvenanceRanges.lookup (lower name),
    ∀ file ∈ builder.propertyDefaultProvenances.lookup (lower name),
      ∀ range ∈ ranges, restriction file ≤ restriction range.provenance

variable {value : Text}

section Fitting

variable {Path : Type} {leaves : List (Leaf Path)} {ranges : List (ProvenanceRange Path)}

variable {start : Nat}

lemma Recorded.within (h : Recorded start leaves ranges) (file : ProjectPathProvenance Path) :
    Recorded start (leaves.map (Leaf.within file)) ranges := by
  induction h with
  | nil start => exact .nil start
  | known text inner outer h ih => exact ih.known text inner (file :: outer)
  | unknown h ih => exact ih.unknown
  | unknowns count prov h ih =>
    rw [map_append, map_replicate]
    exact ih.unknowns count prov

lemma textOf_map_within (file : ProjectPathProvenance Path) (leaves : List (Leaf Path)) :
    textOf (leaves.map (Leaf.within file)) = textOf leaves := by
  induction leaves with
  | nil => rfl
  | cons _ leaves ih => rw [map_cons, textOf_cons, textOf_cons, ih, Leaf.text_within]

variable {origin : Origin Path} {prov : Option (ProjectPathProvenance Path)}

lemma OriginFits.text {ranges : Option (List (ProvenanceRange Path))}
    (h : OriginFits (some value) ranges prov (some origin)) :
    textOf origin.leaves = value := by
  cases h with
  | recorded file _ h => rfl
  | plain value file => exact append_nil value
  | unknowns _ file => rfl

lemma textOf_put {ranges : Option (List (ProvenanceRange Path))}
    (h : OriginFits (some value) ranges prov (some origin)) : textOf origin.put = value := by
  have hput : textOf origin.put = textOf origin.leaves := by
    unfold Origin.put
    split_ifs with hempty
    · rw [hempty]
      rfl
    · exact textOf_map_within _ _
  rw [hput, h.text]

/-- The ranges a property gives to a value are those of the leaves it gives. -/
lemma recorded_put {builder : ProjectBuilder Path} {key : Text}
    (h : OriginFits (some value) (builder.propertyProvenanceRanges.lookup key)
      (builder.propertyDefaultProvenances.lookup key) (some origin))
    (source : ProjectPathProvenance Path) (start : Nat) :
    Recorded start origin.put (builder.replacementProvenance source key value start) := by
  unfold replacementProvenance Origin.put
  generalize builder.propertyProvenanceRanges.lookup key = ranges at h ⊢
  generalize builder.propertyDefaultProvenances.lookup key = prov at h ⊢
  cases h with
  | @recorded leaves ranges file hne h =>
    have hall : ∀ range ∈ ranges, decide (range.range.1 ≤ range.range.2 ∧
        range.range.2 ≤ byteLen (textOf leaves)) = true := by
      intro range hrange
      have := h.bounds range hrange
      rw [decide_eq_true_eq]
      omega
    rw [if_neg hne]
    dsimp only
    rw [filter_eq_self.2 hall]
    exact (h.shift start).within file
  | plain value file =>
    rw [if_neg (cons_ne_nil _ _)]
    have hplace := (Recorded.nil (start + byteLen value)).known value file [file]
    split_ifs <;> exact hplace
  | unknowns count file =>
    cases count with
    | zero => exact (Recorded.nil (start + byteLen [])).known [] file []
    | succ count =>
      have hplace := (Recorded.nil (start + (count + 1))).unknowns count file
      rw [append_nil] at hplace
      rw [if_neg (by simp), map_replicate, byteLen_unknowns, if_pos (Nat.succ_pos _)]
      exact hplace

variable {text : Text}

/-- A known leaf has a range. -/
lemma exists_range_of_mem (h : Recorded start leaves ranges) {inner : ProjectPathProvenance Path}
    {outer : List (ProjectPathProvenance Path)} (hmem : .known text inner outer ∈ leaves) :
    ∃ range ∈ ranges, range.provenance = inner := by
  induction h with
  | nil start => cases hmem
  | known text inner outer h ih =>
    rcases mem_cons.1 hmem with heq | hmem
    · cases heq
      exact ⟨_, mem_cons_self, rfl⟩
    · obtain ⟨range, hrange, heq⟩ := ih hmem
      exact ⟨range, mem_cons_of_mem _ hrange, heq⟩
  | unknown h ih =>
    rcases mem_cons.1 hmem with heq | hmem
    · cases heq
    · exact ih hmem
  | unknowns _ _ h ih =>
    rcases mem_append.1 hmem with hmem | hmem
    · cases eq_of_mem_replicate hmem
    · obtain ⟨range, hrange, heq⟩ := ih hmem
      exact ⟨range, mem_cons_of_mem _ hrange, heq⟩

lemma ranked_put {builder : ProjectBuilder Path} {name : Text}
    (h : OriginFits (some value) (builder.propertyProvenanceRanges.lookup (lower name))
      (builder.propertyDefaultProvenances.lookup (lower name)) (some origin))
    (hpasses : builder.Passes name) : ∀ leaf ∈ origin.put, leaf.Ranked := by
  unfold ProjectBuilder.Passes at hpasses
  unfold Origin.put
  generalize builder.propertyProvenanceRanges.lookup (lower name) = ranges at h hpasses
  generalize builder.propertyDefaultProvenances.lookup (lower name) = prov at h hpasses
  intro leaf hleaf
  cases h with
  | @recorded _ ranges file hne h hranked =>
    rw [if_neg hne] at hleaf
    obtain ⟨inside, hinside, rfl⟩ := mem_map.1 hleaf
    cases inside with
    | unknown => trivial
    | known =>
      obtain ⟨range, hrange, rfl⟩ := exists_range_of_mem h hinside
      exact forall_mem_cons.2 ⟨hpasses ranges rfl _ rfl range hrange, hranked _ hinside⟩
  | plain value file =>
    obtain rfl := mem_singleton.1 hleaf
    intro other hother
    rw [mem_singleton.1 hother]
  | unknowns _ file =>
    split_ifs at hleaf
    · obtain rfl := mem_singleton.1 hleaf
      intro other hother
      cases hother
    · rw [map_replicate] at hleaf
      rw [eq_of_mem_replicate hleaf]
      trivial

/-! ### Expansion -/

/-- The leaves are those of a value that was expanded. -/
structure Expanded (leaves : List (Leaf Path)) (expanded : ExpandedValue Path) : Prop where
  text : textOf leaves = expanded.value
  recorded : Recorded 0 leaves expanded.provenanceRanges
  ranked : ∀ leaf ∈ leaves, leaf.Ranked

lemma expanded_failed (acc : ExpandedValue Path) : Expanded [.unknown] acc.failed :=
  ⟨rfl, .unknown (.nil _), by simp [Leaf.Ranked]⟩

lemma appendExpansion_eq_some {target addition : Text}
    (h : appendExpansion target addition = some value) : value = target ++ addition := by
  unfold appendExpansion at h
  split_ifs at h
  cases h
  rfl

/-- Leaves and ranges put at the end together. -/
lemma Expanded.append {others : List (Leaf Path)} {acc after : ExpandedValue Path}
    (h : Expanded leaves acc) (hranked : ∀ leaf ∈ others, leaf.Ranked)
    (hvalue : after.value = acc.value ++ textOf others)
    (hranges : after.provenanceRanges = acc.provenanceRanges ++ ranges)
    (hrecd : Recorded (byteLen acc.value) others ranges) : Expanded (leaves ++ others) after := by
  refine ⟨by rw [textOf_append, h.text, hvalue], ?_, fun leaf hleaf => ?_⟩
  · rw [hranges]
    exact h.recorded.append (by rwa [Nat.zero_add, h.text])
  · exact forall_mem_append.2 ⟨h.ranked, hranked⟩ leaf hleaf

lemma textOf_literalLeaves (source : ProjectPathProvenance Path) (text : Text) :
    textOf (literalLeaves source text) = text := by
  unfold literalLeaves
  split_ifs with hempty
  · exact hempty.symm
  · exact append_nil text

variable {acc : ExpandedValue Path}

/-- Leaves fit behind others where their text does. -/
lemma appendLeaves_eq {others : List (Leaf Path)} (h : Expanded leaves acc)
    (htext : textOf others = text) :
    appendLeaves leaves others =
      (appendExpansion acc.value text).map fun _ => leaves ++ others := by
  rw [appendLeaves, h.text, htext]

/-- A text of the file itself. -/
lemma expanded_literal (h : Expanded leaves acc) (source : ProjectPathProvenance Path)
    (hroom : appendExpansion acc.value text = some value) :
    ∃ after, appendWithProvenance source acc text = some after ∧
      Expanded (leaves ++ literalLeaves source text) after := by
  refine ⟨_, congrArg (Option.map _) hroom, ?_⟩
  obtain rfl := appendExpansion_eq_some hroom
  unfold literalLeaves
  by_cases hempty : text = []
  · subst hempty
    exact h.append (by simp) (by simp) (by simp) (.nil _)
  · have hpos := byteLen_pos.2 hempty
    rw [if_neg hempty]
    refine h.append (by simp [Leaf.Ranked]) (by simp [Leaf.text]) rfl ?_
    rw [if_pos (by rw [byteLen_append]; omega), byteLen_append]
    exact (Recorded.nil _).known text source []

variable {files : Files Path} {sourceFile : Path} {source : ProjectPathProvenance Path}
  {builder : ProjectBuilder Path} {origins : Origins Path}

/-- A property is stored if and only if it has an origin. -/
lemma Fits.cases (h : Fits builder origins) (key : Text) :
    (builder.properties.lookup key = none ∧ origins.lookup key = none) ∨
    ∃ value origin, builder.properties.lookup key = some value ∧ origins.lookup key = some origin ∧
      OriginFits (some value) (builder.propertyProvenanceRanges.lookup key)
        (builder.propertyDefaultProvenances.lookup key) (some origin) := by
  have hkey := h key
  generalize hvalue : builder.properties.lookup key = value at hkey
  generalize horigin : origins.lookup key = origin at hkey
  generalize builder.propertyProvenanceRanges.lookup key = ranges at hkey ⊢
  generalize builder.propertyDefaultProvenances.lookup key = prov at hkey ⊢
  cases hkey with
  | absent ranges prov => exact .inl ⟨rfl, rfl⟩
  | recorded file hne h hranked => exact .inr ⟨_, _, rfl, rfl, .recorded file hne h hranked⟩
  | plain value file => exact .inr ⟨_, _, rfl, rfl, .plain value file⟩
  | unknowns count file => exact .inr ⟨_, _, rfl, rfl, .unknowns count file⟩

variable (files sourceFile source builder origins) in
/-- The rest of a text is expanded as its leaves are. -/
def RestExpands (currentProperty : Text) (rest : List Piece) : Prop :=
  ∀ leaves acc, Expanded leaves acc →
    Expanded ((expandLeaves files sourceFile source origins builder.undefinedIsEmpty
        currentProperty rest leaves).getD [.unknown])
      (builder.expandPieces files sourceFile source currentProperty rest acc)

lemma RestExpands.literal {prop : Text} {rest : List Piece}
    (hrest : RestExpands files sourceFile source builder origins prop rest)
    (h : Expanded leaves acc) (text : Text) :
    Expanded (((appendLeaves leaves (literalLeaves source text)).bind
        (expandLeaves files sourceFile source origins builder.undefinedIsEmpty prop
          rest)).getD [.unknown])
      (match appendWithProvenance source acc text with
        | none => acc.failed
        | some acc => builder.expandPieces files sourceFile source prop rest acc) := by
  rw [appendLeaves_eq h (textOf_literalLeaves source text)]
  cases hroom : appendExpansion acc.value text with
  | none =>
    rw [appendWithProvenance, hroom]
    exact expanded_failed acc
  | some value =>
    obtain ⟨_, hafter, hexp⟩ := expanded_literal h source hroom
    rw [hafter]
    exact hrest _ _ hexp

lemma expanded_expandPieces (hfits : Fits builder origins) (prop : Text)
    {pieces : List Piece} (hpasses : ∀ name ∈ references pieces, builder.Passes name) :
    RestExpands files sourceFile source builder origins prop pieces := by
  induction pieces with
  | nil => exact fun _ _ h => h
  | cons piece rest ih =>
    intro leaves acc h
    have hrest : RestExpands files sourceFile source builder origins prop rest := by
      refine ih fun name hname => hpasses name ?_
      cases piece <;> simp only [references, filterMap_cons, mem_cons] at hname ⊢
      all_goals first | exact .inr hname | exact hname
    cases piece with
    | unclosed => exact expanded_failed acc
    | literal text =>
      rw [expandLeaves, expandPieces]
      exact hrest.literal h text
    | reference name =>
      rw [expandLeaves, expandPieces]
      by_cases hdir : isThisFileDirectory name = true
      · rw [if_pos hdir, if_pos hdir]
        exact hrest.literal h (files.directoryText sourceFile)
      rw [if_neg hdir, if_neg hdir]
      -- unset in the builder and in the origins, or set in both
      rcases hfits.cases (lower name) with ⟨hnone, hnone'⟩ | ⟨value, _, hsome, hsome', hkey⟩
      · rw [hnone, hnone']
        dsimp only
        split_ifs with hself hundefined
        · exact hrest _ _ ⟨h.text, h.recorded, h.ranked⟩
        · exact hrest _ _ ⟨h.text, h.recorded, h.ranked⟩
        · -- the marker takes one byte and no range
          rw [appendLeaves_eq h (show textOf [.unknown] = [unresolvedMarker] from rfl)]
          cases hroom : appendExpansion acc.value [unresolvedMarker] with
          | none => exact expanded_failed _
          | some value =>
            obtain rfl := appendExpansion_eq_some hroom
            refine hrest _ _ (h.append (by simp [Leaf.Ranked]) rfl (append_nil _).symm
              (.unknown (.nil _)))
      · rw [hsome, hsome']
        dsimp only
        rw [appendLeaves_eq h (textOf_put hkey)]
        cases hroom : appendExpansion acc.value value with
        | none => exact expanded_failed acc
        | some =>
          obtain rfl := appendExpansion_eq_some hroom
          have hpass := hpasses name (by simp [references])
          exact hrest _ _ (h.append (ranked_put hkey hpass) (by rw [textOf_put hkey]; rfl) rfl
            (recorded_put hkey source _))

lemma expanded_expandValue (hfits : Fits builder origins) (prop : Text)
    (hpasses : ∀ name ∈ references (pieces value), builder.Passes name) :
    Expanded (leavesOf files sourceFile source origins builder.undefinedIsEmpty prop
        value) (builder.expandValue files sourceFile source prop value) :=
  expanded_expandPieces hfits prop hpasses [] .start ⟨rfl, .nil 0, by simp⟩

/-! ### Assignments -/

lemma Leaf.Ranked.retext {leaf : Leaf Path} (h : leaf.Ranked) (f : Text → Text) :
    (leaf.retext f).Ranked := by
  cases leaf <;> exact h

lemma ranked_trimFront (h : ∀ leaf ∈ leaves, leaf.Ranked) :
    ∀ leaf ∈ trimFront leaves, leaf.Ranked := by
  induction leaves with
  | nil => exact h
  | cons leaf _ ih =>
    rw [forall_mem_cons] at h
    rw [trimFront]
    split_ifs
    · exact forall_mem_cons.2 ⟨h.1.retext trimStart, ih h.2⟩
    · exact forall_mem_cons.2 ⟨h.1.retext trimStart, h.2⟩

lemma ranked_trimBack (h : ∀ leaf ∈ leaves, leaf.Ranked) :
    ∀ leaf ∈ trimBack leaves, leaf.Ranked := by
  induction leaves with
  | nil => exact h
  | cons leaf _ ih =>
    rw [forall_mem_cons] at h
    rw [trimBack]
    split_ifs
    · exact forall_mem_cons.2 ⟨h.1.retext trimEnd, ih h.2⟩
    · exact forall_mem_cons.2 ⟨h.1, ih h.2⟩

lemma eq_replicate_of_recorded_nil (h : Recorded start leaves []) :
    ∃ count, leaves = replicate count .unknown := by
  generalize hnil : ([] : List (ProvenanceRange Path)) = ranges at h
  induction h with
  | nil start => exact ⟨0, rfl⟩
  | known _ _ _ h ih => cases hnil
  | unknown h ih =>
    obtain ⟨count, rfl⟩ := ih hnil
    exact ⟨count + 1, rfl⟩
  | unknowns count _ h ih => cases hnil

lemma Fits.congr (h : Fits builder origins) {after : ProjectBuilder Path}
    (hprops : after.properties = builder.properties)
    (hranges : after.propertyProvenanceRanges = builder.propertyProvenanceRanges)
    (hprovs : after.propertyDefaultProvenances = builder.propertyDefaultProvenances) :
    Fits after origins := by
  intro key
  rw [hprops, hranges, hprovs]
  exact h key

/-- What a value and its ranges leave behind when they are stored. -/
lemma originFits_stored (h : Recorded 0 leaves ranges) (hranked : ∀ leaf ∈ leaves, leaf.Ranked)
    (file : ProjectPathProvenance Path) :
    OriginFits (some (textOf leaves)) (if ranges = [] then none else some ranges) (some file)
      (some ⟨leaves, file⟩) := by
  split_ifs with hempty
  · subst hempty
    obtain ⟨count, rfl⟩ := eq_replicate_of_recorded_nil h
    exact .unknowns count file
  · refine .recorded file ?_ h hranked
    rintro rfl
    cases h
    exact hempty rfl

lemma lookup_setOrErase {α : Type} (map : Map (List α)) (key other : Text)
    (items : List α) : (setOrErase map key items).lookup other =
      if other = key then (if items = [] then none else some items) else map.lookup other := by
  unfold setOrErase
  by_cases hother : other = key
  · subst hother
    rw [if_pos rfl]
    split_ifs <;> simp
  · rw [if_neg hother]
    split_ifs
    · exact AList.lookup_erase_ne hother
    · exact AList.lookup_insert_ne hother

/-- A value that is stored replaces what was recorded of the property before. -/
lemma setProperty_cases (P : Option Text → Option (List (ProvenanceRange Path)) →
      Option (ProjectPathProvenance Path) → Prop) {name key : Text}
    {assignment : ProjectBuilder.Assignment Path}
    (hstored : builder.stores (lower name) assignment.value = true → key = lower name →
      P (some assignment.value)
        (if assignment.provenanceRanges = [] then none else some assignment.provenanceRanges)
        (some source))
    (hkept : (builder.stores (lower name) assignment.value = true → key ≠ lower name) →
      P (builder.properties.lookup key) (builder.propertyProvenanceRanges.lookup key)
        (builder.propertyDefaultProvenances.lookup key)) :
    let after := builder.setProperty name assignment source
    P (after.properties.lookup key) (after.propertyProvenanceRanges.lookup key)
      (after.propertyDefaultProvenances.lookup key) := by
  unfold setProperty
  dsimp only
  by_cases hstores : builder.stores (lower name) assignment.value = true
  · obtain ⟨hglobal, hbytes⟩ : lower name ∉ builder.globalProperties ∧ _ := by
      simpa [stores] using hstores
    rw [if_neg hglobal, if_neg (Nat.not_lt.2 hbytes), lookup_setOrErase]
    by_cases hkey : key = lower name
    · subst hkey
      rw [if_pos rfl, AList.lookup_insert, AList.lookup_insert]
      exact hstored hstores rfl
    · rw [if_neg hkey, AList.lookup_insert_ne hkey, AList.lookup_insert_ne hkey]
      exact hkept fun _ => hkey
  · have hsame := hkept fun h => (hstores h).elim
    split_ifs
    · exact hsame
    · exact hsame
    all_goals simp_all [stores]

section

variable (hfits : Fits builder origins)

include hfits

lemma fits_setProperty (name : Text)
    {assignment : ProjectBuilder.Assignment Path} (htext : textOf leaves = assignment.value)
    (hrecd : Recorded 0 leaves assignment.provenanceRanges)
    (hranked : ∀ leaf ∈ leaves, leaf.Ranked) (source : ProjectPathProvenance Path) :
    Fits (builder.setProperty name assignment source)
      (if builder.stores (lower name) (textOf leaves) then
        origins.insert (lower name) ⟨leaves, source⟩ else origins) := by
  intro key
  rw [htext]
  refine setProperty_cases (OriginFits · · · _) (fun hstores hkey => ?_) fun hkept => ?_
  · subst hkey
    rw [if_pos hstores, AList.lookup_insert, ← htext]
    exact originFits_stored hrecd hranked source
  · split_ifs with hstores
    · rw [AList.lookup_insert_ne (hkept hstores)]
      exact hfits key
    · exact hfits key

lemma fits_assignProperty (entry : PropertyEntry)
    (hpasses : ∀ name ∈ references (pieces entry.value), builder.Passes name) :
    Fits (builder.assignProperty files sourceFile source entry)
      (origins.after files ⟨builder, .assign sourceFile source entry⟩) := by
  unfold assignProperty Origins.after
  dsimp only
  by_cases hglobal : lower entry.name ∈ builder.globalProperties
  · simpa [hglobal, stores] using hfits
  rw [if_neg hglobal]
  have hexp : Expanded
      (leavesOf files sourceFile source origins builder.undefinedIsEmpty entry.name entry.value)
      (builder.expandValue files sourceFile source entry.name entry.value) :=
    expanded_expandValue hfits entry.name hpasses
  generalize leavesOf files sourceFile source origins builder.undefinedIsEmpty entry.name
    entry.value = leaves at hexp ⊢
  generalize builder.expandValue files sourceFile source entry.name entry.value = value
    at hexp ⊢
  have htrimmed := hexp.recorded.trim
  rw [hexp.text] at htrimmed
  have hset : ∀ assignment : ProjectBuilder.Assignment Path, assignment.value = trim value.value →
      assignment.provenanceRanges = trimProvenanceRanges value.provenanceRanges
        (byteLen value.value - byteLen (trimStart value.value)) (byteLen (trim value.value)) →
      Fits ({ builder with
          incomplete := builder.incomplete || value.undefinedPropertyUnknown }.setProperty
            entry.name assignment source)
        (if builder.stores (lower entry.name) (textOf (trimLeaves leaves)) then
          origins.insert (lower entry.name) ⟨trimLeaves leaves, source⟩ else origins) := by
    intro assignment hvalue hranges
    have hbefore : Fits { builder with
        incomplete := builder.incomplete || value.undefinedPropertyUnknown } origins :=
      hfits.congr rfl rfl rfl
    refine fits_setProperty hbefore entry.name ?_ ?_
      (ranked_trimBack (ranked_trimFront hexp.ranked)) source
    · rw [textOf_trimBack, textOf_trimFront, hexp.text, hvalue]
      rfl
    · rwa [hranges]
  generalize (if builder.stores (lower entry.name) (textOf (trimLeaves leaves)) then
    origins.insert (lower entry.name) ⟨trimLeaves leaves, source⟩ else origins) = after at hset ⊢
  split_ifs <;> exact (hset _ rfl rfl).congr rfl rfl rfl

lemma fits_leaveUnevaluated (name : Text) :
    Fits (builder.leaveUnevaluated source name)
      (origins.after files ⟨builder, .leave source name⟩) := by
  unfold leaveUnevaluated markPropertyUnknown Origins.after
  dsimp only
  by_cases hglobal : lower name ∈ builder.globalProperties
  · have hstores : ∀ value, builder.stores (lower name) value = false := by
      simp [stores, hglobal]
    rw [if_pos hglobal, hstores]
    exact hfits.congr rfl rfl rfl
  · rw [if_neg hglobal]
    have hbefore : Fits { builder with
        unevaluatedAssignments := insert (lower name) builder.unevaluatedAssignments } origins :=
      hfits.congr rfl rfl rfl
    have hunk : Recorded 0 [(.unknown : Leaf Path)] [] := .unknown (.nil _)
    have hset := fits_setProperty hbefore name
      (show textOf ([.unknown] : List (Leaf Path)) = (⟨[unresolvedMarker], true, [], false, []⟩ :
        ProjectBuilder.Assignment Path).value from rfl) hunk (by simp [Leaf.Ranked]) source
    exact hset.congr rfl rfl rfl

lemma fits_taintUnknownImport :
    Fits builder.taintUnknownImport (origins.after files ⟨builder, .taint⟩) := by
  intro key
  have htainted := tainted_taintUnknownImport builder key
  have hafter : (origins.after files ⟨builder, .taint⟩).lookup key =
      (origins.lookup key).map fun origin =>
        if builder.taints key then ⟨[.unknown], origin.file⟩ else origin := by
    rw [Origins.after, Map.lookup_choose]
    cases origins.lookup key <;> rfl
  rw [htainted.value, htainted.ranges, htainted.provenance, hafter]
  have hkey := hfits key
  by_cases htaints : builder.taints key = true
  · -- the value is the marker, and the file it was assigned in is kept
    have hmem : key ∈ builder.properties.keys ↔ (builder.properties.lookup key).isSome = true :=
      AList.lookup_isSome.symm
    simp only [hmem, htaints, and_true, if_true]
    generalize builder.properties.lookup key = value at hkey ⊢
    generalize builder.propertyProvenanceRanges.lookup key = ranges at hkey ⊢
    generalize builder.propertyDefaultProvenances.lookup key = prov at hkey ⊢
    generalize origins.lookup key = origin at hkey ⊢
    cases hkey with
    | absent ranges prov => exact .absent _ _
    | recorded file _ h | plain value file | unknowns count file => exact .unknowns 1 file
  · simpa [htaints] using hkey

end

end Fitting

end Lint4d.Msbuild
