import Lint4d.Conditional.Projection
import Lint4d.Conditional.Soundness

/-!
# Full knowledge

When every fact of the context is known and nothing is included, every fact of
the run is known, and no two environments ever meet.  The analysis then does what
the preprocessor does.
-/

namespace Lint4d.Conditional

open List Lint4d.Lib

variable {env : Environment} {condition : Truth} {symbol : Text}

/-! ## Known facts -/

def Environment.Known (environment : Environment) : Prop :=
  ∀ symbol, IsSymbol symbol → (environmentValue environment symbol).IsKnown

/-- All facts of a frame are known, and of the environments in it at most one can still be needed:
a branch that is compiled leaves nothing for the later ones. -/
structure ConditionalFrame.Known (frame : ConditionalFrame) : Prop where
  parent : frame.parentActive.IsKnown
  before : frame.beforeEnvironment.Known
  remaining : frame.remaining.IsKnown
  current : frame.currentActive.IsKnown
  compiled : frame.currentActive = .true → frame.remaining = .false ∧ frame.mergedEnvironment = none
  left : ∀ merged, frame.mergedEnvironment = some merged →
    frame.remaining = .false ∧ frame.currentActive = .false ∧ merged.Known

structure Machine.Known (machine : Machine) : Prop where
  environment : machine.environment.Known
  frames : ∀ frame ∈ machine.frames, frame.Known
  active : machine.active.IsKnown

/-- With every fact known, a condition without dotted symbols has a known value. -/
lemma evaluateValue_known (h : env.Known) {cond : Cond} (named : cond.Named)
    (undotted : cond.undotted = true) :
    ∃ truth, evaluateValue env cond = some truth ∧ truth.IsKnown := by
  induction cond with
  | defined name =>
    obtain ⟨symbol, hsym⟩ := Option.isSome_iff_exists.mp named
    refine ⟨environmentValue env name, rfl, ?_⟩
    rw [environmentValue_canonical hsym]
    exact h symbol (isSymbol_of_canonicalSymbol hsym)
  | dotted => cases undotted
  | not cond ih =>
    obtain ⟨truth, hvalue, hknown⟩ := ih named undotted
    exact ⟨truth.not, by simp [evaluateValue, hvalue], hknown.not⟩
  | and left right ihl ihr =>
    obtain ⟨hleft, hright⟩ := Bool.and_eq_true_iff.mp undotted
    obtain ⟨l, hl, hlknown⟩ := ihl named.1 hleft
    obtain ⟨r, hr, hrknown⟩ := ihr named.2 hright
    exact ⟨l.and r, by simp [evaluateValue, hl, hr], hlknown.and hrknown⟩
  | or left right ihl ihr =>
    obtain ⟨hleft, hright⟩ := Bool.and_eq_true_iff.mp undotted
    obtain ⟨l, hl, hlknown⟩ := ihl named.1 hleft
    obtain ⟨r, hr, hrknown⟩ := ihr named.2 hright
    exact ⟨l.or r, by simp [evaluateValue, hl, hr], hlknown.or hrknown⟩

lemma evaluateCondition_known {foreign : Text → Environment → Truth × Bool} {body : Text}
    (hfrag : (conditionOf body).isSome) (undotted : (conditionOf body).all Cond.undotted = true)
    (h : evaluateCondition foreign body env = (condition, true)) (known : env.Known) :
    condition.IsKnown := by
  obtain ⟨cond, hcond, named, rfl⟩ := evaluateCondition_fragment hfrag h
  rw [hcond] at undotted
  obtain ⟨truth, hvalue, hknown⟩ := evaluateValue_known known named undotted
  rw [evaluateCond, hvalue]
  exact hknown

lemma applyFact_known (h : env.Known) (hsym : IsSymbol symbol) (b : Bool)
    (activity : Truth) : (applyFact env symbol (Truth.ofBool b) activity).Known := by
  intro key hkey
  rw [applyFact_symbol hsym, environmentValue_insert hkey]
  split
  · split
    · exact h symbol hsym
    · cases b <;> simp [Truth.ofBool, Truth.IsKnown]
  · exact h key hkey

/-! ## No two environments meet -/

section Frame

variable {frame : ConditionalFrame} {env : Environment}

section

variable (h : frame.Known)

include h

lemma ConditionalFrame.Known.mergeCurrent (known : env.Known) :
    ∀ merged, frame.mergeCurrent env = some merged → frame.remaining = .false ∧ merged.Known := by
  intro merged hmerge
  unfold ConditionalFrame.mergeCurrent at hmerge
  split at hmerge
  next hactive =>
    -- the branch was compiled: it is the first one to be
    have htrue : frame.currentActive = .true := by
      by_contra hne
      exact hactive (h.current.eq_false_of_ne_true hne)
    obtain ⟨hrem, hnone⟩ := h.compiled htrue
    obtain rfl : env = merged := by simpa [hnone, mergeEnvironment] using hmerge
    exact ⟨hrem, known⟩
  · exact ⟨(h.left merged hmerge).1, (h.left merged hmerge).2.2⟩

lemma ConditionalFrame.Known.branchMeetsSoundly : frame.BranchMeetsSoundly env := by
  intro hactive merged hmerge
  exact absurd (h.left merged hmerge).2.1 hactive

lemma ConditionalFrame.Known.endMeetsSoundly (known : env.Known) : frame.EndMeetsSoundly env := by
  refine ⟨h.branchMeetsSoundly, fun hskip merged hmerge => ?_⟩
  have := (h.mergeCurrent known merged hmerge).1
  simp [ConditionalFrame.skippable, this] at hskip

lemma ConditionalFrame.Known.mergeConditional (known : env.Known) :
    (mergeConditionalEnvironment frame env).Known := by
  unfold mergeConditionalEnvironment
  cases hmerge : frame.mergeCurrent env with
  | none => split <;> exact h.before
  | some merged =>
    obtain ⟨hrem, hknown⟩ := h.mergeCurrent known merged hmerge
    simpa [ConditionalFrame.skippable, hrem] using hknown

lemma ConditionalFrame.Known.nextBranch (known : env.Known)
    (isElse : Bool) (hcond : condition.IsKnown) :
    (frame.nextBranch env isElse condition).Known where
  parent := h.parent
  before := h.before
  remaining := h.remaining.and hcond.not
  current := (h.parent.and h.remaining).and hcond
  compiled := by
    intro htrue
    -- the new branch is compiled only where no earlier one was
    have hrem : frame.remaining = .true ∧ condition = .true := by
      have htrue' : (frame.parentActive.and frame.remaining).and condition = .true := htrue
      revert htrue'
      cases frame.parentActive <;> cases frame.remaining <;> cases condition <;> simp [Truth.and]
    constructor
    · show frame.remaining.and condition.not = .false
      simp [hrem.2, Truth.not]
    · show frame.mergeCurrent env = none
      rw [Option.eq_none_iff_forall_ne_some]
      intro merged hmerge
      have := (h.mergeCurrent known merged hmerge).1
      simp [hrem.1] at this
  left := by
    intro merged hmerge
    obtain ⟨hrem, hknown⟩ := h.mergeCurrent known merged hmerge
    refine ⟨?_, ?_, hknown⟩
    · show frame.remaining.and condition.not = .false
      simp [hrem]
    · show (frame.parentActive.and frame.remaining).and condition = .false
      simp [hrem]

end

end Frame

section Run

variable {foreign : Text → Environment → Truth × Bool} {budget : Nat → Charge → Bool}
  {version : Option CompilerVersion} {body : Text} {machine machine' : Machine}

/-- A directive keeps every fact known, unless it is an include. -/
lemma Machine.Known.turn (h : machine.Known) (turn : Turn foreign body machine machine')
    (startFragment : directiveKind body = .conditionalStart → (conditionOf body).isSome)
    (middleFragment : directiveKind body = .conditionalMiddle →
      isElseDirective body ∨ (conditionOf body).isSome)
    (undotted : (conditionOf body).all Cond.undotted = true)
    (noInclude : directiveKind body ≠ .include) : machine'.Known := by
  cases turn with
  | @ifStart condition kind understood =>
    have hcond := evaluateCondition_known (startFragment kind) undotted understood h.environment
    have hactive := h.active.and hcond
    refine ⟨h.environment, ?_, hactive⟩
    rintro frame (_ | ⟨_, hframe⟩)
    · refine ⟨h.active, h.environment, hcond.not, hactive, ?_, by simp⟩
      intro htrue
      have : condition = .true := by
        have htrue' : machine.active.and condition = .true := htrue
        revert htrue'
        cases machine.active <;> cases condition <;> simp [Truth.and]
      simp [this, Truth.not]
    · exact h.frames frame hframe
  | @branch condition frame frames kind open_ _ value =>
    have hframe := h.frames frame (by simp [open_])
    have hcond : condition.IsKnown := by
      cases value with
      | isElse => simp [Truth.IsKnown]
      | elseIf isElse understood =>
        rcases middleFragment kind with hElse | hsome
        · simp [isElse] at hElse
        · exact evaluateCondition_known hsome undotted understood hframe.before
    have hnext := hframe.nextBranch h.environment (isElseDirective body) hcond
    refine ⟨hframe.before, ?_, hnext.current⟩
    rintro f (_ | ⟨_, hf⟩)
    · exact hnext
    · exact h.frames f (open_ ▸ mem_cons_of_mem _ hf)
  | @ifEnd frame frames kind open_ =>
    have hframe := h.frames frame (by simp [open_])
    exact ⟨hframe.mergeConditional h.environment,
      fun f hf => h.frames f (by simp [open_, hf]), hframe.parent⟩
  | define b kind named =>
    exact ⟨applyFact_known h.environment (isSymbol_directiveSymbol named) b _, h.frames, h.active⟩
  | skippedInclude | other => exact h
  | unresolvedInclude kind => exact absurd kind noInclude

lemma Machine.Known.stepSound (h : machine.Known) {included : Defines → Defines}
    (s : Preprocessor) (noInclude : directiveKind body ≠ .include) :
    StepSound version included body machine s := by
  have hhead : ∀ frame ∈ machine.frames.head?, frame ∈ machine.frames :=
    fun frame hframe => mem_of_mem_head? hframe
  unfold StepSound
  split
  · exact fun frame hframe => (h.frames frame (hhead frame hframe)).branchMeetsSoundly
  · exact fun frame hframe => (h.frames frame (hhead frame hframe)).endMeetsSoundly h.environment
  next kind => exact absurd kind noInclude
  · trivial

/-- In a run whose facts are all known, no directive can make the machine wrong, and the activity of
every piece is known. -/
lemma known_run (version : Option CompilerVersion) (included : RawDirective → Defines → Defines)
    (stop : Nat) {turn cursor : Nat} {raws : List RawDirective} {s : Preprocessor}
    (h : (analyzeDirectives foreign budget turn raws machine cursor).machine.complete = true)
    (known : machine.Known) (frag : InFragment raws) (undotted : Undotted raws)
    (noInclude : ∀ raw ∈ raws, directiveKind raw.body ≠ .include) :
    RunSound foreign budget version included turn raws machine s ∧
      ∀ gap ∈ activities foreign budget stop turn raws machine cursor, gap.2.IsKnown := by
  induction raws generalizing turn machine cursor s with
  | nil =>
    refine ⟨trivial, fun gap hgap => ?_⟩
    obtain rfl : gap = (⟨cursor, stop⟩, machine.active) := by simpa [activities] using hgap
    exact known.active
  | cons raw _ ih =>
    obtain ⟨_, hmachine', turn_, _, htrace, hcomp, -⟩ := analyzeDirectives_cons h
    obtain ⟨hstart, hmiddle⟩ := frag raw (by simp)
    have hinclude := noInclude raw (by simp)
    have known' := known.turn turn_ hstart hmiddle (undotted raw (by simp)) hinclude
    rw [htrace] at hcomp
    obtain ⟨hsound, hknown⟩ := ih (s := s.step (included raw) raw.body) hcomp known'
      (fun raw hraw => frag raw (by simp [hraw])) (fun raw hraw => undotted raw (by simp [hraw]))
      (fun raw hraw => noInclude raw (by simp [hraw]))
    rw [activities, ← hmachine']
    exact ⟨⟨known.stepSound s hinclude, hmachine' ▸ hsound⟩,
      forall_mem_cons.mpr ⟨known.active, hknown⟩⟩

end Run

/-! ## The source in parts -/

/-- A part of the source: a directive (`none`), or text with its activity. -/
abbrev Part := Option Truth × Span

/-- The parts cover the offsets from `cursor` to `stop`, in order and without gaps. -/
def Tiles (stop : Nat) : Nat → List Part → Prop
  | cursor, [] => cursor = stop
  | cursor, part :: rest =>
    part.2.start = cursor ∧ part.2.start ≤ part.2.stop ∧ Tiles stop part.2.stop rest

/-- The spans of the parts of one kind, in order. -/
def partSpans (kind : Option Truth) (parts : List Part) : List Span :=
  (parts.filter fun part => part.1 = kind).map Prod.snd

/-- A piece of text, left out when it is empty. -/
def textPart (span : Span) (activity : Truth) : List Part :=
  if span.start < span.stop then [(some activity, span)] else []

def parts (stop : Nat) (foreign : Text → Environment → Truth × Bool)
    (budget : Nat → Charge → Bool) : Nat → List RawDirective → Machine → Nat → List Part
  | _, [], machine, cursor => textPart ⟨cursor, stop⟩ machine.active
  | turn, raw :: rest, machine, cursor =>
    textPart ⟨cursor, raw.start⟩ machine.active ++ (none, ⟨raw.start, raw.stop⟩) ::
      parts stop foreign budget (turn + 1) rest (step foreign (budget turn) raw.body machine).machine
        raw.stop

section Parts

variable {foreign : Text → Environment → Truth × Bool} {budget : Nat → Charge → Bool}
  {stop turn cursor : Nat} {raws : List RawDirective} {machine : Machine}

lemma tiles_textPart {next : Nat} {rest : List Part} (activity : Truth) (hle : cursor ≤ next)
    (h : Tiles stop next rest) : Tiles stop cursor (textPart ⟨cursor, next⟩ activity ++ rest) := by
  unfold textPart
  split
  · exact ⟨rfl, hle, h⟩
  next hnot =>
    obtain rfl : cursor = next := by
      dsimp only at hnot
      omega
    exact h

lemma tiles_parts (h : Ordered cursor raws stop) :
    Tiles stop cursor (parts stop foreign budget turn raws machine cursor) := by
  induction raws generalizing turn machine cursor with
  | nil =>
    have hnil : Tiles stop stop [] := rfl
    simpa [parts] using tiles_textPart machine.active h hnil
  | cons _ _ ih =>
    obtain ⟨hstart, hstop, htail⟩ := h
    exact tiles_textPart machine.active hstart ⟨rfl, hstop, ih htail⟩

lemma partSpans_append (kind : Option Truth) (as bs : List Part) :
    partSpans kind (as ++ bs) = partSpans kind as ++ partSpans kind bs := by
  simp [partSpans]

lemma partSpans_textPart (wanted activity : Truth) (span : Span) :
    partSpans (some wanted) (textPart span activity) =
      activitySpan wanted span.start span.stop activity := by
  unfold textPart activitySpan partSpans
  by_cases hlt : span.start < span.stop <;> by_cases heq : activity = wanted <;> simp [hlt, heq]

lemma partSpans_none_textPart (activity : Truth) (span : Span) :
    partSpans none (textPart span activity) = [] := by
  unfold textPart partSpans
  split <;> simp

/-- The parts of one activity are the spans of that activity, and the other parts the directives. -/
lemma partSpans_parts (wanted : Truth) :
    partSpans (some wanted) (parts stop foreign budget turn raws machine cursor) =
      spansOf wanted (activities foreign budget stop turn raws machine cursor) := by
  induction raws generalizing turn machine cursor with
  | nil => simp [parts, activities, spansOf, partSpans_textPart]
  | cons _ _ ih =>
    have hcons (part : Part) (tail : List Part) (h : part.1 = none) :
        partSpans (some wanted) (part :: tail) = partSpans (some wanted) tail := by
      simp [partSpans, h]
    rw [parts, partSpans_append, partSpans_textPart, hcons _ _ rfl, ih]
    simp [activities, spansOf]

lemma partSpans_none_parts :
    partSpans none (parts stop foreign budget turn raws machine cursor) =
      raws.map fun raw => ⟨raw.start, raw.stop⟩ := by
  induction raws generalizing turn machine cursor with
  | nil => simp [parts, partSpans_none_textPart]
  | cons raw _ ih =>
    have hcons (span : Span) (tail : List Part) :
        partSpans none ((none, span) :: tail) = span :: partSpans none tail := by
      simp [partSpans]
    rw [parts, partSpans_append, partSpans_none_textPart, hcons, ih]
    rfl

end Parts

/-! ## The projection of a complete analysis -/

section Complete

variable {foreign : Text → Environment → Truth × Bool} {budget : Nat → Charge → Bool}
  {src : Text} {ctx : ConditionalContext} {analysis : ConditionalAnalysis}
  {env : Environment}

/-- The byte at an offset is blanked: it is in an inactive span or in a directive. -/
def Blanked (analysis : ConditionalAnalysis) (i : Nat) : Prop :=
  ∃ span ∈ analysis.inactiveSpans ++ analysis.directives.map ConditionalDirective.span,
    span.Contains i

instance (analysis : ConditionalAnalysis) (i : Nat) : Decidable (Blanked analysis i) :=
  inferInstanceAs (Decidable (∃ span ∈ _, _))

variable (run : CompleteRun foreign budget src ctx analysis env)

include run

lemma CompleteRun.projectedSource_eq : analysis.projectedSource =
      blankAt (fun i => decide (Blanked analysis i)) 0 (encode src) := by
  rw [run.projected, projectSource_eq]
  rfl

lemma CompleteRun.blanked_gap {gap : Span × Truth}
    (hgap : gap ∈ activities foreign budget (byteLen src) 0 (lexDirectives src).directives
      ⟨env, [], .true, true⟩ 0) {i : Nat} (hi : gap.1.Contains i) :
    Blanked analysis i ↔ gap.2 = .false := by
  have hord := lexDirectives_ordered src
  have hspans : (activities foreign budget (byteLen src) 0 (lexDirectives src).directives
      ⟨env, [], .true, true⟩ 0).map Prod.fst =
      gapSpans (byteLen src) (lexDirectives src).directives 0 := activities_spans ..
  unfold Blanked
  rw [run.inactive, run.directives]
  constructor
  · rintro ⟨_, hspan, hcont⟩
    rcases mem_append.mp hspan with hspan | hspan
    · have hpw := hord.gapSpans_pairwise
      rw [← hspans] at hpw
      rw [← gap_unique hpw (mem_spansOf.mp hspan).1 hgap hcont hi]
    · obtain ⟨_, hraw, rfl⟩ := mem_map.mp hspan
      have hmem : gap.1 ∈ gapSpans (byteLen src) (lexDirectives src).directives 0 := by
        rw [← hspans]
        exact mem_map_of_mem hgap
      exact absurd hcont (hord.disjoint hmem hi hraw)
  · intro hfalse
    have hlt : gap.1.start < gap.1.stop := hi.1.trans_lt hi.2
    refine ⟨gap.1, mem_append_left _ (mem_spansOf.mpr ⟨?_, hlt⟩), hi⟩
    rw [← hfalse]
    exact hgap

/-- The projection blanks whole pieces, so it is UTF-8. -/
lemma CompleteRun.isUtf8_projectedSource : IsUtf8 analysis.projectedSource := by
  rw [run.projectedSource_eq]
  suffices hutf8 : IsUtf8 (blankAt (fun i => decide (Blanked analysis i))
      (byteLen src - byteLen src) (encode src)) by simpa using hutf8
  apply (lexDirectives_pieces src).isUtf8_blankAt le_rfl
  · intro span hspan i j hi hj
    rw [Nat.sub_self, ← activities_spans foreign budget 0 ⟨env, [], .true, true⟩] at hspan
    obtain ⟨_, hgap, rfl⟩ := mem_map.mp hspan
    rw [decide_eq_decide, run.blanked_gap hgap hi, run.blanked_gap hgap hj]
  · intro raw hraw i hstart hstop
    rw [decide_eq_true_eq]
    refine ⟨⟨raw.start, raw.stop⟩, mem_append_right _ ?_, hstart, hstop⟩
    rw [run.directives]
    exact mem_map_of_mem hraw

lemma CompleteRun.projectedSource_getElem? (i : Nat) : analysis.projectedSource[i]? =
      (encode src)[i]?.map fun byte => if Blanked analysis i then blankByte byte else byte := by
  rw [run.projectedSource_eq, getElem?_blankAt]
  simp

lemma CompleteRun.projectedSource_lineEnd (i : Nat) :
    (analysis.projectedSource[i]? = some 10 ↔ (encode src)[i]? = some 10) ∧
      (analysis.projectedSource[i]? = some 13 ↔ (encode src)[i]? = some 13) := by
  rw [run.projectedSource_getElem?]
  cases (encode src)[i]? with
  | none => simp
  | some byte =>
    have hline := blankByte_lineEnd byte
    by_cases hblanked : Blanked analysis i <;> simp [hblanked, hline]

end Complete

/-! ## The analysis is the preprocessor -/

/-- No define fact, the fact about absent symbols, nor the compiler version is unknown. -/
structure ConditionalContext.FullyKnown (context : ConditionalContext) : Prop where
  defines : ∀ symbol, context.explicitFact symbol ≠ some .unknown
  absent : context.absentDefine ≠ .unknown
  version : ∃ version, context.compilerVersion = some version ∧ version.numericParts.isSome

lemma versionSymbolFact_known {version : CompilerVersion} (h : version.numericParts.isSome)
    {fact : Truth} (hfact : versionSymbolFact symbol (some version) = some fact) :
    fact.IsKnown := by
  unfold versionSymbolFact at hfact
  split at hfact
  · simp only [Option.filter_some, h, if_true, Option.some.injEq] at hfact
    rw [← hfact]
    split <;> simp [Truth.IsKnown]
  · simp at hfact

lemma ConditionalContext.FullyKnown.fact_known {ctx : ConditionalContext}
    (h : ctx.FullyKnown) (symbol : Text) : (ctx.fact symbol).IsKnown := by
  obtain ⟨version, hver, hnumeric⟩ := h.version
  unfold ConditionalContext.fact
  cases hexplicit : ctx.explicitFact symbol with
  | some fact =>
    intro hunk
    exact h.defines symbol (hunk ▸ hexplicit)
  | none =>
    cases hfact : versionSymbolFact symbol ctx.compilerVersion with
    | some fact => exact versionSymbolFact_known hnumeric (hver ▸ hfact)
    | none => exact h.absent

/-- With full knowledge, no include and no dotted argument of `defined`, a complete analysis is the
preprocessor: no text is unknown;
a piece of text is inactive exactly when the preprocessor skips it; inactive text, directives and
active text tile the source in order; and the projection is UTF-8 of the same length and with the
same line ends, equal to the source outside inactive text and directives and blank inside. -/
theorem analyze_exact (foreign : Text → Environment → Truth × Bool)
    (budget : Nat → Charge → Bool) (admitted : Bool)
    (included : RawDirective → Defines → Defines) (source : Text) (context : ConditionalContext)
    (defines : Defines) (fragment : InFragment (lexDirectives source).directives)
    (undotted : Undotted (lexDirectives source).directives)
    (noInclude : ∀ raw ∈ (lexDirectives source).directives, directiveKind raw.body ≠ .include)
    (known : context.FullyKnown) (consistent : context.Consistent defines)
    (complete : (analyzeWithContext foreign budget admitted source context).complete = true) :
    let analysis := analyzeWithContext foreign budget admitted source context
    analysis.unknownSpans = [] ∧
    (∀ piece ∈ preprocess included source defines, piece.1.start < piece.1.stop →
      (piece.1 ∈ analysis.inactiveSpans ↔ piece.2 = false)) ∧
    (∃ parts : List Part, Tiles (byteLen source) 0 parts ∧
      partSpans (some .false) parts = analysis.inactiveSpans ∧
      partSpans none parts = analysis.directives.map ConditionalDirective.span ∧
      partSpans (some .unknown) parts = []) ∧
    IsUtf8 analysis.projectedSource ∧
    analysis.projectedSource.length = (encode source).length ∧
    (∀ i : Nat, (analysis.projectedSource[i]? = some 10 ↔ (encode source)[i]? = some 10) ∧
      (analysis.projectedSource[i]? = some 13 ↔ (encode source)[i]? = some 13)) ∧
    (∀ i : Nat, ¬ Blanked analysis i → analysis.projectedSource[i]? = (encode source)[i]?) ∧
    (∀ (i : Nat) (byte : UInt8), Blanked analysis i → analysis.projectedSource[i]? = some byte →
      byte = 32 ∨ byte = 10 ∨ byte = 13) := by
  obtain ⟨environment, run⟩ := analyzeWithContext_complete complete
  have hmachine : Machine.Known ⟨environment, [], .true, true⟩ := by
    refine ⟨fun symbol hs => ?_, by simp, by simp [Truth.IsKnown]⟩
    rw [environmentValue_initial run.initial hs]
    exact known.fact_known symbol
  -- every fact is known, so no activity is
  obtain ⟨hsound, hknown⟩ := known_run context.compilerVersion included (byteLen source)
    (s := .start defines) run.run hmachine fragment undotted noInclude
  have hpieces := run.pieces_allowed fragment consistent hsound
  have hunknown : spansOf .unknown (activities foreign budget (byteLen source) 0
      (lexDirectives source).directives ⟨environment, [], .true, true⟩ 0) = [] := by
    rw [eq_nil_iff_forall_not_mem]
    intro span hspan
    exact hknown _ (mem_spansOf.mp hspan).1 rfl
  have hordered := lexDirectives_ordered source
  refine ⟨run.unknown.trans hunknown, ?_, ?_, run.isUtf8_projectedSource,
    by rw [run.projectedSource_eq, length_blankAt], run.projectedSource_lineEnd, ?_, ?_⟩
  · -- the gaps do not overlap, so a piece has one activity
    intro piece hpiece hlt
    obtain ⟨⟨span, activity⟩, hgap, rfl, hallows⟩ := exists_left_of_forall₂ hpieces hpiece
    have hactivity : activity = Truth.ofBool piece.2 := hallows.resolve_left (hknown _ hgap)
    have hstart : piece.1.Contains piece.1.start := ⟨le_rfl, hlt⟩
    rw [run.inactive, mem_spansOf]
    constructor
    · rintro ⟨hinactive, -⟩
      have hpairwise := hordered.gapSpans_pairwise
      rw [← activities_spans foreign budget 0 ⟨environment, [], .true, true⟩] at hpairwise
      have heq := gap_unique hpairwise hinactive hgap hstart hstart
      have hfalse : Truth.false = Truth.ofBool piece.2 := by
        rw [← hactivity]
        exact congrArg Prod.snd heq
      cases hlive : piece.2 with
      | false => rfl
      | true =>
        rw [hlive] at hfalse
        exact absurd hfalse (by decide)
    · intro hskipped
      rw [hskipped] at hactivity
      subst hactivity
      exact ⟨hgap, hlt⟩
  · refine ⟨parts (byteLen source) foreign budget 0 (lexDirectives source).directives
      ⟨environment, [], .true, true⟩ 0, tiles_parts hordered, ?_, ?_, ?_⟩
    · rw [partSpans_parts, run.inactive]
    · rw [partSpans_none_parts, run.directives]
    · rw [partSpans_parts, hunknown]
  · intro i hnot
    rw [run.projectedSource_getElem?]
    simp [hnot]
  · intro i byte hblanked hbyte
    rw [run.projectedSource_getElem?] at hbyte
    obtain ⟨original, -, rfl⟩ := Option.map_eq_some_iff.mp hbyte
    rw [if_pos hblanked]
    exact blankByte_blank original

def knownContext : ConditionalContext :=
  ⟨[("X".toList, .true)], .false, some ⟨35, 0, 0, some 35, 0⟩⟩

lemma knownContext_fullyKnown : knownContext.FullyKnown where
  defines := by
    intro symbol
    simp only [ConditionalContext.explicitFact, knownContext, filter_cons, filter_nil]
    split <;> simp [importedFact]
  absent := by decide
  version := ⟨_, rfl, by decide⟩

/-- A conditional with a branch for `X`, and one of two bytes for its absence. -/
def elseSource : Text := "\x7b$IFDEF X\x7da\x7b$ELSE\x7dé\x7b$ENDIF\x7d".toList

theorem analyze_exact_elseSource :
    (analyzeWithContext noForeign unlimited true elseSource knownContext).unknownSpans = [] ∧
    (⟨18, 20⟩, false) ∈ preprocess (fun _ => id) elseSource knownContext.definesOf ∧
    ⟨18, 20⟩ ∈
      (analyzeWithContext noForeign unlimited true elseSource knownContext).inactiveSpans := by
  have hskipped : (⟨18, 20⟩, false) ∈ preprocess (fun _ => id) elseSource knownContext.definesOf := by
    decide +kernel
  have hexact := analyze_exact noForeign unlimited true (fun _ => id) elseSource knownContext
    knownContext.definesOf (by decide +kernel) (by decide +kernel) (by decide +kernel)
    knownContext_fullyKnown
    knownContext.consistent_definesOf (by decide +kernel)
  exact ⟨hexact.1, hskipped, (hexact.2.1 _ hskipped (by decide)).mpr rfl⟩

/-- A question about a dotted symbol, whose value the analysis does not know by design. -/
def dottedSource : Text := "\x7b$IF defined(A.B)\x7dx\x7b$IFEND\x7d".toList

/-- Full knowledge does not keep the text under a dotted symbol from being unknown. -/
theorem analyze_unknown_dottedSource :
    let analysis := analyzeWithContext noForeign unlimited true dottedSource knownContext
    InFragment (lexDirectives dottedSource).directives ∧
    (∀ raw ∈ (lexDirectives dottedSource).directives, directiveKind raw.body ≠ .include) ∧
    knownContext.FullyKnown ∧ analysis.complete = true ∧ analysis.unknownSpans = [⟨18, 19⟩] :=
  ⟨by decide +kernel, by decide +kernel, knownContext_fullyKnown, by decide +kernel,
    by decide +kernel⟩

end Lint4d.Conditional
