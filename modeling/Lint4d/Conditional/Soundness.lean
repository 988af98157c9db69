import Lint4d.Conditional.Simulation

/-!
# Runs of the analysis

From one directive to all of them: the activities that a complete analysis gives
to the pieces of text leave open what any run of the preprocessor does with them.
-/

namespace Lint4d.Conditional

open Lint4d.Lib ConditionalDirective

variable {included : RawDirective → Defines → Defines} {α β : Type} {R : α → β → Prop} {as : List α}
  {bs : List β}

section Run

variable (foreign : Text → Environment → Truth × Bool) (budget : Nat → Charge → Bool)

/-- The pieces of text between the directives, each with the activity the analysis gives it. -/
def activities (stop : Nat) :
    Nat → List RawDirective → Machine → Nat → List (Span × Truth)
  | _, [], machine, cursor => [(⟨cursor, stop⟩, machine.active)]
  | turn, raw :: rest, machine, cursor =>
    (⟨cursor, raw.start⟩, machine.active) ::
      activities stop (turn + 1) rest (step foreign (budget turn) raw.body machine).machine raw.stop

/-- Every directive of the run keeps the machine right. -/
def RunSound (version : Option CompilerVersion) (included : RawDirective → Defines → Defines) :
    Nat → List RawDirective → Machine → Preprocessor → Prop
  | _, [], _, _ => True
  | turn, raw :: rest, machine, s =>
    StepSound version (included raw) raw.body machine s ∧
      RunSound version included (turn + 1) rest (step foreign (budget turn) raw.body machine).machine
        (s.step (included raw) raw.body)

variable {foreign budget} {turn cursor stop : Nat} {raw : RawDirective} {raws : List RawDirective}
  {machine : Machine}
  (h : (analyzeDirectives foreign budget turn raws machine cursor).machine.complete = true)

include h in
lemma analyzeDirectives_complete : machine.complete = true := by
  induction raws generalizing turn machine cursor with
  | nil => exact h
  | cons raw _ ih =>
    rw [analyzeDirectives] at h
    split at h
    · generalize hm : (if budget turn .constants = true then machine else machine.incomplete) = m
        at h
      dsimp only at h
      have hstep : (step foreign (budget turn) raw.body m).machine.complete = true := by
        split at h
        · exact ih h
        · exact h
      have hcomp : m.complete = true := (step_completed hstep).1
      rw [← hm] at hcomp
      split at hcomp
      · exact hcomp
      · exact absurd hcomp (by simp [Machine.incomplete])
    · exact absurd h (by simp [Machine.incomplete])

/-- A complete run takes its first directive, and goes on completely. -/
lemma analyzeDirectives_cons
    (h : (analyzeDirectives foreign budget turn (raw :: raws) machine cursor).machine.complete =
      true) :
    ∃ machine', machine' = (step foreign (budget turn) raw.body machine).machine ∧
      Turn foreign raw.body machine machine' ∧
      ∃ trace, trace = analyzeDirectives foreign budget (turn + 1) raws machine' raw.stop ∧
        trace.machine.complete = true ∧
        ∃ cond, analyzeDirectives foreign budget turn (raw :: raws) machine cursor = { trace with
            inactiveSpans :=
              activitySpan .false cursor raw.start machine.active ++ trace.inactiveSpans
            unknownSpans :=
              activitySpan .unknown cursor raw.start machine.active ++ trace.unknownSpans
            directives :=
              ⟨directiveKind raw.body, raw.body, raw.start, raw.stop, machine.active, cond⟩ ::
                trace.directives } := by
  rw [analyzeDirectives] at h ⊢
  split at h
  next hpoll =>
    rw [if_pos hpoll]
    by_cases hconsts : budget turn .constants = true
    · simp only [hconsts, if_true] at h ⊢
      have hstep : (step foreign (budget turn) raw.body machine).machine.complete = true := by
        split at h
        · exact analyzeDirectives_complete h
        · exact h
      obtain ⟨-, hgoesOn, turn_⟩ := step_completed hstep
      simp only [hgoesOn, if_true] at h ⊢
      exact ⟨_, rfl, turn_, _, rfl, h, _, rfl⟩
    · -- constants that were not understood leave the machine incomplete for good
      simp only [hconsts] at h
      have hstep : (step foreign (budget turn) raw.body machine.incomplete).machine.complete =
          true := by
        simp only [Bool.false_eq_true, if_false] at h
        split at h
        · exact analyzeDirectives_complete h
        · exact h
      exact absurd (step_completed hstep).1 (by simp [Machine.incomplete])
  · exact absurd h (by simp [Machine.incomplete])

/-- The spans of one activity. -/
def spansOf (wanted : Truth) (gaps : List (Span × Truth)) : List Span :=
  gaps.flatMap fun gap => activitySpan wanted gap.1.start gap.1.stop gap.2

variable (stop) in
include h in
/-- The spans of the analysis are those of the activities it gives to the pieces of text. -/
lemma analyzeDirectives_spans :
    let trace := analyzeDirectives foreign budget turn raws machine cursor
    let gaps := activities foreign budget stop turn raws machine cursor
    trace.inactiveSpans ++ activitySpan .false trace.cursor stop trace.machine.active =
        spansOf .false gaps ∧
      trace.unknownSpans ++ activitySpan .unknown trace.cursor stop trace.machine.active =
        spansOf .unknown gaps ∧
      trace.directives.map span = raws.map fun raw => ⟨raw.start, raw.stop⟩ := by
  induction raws generalizing turn machine cursor with
  | nil => simp [analyzeDirectives, activities, spansOf]
  | cons raw _ ih =>
    obtain ⟨_, hmachine', -, trace, htrace, hcomp, _, heq⟩ := analyzeDirectives_cons h
    rw [htrace] at hcomp
    obtain ⟨hinact, hunk, hdirs⟩ := ih hcomp
    rw [← htrace] at hinact hunk hdirs
    rw [heq]
    simp only [activities, ← hmachine', spansOf, List.flatMap_cons, List.map_cons,
      List.append_assoc, hdirs, span]
    exact ⟨congrArg _ hinact, congrArg _ hunk, trivial⟩

include h in
/-- The run lemma: the activity of each piece leaves open what the preprocessor does with it. -/
lemma activities_allow {version : Option CompilerVersion} {s : Preprocessor}
    (follows : Follows version machine s) (frag : InFragment raws)
    (sound : RunSound foreign budget version included turn raws machine s) :
    List.Forall₂ (fun (gap : Span × Truth) (piece : Span × Bool) =>
        gap.1 = piece.1 ∧ gap.2.Allows piece.2)
      (activities foreign budget stop turn raws machine cursor)
      (s.pieces included stop raws cursor) := by
  induction raws generalizing turn machine cursor s with
  | nil => exact .cons ⟨rfl, follows.active⟩ .nil
  | cons raw _ ih =>
    obtain ⟨_, hmachine', turn_, _, htrace, hcomp, -⟩ := analyzeDirectives_cons h
    obtain ⟨hstart, hmiddle⟩ := frag raw (by simp)
    rw [htrace] at hcomp
    rw [activities, Preprocessor.pieces, ← hmachine']
    refine .cons ⟨rfl, follows.active⟩ (ih hcomp ?_ ?_ ?_)
    · exact follows.step turn_ hstart hmiddle sound.1
    · exact fun raw hraw => frag raw (by simp [hraw])
    · exact hmachine' ▸ sound.2

variable (foreign budget turn machine) in
lemma activities_spans :
    (activities foreign budget stop turn raws machine cursor).map Prod.fst =
      gapSpans stop raws cursor := by
  induction raws generalizing turn machine cursor with
  | nil => rfl
  | cons _ _ ih => simp [activities, gapSpans, ih]

end Run

lemma mem_spansOf {wanted : Truth} {gaps : List (Span × Truth)} {span : Span} :
    span ∈ spansOf wanted gaps ↔ (span, wanted) ∈ gaps ∧ span.start < span.stop := by
  simp only [spansOf, activitySpan, List.mem_flatMap, Prod.exists]
  constructor
  · rintro ⟨gap, _, hmem, hspan⟩
    split at hspan
    next h =>
      obtain rfl : span = gap := by simpa using hspan
      exact ⟨h.2 ▸ hmem, h.1⟩
    · simp at hspan
  · rintro ⟨hmem, hlt⟩
    exact ⟨span, wanted, hmem, by simp [hlt]⟩

lemma exists_left_of_forall₂ (h : List.Forall₂ R as bs) {b : β}
    (hb : b ∈ bs) : ∃ a ∈ as, R a b := by
  induction h with
  | nil => simp at hb
  | @cons a _ as bs hab _ ih =>
    rcases List.mem_cons.mp hb with rfl | hb
    · exact ⟨a, by simp, hab⟩
    · obtain ⟨a', ha', hab'⟩ := ih hb
      exact ⟨a', List.mem_cons_of_mem _ ha', hab'⟩

lemma exists_right_of_forall₂ (h : List.Forall₂ R as bs) {a : α} (ha : a ∈ as) : ∃ b ∈ bs, R a b :=
  exists_left_of_forall₂ h.flip ha

/-- What a complete analysis is made of. -/
structure CompleteRun (foreign : Text → Environment → Truth × Bool)
    (budget : Nat → Charge → Bool) (source : Text) (context : ConditionalContext)
    (analysis : ConditionalAnalysis) (environment : Environment) : Prop where
  initial : initialEnvironment context = some environment
  run : (analyzeDirectives foreign budget 0 (lexDirectives source).directives
    ⟨environment, [], .true, true⟩ 0).machine.complete = true
  inactive : analysis.inactiveSpans = spansOf .false (activities foreign budget (byteLen source) 0
    (lexDirectives source).directives ⟨environment, [], .true, true⟩ 0)
  unknown : analysis.unknownSpans = spansOf .unknown (activities foreign budget (byteLen source) 0
    (lexDirectives source).directives ⟨environment, [], .true, true⟩ 0)
  directives : analysis.directives.map span =
    (lexDirectives source).directives.map fun raw => ⟨raw.start, raw.stop⟩
  projected : analysis.projectedSource = projectSource source analysis.inactiveSpans
    (analysis.directives.map span)

section Complete

variable {foreign : Text → Environment → Truth × Bool} {budget : Nat → Charge → Bool}
  {admitted : Bool} {src : Text} {ctx : ConditionalContext}
  {env : Environment} {lexed : LexResult} {initialComplete : Bool} {defines : Defines}

/-- A complete analysis has made a complete run from the given environment. -/
lemma analyzeLexed_complete
    (h : (analyzeLexed foreign budget src lexed env initialComplete).complete = true) :
    initialComplete = true ∧ lexed.complete = true ∧
      (analyzeDirectives foreign budget 0 lexed.directives ⟨env, [], .true, true⟩
        0).machine.complete = true := by
  simp only [analyzeLexed, Bool.and_eq_true] at h
  obtain ⟨⟨⟨hmach, -⟩, -⟩, -⟩ := h
  have hcomp := analyzeDirectives_complete hmach
  simp only [Bool.and_eq_true] at hcomp
  obtain ⟨hinit, hlexed⟩ := hcomp
  refine ⟨hinit, hlexed, ?_⟩
  simpa [hinit, hlexed] using hmach

lemma analyzeLexed_spans
    (h : (analyzeLexed foreign budget src lexed env initialComplete).complete = true) :
    let analysis := analyzeLexed foreign budget src lexed env initialComplete
    let gaps := activities foreign budget (byteLen src) 0 lexed.directives
      ⟨env, [], .true, true⟩ 0
    analysis.inactiveSpans = spansOf .false gaps ∧ analysis.unknownSpans = spansOf .unknown gaps ∧
      analysis.directives.map span = lexed.directives.map fun raw => ⟨raw.start, raw.stop⟩ := by
  obtain ⟨hinit, hlexed, hrun⟩ := analyzeLexed_complete h
  obtain ⟨hinact, hunk, hdirs⟩ := analyzeDirectives_spans (byteLen src) hrun
  subst hinit
  unfold analyzeLexed at h ⊢
  simp only [hlexed, Bool.and_self, if_true] at h ⊢
  rw [h]
  exact ⟨hinact, hunk, hdirs⟩

lemma analyzeWithContext_complete
    (h : (analyzeWithContext foreign budget admitted src ctx).complete = true) :
    ∃ env, CompleteRun foreign budget src ctx
      (analyzeWithContext foreign budget admitted src ctx) env := by
  unfold analyzeWithContext at h ⊢
  split at h
  · exact absurd (analyzeLexed_complete h).1 (by decide)
  next env hinit =>
    have hinitial' : initialEnvironment ctx = some env := by
      split at hinit
      · exact hinit
      · simp at hinit
    obtain ⟨hinact, hunk, hdirs⟩ := analyzeLexed_spans h
    exact ⟨env, hinitial', (analyzeLexed_complete h).2.2, hinact, hunk, hdirs, rfl⟩

/-- The first state of the machine follows the first state of the preprocessor. -/
lemma follows_start (hinit : initialEnvironment ctx = some env)
    (consistent : ctx.Consistent defines) :
    Follows ctx.compilerVersion ⟨env, [], .true, true⟩ (.start defines) where
  versioned := ⟨(importDefines_rest hinit).2, by simp, by simp⟩
  active := by simp [Preprocessor.start]
  environment := by
    intro _ symbol hs
    rw [environmentValue_initial hinit hs]
    exact consistent symbol hs
  frames := ⟨rfl, rfl⟩

/-- Each piece of text of a complete analysis has an activity that leaves open what the preprocessor
does with it. -/
lemma CompleteRun.pieces_allowed {analysis : ConditionalAnalysis}
    (run : CompleteRun foreign budget src ctx analysis env)
    (frag : InFragment (lexDirectives src).directives) (consistent : ctx.Consistent defines)
    (sound : RunSound foreign budget ctx.compilerVersion included 0
      (lexDirectives src).directives ⟨env, [], .true, true⟩ (.start defines)) :
    List.Forall₂ (fun (gap : Span × Truth) (piece : Span × Bool) =>
        gap.1 = piece.1 ∧ gap.2.Allows piece.2)
      (activities foreign budget (byteLen src) 0 (lexDirectives src).directives
        ⟨env, [], .true, true⟩ 0)
      (preprocess included src defines) :=
  activities_allow run.run (follows_start run.initial consistent) frag sound

end Complete

/-- The run of the analysis on the source in the context meets the condition at each directive. -/
def SoundRun (foreign : Text → Environment → Truth × Bool) (budget : Nat → Charge → Bool)
    (included : RawDirective → Defines → Defines) (source : Text) (context : ConditionalContext)
    (defines : Defines) : Prop :=
  ∀ environment, initialEnvironment context = some environment →
    RunSound foreign budget context.compilerVersion included 0 (lexDirectives source).directives
      ⟨environment, [], .true, true⟩ (.start defines)

/-- Inactive text is never compiled, and text that is neither inactive, unknown nor a directive
always is: in every run of the preprocessor, whatever the includes do, as long as at each directive
the meeting environments fit at the `VER` symbols and an executed include leaves these as the compiler
version defines them. -/
theorem analyze_sound_of_soundRun (foreign : Text → Environment → Truth × Bool)
    (budget : Nat → Charge → Bool) (admitted : Bool)
    (included : RawDirective → Defines → Defines) (source : Text) (context : ConditionalContext)
    (defines : Defines) (fragment : InFragment (lexDirectives source).directives)
    (consistent : context.Consistent defines)
    (sound : SoundRun foreign budget included source context defines)
    (complete : (analyzeWithContext foreign budget admitted source context).complete = true) :
    let analysis := analyzeWithContext foreign budget admitted source context
    (∀ p, (∃ span ∈ analysis.inactiveSpans, span.Contains p) →
      ¬ Compiled (preprocess included source defines) p) ∧
    (∀ p < byteLen source, (∀ span ∈ analysis.inactiveSpans, ¬ span.Contains p) →
      (∀ span ∈ analysis.unknownSpans, ¬ span.Contains p) →
      (∀ directive ∈ analysis.directives, ¬ directive.span.Contains p) →
      Compiled (preprocess included source defines) p) := by
  obtain ⟨environment, run⟩ := analyzeWithContext_complete complete
  have hpieces := run.pieces_allowed fragment consistent (sound environment run.initial)
  have hordered := lexDirectives_ordered source
  have hpairwise := hordered.gapSpans_pairwise
  rw [← activities_spans foreign budget 0 ⟨environment, [], .true, true⟩] at hpairwise
  constructor
  · rintro p ⟨span, hspan, hp⟩ ⟨piece, hpiece, hlive, hp'⟩
    rw [run.inactive, mem_spansOf] at hspan
    -- the activity of the compiled piece is that of the inactive span, for they share a byte
    obtain ⟨_, hgap, heq, hallows⟩ := exists_left_of_forall₂ hpieces hpiece
    rw [← heq] at hp'
    obtain rfl := gap_unique hpairwise hspan.1 hgap hp hp'
    simp [hlive] at hallows
  · intro p hp hinactive hunknown hdirectives
    rw [run.inactive] at hinactive
    rw [run.unknown] at hunknown
    rcases hordered.covered (Nat.zero_le p) hp with ⟨span, hspan, hcontains⟩ | ⟨raw, hraw, hcontains⟩
    · rw [← activities_spans foreign budget 0 ⟨environment, [], .true, true⟩] at hspan
      obtain ⟨⟨span, activity⟩, hgap, rfl⟩ := List.mem_map.mp hspan
      have hlt : span.start < span.stop := hcontains.1.trans_lt hcontains.2
      obtain ⟨piece, hpiece, rfl, hallows⟩ := exists_right_of_forall₂ hpieces hgap
      cases activity with
      | true => exact ⟨piece, hpiece, by simpa using hallows, hcontains⟩
      | false => exact absurd hcontains (hinactive _ (mem_spansOf.mpr ⟨hgap, hlt⟩))
      | unknown => exact absurd hcontains (hunknown _ (mem_spansOf.mpr ⟨hgap, hlt⟩))
    · have hmem : (⟨raw.start, raw.stop⟩ : Span) ∈
          (lexDirectives source).directives.map fun raw => ⟨raw.start, raw.stop⟩ :=
        List.mem_map_of_mem hraw
      rw [← run.directives] at hmem
      obtain ⟨directive, hdirective, heq⟩ := List.mem_map.mp hmem
      exact absurd (heq ▸ hcontains) (hdirectives directive hdirective)

/-! ## Where the condition is needed -/

/-- The symbols that the context says are defined. -/
def ConditionalContext.definesOf (context : ConditionalContext) : Defines :=
  fun symbol => decide (context.fact symbol = .true)

lemma ConditionalContext.consistent_definesOf (ctx : ConditionalContext) :
    ctx.Consistent ctx.definesOf := by
  intro symbol _
  unfold definesOf
  cases ctx.fact symbol <;> simp

/-- A closed set of defines for version 35.0 in which only `X` is not known. -/
def closedContext : ConditionalContext :=
  ⟨[("X".toList, .unknown)], .false, some ⟨35, 0, 0, some 35, 0⟩⟩

/-- No condition outside the fragment is understood. -/
def noForeign : Text → Environment → Truth × Bool := fun _ _ => (.unknown, false)

def unlimited : Nat → Charge → Bool := fun _ _ => true

/-- `VER350` is undefined in a branch that may be skipped, and tested after it. -/
def undefSource : Text :=
  "\x7b$IFDEF X\x7d\x7b$UNDEF VER350\x7d\x7b$ENDIF\x7d\x7b$IFDEF VER350\x7da\x7b$ENDIF\x7d".toList

/-- `VER350` is tested after an include. -/
def includeSource : Text := "\x7b$I x\x7d\x7b$IFDEF VER350\x7da\x7b$ENDIF\x7d".toList

/-- Without the condition the analysis is wrong.  The meeting of a branch that undefines `VER350` with
one that does not takes the symbol for undefined, so its text is inactive, though a run compiles it;
and an include that undefines `VER350` leaves text active that the run does not compile. -/
theorem analyze_wrong_about_version :
    (InFragment (lexDirectives undefSource).directives ∧
      closedContext.Consistent closedContext.definesOf ∧
      (analyzeWithContext noForeign unlimited true undefSource closedContext).complete = true ∧
      ⟨48, 49⟩ ∈
        (analyzeWithContext noForeign unlimited true undefSource closedContext).inactiveSpans ∧
      (⟨48, 49⟩, true) ∈ preprocess (fun _ => id) undefSource closedContext.definesOf) ∧
    (InFragment (lexDirectives includeSource).directives ∧
      (analyzeWithContext noForeign unlimited true includeSource closedContext).complete = true ∧
      (analyzeWithContext noForeign unlimited true includeSource closedContext).inactiveSpans = [] ∧
      (analyzeWithContext noForeign unlimited true includeSource closedContext).unknownSpans = [] ∧
      (⟨21, 22⟩, false) ∈ preprocess (fun _ _ _ => false) includeSource closedContext.definesOf) :=
  ⟨⟨by decide +kernel, closedContext.consistent_definesOf, by decide +kernel, by decide +kernel,
      by decide +kernel⟩,
    by decide +kernel⟩

lemma Environment.absentFits_self (env : Environment) : env.AbsentFits env := by
  intro symbol fact _ hnone hsome
  simp [hnone] at hsome

/-- A conditional on a symbol that is not known, with an unknown and an active piece of text. -/
def openSource : Text := "\x7b$IFDEF X\x7da\x7b$ENDIF\x7db".toList

lemma soundRun_openSource (included : RawDirective → Defines → Defines) :
    SoundRun noForeign unlimited included openSource closedContext closedContext.definesOf := by
  intro env _
  have hlex : (lexDirectives openSource).directives =
      [⟨0, 10, "IFDEF X".toList⟩, ⟨11, 19, "ENDIF".toList⟩] := by decide +kernel
  have hstart : directiveKind "IFDEF X".toList = .conditionalStart := by decide +kernel
  have hend : directiveKind "ENDIF".toList = .conditionalEnd := by decide +kernel
  rw [hlex]
  refine ⟨by simp only [StepSound, hstart], ?_, trivial⟩
  simp only [StepSound, hend, step, hstart]
  simp [startConditional, unlimited, ConditionalFrame.EndMeetsSoundly,
    ConditionalFrame.BranchMeetsSoundly, ConditionalFrame.mergeCurrent, mergeEnvironment,
    MeetsSoundly, Environment.absentFits_self, maxConditionalDepth]

theorem analyze_sound_openSource :
    (∃ span ∈ (analyzeWithContext noForeign unlimited true openSource closedContext).unknownSpans,
      span.Contains 10) ∧
    Compiled (preprocess (fun _ => id) openSource closedContext.definesOf) 19 :=
  ⟨by decide +kernel,
    (analyze_sound_of_soundRun noForeign unlimited true (fun _ => id) openSource closedContext
      closedContext.definesOf (by decide +kernel) closedContext.consistent_definesOf
      (soundRun_openSource _) (by decide +kernel)).2 19 (by decide +kernel) (by decide +kernel)
      (by decide +kernel) (by decide +kernel)⟩

end Lint4d.Conditional
