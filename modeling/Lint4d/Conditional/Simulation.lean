import Lint4d.Conditional.Describes
import Lint4d.Conditional.Turn

/-!
# The analysis follows the preprocessor

The environment of a branch that the preprocessor is in describes the defined
symbols; a frame remembers enough to say the same of the environment before the
conditional and of the branches already left.  One directive keeps this.
-/

namespace Lint4d.Conditional

open Lint4d.Lib

variable {env : Environment} {defines : Defines} {live : Bool}

/-- The environments of the machine all know the compiler version of the context. -/
structure Machine.Versioned (version : Option CompilerVersion) (machine : Machine) : Prop where
  environment : machine.environment.compilerVersion = version
  before : ∀ frame ∈ machine.frames, frame.beforeEnvironment.compilerVersion = version
  merged : ∀ frame ∈ machine.frames, ∀ environment, frame.mergedEnvironment = some environment →
    environment.compilerVersion = version

/-- What a frame remembers is right: which branches may be compiled, and the environments before
the conditional and after the branches already left, whichever the preprocessor has taken. -/
structure ConditionalFrame.Follows (frame : ConditionalFrame) (top : OpenConditional)
    (active : Truth) (live : Bool) (defines : Defines) : Prop where
  current : frame.currentActive = active
  parent : frame.parentActive.Allows top.parentLive
  nested : live = true → top.parentLive = true ∧ top.taken = true
  remaining : top.parentLive = true → frame.remaining.Allows !top.taken
  before : top.parentLive = true → top.taken = false → frame.beforeEnvironment.Describes defines
  merged : top.parentLive = true → top.taken = true → live = false →
    ∃ environment, frame.mergedEnvironment = some environment ∧ environment.Describes defines
  hasElse : frame.hasElse = true → top.taken = true

def FramesFollow : List ConditionalFrame → List OpenConditional → Truth → Bool → Defines → Prop
  | [], [], active, live, _ => active = .true ∧ live = true
  | frame :: frames, top :: stack, active, live, defines =>
    frame.Follows top active live defines ∧
      FramesFollow frames stack frame.parentActive top.parentLive defines
  | _, _, _, _, _ => False

/-- The machine follows the preprocessor. -/
structure Follows (version : Option CompilerVersion) (machine : Machine) (s : Preprocessor) :
    Prop where
  versioned : machine.Versioned version
  active : machine.active.Allows s.live
  environment : s.live = true → machine.environment.Describes s.defines
  frames : FramesFollow machine.frames s.stack machine.active s.live s.defines

variable {frames : List ConditionalFrame} {active : Truth}

/-- Where text is compiled, frames say nothing about the defined symbols of the moment. -/
lemma FramesFollow.of_live {stack : List OpenConditional} (defines' : Defines)
    (h : FramesFollow frames stack active true defines) :
    FramesFollow frames stack active true defines' := by
  induction frames generalizing stack active with
  | nil => cases stack <;> exact h
  | cons _ frames ih =>
    cases stack with
    | nil => exact h
    | cons _ stack =>
      obtain ⟨hframe, htail⟩ := h
      obtain ⟨hpar, htaken⟩ := hframe.nested rfl
      rw [FramesFollow, hpar]
      refine ⟨{ hframe with
        before := fun _ hfalse => ?_
        merged := fun _ _ hfalse => ?_ }, ih (hpar ▸ htail)⟩
      · rw [htaken] at hfalse
        exact absurd hfalse (by decide)
      · exact absurd hfalse (by decide)

/-- The meetings at the end of a branch are harmless. -/
def ConditionalFrame.BranchMeetsSoundly (frame : ConditionalFrame) (environment : Environment) :
    Prop :=
  frame.currentActive ≠ .false → ∀ merged, frame.mergedEnvironment = some merged →
    MeetsSoundly merged environment

/-- The meetings at the end of a conditional are harmless. -/
def ConditionalFrame.EndMeetsSoundly (frame : ConditionalFrame) (environment : Environment) :
    Prop :=
  frame.BranchMeetsSoundly environment ∧
    (frame.skippable = true → ∀ merged, frame.mergeCurrent environment = some merged →
      MeetsSoundly merged frame.beforeEnvironment)

/-- The condition under which one directive keeps the machine right. -/
def StepSound (version : Option CompilerVersion) (included : Defines → Defines) (body : Text)
    (machine : Machine) (s : Preprocessor) : Prop :=
  match directiveKind body with
  | .conditionalMiddle =>
    ∀ frame ∈ machine.frames.head?, frame.BranchMeetsSoundly machine.environment
  | .conditionalEnd => ∀ frame ∈ machine.frames.head?, frame.EndMeetsSoundly machine.environment
  | .include => s.live = true → KeepsVersion version (included s.defines)
  | _ => True

/-- What the branches so far have left is of one compiler version. -/
def ConditionalFrame.OfVersion (frame : ConditionalFrame) (version : Option CompilerVersion) :
    Prop :=
  ∀ merged, frame.mergedEnvironment = some merged → merged.compilerVersion = version

section Merge

variable {frame : ConditionalFrame} {version : Option CompilerVersion}

lemma mergeCurrent_version (hmerge : frame.OfVersion version) (henv : env.compilerVersion = version)
    {merged : Environment} (h : frame.mergeCurrent env = some merged) :
    merged.compilerVersion = version := by
  unfold ConditionalFrame.mergeCurrent mergeEnvironment at h
  split at h
  · split at h
    · obtain rfl : env = merged := by simpa using h
      exact henv
    next current hcur =>
      obtain rfl : meet current env = merged := by simpa using h
      have := hmerge current hcur
      simp [meet, this, henv]
  · exact hmerge merged h

/-- The branch that ends was the one compiled: its environment is in the merge. -/
lemma mergeCurrent_of_live (hactive : frame.currentActive ≠ .false)
    (hmeets : frame.BranchMeetsSoundly env) (hver : frame.OfVersion env.compilerVersion)
    (h : env.Describes defines) :
    ∃ merged, frame.mergeCurrent env = some merged ∧ merged.Describes defines := by
  unfold ConditionalFrame.mergeCurrent mergeEnvironment
  rw [if_pos hactive]
  cases hmerge : frame.mergedEnvironment with
  | none => exact ⟨env, rfl, h⟩
  | some merged =>
    exact ⟨_, rfl, h.meet_right (hmeets hactive merged hmerge).2 (hver merged hmerge)⟩

/-- An earlier branch was the one compiled: its environment stays in the merge. -/
lemma mergeCurrent_of_taken (hmeets : frame.BranchMeetsSoundly env)
    (hver : frame.OfVersion env.compilerVersion)
    (h : ∃ merged, frame.mergedEnvironment = some merged ∧ merged.Describes defines) :
    ∃ merged, frame.mergeCurrent env = some merged ∧ merged.Describes defines := by
  obtain ⟨merged, hmerge, hdesc⟩ := h
  unfold ConditionalFrame.mergeCurrent mergeEnvironment
  split
  next hactive =>
    rw [hmerge]
    exact ⟨_, rfl, hdesc.meet_left (hmeets hactive merged hmerge).1 (hver merged hmerge)⟩
  · exact ⟨merged, hmerge, hdesc⟩

variable {top : OpenConditional}

/-- The environment after a conditional, whichever branch was compiled, or none. -/
lemma mergeConditional_describes (h : frame.Follows top active live defines)
    (hactive : active.Allows live) (hmeets : frame.EndMeetsSoundly env)
    (henv : env.compilerVersion = version)
    (hbefore : frame.beforeEnvironment.compilerVersion = version) (hver : frame.OfVersion version)
    (hlive : live = true → env.Describes defines) (hpar : top.parentLive = true) :
    (mergeConditionalEnvironment frame env).Describes defines := by
  have hversion' : frame.OfVersion env.compilerVersion := henv ▸ hver
  unfold mergeConditionalEnvironment
  cases htaken : top.taken with
  | true =>
    -- some branch was compiled, so its environment is in the merge
    have hmerge : ∃ merged, frame.mergeCurrent env = some merged ∧ merged.Describes defines := by
      cases live with
      | true =>
        have hne : frame.currentActive ≠ .false := h.current ▸ hactive.ne_false
        exact mergeCurrent_of_live hne hmeets.1 hversion' (hlive rfl)
      | false => exact mergeCurrent_of_taken hmeets.1 hversion' (h.merged hpar htaken rfl)
    obtain ⟨merged, hmerged, hdesc⟩ := hmerge
    rw [hmerged]
    split
    next hskip =>
      exact hdesc.meet_left (hmeets.2 hskip merged hmerged).1
        ((mergeCurrent_version hver henv hmerged).trans hbefore.symm)
    · exact hdesc
  | false =>
    -- no branch was compiled, so the environment before the conditional is in the merge
    have hdesc := h.before hpar htaken
    have hskip : frame.skippable = true := by
      have hne : frame.remaining ≠ .false := by
        have := h.remaining hpar
        rw [htaken] at this
        exact this.ne_false
      have helse : frame.hasElse = false := by
        rw [← Bool.not_eq_true]
        intro helse
        exact absurd (h.hasElse helse) (by simp [htaken])
      simp [ConditionalFrame.skippable, hne, helse]
    rw [if_pos hskip]
    cases hmerged : frame.mergeCurrent env with
    | none => exact hdesc
    | some merged =>
      exact hdesc.meet_right (hmeets.2 hskip merged hmerged).2
        ((mergeCurrent_version hver henv hmerged).trans hbefore.symm)

lemma mergeConditional_version (henv : env.compilerVersion = version)
    (hbefore : frame.beforeEnvironment.compilerVersion = version) (hver : frame.OfVersion version) :
    (mergeConditionalEnvironment frame env).compilerVersion = version := by
  unfold mergeConditionalEnvironment
  cases hmerge : frame.mergeCurrent env with
  | none => split <;> exact hbefore
  | some =>
    have := mergeCurrent_version hver henv hmerge
    split
    · simp [mergeEnvironment, meet, this, hbefore]
    · exact this

end Merge

/-! ## One directive -/

variable {cond : Truth}

section Step

variable {foreign : Text → Environment → Truth × Bool} {version : Option CompilerVersion}
  {included : Defines → Defines} {body : Text} {machine machine' : Machine} {s : Preprocessor}

lemma Turn.versioned (turn : Turn foreign body machine machine')
    (h : machine.Versioned version) : machine'.Versioned version := by
  cases turn with
  | ifStart =>
    refine ⟨h.environment, ?_, ?_⟩
    · rintro frame (_ | ⟨_, hframe⟩)
      · exact h.environment
      · exact h.before frame hframe
    · rintro frame (_ | ⟨_, hframe⟩) env hmerge
      · simp at hmerge
      · exact h.merged frame hframe env hmerge
  | @branch _ frame frames kind open_ =>
    have hmem : frame ∈ machine.frames := by simp [open_]
    have htail : ∀ f ∈ frames, f ∈ machine.frames := fun f hf => by simp [open_, hf]
    refine ⟨h.before frame hmem, ?_, ?_⟩
    · rintro f (_ | ⟨_, hf⟩)
      · exact h.before frame hmem
      · exact h.before f (htail f hf)
    · rintro f (_ | ⟨_, hf⟩) env hmerge
      · exact mergeCurrent_version (h.merged frame hmem) h.environment hmerge
      · exact h.merged f (htail f hf) env hmerge
  | @ifEnd frame frames kind open_ =>
    have hmem : frame ∈ machine.frames := by simp [open_]
    have htail : ∀ f ∈ frames, f ∈ machine.frames := fun f hf => by simp [open_, hf]
    exact ⟨mergeConditional_version h.environment (h.before frame hmem) (h.merged frame hmem),
      fun f hf => h.before f (htail f hf), fun f hf => h.merged f (htail f hf)⟩
  | define b kind => exact ⟨by simpa using h.environment, h.before, h.merged⟩
  | skippedInclude | other => exact h
  | unresolvedInclude => exact ⟨h.environment, h.before, h.merged⟩

variable {frame : ConditionalFrame}

/-- A machine that follows, with its top frame and the preprocessor's open conditional. -/
lemma Follows.top (h : Follows version machine s) (open_ : machine.frames = frame :: frames) :
    ∃ top rest, s.stack = top :: rest ∧ frame.Follows top machine.active s.live s.defines ∧
      FramesFollow frames rest frame.parentActive top.parentLive s.defines := by
  have hframes := h.frames
  rw [open_] at hframes
  cases hstack : s.stack with
  | nil =>
    rw [hstack] at hframes
    exact hframes.elim
  | cons top rest =>
    rw [hstack] at hframes
    exact ⟨top, rest, rfl, hframes.1, hframes.2⟩

lemma Follows.ifStart (h : Follows version machine s)
    (kind : directiveKind body = .conditionalStart) (fragment : (conditionOf body).isSome)
    (understood : evaluateCondition foreign body machine.environment = (cond, true)) :
    Follows version
      { machine with
        frames :=
          { parentActive := machine.active
            beforeEnvironment := machine.environment
            remaining := cond.not
            currentActive := machine.active.and cond
            hasElse := false
            mergedEnvironment := none } :: machine.frames
        active := machine.active.and cond }
      (s.step included body) := by
  have turn := Turn.ifStart kind understood
  have hallows : s.live = true → cond.Allows (conditionHolds body s.defines) :=
    fun hlive => evaluateCondition_allows fragment understood (h.environment hlive)
  simp only [Preprocessor.step, kind]
  refine ⟨turn.versioned h.versioned, ?_, ?_, ?_, h.frames⟩
  · show (machine.active.and cond).Allows (s.live && conditionHolds body s.defines)
    cases hlive : s.live with
    | true => exact Truth.Allows.and (hlive ▸ h.active) (hallows hlive)
    | false => exact Truth.and_allows_false_left (hlive ▸ h.active) cond
  · intro hlive
    simp only [Bool.and_eq_true] at hlive
    exact h.environment hlive.1
  · constructor
    · rfl
    · exact h.active
    · intro hlive
      simpa using hlive
    · exact fun hlive => (hallows hlive).not
    · exact fun hlive _ => h.environment hlive
    · intro hlive htaken hdead
      simp_all
    · simp

/-- A further branch is taken when its condition holds and no earlier branch was. -/
lemma ConditionalFrame.Follows.branch {holds : Bool} {isElse : Bool}
    (h : frame.Follows top active live defines) (hactive : active.Allows live)
    (hmeets : frame.BranchMeetsSoundly env) (hver : frame.OfVersion env.compilerVersion)
    (henv : live = true → env.Describes defines)
    (hcond : top.parentLive = true → top.taken = false → cond.Allows holds)
    (helse : isElse = true → holds = true) :
    (frame.nextBranch env isElse cond).Follows
      ⟨top.parentLive, top.taken || holds⟩ ((frame.parentActive.and frame.remaining).and cond)
      (top.parentLive && !top.taken && holds) defines := by
  constructor
  · rfl
  · exact h.parent
  · intro hlive
    simp_all
  · intro hpar
    have hrem := h.remaining hpar
    cases htaken : top.taken with
    | true =>
      rw [htaken] at hrem
      exact Truth.and_allows_false_left hrem _
    | false =>
      rw [htaken] at hrem
      exact hrem.and (hcond hpar htaken).not
  · intro hpar htaken
    simp only [Bool.or_eq_false_iff] at htaken
    exact h.before hpar htaken.1
  · intro hpar htaken hdead
    -- the new branch is not the one compiled, so an earlier one was
    have htaken' : top.taken = true := by
      cases ht : top.taken <;> simp_all
    cases live with
    | true => exact mergeCurrent_of_live (h.current ▸ hactive.ne_false) hmeets hver (henv rfl)
    | false => exact mergeCurrent_of_taken hmeets hver (h.merged hpar htaken' rfl)
  · intro hset
    simp [helse hset]

lemma ConditionalFrame.Follows.branch_active {holds : Bool}
    (h : frame.Follows top active live defines)
    (hcond : top.parentLive = true → top.taken = false → cond.Allows holds) :
    ((frame.parentActive.and frame.remaining).and cond).Allows
      (top.parentLive && !top.taken && holds) := by
  have hallows := h.parent
  cases hpar : top.parentLive with
  | false =>
    rw [hpar] at hallows
    exact Truth.and_allows_false_left (Truth.and_allows_false_left hallows _) _
  | true =>
    rw [hpar] at hallows
    have hrem := h.remaining hpar
    cases htaken : top.taken with
    | true =>
      rw [htaken] at hrem
      exact Truth.and_allows_false_left (Truth.and_allows_false_right hrem _) _
    | false =>
      rw [htaken] at hrem
      exact (hallows.and hrem).and (hcond hpar htaken)

lemma BranchCondition.allows (h : BranchCondition foreign body env cond)
    (fragment : isElseDirective body ∨ (conditionOf body).isSome)
    (describes : env.Describes defines) :
    cond.Allows (isElseDirective body || conditionHolds body defines) := by
  cases h with
  | isElse h => simp [h]
  | elseIf h understood =>
    rcases fragment with hElse | hsome
    · simp [h] at hElse
    · simpa [h] using evaluateCondition_allows hsome understood describes

section

variable (h : Follows version machine s)

include h

lemma Follows.branch (kind : directiveKind body = .conditionalMiddle)
    (fragment : isElseDirective body ∨ (conditionOf body).isSome)
    (sound : StepSound version included body machine s) (open_ : machine.frames = frame :: frames)
    (first : frame.hasElse = false)
    (value : BranchCondition foreign body frame.beforeEnvironment cond) :
    Follows version
      { machine with
        environment := frame.beforeEnvironment
        frames := frame.nextBranch machine.environment (isElseDirective body) cond :: frames
        active := (frame.parentActive.and frame.remaining).and cond }
      (s.step included body) := by
  obtain ⟨top, _, hstack, hframe, htail⟩ := h.top open_
  have hmem : frame ∈ machine.frames := by simp [open_]
  have hmeets : frame.BranchMeetsSoundly machine.environment := by
    simp only [StepSound, kind] at sound
    exact sound frame (by simp [open_])
  have hcond : top.parentLive = true → top.taken = false →
      cond.Allows (isElseDirective body || conditionHolds body s.defines) :=
    fun hpar htaken => value.allows fragment (hframe.before hpar htaken)
  simp only [Preprocessor.step, kind, hstack]
  refine ⟨(Turn.branch kind open_ first value).versioned h.versioned,
    hframe.branch_active hcond, ?_, ?_, htail⟩
  · intro hlive
    simp only [Bool.and_eq_true, Bool.not_eq_true'] at hlive
    exact hframe.before hlive.1.1 hlive.1.2
  · exact hframe.branch h.active hmeets
      (fun merged hmerge => (h.versioned.merged frame hmem merged hmerge).trans
        h.versioned.environment.symm)
      h.environment hcond (fun hset => by simp [hset])

lemma Follows.ifEnd (kind : directiveKind body = .conditionalEnd)
    (sound : StepSound version included body machine s) (open_ : machine.frames = frame :: frames)
    (versioned : Machine.Versioned version
      { machine with
        environment := mergeConditionalEnvironment frame machine.environment
        frames := frames
        active := frame.parentActive }) :
    Follows version
      { machine with
        environment := mergeConditionalEnvironment frame machine.environment
        frames := frames
        active := frame.parentActive }
      (s.step included body) := by
  obtain ⟨top, _, hstack, hframe, htail⟩ := h.top open_
  have hmem : frame ∈ machine.frames := by simp [open_]
  have hmeets : frame.EndMeetsSoundly machine.environment := by
    have := sound
    simp only [StepSound, kind] at this
    exact this frame (by simp [open_])
  simp only [Preprocessor.step, kind, hstack]
  refine ⟨versioned, hframe.parent, ?_, htail⟩
  exact mergeConditional_describes hframe h.active hmeets h.versioned.environment
    (h.versioned.before frame hmem) (h.versioned.merged frame hmem) h.environment

lemma Follows.define {symbol : Text} (b : Bool) (named : directiveSymbol body = some symbol)
    (versioned : Machine.Versioned version
      { machine with
        environment := applyFact machine.environment symbol (Truth.ofBool b) machine.active }) :
    Follows version
      { machine with
        environment := applyFact machine.environment symbol (Truth.ofBool b) machine.active }
      (s.define (directiveSymbol body) b) := by
  rw [named]
  unfold Preprocessor.define
  cases hlive : s.live with
  | false =>
    exact ⟨versioned, h.active, fun hlive' => absurd (hlive.symm.trans hlive') (by decide), h.frames⟩
  | true =>
    have hne : machine.active ≠ .false := (hlive ▸ h.active).ne_false
    refine ⟨versioned, by simpa [hlive] using h.active, fun _ => ?_, ?_⟩
    · show Environment.Describes (applyFact _ _ _ _) _
      rw [applyFact_symbol (isSymbol_directiveSymbol named), if_neg hne]
      exact (h.environment hlive).insert symbol b
    · have hframes := h.frames
      rw [hlive] at hframes
      simpa [hlive] using hframes.of_live _

lemma Follows.include (keeps : s.live = true → KeepsVersion version (included s.defines)) :
    Follows version { machine with environment := machine.environment.clear }
      (if s.live = true then { s with defines := included s.defines } else s) := by
  have versioned : Machine.Versioned version
      { machine with environment := machine.environment.clear } :=
    ⟨h.versioned.environment, h.versioned.before, h.versioned.merged⟩
  cases hlive : s.live with
  | false =>
    exact ⟨versioned, h.active, fun hlive' => absurd (hlive.symm.trans hlive') (by decide), h.frames⟩
  | true =>
    refine ⟨versioned, by simpa [hlive] using h.active, fun _ => ?_, ?_⟩
    · apply Environment.describes_clear
      rw [h.versioned.environment]
      exact keeps hlive
    · have hframes := h.frames
      rw [hlive] at hframes
      simpa [hlive] using hframes.of_live _

/-- The machine still follows the preprocessor after a directive. -/
lemma Follows.step (turn : Turn foreign body machine machine')
    (startFragment : directiveKind body = .conditionalStart → (conditionOf body).isSome)
    (middleFragment : directiveKind body = .conditionalMiddle →
      isElseDirective body ∨ (conditionOf body).isSome)
    (sound : StepSound version included body machine s) :
    Follows version machine' (s.step included body) := by
  have versioned := turn.versioned h.versioned
  cases turn with
  | ifStart kind understood => exact h.ifStart kind (startFragment kind) understood
  | branch kind open_ first value =>
    exact h.branch kind (middleFragment kind) sound open_ first value
  | ifEnd kind open_ => exact h.ifEnd kind sound open_ versioned
  | define b kind named =>
    have hdefine := h.define b named versioned
    cases b <;> simpa [Preprocessor.step, kind] using hdefine
  | skippedInclude kind inactive =>
    have hdead : s.live = false := by
      have := h.active
      rwa [inactive, Truth.false_allows_iff] at this
    simpa [Preprocessor.step, kind, hdead] using h
  | unresolvedInclude kind active =>
    simp only [StepSound, kind] at sound
    simpa [Preprocessor.step, kind] using h.include sound
  | other kind => simpa [Preprocessor.step, kind] using h

end

end Step

end Lint4d.Conditional
