import Lint4d.Conditional.Analysis

/-!
# What one directive can do

A directive after which the analysis is still complete did one of a few things,
whatever the limits were.
-/

namespace Lint4d.Conditional

open Lint4d.Lib

/-- The frame in the next branch of a conditional. -/
def ConditionalFrame.nextBranch (frame : ConditionalFrame) (environment : Environment)
    (isElse : Bool) (condition : Truth) : ConditionalFrame :=
  { frame with
    hasElse := isElse
    currentActive := (frame.parentActive.and frame.remaining).and condition
    remaining := frame.remaining.and condition.not
    mergedEnvironment := frame.mergeCurrent environment }

variable (foreign : Text → Environment → Truth × Bool) (body : Text) (environment : Environment) in
/-- The fact about the condition of a branch; `ELSE` is a branch whose condition is true. -/
inductive BranchCondition : Truth → Prop
  | isElse (h : isElseDirective body = true) : BranchCondition .true
  | elseIf {condition} (h : isElseDirective body = false)
      (understood : evaluateCondition foreign body environment = (condition, true)) :
      BranchCondition condition

variable (foreign : Text → Environment → Truth × Bool) (body : Text) (machine : Machine) in
/-- The effect of a directive after which the analysis is still complete. -/
inductive Turn :
    Machine → Prop
  | ifStart {condition} (kind : directiveKind body = .conditionalStart)
      (understood : evaluateCondition foreign body machine.environment = (condition, true)) : Turn
        { machine with
          frames :=
            { parentActive := machine.active
              beforeEnvironment := machine.environment
              remaining := condition.not
              currentActive := machine.active.and condition
              hasElse := false
              mergedEnvironment := none } :: machine.frames
          active := machine.active.and condition }
  | branch {condition frame frames} (kind : directiveKind body = .conditionalMiddle)
      (open_ : machine.frames = frame :: frames) (first : frame.hasElse = false)
      (value : BranchCondition foreign body frame.beforeEnvironment condition) : Turn
        { machine with
          environment := frame.beforeEnvironment
          frames := frame.nextBranch machine.environment (isElseDirective body) condition :: frames
          active := (frame.parentActive.and frame.remaining).and condition }
  | ifEnd {frame frames}
      (kind : directiveKind body = .conditionalEnd) (open_ : machine.frames = frame :: frames) :
      Turn
        { machine with
          environment := mergeConditionalEnvironment frame machine.environment
          frames := frames
          active := frame.parentActive }
  | define {symbol} (b : Bool) (kind : directiveKind body = if b then .define else .undef)
      (named : directiveSymbol body = some symbol) : Turn
        { machine with
          environment := applyFact machine.environment symbol (Truth.ofBool b) machine.active }
  | skippedInclude (kind : directiveKind body = .include) (inactive : machine.active = .false) :
      Turn machine
  | unresolvedInclude (kind : directiveKind body = .include) (active : machine.active ≠ .false) :
      Turn { machine with environment := machine.environment.clear }
  | other (kind : directiveKind body = .other) : Turn machine

section Turn

variable {foreign : Text → Environment → Truth × Bool} {admits : Charge → Bool} {body : Text}
  {machine : Machine}

/-- What a step has done when the machine is still complete after it. -/
def Completed (foreign : Text → Environment → Truth × Bool) (body : Text) (machine : Machine)
    (result : StepResult) : Prop :=
  result.machine.complete = true →
    machine.complete = true ∧ result.goesOn = true ∧ Turn foreign body machine result.machine

lemma Completed.of_incomplete {result : StepResult} (h : result.machine.complete = false) :
    Completed foreign body machine result := by
  intro hcomp
  rw [h] at hcomp
  exact absurd hcomp (by decide)

lemma startConditional_completed (kind : directiveKind body = .conditionalStart) :
    Completed foreign body machine (startConditional foreign admits body machine) := by
  unfold startConditional
  split
  · exact .of_incomplete rfl
  · obtain ⟨env, _, _, complete⟩ := machine
    generalize hcond : evaluateCondition foreign body env = result
    obtain ⟨_, known⟩ := result
    dsimp only
    split
    · intro hcomp
      obtain ⟨rfl, rfl⟩ : complete = true ∧ known = true := by simpa using hcomp
      exact ⟨rfl, rfl, .ifStart kind hcond⟩
    · exact .of_incomplete rfl

lemma middleConditional_completed (kind : directiveKind body = .conditionalMiddle) :
    Completed foreign body machine (middleConditional foreign admits body machine) := by
  obtain ⟨env, frames, active, complete⟩ := machine
  unfold middleConditional
  cases frames with
  | nil => exact .of_incomplete rfl
  | cons frame frames =>
    dsimp only
    split
    · exact .of_incomplete rfl
    split
    · split
      next isElse =>
        intro hcomp
        obtain ⟨rfl, first⟩ : complete = true ∧ frame.hasElse = false := by
          simpa using hcomp
        have turn : Turn foreign body ⟨env, frame :: frames, active, true⟩ _ :=
          .branch kind rfl first (.isElse isElse)
        refine ⟨rfl, rfl, ?_⟩
        simpa [first, ConditionalFrame.nextBranch, isElse, Truth.not] using turn
      next isElse =>
        generalize hcond : evaluateCondition foreign body frame.beforeEnvironment = result
        obtain ⟨_, known⟩ := result
        intro hcomp
        obtain ⟨⟨rfl, first⟩, rfl⟩ : (complete = true ∧ frame.hasElse = false) ∧ known = true := by
          simpa using hcomp
        have isElse' : isElseDirective body = false := by simpa using isElse
        have turn : Turn foreign body ⟨env, frame :: frames, active, true⟩ _ :=
          .branch kind rfl first (.elseIf isElse' hcond)
        refine ⟨rfl, rfl, ?_⟩
        simpa [first, ConditionalFrame.nextBranch, isElse'] using turn
    · exact .of_incomplete rfl

lemma endConditional_completed (kind : directiveKind body = .conditionalEnd) :
    Completed foreign body machine (endConditional admits machine) := by
  unfold endConditional
  split
  · exact .of_incomplete rfl
  next _ _ open_ =>
    split
    · exact .of_incomplete rfl
    · exact fun hcomp => ⟨hcomp, rfl, .ifEnd kind open_⟩

lemma applyDefine_completed (b : Bool) (kind : directiveKind body = if b then .define else .undef) :
    Completed foreign body machine (applyDefine admits body (Truth.ofBool b) machine) := by
  unfold applyDefine
  split
  · exact .of_incomplete rfl
  next _ named =>
    split
    · exact fun hcomp => ⟨hcomp, rfl, .define b kind named⟩
    · exact .of_incomplete rfl

/-- If the analysis is complete after a directive, it was before, the loop goes on, and the
directive did one of the things of `Turn`. -/
lemma step_completed : Completed foreign body machine (step foreign admits body machine) := by
  unfold step
  split
  next kind => exact startConditional_completed kind
  next kind => exact middleConditional_completed kind
  next kind => exact endConditional_completed kind
  next kind => exact applyDefine_completed true kind
  next kind => exact applyDefine_completed false kind
  next kind =>
    split
    next inactive => exact fun hcomp => ⟨hcomp, rfl, .skippedInclude kind inactive⟩
    next active => exact fun hcomp => ⟨hcomp, rfl, .unresolvedInclude kind active⟩
  next kind =>
    split
    · exact .of_incomplete rfl
    · exact fun hcomp => ⟨hcomp, rfl, .other kind⟩

end Turn

end Lint4d.Conditional
