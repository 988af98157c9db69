import Lint4d.Cache.Encoding
import Lint4d.Conditional.Environment
import Lint4d.Conditional.Lexer

/-!
# The conditional analysis

One pass over the directives keeps an environment, a frame for every open
conditional, and whether the text at hand is compiled.  Each branch starts from
the environment before the conditional; at the end of the conditional the
environments of the branches that may be compiled are merged.

Charges against the work and size limits, the constants and options of the
source, and conditions outside the fragment do not touch the defines; their
outcomes are parameters.
-/

namespace Lint4d.Conditional

open Lint4d.Lib Lint4d.Cache

/-- The points of one turn at which a limit may be found exceeded, or a constant or option not
understood. -/
inductive Charge where
  | poll
  | constants
  | clone
  | merge
  | mergeBefore
  | fact
  | option
deriving DecidableEq, Repr

structure ConditionalFrame where
  parentActive : Truth
  beforeEnvironment : Environment
  remaining : Truth
  currentActive : Truth
  hasElse : Bool
  mergedEnvironment : Option Environment

structure Machine where
  environment : Environment
  frames : List ConditionalFrame
  active : Truth
  complete : Bool

def Machine.incomplete (machine : Machine) : Machine := { machine with complete := false }

/-- The machine after a directive, the fact about its condition, and whether the loop goes on. -/
structure StepResult where
  machine : Machine
  condition : Option Truth
  goesOn : Bool

def maxConditionalDepth : Nat := 256

def maxExpressionBytes : Nat := 4096

def maxExpressionTokens : Nat := 256

/-- The value of a condition; `none` is `Value::Unknown`, which absorbs what it is combined with. -/
def evaluateValue (environment : Environment) : Cond → Option Truth
  | .defined symbol => some (environmentValue environment symbol)
  | .dotted _ => none
  | .not cond => (evaluateValue environment cond).map Truth.not
  | .and left right => do
    return (← evaluateValue environment left).and (← evaluateValue environment right)
  | .or left right => do
    return (← evaluateValue environment left).or (← evaluateValue environment right)

/-- The truth of a condition, by `as_truth`. -/
def evaluateCond (environment : Environment) (cond : Cond) : Truth :=
  (evaluateValue environment cond).getD .unknown

section Analysis

/- Conditions outside the fragment: their fact, and whether they were understood. -/
variable (foreign : Text → Environment → Truth × Bool)

def evaluateExpression (body : Text) (environment : Environment) : Truth × Bool :=
  let expression := directiveArguments body
  if maxExpressionBytes < byteLen expression then (.unknown, false)
  else
    match parseExpression expression with
    | none => foreign body environment
    | some cond =>
      -- The end of the expression counts as a token.
      if maxExpressionTokens < (tokenizeExpression expression.length expression).length + 1 then
        (.unknown, false)
      else (evaluateCond environment cond, true)

def evaluateCondition (body : Text) (environment : Environment) : Truth × Bool :=
  let keyword := lower ((directiveKeyword body).getD [])
  if keywordIs keyword ["ifdef"] then
    match directiveSymbol body with
    | none => (.unknown, false)
    | some symbol => (environmentValue environment symbol, true)
  else if keywordIs keyword ["ifndef"] then
    match directiveSymbol body with
    | none => (.unknown, false)
    | some symbol => ((environmentValue environment symbol).not, true)
  else if keywordIs keyword ["if", "elseif", "elif"] then
    evaluateExpression foreign body environment
  else if keywordIs keyword ["ifopt"] then foreign body environment
  else (.unknown, false)

section Step

/- Whether each charge of the turn is met. -/
variable (admits : Charge → Bool)

def startConditional (body : Text) (machine : Machine) : StepResult :=
  if maxConditionalDepth ≤ machine.frames.length then
    ⟨{ machine with complete := false, active := .unknown }, none, true⟩
  else
    let (condition, known) := evaluateCondition foreign body machine.environment
    let machine := { machine with complete := machine.complete && known }
    if admits .clone then
      let currentActive := machine.active.and condition
      let frame := {
        parentActive := machine.active
        beforeEnvironment := machine.environment
        remaining := condition.not
        currentActive := currentActive
        hasElse := false
        mergedEnvironment := none }
      ⟨{ machine with frames := frame :: machine.frames, active := currentActive },
        some condition, true⟩
    else ⟨machine.incomplete, some condition, false⟩

/-- The environment of the branch that ends joins those of the earlier ones. -/
def ConditionalFrame.mergeCurrent (frame : ConditionalFrame) (environment : Environment) :
    Option Environment :=
  if frame.currentActive ≠ .false then some (mergeEnvironment frame.mergedEnvironment environment)
  else frame.mergedEnvironment

def middleConditional (body : Text) (machine : Machine) : StepResult :=
  match machine.frames with
  | [] => ⟨{ machine with complete := false, active := .unknown }, none, true⟩
  | frame :: frames =>
    -- Neither ELSE nor ELSEIF may follow an ELSE.
    let machine := { machine with complete := machine.complete && !frame.hasElse }
    if frame.currentActive ≠ .false ∧ admits .merge = false then ⟨machine.incomplete, none, false⟩
    else
      let merged := frame.mergeCurrent machine.environment
      if admits .clone then
        let machine := { machine with environment := frame.beforeEnvironment }
        if isElseDirective body then
          let currentActive := frame.parentActive.and frame.remaining
          let frame := { frame with
            hasElse := true
            currentActive := currentActive
            remaining := .false
            mergedEnvironment := merged }
          ⟨{ machine with frames := frame :: frames, active := currentActive }, none, true⟩
        else
          let (condition, known) := evaluateCondition foreign body machine.environment
          let currentActive := (frame.parentActive.and frame.remaining).and condition
          let frame := { frame with
            currentActive := currentActive
            remaining := frame.remaining.and condition.not
            mergedEnvironment := merged }
          ⟨{ machine with
              frames := frame :: frames
              active := currentActive
              complete := machine.complete && known },
            some condition, true⟩
      else ⟨machine.incomplete, none, false⟩

/-- Without an `ELSE`, no branch at all may have been taken. -/
def ConditionalFrame.skippable (frame : ConditionalFrame) : Bool :=
  !frame.hasElse && frame.remaining ≠ .false

def mergeConditionalEnvironment (frame : ConditionalFrame) (environment : Environment) :
    Environment :=
  let merged := frame.mergeCurrent environment
  if frame.skippable then mergeEnvironment merged frame.beforeEnvironment
  else merged.getD frame.beforeEnvironment

def endConditional (machine : Machine) : StepResult :=
  match machine.frames with
  | [] => ⟨{ machine with complete := false, active := .unknown }, none, true⟩
  | frame :: frames =>
    if (frame.currentActive ≠ .false ∧ admits .merge = false) ∨
        (frame.skippable = true ∧ admits .mergeBefore = false) then
      ⟨{ machine.incomplete with frames := frames }, none, false⟩
    else
      ⟨{ machine with
          environment := mergeConditionalEnvironment frame machine.environment
          frames := frames
          active := frame.parentActive },
        none, true⟩

def applyDefine (body : Text) (value : Truth) (machine : Machine) : StepResult :=
  match directiveSymbol body with
  | none => ⟨machine.incomplete, none, true⟩
  | some symbol =>
    if admits .fact then
      ⟨{ machine with
          environment := applyFact machine.environment symbol value machine.active },
        none, true⟩
    else ⟨machine.incomplete, none, true⟩

/-- One directive of the source. -/
def step (body : Text) (machine : Machine) : StepResult :=
  match directiveKind body with
  | .conditionalStart => startConditional foreign admits body machine
  | .conditionalMiddle => middleConditional foreign admits body machine
  | .conditionalEnd => endConditional admits machine
  | .define => applyDefine admits body .true machine
  | .undef => applyDefine admits body .false machine
  | .include =>
    if machine.active = .false then ⟨machine, none, true⟩
    else ⟨{ machine with environment := machine.environment.clear }, none, true⟩
  | .other =>
    if machine.active ≠ .false ∧ admits .option = false then ⟨machine.incomplete, none, true⟩
    else ⟨machine, none, true⟩

end Step

structure ConditionalDirective where
  kind : DirectiveKind
  body : Text
  start : Nat
  stop : Nat
  activity : Truth
  condition : Option Truth
deriving DecidableEq, Repr

def ConditionalDirective.span (directive : ConditionalDirective) : Span :=
  ⟨directive.start, directive.stop⟩

/-- What the loop over the directives leaves. -/
structure Trace where
  machine : Machine
  cursor : Nat
  inactiveSpans : List Span
  unknownSpans : List Span
  directives : List ConditionalDirective

/-- The spans a piece of text adds to those of one activity. -/
def activitySpan (wanted : Truth) (start stop : Nat) (activity : Truth) : List Span :=
  if start < stop ∧ activity = wanted then [⟨start, stop⟩] else []

/- Whether each charge of each turn is met. -/
variable (budget : Nat → Charge → Bool)

/-- The loop over the directives, from turn `turn` on and from offset `cursor` on. -/
def analyzeDirectives : Nat → List RawDirective → Machine → Nat → Trace
  | _, [], machine, cursor => ⟨machine, cursor, [], [], []⟩
  | turn, raw :: rest, machine, cursor =>
    if budget turn .poll then
      let machine := if budget turn .constants then machine else machine.incomplete
      let result := step foreign (budget turn) raw.body machine
      let directive :=
        ⟨directiveKind raw.body, raw.body, raw.start, raw.stop, machine.active, result.condition⟩
      let trace :=
        if result.goesOn then analyzeDirectives (turn + 1) rest result.machine raw.stop
        else ⟨result.machine, raw.stop, [], [], []⟩
      { trace with
        inactiveSpans := activitySpan .false cursor raw.start machine.active ++ trace.inactiveSpans
        unknownSpans := activitySpan .unknown cursor raw.start machine.active ++ trace.unknownSpans
        directives := directive :: trace.directives }
    else ⟨machine.incomplete, cursor, [], [], []⟩

/-! ## The result -/

def encode (text : Text) : Bytes := text.flatMap String.utf8EncodeChar

/-- Blank all but line ends. -/
def blankByte (byte : UInt8) : UInt8 := if byte ≠ 10 ∧ byte ≠ 13 then 32 else byte

/-- Blank the bytes of one span. -/
def blankSpan (bytes : Bytes) (span : Span) : Bytes :=
  let start := min span.start bytes.length
  let stop := min span.stop bytes.length
  bytes.take start ++ ((bytes.take stop).drop start).map blankByte ++ bytes.drop (max start stop)

def projectSource (source : Text) (inactive directives : List Span) : Bytes :=
  (inactive ++ directives).foldl blankSpan (encode source)

structure ConditionalAnalysis where
  projectedSource : Bytes
  inactiveSpans : List Span
  unknownSpans : List Span
  directives : List ConditionalDirective
  complete : Bool
deriving DecidableEq

def analyzeLexed (source : Text) (lexed : LexResult) (environment : Environment)
    (initialComplete : Bool) : ConditionalAnalysis :=
  let machine := {
    environment := environment
    frames := []
    active := if initialComplete then .true else .unknown
    complete := initialComplete && lexed.complete }
  let trace := analyzeDirectives foreign budget 0 lexed.directives machine 0
  let turns := lexed.directives.length
  let active := trace.machine.active
  let complete := trace.machine.complete &&
    (!(trace.cursor < byteLen source) || budget turns .constants) &&
    trace.machine.frames.isEmpty && budget turns .poll
  let inactiveSpans :=
    if complete then
      trace.inactiveSpans ++ activitySpan .false trace.cursor (byteLen source) active
    else []
  let unknownSpans :=
    if complete then
      trace.unknownSpans ++ activitySpan .unknown trace.cursor (byteLen source) active
    else if source = [] then [] else [⟨0, byteLen source⟩]
  { projectedSource :=
      projectSource source inactiveSpans (trace.directives.map ConditionalDirective.span)
    inactiveSpans := inactiveSpans
    unknownSpans := unknownSpans
    directives := trace.directives
    complete := complete }

/-- The analysis of a source in a context; `admitted` says whether the context is within limits. -/
def analyzeWithContext (admitted : Bool) (source : Text) (context : ConditionalContext) :
    ConditionalAnalysis :=
  let lexed := lexDirectives source
  match if admitted then initialEnvironment context else none with
  | none => analyzeLexed foreign budget source lexed ⟨fun _ => none, .unknown, none⟩ false
  | some environment => analyzeLexed foreign budget source lexed environment lexed.complete

end Analysis

end Lint4d.Conditional
