import Lint4d.Conditional.Lexer
import Lint4d.Conditional.Environment

/-!
# The preprocessor

The ordinary two-valued preprocessor: it knows the set of defined symbols, and
compiles or skips each piece of text between two directives.  An include that is
executed may change the set of defined symbols in any way.
-/

namespace Lint4d.Conditional

open Lint4d.Lib

/-- The symbols that are defined. -/
abbrev Defines := Text → Bool

def Cond.holds (defines : Defines) : Cond → Bool
  | .defined symbol | .dotted symbol => (canonicalSymbol symbol).any defines
  | .not cond => !cond.holds defines
  | .and left right => left.holds defines && right.holds defines
  | .or left right => left.holds defines || right.holds defines

/-- Whether the condition of a directive holds. -/
def conditionHolds (body : Text) (defines : Defines) : Bool :=
  (conditionOf body).any (Cond.holds defines)

/-- An open conditional: whether the text around it is compiled, and whether one of its branches
has been taken. -/
structure OpenConditional where
  parentLive : Bool
  taken : Bool
deriving DecidableEq, Repr

structure Preprocessor where
  defines : Defines
  stack : List OpenConditional
  live : Bool

namespace Preprocessor

/-- Start with these symbols defined. -/
def start (defines : Defines) : Preprocessor := ⟨defines, [], true⟩

def define (symbol : Option Text) (value : Bool) (s : Preprocessor) : Preprocessor :=
  match symbol with
  | some symbol =>
    if s.live then { s with defines := fun t => if t = symbol then value else s.defines t } else s
  | none => s

/-- One directive; `included` is what the directive does to the defined symbols if it is an include
that is executed. -/
def step (included : Defines → Defines) (body : Text) (s : Preprocessor) : Preprocessor :=
  match directiveKind body with
  | .conditionalStart =>
    let holds := conditionHolds body s.defines
    { s with stack := ⟨s.live, holds⟩ :: s.stack, live := s.live && holds }
  | .conditionalMiddle =>
    match s.stack with
    | [] => s
    | top :: stack =>
      let holds := isElseDirective body || conditionHolds body s.defines
      { s with
        stack := ⟨top.parentLive, top.taken || holds⟩ :: stack
        live := top.parentLive && !top.taken && holds }
  | .conditionalEnd =>
    match s.stack with
    | [] => s
    | top :: stack => { s with stack := stack, live := top.parentLive }
  | .define => s.define (directiveSymbol body) true
  | .undef => s.define (directiveSymbol body) false
  | .include => if s.live then { s with defines := included s.defines } else s
  | .other => s

/-- The pieces of text between the directives, in order, each with whether it is compiled. -/
def pieces (included : RawDirective → Defines → Defines) (stop : Nat) :
    List RawDirective → Preprocessor → Nat → List (Span × Bool)
  | [], s, cursor => [(⟨cursor, stop⟩, s.live)]
  | raw :: rest, s, cursor =>
    (⟨cursor, raw.start⟩, s.live) ::
      pieces included stop rest (s.step (included raw) raw.body) raw.stop

end Preprocessor

/-- The run of the preprocessor on a source. -/
def preprocess (included : RawDirective → Defines → Defines) (source : Text) (defines : Defines) :
    List (Span × Bool) :=
  Preprocessor.pieces included (byteLen source) (lexDirectives source).directives
    (.start defines) 0

/-- The byte at an offset is compiled. -/
def Compiled (pieces : List (Span × Bool)) (p : Nat) : Prop :=
  ∃ piece ∈ pieces, piece.2 = true ∧ piece.1.Contains p

/-- The conditions of all directives are in the fragment. -/
def InFragment (raws : List RawDirective) : Prop :=
  ∀ raw ∈ raws, (directiveKind raw.body = .conditionalStart → (conditionOf raw.body).isSome) ∧
    (directiveKind raw.body = .conditionalMiddle →
      isElseDirective raw.body ∨ (conditionOf raw.body).isSome)

instance (raws : List RawDirective) : Decidable (InFragment raws) :=
  inferInstanceAs (Decidable (∀ raw ∈ raws, _))

/-- No condition of the directives asks for a dotted symbol by `defined`. -/
def Undotted (raws : List RawDirective) : Prop :=
  ∀ raw ∈ raws, (conditionOf raw.body).all Cond.undotted

instance (raws : List RawDirective) : Decidable (Undotted raws) :=
  inferInstanceAs (Decidable (∀ raw ∈ raws, _))

/-- The defined symbols agree with what the context says. -/
def ConditionalContext.Consistent (context : ConditionalContext) (defines : Defines) : Prop :=
  ∀ symbol, IsSymbol symbol → (context.fact symbol).Allows (defines symbol)

end Lint4d.Conditional
