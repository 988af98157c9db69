import Lint4d.Msbuild.Imports
import Lint4d.Msbuild.ConditionText

/-!
# A document as a tree

The reference evaluates a document as a tree: the condition of an element is evaluated
when the element is reached, the conditions of all the `When`s when their `Choose` is
reached, and what is inside them keeps the answers.  With known answers the groups of
one branch are applied, and nothing of the others is.
-/

namespace Lint4d.Msbuild

open Lint4d.Lib (Truth)
open Lint4d.Conditional (Text trim lower)

/-! ## The reference -/

/-- The condition of an element around an operation, with the answer it had when it
was reached. -/
structure Guard where
  condition : Option Text
  negated : Bool
  reached : Truth

def Guard.worth (guard : Guard) : Truth :=
  if guard.negated then guard.reached.not else guard.reached

abbrev Scope := List Guard

def Scope.truth (scope : Scope) : Truth := allOf (scope.map Guard.worth)

/-- An operation before it is evaluated. -/
structure GuardedStep (Path : Type) where
  builder : ProjectBuilder Path
  sourceFile : Path
  scope : Scope
  condition : Option Text

/-- A run of the reference with the operations it met. -/
abbrev ReferenceRun (Path : Type) := Run (GuardedStep Path) Path

/-- The condition of a branch `When` of a `Choose`. -/
def Node.whenText : Node → Option Text
  | .element rawName attributes _ | .emptyElement rawName attributes =>
    if isNamed (localName rawName) "when" then
      some (whenCondition (attributeValue attributes "condition"))
    else none
  | _ => none

/-- The state in which a `Choose` was reached, with all its `When`s and those before
the next branch. -/
structure Decision (Path : Type) where
  reached : ProjectBuilder Path
  whens : List Text
  earlier : List Text

def Decision.after {Path : Type} (decision : Decision Path) (node : Node) : Decision Path :=
  { decision with earlier := decision.earlier ++ node.whenText.toList }

section Reference

/-- What the reference does with an imported file. -/
abbrev ReferenceNested (Path : Type) :=
  ProjectPathEntry Path → ProjectBuilder Path → ReferenceRun Path

variable {Path : Type} [DecidableEq Path] (host : Host Path) (sourceFile : Path)
  (source : ProjectPathProvenance Path) (nested : ReferenceNested Path)

/-- The answer of a condition in a state. -/
def answer (builder : ProjectBuilder Path) (condition : Option Text) : Truth :=
  (builder.evaluateCondition host.toFiles sourceFile condition).1

def reachGuard (builder : ProjectBuilder Path) (negated : Bool) (condition : Option Text) :
    Guard :=
  ⟨condition, negated, answer host sourceFile builder condition⟩

/-- A `When` is taken if it holds and none before it does, `Otherwise` if no `When` of
the `Choose` holds. -/
def branchGuards (decision : Decision Path) (name : Text) (own : Option Text) : Scope :=
  if isNamed name "when" then
    decision.earlier.map (fun text => reachGuard host sourceFile decision.reached true (some text)) ++
      [reachGuard host sourceFile decision.reached false (some (whenCondition own))]
  else decision.whens.map fun text => reachGuard host sourceFile decision.reached true (some text)

def finishGuarded : ImportStep Path → ReferenceRun Path
  | .skip builder => .stay builder
  | .ignore builder error => ⟨[], builder, error⟩
  | .unread builder error => ⟨[], builder.taintUnknownImport, error⟩
  | .enter builder entry _ =>
    let run := nested entry builder
    { run with builder :=
        { run.builder with activeImports := run.builder.activeImports.erase entry.path } }

/-- Evaluate an operation with the answer of its scope in place of its condition; the
files its condition looks at are noted as ever. -/
def processGuarded (scope : Scope) (builder : ProjectBuilder Path) :
    XmlOperation → ReferenceRun Path
  | .propertyGroup group =>
    let (_, after) := builder.evaluateCondition host.toFiles sourceFile group.condition
    ⟨[⟨builder, sourceFile, scope, group.condition⟩],
      after.applyGroup host.toFiles sourceFile source scope.truth group.properties, none⟩
  | .importFile target =>
    let (_, after) := builder.evaluateCondition host.toFiles sourceFile target.condition
    let run := finishGuarded nested
      (after.openImportWhen host sourceFile source scope.truth target)
    { run with steps := ⟨builder, sourceFile, scope, target.condition⟩ :: run.steps }
  | .dccReference reference =>
    ⟨[], builder.processReference host.toFiles sourceFile source reference isCompiledReference,
      none⟩
  | .unsupported => .stay builder

/-- Operations that are guarded by a scope. -/
def runGuarded (scope : Scope) :
    List XmlOperation → ProjectBuilder Path → ReferenceRun Path
  | [], builder => .stay builder
  | operation :: operations, builder =>
    (processGuarded host sourceFile source nested scope builder operation).bind
      (runGuarded scope operations)

/-- The scope of the children of an element that is no branch. -/
def childScope (context : Context) (scope : Scope) (own : Guard) (name : Text)
    (attributes : Attributes) : Scope :=
  match context with
  | .group _ =>
    if isOperation name attributes || isNamed name "choose" || isNamed name "propertygroup" then
      scope ++ [own]
    else scope
  | _ => scope ++ [own]

/-- The context and the scope inside a branch of a `Choose`. -/
def branchScope (context : Context) (decision : Option (Decision Path)) (scope : Scope)
    (name : Text) (own : Option Text) : Option (Context × Scope) :=
  match context, decision with
  | .choose condition branches, some decided =>
    if ParseState.isBranch name then
      some (.plain (Context.branchCondition name own condition branches) false,
        scope ++ branchGuards host sourceFile decided name own)
    else none
  | _, _ => none

/-- The decision of a `Choose` that is reached now. -/
def decisionOf (builder : ProjectBuilder Path) (name : Text) (children : List Node) :
    Option (Decision Path) :=
  if isNamed name "choose" then some ⟨builder, children.filterMap Node.whenText, []⟩ else none

mutual

/-- Evaluate a node.  The context is kept for the texts of the conditions; what is
inside an import, a reference or a target is not evaluated. -/
def referenceNode (context : Context) (decision : Option (Decision Path)) (scope : Scope) :
    Node → ProjectBuilder Path → ReferenceRun Path
  | .element rawName attributes children, builder =>
    let name := localName rawName
    let own := attributeValue attributes "condition"
    if context.inTarget || isNamed name "target" then .stay builder
    else
      match branchScope host sourceFile context decision scope name own with
      | some (inner, scope) => referenceList inner none scope children builder
      | none =>
        let effective := combineConditions context.condition own
        let guard := reachGuard host sourceFile builder false own
        let run := runGuarded host sourceFile source nested (scope ++ [guard])
          (elementOperation name attributes effective children).toList builder
        if isNamed name "import" || isNamed name "dccreference" then run
        else
          run.bind (referenceList (childContext context name attributes)
            (decisionOf builder name children) (childScope context scope guard name attributes)
            children)
  | .emptyElement rawName attributes, builder =>
    let guard := reachGuard host sourceFile builder false (attributeValue attributes "condition")
    runGuarded host sourceFile source nested (scope ++ [guard])
      (nodeOperations context (.emptyElement rawName attributes)) builder
  | _, builder => .stay builder

def referenceList (context : Context) (decision : Option (Decision Path)) (scope : Scope) :
    List Node → ProjectBuilder Path → ReferenceRun Path
  | [], builder => .stay builder
  | node :: nodes, builder =>
    (referenceNode context decision scope node builder).bind
      (referenceList (context.after node) (decision.map fun decided => decided.after node) scope
        nodes)

end

/-- A document from its first node on. -/
def referenceDocument (nodes : List Node) (builder : ProjectBuilder Path) : ReferenceRun Path :=
  referenceList host sourceFile source nested (.plain none false) none [] nodes builder

end Reference

/-- The reference with the files it imports, at most `depth` in one another. -/
def referenceProject {Path : Type} [DecidableEq Path] (host : Host Path)
    (documents : Nat → ProjectPathEntry Path → List Node) :
    Nat → ProjectPathEntry Path → List Node → ProjectBuilder Path → ReferenceRun Path
  | 0, entry, nodes, builder =>
    referenceDocument host entry.path entry.provenance (fun _ builder => .stay builder) nodes builder
  | depth + 1, entry, nodes, builder =>
    referenceDocument host entry.path entry.provenance
      (fun entry builder => referenceProject host documents depth entry
        (documents builder.importCount entry) builder) nodes builder

end Lint4d.Msbuild
