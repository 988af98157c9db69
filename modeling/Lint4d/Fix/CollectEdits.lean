import Lint4d.Fix.RenameMap

/-!
# Collecting edits

The walk over the syntax tree that turns renames and declared spellings into
edits of identifiers.  Entering a routine makes a new context from the one
around it; an identifier is resolved through local renames, file renames and
then the method, class and file scopes.
-/

namespace Lint4d.Fix

open Lint4d.Cache Lint4d.Lib Lint4d.Lib.Utf8

/-- What the walk knows inside a routine. -/
structure ProcContext where
  methodScope : NameMap
  localRenames : NameMap
  localRenameRanges : Text → Option Nat
  /-- Local constants, types and routines, whose references are ambiguous. -/
  blockedLocalNames : Text → Bool
  /-- Renames of outer routines that a declaration in between hides. -/
  blockedLocalRenames : LocalKey → Bool
  /-- The names declared by this routine that are renamed. -/
  localDeclarationRenames : Text → Bool
  classFields : Option NameMap

/-- What the walk reads. -/
structure EditWalk where
  unicode : Unicode
  source : Bytes
  renameMap : RenameMap
  scopes : Scopes
  casingEnabled : Bool
  /-- The restricted mode, in which declarations shadow the names around them. -/
  shadowBarriers : Bool

/-- The first child under the name field of the header of a routine. -/
def headerName (procNode : Node) : Option Node :=
  (procNode.childByFieldName .header).bind (·.childByFieldName .name)

/-- The node that names the class of a method. -/
def classNameNode (procNode : Node) : Option Node :=
  (headerName procNode).bind fun name =>
    if name.kind = .genericDot then name.childByFieldName .lhs else none

def identifiersUnder (node : Node) : List Node :=
  (node.node.visited (·.kind = .identifier) node.above).filter (·.kind = .identifier)

def Kind.isLocalDeclaration (kind : Kind) : Bool :=
  kind = .defProc ∨ kind = .lambda ∨ kind = .declConst ∨ kind = .declType ∨ kind = .declProc

/-- The identifiers that name a local constant, type or routine. -/
def shadowIdentifiers (node : Node) : List Node :=
  match node.kind with
  | .defProc => (headerName node).elim [] identifiersUnder
  | .declConst | .declType | .declProc => (node.childByFieldName .name).elim [] identifiersUnder
  | _ => []

/-- The names under the first local declaration of the routine that its variables cannot stand
for. -/
def restrictedDeclarationShadows (procNode : Node) : List Node :=
  match procNode.childByFieldName .local with
  | none => []
  | some declarations =>
    (declarations.node.visited (·.kind.isLocalDeclaration) declarations.above).flatMap
      shadowIdentifiers

/-- The parameters of a lambda stand directly below it. -/
def lambdaArgumentDeclarations (lambda : Node) : List Node :=
  match lambda.childByFieldName .args with
  | none => []
  | some args => args.children.filter (·.kind = .declArg)

abbrev Rename := Sigma fun _ : LocalKey => Text

/-- The order in which renames are applied: inner routines first. -/
def compareRenames (left right : Rename) : Ordering :=
  (Ord.compare (left.1.procEnd - left.1.procStart) (right.1.procEnd - right.1.procStart)).then <|
    (Ord.compare left.1.procStart right.1.procStart).then <|
      (Ord.compare left.1.procEnd right.1.procEnd).then <|
        (Ord.compare left.1.oldName right.1.oldName).then (Ord.compare left.2 right.2)

/-- The local renames of routines whose range contains the given one. -/
def containingRenames (map : RenameMap) (first last : Nat) : List Rename :=
  (map.locals.entries.filter fun rename =>
    rename.1.procStart ≤ first ∧ last ≤ rename.1.procEnd).mergeSort
      fun left right => compareRenames left right != .gt

namespace EditWalk

variable (walk : EditWalk)

def text (node : Node) : Text := nodeText walk.source node

def lower (node : Node) : Text := lowercase walk.unicode (walk.text node)

variable (procNode : Node)

/-- The parameters and variables that the routine declares itself. -/
def directScope : NameMap :=
  let scope := collectMethodScope walk.unicode walk.source NameMap.empty procNode
  if procNode.kind = .lambda then
    (lambdaArgumentDeclarations procNode).foldl (collectDeclArgNames walk.unicode walk.source) scope
  else scope

/-- The name is declared by the routine itself. -/
def shadows (name : Text) : Bool :=
  (walk.directScope procNode name).isSome ||
    decide (name ∈ (restrictedDeclarationShadows procNode).map walk.lower)

/-- The context of a routine before renames: what it inherits and what it declares. -/
def inheritedContext (outer : Option ProcContext) : ProcContext :=
  let methodScope := (outer.map (·.methodScope)).getD NameMap.empty
  let localRenames := (outer.map (·.localRenames)).getD NameMap.empty
  let localRenameRanges := (outer.map (·.localRenameRanges)).getD fun _ => none
  let classFields := (classNameNode procNode).bind fun name => walk.scopes.classes (walk.lower name)
  if walk.shadowBarriers then
    let blockedLocalNames := (outer.map (·.blockedLocalNames)).getD fun _ => false
    let direct := walk.directScope procNode
    let ambiguous := (restrictedDeclarationShadows procNode).map walk.lower
    { methodScope := fun name => (direct name).or (methodScope name)
      localRenames := fun name => if walk.shadows procNode name then none else localRenames name
      localRenameRanges := fun name =>
        if walk.shadows procNode name then none else localRenameRanges name
      blockedLocalNames := fun name =>
        decide (name ∈ ambiguous) || (blockedLocalNames name && (direct name).isNone)
      blockedLocalRenames := (outer.map (·.blockedLocalRenames)).getD fun _ => false
      localDeclarationRenames := fun _ => false
      classFields := classFields }
  else
    { methodScope := collectMethodScope walk.unicode walk.source methodScope procNode
      localRenames := localRenames
      localRenameRanges := localRenameRanges
      blockedLocalNames := fun _ => false
      blockedLocalRenames := fun _ => false
      localDeclarationRenames := fun _ => false
      classFields := classFields }

/-- Take a rename of this routine, or of one around it, into the context. -/
def applyRename (context : ProcContext) (rename : Rename) : ProcContext :=
  let key := rename.1
  let own : Bool := key.procStart = procNode.startByte ∧ key.procEnd = procNode.endByte
  if walk.shadowBarriers && context.blockedLocalRenames key then context
  else if walk.shadowBarriers && !own && walk.shadows procNode key.oldName then
    { context with
      blockedLocalRenames := fun other => decide (other = key) || context.blockedLocalRenames other }
  else
    let size := key.procEnd - key.procStart
    let replace : Bool := (context.localRenameRanges key.oldName).all (size < ·)
    { context with
      localDeclarationRenames := fun name =>
        (walk.shadowBarriers && own && decide (name = key.oldName)) ||
          context.localDeclarationRenames name
      methodScope := (context.methodScope.erase key.oldName).insert
        (lowercase walk.unicode rename.2) rename.2
      localRenames :=
        if replace then context.localRenames.insert key.oldName rename.2 else context.localRenames
      localRenameRanges := fun name =>
        if replace ∧ name = key.oldName then some size else context.localRenameRanges name }

/-- The context inside a routine. -/
def enterProc (outer : Option ProcContext) : ProcContext :=
  (containingRenames walk.renameMap procNode.startByte procNode.endByte).foldl
    (walk.applyRename procNode) (walk.inheritedContext procNode outer)

variable (context : Option ProcContext) (node : Node)

/-- The identifier is a parameter or variable that its own routine renames. -/
def ownLocalDeclaration : Bool :=
  (node.parentKind = some .declVar ∨ node.parentKind = some .declArg) ∧
    context.any (·.localDeclarationRenames (walk.lower node))

/-- The identifier is left alone whatever its name resolves to. -/
def skips : Bool :=
  isDotRhs node || isInsideInherited node || isInsideModuleName node || (walk.shadowBarriers &&
      (isInsideTyperef node ||
        (isDeclarationPosition node && !walk.ownLocalDeclaration context node) ||
        context.any (·.blockedLocalNames (walk.lower node))))

/-- The declared spelling of a name: method scope, then class fields, then file scope. -/
def declaredSpelling (context : Option ProcContext) (name : Text) : Option Text :=
  (context.bind (·.methodScope name)).or <|
    (context.bind fun context => context.classFields.bind (· name)).or (walk.scopes.file name)

/-- The spelling that an identifier resolves to. -/
def resolve : Option Text :=
  if walk.skips context node then none
  else match context.bind (·.localRenames (walk.lower node)) with
    | some newName => some newName
    | none =>
      match walk.renameMap.file.lookup (walk.lower node) with
      | some newName => some newName
      | none =>
        if !walk.casingEnabled || isDeclarationPosition node || isInsideTyperef node then none
        else walk.declaredSpelling context (walk.lower node)

def resolveAndEmit : List TextEdit :=
  match walk.resolve context node with
  | none => []
  | some newName =>
    if walk.text node = newName then [] else [⟨node.startByte, node.endByte, encode newName⟩]

/-- The child with the index is the body of a `with` statement. -/
def isWithBody (node : Node) (index : Nat) : Bool :=
  node.kind = .with ∧ (node.childByFieldName .body).any (·.id = index :: node.id)

/-- The state for a child: the context of the routine and whether a `with` body is around. -/
def enter (state : Option ProcContext × Bool) (parent : Node) (index : Nat) :
    Option ProcContext × Bool :=
  if parent.kind.isProc then (some (walk.enterProc parent state.1), state.2)
  else (state.1, state.2 || (walk.shadowBarriers && isWithBody parent index))

def emit (state : Option ProcContext × Bool) (node : Node) : List TextEdit :=
  if node.kind = .identifier then
    if walk.shadowBarriers && state.2 then [] else walk.resolveAndEmit state.1 node
  else []

/-- The edits of the whole tree. -/
def walkForEdits (root : Tree) : List TextEdit :=
  root.walk (·.kind = .identifier) walk.enter walk.emit (none, false) []

end EditWalk

end Lint4d.Fix
