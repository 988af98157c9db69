import Lint4d.Fix.Naming
import Lint4d.Fix.Scope

/-!
# The rename map

Names that break a naming rule, with the spelling that the rule asks for.  Types
and constants are renamed in the whole file, parameters and local variables
within the byte range of their routine.
-/

namespace Lint4d.Fix

open Lint4d.Cache Lint4d.Lib Lint4d.Lib.Utf8

/-! ## Configuration -/

inductive Rule where
  | typePrefix
  | interfacePrefix
  | constantNaming
  | localVariableNaming
  | identifierCasing
deriving DecidableEq

def Rule.id : Rule → String
  | .typePrefix => "type-prefix"
  | .interfacePrefix => "interface-prefix"
  | .constantNaming => "constant-naming"
  | .localVariableNaming => "local-variable-naming"
  | .identifierCasing => "identifier-casing"

structure Config where
  localVariableStyle : String
  constantStyle : String
  /-- The severity of the rule is set to off. -/
  isOff : Rule → Bool

/-- The fix rules that are enabled. -/
structure FixConfig where
  typePrefix : Bool
  intfPrefix : Bool
  constNaming : Bool
  localVar : Bool
  casing : Bool

namespace FixConfig

def forRules (config : Config) (rules : List Rule) : FixConfig where
  typePrefix := decide (.typePrefix ∈ rules) && !config.isOff .typePrefix
  intfPrefix := decide (.interfacePrefix ∈ rules) && !config.isOff .interfacePrefix
  constNaming := decide (.constantNaming ∈ rules) && !config.isOff .constantNaming
  localVar := decide (.localVariableNaming ∈ rules) && !config.isOff .localVariableNaming
  casing := decide (.identifierCasing ∈ rules) && !config.isOff .identifierCasing

def fromConfig (config : Config) : FixConfig where
  typePrefix := !config.isOff .typePrefix
  intfPrefix := !config.isOff .interfacePrefix
  constNaming := !config.isOff .constantNaming
  localVar := !config.isOff .localVariableNaming
  casing := !config.isOff .identifierCasing

end FixConfig

/-- A suppression comment: the line it is about, and the rule unless it is about all rules. -/
structure Suppression where
  targetLine : Nat
  ruleId : Option String
deriving DecidableEq

def Suppression.matches (suppression : Suppression) (rule : Rule) (line : Nat) : Bool :=
  if suppression.targetLine ≠ line then false
  else match suppression.ruleId with
    | none => true
    | some id => id = rule.id

def isSuppressed (suppressions : List Suppression) (rule : Rule) (line : Nat) : Bool :=
  suppressions.any (·.matches rule line)

/-! ## Building the map -/

/-- A local name: the byte range of its routine and its lower case. -/
structure LocalKey where
  procStart : Nat
  procEnd : Nat
  oldName : Text
deriving DecidableEq

structure RenameMap where
  file : AList fun _ : Text => Text
  locals : AList fun _ : LocalKey => Text

/-- What the checks read: the character tables, the source, its suppressions and the settings. -/
structure Checks where
  unicode : Unicode
  source : Bytes
  suppressions : List Suppression
  config : Config

namespace Checks

variable (checks : Checks)

def text (node : Node) : Text := nodeText checks.source node

def lower (node : Node) : Text := lowercase checks.unicode (checks.text node)

/-- The rule is suppressed on the line of the name. -/
def suppressed (rule : Rule) (name : Node) : Bool :=
  isSuppressed checks.suppressions rule (name.row + 1)

/-- Names of classes start with `T` or `E`, names of interfaces with `I`. -/
def checkPrefix (rule : Rule) (allowed : List Char) (added : Char) (map : RenameMap)
    (declType : Node) : RenameMap :=
  match declType.childByFieldName .name with
  | none => map
  | some name =>
    if (checks.text name).head?.any (· ∈ allowed) then map
    else if checks.suppressed rule name then map
    else { map with file := map.file.insert (checks.lower name) (added :: checks.text name) }

variable (map : RenameMap)

def checkTypePrefix (declType : Node) : RenameMap :=
  checkPrefix checks .typePrefix ['T', 'E'] 'T' map declType

def checkInterfacePrefix (declType : Node) : RenameMap :=
  checkPrefix checks .interfacePrefix ['I'] 'I' map declType

def constantConforms (name : Text) : Bool :=
  if checks.config.constantStyle = "PascalCase" then name.head?.any checks.unicode.uppercase
  else name.all fun c => c.isUpper || c.isDigit || c = '_'

def constantSpelling (name : Text) : Text :=
  if checks.config.constantStyle = "PascalCase" then toPascalCase checks.unicode name
  else toUpperSnakeCase name

def checkConstantNaming (declConst : Node) : RenameMap :=
  match declConst.childByFieldName .name with
  | none => map
  | some name =>
    if checks.constantConforms (checks.text name) then map
    else if checks.suppressed .constantNaming name then map
    else { map with
      file := map.file.insert (checks.lower name) (checks.constantSpelling (checks.text name)) }

/-- The name of a parameter or local variable breaks the naming style. -/
def violates (name : Node) : Bool :=
  violatesNamingStyle checks.unicode (checks.text name) checks.config.localVariableStyle &&
    !checks.suppressed .localVariableNaming name

variable (procNode : Node)

def checkDeclName (map : RenameMap) (name : Node) : RenameMap :=
  if checks.violates name then
    { map with
      locals := map.locals.insert ⟨procNode.startByte, procNode.endByte, checks.lower name⟩
        (localSpelling checks.unicode checks.config.localVariableStyle (checks.text name)) }
  else map

def checkDeclNames (map : RenameMap) (decl : Node) : RenameMap :=
  (declaredNames decl).foldl (checks.checkDeclName procNode) map

/-- The declarations of local variables outside conditional blocks. -/
def plainVariableDeclarations : List Node :=
  (procNode.children.filter (·.kind = .declVars)).flatMap fun declVars =>
    declVars.children.filter (·.kind = .declVar)

def headerDeclarations : List Node :=
  match procNode.childByFieldName .header with
  | some header => parameterDeclarations header
  | none => []

def checkLocalVarNaming : RenameMap :=
  (plainVariableDeclarations procNode).foldl (checks.checkDeclNames procNode)
    ((headerDeclarations procNode).foldl (checks.checkDeclNames procNode) map)

/-- What one node adds to the map. -/
def checkDeclaration (fixConfig : FixConfig) (map : RenameMap) (node : Node) : RenameMap :=
  match node.kind with
  | .declType =>
    match node.childByFieldName .type with
    | none => map
    | some typeNode =>
      if typeNode.kind = .declClass ∧ fixConfig.typePrefix then checks.checkTypePrefix map node
      else if typeNode.kind = .declIntf ∧ fixConfig.intfPrefix then
        checks.checkInterfacePrefix map node
      else map
  | .declConst =>
    if fixConfig.constNaming ∧ (node.childByFieldName .type).isNone then
      checks.checkConstantNaming map node
    else map
  | .defProc | .lambda => if fixConfig.localVar then checks.checkLocalVarNaming map node else map
  | _ => map

lemma checkPrefix_locals (rule : Rule) (allowed : List Char) (added : Char) (map : RenameMap)
    (declType : Node) :
    (checks.checkPrefix rule allowed added map declType).locals = map.locals := by
  unfold checkPrefix
  split
  · rfl
  · split
    · rfl
    · split <;> rfl

lemma checkConstantNaming_locals (declConst : Node) :
    (checks.checkConstantNaming map declConst).locals = map.locals := by
  unfold checkConstantNaming
  split
  · rfl
  · split
    · rfl
    · split <;> rfl

/-- Only routines add local renames. -/
lemma checkDeclaration_locals (fixConfig : FixConfig) (map : RenameMap) (node : Node) :
    (checks.checkDeclaration fixConfig map node).locals =
      if node.kind.isProc ∧ fixConfig.localVar then (checks.checkLocalVarNaming map node).locals
      else map.locals := by
  unfold checkDeclaration
  split
  · next hkind =>
    simp only [hkind, Kind.isProc]
    split
    · rfl
    · split
      · exact checks.checkPrefix_locals _ _ _ map node
      · split
        · exact checks.checkPrefix_locals _ _ _ map node
        · rfl
  · next hkind =>
    simp only [hkind, Kind.isProc]
    split
    · exact checks.checkConstantNaming_locals map node
    · rfl
  · next hkind =>
    simp only [hkind, Kind.isProc]
    split <;> simp_all
  · next hkind =>
    simp only [hkind, Kind.isProc]
    split <;> simp_all
  · next hproc hlambda =>
    rw [if_neg]
    simp only [Kind.isProc, decide_eq_true_eq]
    tauto

/-- The renames that the enabled rules ask for. -/
def buildRenameMap (root : Tree) : RenameMap :=
  (root.visited (fun _ => false) []).foldl
    (checks.checkDeclaration (FixConfig.fromConfig checks.config)) ⟨∅, ∅⟩

end Checks

end Lint4d.Fix
