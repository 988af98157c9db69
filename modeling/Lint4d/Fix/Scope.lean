import Lint4d.Fix.Splice
import Lint4d.Lib.SyntaxTree
import Lint4d.Lib.Utf8

/-!
# Declared names

The declarations of a source file, collected from its syntax tree: the names at
file level, the fields of classes and records, and the parameters and variables
of a routine.  Every scope maps the lower case of a name to its declared
spelling.
-/

namespace Lint4d.Fix

open Lint4d.Cache Lint4d.Lib Lint4d.Lib.Utf8

/-- The node kinds that the fixer tells apart. -/
inductive Kind where
  | identifier
  | declType
  | declConst
  | declVar
  | declVars
  | declField
  | declArg
  | declArgs
  | declProc
  | declClass
  | declRecord
  | declIntf
  | declSection
  | defProc
  | lambda
  | genericDot
  | genericTpl
  | exprDot
  | inherited
  | typeref
  | moduleName
  | with
  | ppBlock
  | ppIf
  | ppElse
  | ppEndIf
  | other
deriving DecidableEq

/-- The field names that the fixer asks for. -/
inductive Field where
  | name
  | type
  | header
  | local
  | args
  | body
  | lhs
  | other
deriving DecidableEq

abbrev Tree := Lib.Node Kind Field

abbrev Node := Lib.Cursor Kind Field

/-! ## Text -/

/-- UTF-8 when the bytes are valid, and one character for each byte otherwise. -/
def decodeBytes (bytes : Bytes) : Text :=
  (decode? bytes).getD (bytes.map fun byte => Char.ofNat byte.toNat)

/-- The text of a node.  The nodes of a tree end inside the source. -/
def nodeText (source : Bytes) (node : Node) : Text :=
  decodeBytes ((source.take node.endByte).drop node.startByte)

/-! ## Scopes -/

/-- A map from lower-case names to spellings. -/
abbrev NameMap := Text → Option Text

namespace NameMap

def empty : NameMap := fun _ => none

def insert (map : NameMap) (key value : Text) : NameMap :=
  fun name => if name = key then some value else map name

def erase (map : NameMap) (key : Text) : NameMap :=
  fun name => if name = key then none else map name

end NameMap

structure Scopes where
  file : NameMap
  classes : Text → Option NameMap

/-! ## Conditional blocks -/

mutual

/-- The children of a node with the branches of conditional blocks among them.  The nodes that
delimit the branches are dropped inside a block, and a block directly inside a block is read like
any other node. -/
def effectiveChildrenOf (insideBlock : Bool) (above : List (Place Kind Field)) : Tree → List Node
  | node@(.mk _ _ _ _ children) => effectiveChildrenIn insideBlock ⟨above, node⟩ 0 children

def effectiveChildrenIn (insideBlock : Bool) (parent : Node) (index : Nat) :
    List (Child Field Tree) → List Node
  | [] => []
  | child :: rest =>
    (if child.node.kind = .ppBlock then
        effectiveChildrenOf (!insideBlock) (parent.down index child.node).above child.node
      else if insideBlock ∧ child.node.kind ∈ [Kind.ppIf, .ppElse, .ppEndIf] then []
      else [parent.down index child.node]) ++
      effectiveChildrenIn insideBlock parent (index + 1) rest

end

variable (node : Node)

def effectiveChildren : List Node := effectiveChildrenOf false node.above node.node

/-! ## Collecting declarations -/

section Collect

variable (unicode : Unicode) (source : Bytes)

variable (map : NameMap)

/-- Record the spelling of a name under its lower case. -/
def insertName (name : Node) : NameMap :=
  map.insert (lowercase unicode (nodeText source name)) (nodeText source name)

/-- The identifiers that a declaration lists under its name field. -/
def declaredNames (decl : Node) : List Node :=
  decl.children.filter fun child => child.kind = .identifier ∧ child.field = some .name

def collectDeclNames (decl : Node) : NameMap :=
  (declaredNames decl).foldl (insertName unicode source) map

def collectDeclFieldNames (declField : Node) : NameMap :=
  collectDeclNames unicode source map declField

def collectDeclVarNames (declVar : Node) : NameMap :=
  collectDeclNames unicode source map declVar

def collectDeclArgNames (declArg : Node) : NameMap :=
  collectDeclNames unicode source map declArg

def fieldDeclarations (classNode : Node) : List Node :=
  ((effectiveChildren classNode).filter (·.kind = .declSection)).flatMap fun declSection =>
    (effectiveChildren declSection).filter (·.kind = .declField)

/-- The fields of a class or record. -/
def collectClassFields (fields : NameMap) (classNode : Node) : NameMap :=
  (fieldDeclarations classNode).foldl (collectDeclFieldNames unicode source) fields

def parameterDeclarations (header : Node) : List Node :=
  (header.children.filter (·.kind = .declArgs)).flatMap fun declArgs =>
    declArgs.children.filter (·.kind = .declArg)

def collectParamsFromHeader (header : Node) : NameMap :=
  (parameterDeclarations header).foldl (collectDeclArgNames unicode source) map

def variableDeclarations (procNode : Node) : List Node :=
  ((effectiveChildren procNode).filter (·.kind = .declVars)).flatMap fun declVars =>
    (effectiveChildren declVars).filter (·.kind = .declVar)

/-- The parameters and local variables of a routine. -/
def collectMethodScope (procNode : Node) : NameMap :=
  (variableDeclarations procNode).foldl (collectDeclVarNames unicode source)
    (match procNode.childByFieldName .header with
      | some header => collectParamsFromHeader unicode source map header
      | none => map)

def Kind.isProc (kind : Kind) : Bool := kind = .defProc ∨ kind = .lambda

def isInsideProc (node : Node) : Bool := node.above.any (·.parent.kind.isProc)

/-- The kinds of declaration below which the collector does not look. -/
def Kind.isDeclaration (kind : Kind) : Bool :=
  kind = .declType ∨ kind = .declConst ∨ kind = .declVar ∨ kind = .declProc

/-- What one node adds to the scopes. -/
def collectDeclaration (scopes : Scopes) (node : Node) : Scopes :=
  match node.kind with
  | .declType =>
    match node.childByFieldName .name with
    | none => scopes
    | some name =>
      let key := lowercase unicode (nodeText source name)
      let file := insertName unicode source scopes.file name
      match node.childByFieldName .type with
      | none => { scopes with file := file }
      | some typeNode =>
        if typeNode.kind = .declClass ∨ typeNode.kind = .declRecord then
          -- a class declared again adds to its fields
          let fields := (scopes.classes key).getD NameMap.empty
          { file := file
            classes := fun name =>
              if name = key then some (collectClassFields unicode source fields typeNode)
              else scopes.classes name }
        else { scopes with file := file }
  | .declConst =>
    match node.childByFieldName .name with
    | none => scopes
    | some name => { scopes with file := insertName unicode source scopes.file name }
  | .declVar =>
    if isInsideProc node then scopes
    else { scopes with file := collectDeclVarNames unicode source scopes.file node }
  | .declProc =>
    match node.childByFieldName .name with
    | none => scopes
    | some name =>
      if name.kind = .identifier then
        { scopes with file := insertName unicode source scopes.file name }
      else scopes
  | _ => scopes

def collectFileScope (root : Tree) : Scopes :=
  (root.visited (·.kind.isDeclaration) []).foldl (collectDeclaration unicode source)
    ⟨NameMap.empty, fun _ => none⟩

end Collect

/-! ## Positions -/

def Node.parentKind : Option Kind := node.parent.map (·.kind)

/-- The identifier is the right-hand side of a dot expression. -/
def isDotRhs : Bool :=
  match node.parent with
  | none => false
  | some parent =>
    if parent.kind ≠ .exprDot then false
    else match parent.childByFieldName .lhs with
      | some lhs => lhs.id ≠ node.id
      | none => true

def isInside (kind : Kind) (node : Node) : Bool := node.parentKind = some kind

def isInsideInherited : Bool := isInside .inherited node

def isInsideTyperef : Bool := isInside .typeref node

def isInsideModuleName : Bool := isInside .moduleName node

/-- The node is the first name of the declaration. -/
def isNameOf (decl node : Node) : Bool :=
  match decl.childByFieldName .name with
  | some name => name.id = node.id
  | none => false

/-- The identifier is a declaration and not a use.  Of a declaration with several names only the
first one is. -/
def isDeclarationPosition : Bool :=
  match node.parent with
  | none => false
  | some parent =>
    match parent.kind with
    | .declVar | .declConst | .declType | .declField | .declArg => isNameOf parent node
    | .declProc =>
      match parent.childByFieldName .name with
      | some name => if name.kind = .identifier then name.id = node.id else name.kind = .genericDot
      | none => false
    | .genericDot =>
      match parent.parent with
      | none => false
      | some grandparent =>
        if grandparent.kind = .declProc then isNameOf grandparent parent else false
    | _ => false

end Lint4d.Fix
