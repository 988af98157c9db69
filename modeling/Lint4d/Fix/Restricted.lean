import Lint4d.Fix.CollectEdits
import Lint4d.Fix.Replace
import Lint4d.Fix.Suppressions

/-!
# The restricted fixer

The conservative naming fixes: identifiers take their declared spelling, and
local names take the spelling of the naming style where it differs by case only.
Renames of file-level declarations are never applied.
-/

namespace Lint4d.Fix

open Lint4d.Cache Lint4d.Lib Lint4d.Lib.Utf8

/-! ## The code -/

inductive FileType where
  | pas
  | dpr
  | dpk
deriving DecidableEq

inductive FixError where
  | invalidUtf8
  | parse (message : String)
  | edit (error : EditError)

/-- The tree of a source, and whether the parser met an error in it. -/
structure ParseResult where
  root : Tree
  hasErrors : Bool

/-- What the fixer is given from outside. -/
structure Platform where
  unicode : Unicode
  memory : Memory
  parseFile : FileType → Bytes → Except String ParseResult

/-- The local renames that change case only; file renames are dropped. -/
def RenameMap.caseOnly (unicode : Unicode) (map : RenameMap) : RenameMap where
  file := ∅
  locals :=
    { entries := map.locals.entries.filter fun rename =>
        rename.1.oldName = lowercase unicode rename.2
      nodupKeys := map.locals.nodupKeys.sublist List.filter_sublist }

/-- The walk of the restricted fixer over a parsed source. -/
def restrictedWalk (unicode : Unicode) (source : Bytes) (config : Config) (root : Tree) :
    EditWalk where
  unicode := unicode
  source := source
  renameMap :=
    (Checks.buildRenameMap ⟨unicode, source, parseSuppressions source, config⟩ root).caseOnly unicode
  scopes := collectFileScope unicode source root
  casingEnabled := (FixConfig.forRules config [.identifierCasing, .localVariableNaming]).casing
  shadowBarriers := true

def restrictedEdits (unicode : Unicode) (source : Bytes) (config : Config) (root : Tree) :
    List TextEdit :=
  (restrictedWalk unicode source config root).walkForEdits root

/-- Fix one file; `none` when the call panics. -/
def fixFileRestricted (platform : Platform) (fileType : FileType) (source : Bytes)
    (config : Config) : Option (Except FixError (Bytes × Nat)) :=
  if fileType = .dpr ∨ fileType = .dpk then some (.ok (source, 0))
  else if (decode? source).isNone then some (.error .invalidUtf8)
  else match platform.parseFile fileType source with
    | .error message => some (.error (.parse message))
    | .ok result =>
      if result.hasErrors then some (.ok (source, 0))
      else
        (applyEdits platform.memory source
          (restrictedEdits platform.unicode source config result.root)).map (Except.mapError .edit)

/-! ## Syntax trees -/

def isIdentifierStart (c : Char) : Bool := c.isAlpha || c = '_'

def isIdentifierContinue (c : Char) : Bool := c.isAlpha || c = '_' || c.isDigit || c = '$'

/-- The words of the scanner; an ampersand escapes a reserved word. -/
def isIdentifier : Text → Bool
  | '&' :: c :: rest => isIdentifierStart c && rest.all isIdentifierContinue
  | c :: rest => isIdentifierStart c && rest.all isIdentifierContinue
  | [] => false

/-- The bytes of a node. -/
def nodeBytes (source : Bytes) (node : Node) : Bytes :=
  (source.take node.endByte).drop node.startByte

/-- What the grammar promises about the tree of a source without errors. -/
structure SyntaxTree (source : Bytes) where
  root : Tree
  spanned : root.Spanned
  inSource : root.endByte ≤ source.length
  /-- Identifiers are words of the scanner. -/
  identifier : ∀ node : Node, node.Valid root → node.kind = .identifier →
    ∃ word, isIdentifier word ∧ nodeBytes source node = encode word
  /-- Types and constants are named by identifiers, or by names with a dot or type parameters. -/
  declarationName : ∀ node name : Node, node.Valid root →
    node.kind = .declType ∨ node.kind = .declConst → node.childByFieldName .name = some name →
    name.kind = .identifier ∨ (46 : UInt8) ∈ nodeBytes source name ∨
      (60 : UInt8) ∈ nodeBytes source name

/-- The promises of the grammar, checked on every node of a tree. -/
def isSyntaxTree (source : Bytes) (root : Tree) : Bool :=
  decide root.Spanned && decide (root.endByte ≤ source.length) &&
    (root.visited (fun _ => false) []).all fun node =>
      (node.kind ≠ .identifier || (decode? (nodeBytes source node)).any isIdentifier) &&
        ((node.kind ≠ .declType && node.kind ≠ .declConst) ||
          (node.childByFieldName .name).all fun name =>
            name.kind = .identifier || decide ((46 : UInt8) ∈ nodeBytes source name) ||
              decide ((60 : UInt8) ∈ nodeBytes source name))

/-- A tree that passes the check is a syntax tree. -/
def SyntaxTree.ofChecked (source : Bytes) (root : Tree) (h : isSyntaxTree source root = true) :
    SyntaxTree source where
  root := root
  spanned := by
    simp only [isSyntaxTree, Bool.and_eq_true, decide_eq_true_eq] at h
    exact h.1.1
  inSource := by
    simp only [isSyntaxTree, Bool.and_eq_true, decide_eq_true_eq] at h
    exact h.1.2
  identifier node hvalid hkind := by
    simp only [isSyntaxTree, Bool.and_eq_true, List.all_eq_true] at h
    have hnode := (h.2 node (Node.mem_visited_iff.2 ⟨hvalid, fun _ _ => rfl⟩)).1
    simp only [hkind, ne_eq, not_true_eq_false, decide_false, Bool.false_or,
      Option.any_eq_true_iff_get] at hnode
    obtain ⟨hsome, hword⟩ := hnode
    exact ⟨_, hword, (decode?_eq_some_iff.1 (Option.some_get hsome).symm).symm⟩
  declarationName node name hvalid hkind hname := by
    simp only [isSyntaxTree, Bool.and_eq_true, List.all_eq_true] at h
    have hnode := (h.2 node (Node.mem_visited_iff.2 ⟨hvalid, fun _ _ => rfl⟩)).2
    rw [hname] at hnode
    rcases hkind with hkind | hkind <;> simpa [hkind, or_assoc] using hnode

end Lint4d.Fix
