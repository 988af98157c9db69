import Lint4d.Conditional.Lexer

/-!
# Conditions of MSBuild elements

A condition is cut into tokens and evaluated while it is parsed.  The property
references in its values are expanded first; a value that rests on a property the
evaluation does not know makes a comparison unknown.  `Exists` looks at a file and
notes it among the metadata files, of which there is a limited number.

Warnings are left out: nothing in the evaluation reads them.  The loops of the
parser run on fuel, three units for a token.
-/

namespace Lint4d.Msbuild

open Lint4d.Lib (Truth)
open Lint4d.Conditional (Text byteLen isWhitespace trim lower)

/-! ## Texts -/

def eqIgnoreAsciiCase (a b : Text) : Bool := lower a == lower b

def isNamed (name : Text) (word : String) : Bool := eqIgnoreAsciiCase name word.toList

/-- Stands in a value for what is not known. -/
def unresolvedMarker : Char := '\x01'

def maxExpandedValueBytes : Nat := 1024 * 1024

def maxMetadataFiles : Nat := 64 + 1

/-- Append within the budget of one value. -/
def appendExpansion (target addition : Text) : Option Text :=
  if byteLen target + byteLen addition > maxExpandedValueBytes then none
  else some (target ++ addition)

inductive Piece where
  | literal (text : Text)
  /-- `$(name)`, trimmed. -/
  | reference (name : Text)
  /-- `$(` without a closing parenthesis. -/
  | unclosed
deriving DecidableEq

mutual

/-- The pieces of a value in the order the expansion meets them. -/
def scanLiteral (read : Text) : Text → List Piece
  | [] => [.literal read.reverse]
  | '$' :: '(' :: rest => .literal read.reverse :: scanName [] rest
  | c :: rest => scanLiteral (c :: read) rest

def scanName (read : Text) : Text → List Piece
  | [] => [.unclosed]
  | ')' :: rest => .reference (trim read.reverse) :: scanLiteral [] rest
  | c :: rest => scanName (c :: read) rest

end

def pieces (value : Text) : List Piece := scanLiteral [] value

/-! ## Property names -/

abbrev Map (α : Type) := AList fun _ : Text => α

def isThisFileDirectory (name : Text) : Bool :=
  isNamed name "thisfiledirectory" || isNamed name "msbuildthisfiledirectory"

def environmentProvidedProperties : List String :=
  ["bds", "bdsbin", "bdsinclude", "bdslib", "bdscommondir", "bdsuserdir", "bdsappdatabasedir",
    "bdsplatformsdksdir", "bdsprojectsdir", "bdscatalogrepository",
    "bdscatalogrepositoryallusers", "appdata", "delphi", "productversion", "ibredistdir",
    "frameworkdir", "frameworkversion", "frameworksdkdir", "targetname", "targetext",
    "targetfilename", "targetpath", "targetdir", "outdir", "outputpath", "projectdir",
    "projectname", "projectpath", "projectfilename", "projectext", "allusersprofile",
    "commonprogramfiles", "commonprogramfiles(x86)", "commonprogramw6432", "computername",
    "homedrive", "homepath", "localappdata", "number_of_processors", "os", "path", "pathext",
    "processor_architecture", "programdata", "programfiles", "programfiles(x86)",
    "programw6432", "public", "systemdrive", "systemroot", "temp", "tmp", "userdomain",
    "username", "userprofile", "windir"]

/-- Defined by every real build, so that an undefined one is not empty. -/
def isEnvironmentProvidedProperty (name : Text) : Bool :=
  "msbuild".toList.isPrefixOf (lower name) ||
    environmentProvidedProperties.any fun provided => lower name == provided.toList

def isKnownProjectLocalConfigurationProperty (name : Text) : Bool :=
  let name := lower name
  name == "config".toList || name == "platform".toList || name == "base".toList ||
    "base_".toList.isPrefixOf name || "cfg_".toList.isPrefixOf name || name == "cfgparent".toList

/-! ## Paths -/

/-- Why a path may be read. -/
inductive ProjectPathProvenance (Path : Type) where
  | legacyNative
  | configured
  | mapped (root : Path)
deriving DecidableEq

/-- A path with the root of the mapping that translated it, if one did. -/
structure ResolvedPath (Path : Type) where
  path : Path
  mappingRoot : Option Path

structure ProjectPathEntry (Path : Type) where
  path : Path
  provenance : ProjectPathProvenance Path
deriving DecidableEq

def ProjectPathEntry.resolved {Path : Type} (path : Path) (resolved : ResolvedPath Path)
    (configured : Bool) : ProjectPathEntry Path :=
  match resolved.mappingRoot with
  | none => ⟨path, if configured then .configured else .legacyNative⟩
  | some root => ⟨path, .mapped root⟩

inductive ExistingPathStatus (Path : Type) where
  | found (path : Path)
  | missing
  | unresolvable

/-- The files and the settings that say where paths lead and what may be read. -/
structure Files (Path : Type) where
  /-- The directory of a file. -/
  parent : Path → Path
  display : Path → Text
  /-- The normalized path a text stands for at a directory. -/
  candidate : Path → Text → Option (ResolvedPath Path)
  status : ResolvedPath Path → ExistingPathStatus Path
  allowsLocation : ProjectPathEntry Path → Bool
  allowsEntry : ProjectPathEntry Path → Bool

section Evaluation

variable {Path : Type} [DecidableEq Path] (files : Files Path)

/-- What `$(ThisFileDirectory)` is in a file. -/
def Files.directoryText (sourceFile : Path) : Text :=
  let directory := (files.display (files.parent sourceFile)).map fun c =>
    if c = '\\' then '/' else c
  (directory.reverse.dropWhile fun c => c = '/').reverse ++ ['/']

/-- False when there is no room for another file. -/
def addMetadataFile (metadataFiles : List Path) (path : Path) : Bool × List Path :=
  if path ∈ metadataFiles then (true, metadataFiles)
  else if metadataFiles.length ≥ maxMetadataFiles then (false, metadataFiles)
  else (true, metadataFiles ++ [path])

/-! ## Values of a condition -/

structure ConditionEnvironment where
  properties : Map Text
  unknownProperties : Finset Text
  unknownImportTaint : Bool
  undefinedIsEmpty : Bool

structure ConditionValue where
  value : Text
  unknown : Bool
deriving DecidableEq

variable (environment : ConditionEnvironment) (sourceFile : Path)

def expandConditionPieces : List Piece → Text → Bool → ConditionValue
  | [], expanded, missing => ⟨expanded, missing⟩
  | .unclosed :: _, _, _ => ⟨[], true⟩
  | .literal text :: rest, expanded, missing =>
    match appendExpansion expanded text with
    | none => ⟨[], true⟩
    | some expanded => expandConditionPieces rest expanded missing
  | .reference name :: rest, expanded, missing =>
    if isThisFileDirectory name then
      match appendExpansion expanded (files.directoryText sourceFile) with
      | none => ⟨[], true⟩
      | some expanded => expandConditionPieces rest expanded missing
    else
      match environment.properties.lookup (lower name) with
      | some replacement =>
        match appendExpansion expanded replacement with
        | none => ⟨[], true⟩
        | some expanded =>
          expandConditionPieces rest expanded
            (missing || (unresolvedMarker ∈ replacement ||
              lower name ∈ environment.unknownProperties))
      | none =>
        if !environment.unknownImportTaint && isKnownProjectLocalConfigurationProperty name then
          expandConditionPieces rest expanded missing
        else if !environment.unknownImportTaint && environment.undefinedIsEmpty &&
            !isEnvironmentProvidedProperty name then
          expandConditionPieces rest expanded missing
        else
          match appendExpansion expanded [unresolvedMarker] with
          | none => ⟨[], true⟩
          | some expanded => expandConditionPieces rest expanded true

def expandConditionValue (value : Text) : ConditionValue :=
  expandConditionPieces files environment sourceFile (pieces value) [] false

/-! ## Tokens -/

inductive ConditionToken where
  | word (text : Text)
  | quoted (text : Text)
  | equals
  | notEquals
  | leftParen
  | rightParen
  | comma
  | bang
deriving DecidableEq

def isWordChar (c : Char) : Bool :=
  !(isWhitespace c || c == '(' || c == ')' || c == ',' || c == '!' || c == '=')

/-- Text up to a closing quote, and what follows it. -/
def breakQuote (quote : Char) : Text → Option (Text × Text)
  | [] => none
  | c :: rest =>
    if c = quote then some ([], rest)
    else (breakQuote quote rest).map fun (value, after) => (c :: value, after)

lemma length_breakQuote {quote : Char} {text value after : Text}
    (h : breakQuote quote text = some (value, after)) : after.length < text.length := by
  induction text generalizing value with
  | nil => cases h
  | cons c _ ih =>
    unfold breakQuote at h
    split at h
    · cases h
      simp
    · obtain ⟨⟨_, _⟩, hrest, heq⟩ := Option.map_eq_some_iff.1 h
      obtain ⟨-, rfl⟩ := Prod.mk.inj heq
      have := ih hrest
      simp only [List.length_cons]
      omega

/-- The token at the start of a text that does not start with white space. -/
inductive FirstToken where
  | token (token : ConditionToken) (rest : Text)
  | error (message : String)

def firstToken (c : Char) (rest : Text) : FirstToken :=
  if c = '=' ∧ rest.head? = some '=' then .token .equals rest.tail
  else if c = '!' ∧ rest.head? = some '=' then .token .notEquals rest.tail
  else if c = '!' then .token .bang rest
  else if c = '(' then .token .leftParen rest
  else if c = ')' then .token .rightParen rest
  else if c = ',' then .token .comma rest
  else if c = '\x27' ∨ c = '\x22' then
    match breakQuote c rest with
    | none => .error "unterminated quoted value"
    | some (value, after) => .token (.quoted value) after
  else if isWordChar c then
    .token (.word (c :: rest.takeWhile isWordChar)) (rest.dropWhile isWordChar)
  else .error "unexpected character"

lemma length_firstToken {c : Char} {rest after : Text} {token : ConditionToken}
    (h : firstToken c rest = .token token after) : after.length ≤ rest.length := by
  unfold firstToken at h
  split_ifs at h with heq hne hbang hopen hclose hcomma hquote hword
  iterate 2
    cases h
    simp
  iterate 4
    cases h
    exact le_rfl
  · split at h
    · cases h
    · rename_i hbreak
      cases h
      exact Nat.le_of_lt (length_breakQuote hbreak)
  · cases h
    exact (List.dropWhile_suffix _).sublist.length_le

def tokenizeCondition : Text → Except String (List ConditionToken)
  | [] => .ok []
  | c :: rest =>
    if isWhitespace c then tokenizeCondition rest
    else
      match _h : firstToken c rest with
      | .error message => .error message
      | .token token after => do
        let tokens ← tokenizeCondition after
        pure (token :: tokens)
termination_by text => text.length
decreasing_by
  all_goals simp only [List.length_cons]
  · omega
  · have := length_firstToken _h
    omega

/-! ## The parser -/

structure ConditionParser (Path : Type) where
  tokens : List ConditionToken
  metadataFiles : List Path

/-- What a function of the parser returns, and the parser after it. -/
abbrev Parsed (Path α : Type) := Except String α × ConditionParser Path

namespace ConditionParser

variable (parser : ConditionParser Path)

def advance : ConditionParser Path := { parser with tokens := parser.tokens.tail }

def peekWord (expected : String) : Bool :=
  match parser.tokens with
  | .word value :: _ => isNamed value expected
  | _ => false

/-- The next token is `token`. -/
def peek (token : ConditionToken) : Bool := parser.tokens.head? = some token

def parseValue : Parsed Path ConditionValue :=
  match parser.tokens with
  | [] => (.error "missing condition value", parser)
  | .word value :: _ | .quoted value :: _ =>
    (.ok (expandConditionValue files environment sourceFile value), parser.advance)
  | _ :: _ => (.error "expected a condition value", parser.advance)

/-- What `Exists` says about a value. -/
def existsValue (argument : ConditionValue) : Truth × ConditionParser Path :=
  if argument.unknown then (.unknown, parser)
  else
    match files.candidate (files.parent sourceFile) argument.value with
    | none => (.unknown, parser)
    | some resolved =>
      if !files.allowsLocation (.resolved resolved.path resolved true) then (.unknown, parser)
      else
        let status := files.status resolved
        let path := match status with
          | .found path => path
          | _ => resolved.path
        match addMetadataFile parser.metadataFiles path with
        | (false, metadataFiles) => (.unknown, { parser with metadataFiles })
        | (true, metadataFiles) =>
          (match status with
            | .found _ => .true
            | .missing => .false
            | .unresolvable => .unknown, { parser with metadataFiles })

/-- `Exists(value)`, from the parenthesis on. -/
def parseExists : Parsed Path Truth :=
  if !parser.peek .leftParen then (.error "Exists requires parentheses", parser)
  else
    match parser.advance.parseValue files environment sourceFile with
    | (.error message, parser) => (.error message, parser)
    | (.ok argument, parser) =>
      if !parser.peek .rightParen then
        (.error "Exists is missing its closing parenthesis", parser)
      else
        let (value, parser) := parser.advance.existsValue files sourceFile argument
        (.ok value, parser)

def compare (equal : Bool) (left right : ConditionValue) : Truth :=
  if left.unknown || right.unknown then .unknown
  else .ofBool (eqIgnoreAsciiCase left.value right.value == equal)

def parseComparison : Parsed Path Truth :=
  match parser.parseValue files environment sourceFile with
  | (.error message, parser) => (.error message, parser)
  | (.ok left, parser) =>
    if parser.peek .equals || parser.peek .notEquals then
      match parser.advance.parseValue files environment sourceFile with
      | (.error message, after) => (.error message, after)
      | (.ok right, after) => (.ok (compare (parser.peek .equals) left right), after)
    else (.error "condition requires == or !=", parser)

mutual

def parseOr : Nat → ConditionParser Path → Parsed Path Truth
  | 0, parser => (.error "out of fuel", parser)
  | fuel + 1, parser =>
    match parseAnd fuel parser with
    | (.error message, parser) => (.error message, parser)
    | (.ok value, parser) => orLoop fuel value parser

def orLoop : Nat → Truth → ConditionParser Path → Parsed Path Truth
  | 0, _, parser => (.error "out of fuel", parser)
  | fuel + 1, value, parser =>
    if parser.peekWord "or" then
      match parseAnd fuel parser.advance with
      | (.error message, parser) => (.error message, parser)
      | (.ok next, parser) => orLoop fuel (value.or next) parser
    else (.ok value, parser)

def parseAnd : Nat → ConditionParser Path → Parsed Path Truth
  | 0, parser => (.error "out of fuel", parser)
  | fuel + 1, parser =>
    match parsePrimary fuel parser with
    | (.error message, parser) => (.error message, parser)
    | (.ok value, parser) => andLoop fuel value parser

def andLoop : Nat → Truth → ConditionParser Path → Parsed Path Truth
  | 0, _, parser => (.error "out of fuel", parser)
  | fuel + 1, value, parser =>
    if parser.peekWord "and" then
      match parsePrimary fuel parser.advance with
      | (.error message, parser) => (.error message, parser)
      | (.ok next, parser) => andLoop fuel (value.and next) parser
    else (.ok value, parser)

def parsePrimary : Nat → ConditionParser Path → Parsed Path Truth
  | 0, parser => (.error "out of fuel", parser)
  | fuel + 1, parser =>
    if parser.peek .bang then
      match parsePrimary fuel parser.advance with
      | (.error message, parser) => (.error message, parser)
      | (.ok value, parser) => (.ok value.not, parser)
    else if parser.peek .leftParen then
      match parseOr fuel parser.advance with
      | (.error message, parser) => (.error message, parser)
      | (.ok value, parser) =>
        if !parser.peek .rightParen then (.error "missing closing parenthesis", parser)
        else (.ok value, parser.advance)
    else if parser.peekWord "exists" then
      parser.advance.parseExists files environment sourceFile
    else parser.parseComparison files environment sourceFile

end

def parse : Parsed Path Truth :=
  match parseOr files environment sourceFile (3 * parser.tokens.length + 3) parser with
  | (.error message, parser) => (.error message, parser)
  | (.ok value, parser) =>
    if parser.tokens ≠ [] then (.error "trailing tokens", parser) else (.ok value, parser)

end ConditionParser

/-- A condition that is not blank. -/
def presentCondition (condition : Option Text) : Option Text :=
  (condition.map trim).filter fun condition => condition ≠ []

/-- The truth of a condition, and the metadata files after it. -/
def conditionMatches (condition : Option Text) (metadataFiles : List Path) :
    Truth × List Path :=
  match presentCondition condition with
  | none => (.true, metadataFiles)
  | some condition =>
    match tokenizeCondition condition with
    | .error _ => (.unknown, metadataFiles)
    | .ok tokens =>
      match ConditionParser.parse files environment sourceFile ⟨tokens, metadataFiles⟩ with
      | (.error _, parser) => (.unknown, parser.metadataFiles)
      | (.ok value, parser) => (value, parser.metadataFiles)

end Evaluation

end Lint4d.Msbuild
