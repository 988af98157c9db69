import Lint4d.Msbuild.Condition

/-!
# Operations of a project document

A project file is flattened while its XML is read: every property group, import and
reference becomes an operation, guarded by the conditions of the elements around it as
one text.  The branches of a `Choose` are guarded by the negations of the `When`s
before them.

The XML reader is not modelled; a document is the stream of its events.
-/

namespace Lint4d.Msbuild

open Lint4d.Conditional (Text trim lower)

/-! ## Operations -/

structure PropertyEntry where
  name : Text
  condition : Option Text
  value : Text
deriving DecidableEq

structure PropertyGroup where
  condition : Option Text
  properties : List PropertyEntry
deriving DecidableEq

structure Import where
  project : Text
  condition : Option Text
deriving DecidableEq

structure DccReference where
  included : Text
  condition : Option Text
deriving DecidableEq

/-- What a project file does, in document order. -/
inductive XmlOperation where
  | propertyGroup (group : PropertyGroup)
  | dccReference (reference : DccReference)
  | importFile (target : Import)
  | unsupported
deriving DecidableEq

/-! ## Conditions of nested elements -/

/-- The condition of an element under one that has its own. -/
def combineConditions (parent own : Option Text) : Option Text :=
  match presentCondition parent, presentCondition own with
  | none, none => none
  | some parent, none => some parent
  | none, some own => some own
  | some parent, some own => some ("(".toList ++ parent ++ ") And (".toList ++ own ++ ")".toList)

/-- Put a separator between texts. -/
def joinTexts (separator : Text) : List Text → Text
  | [] => []
  | [text] => text
  | text :: rest => text ++ separator ++ joinTexts separator rest

/-- The negations of the conditions of the branches before. -/
def negatedBranches (branches : List Text) : Text :=
  joinTexts " And ".toList (branches.map fun earlier => "!(".toList ++ earlier ++ ")".toList)

/-- What guards a `When` with its own condition. -/
def whenGuard (branches : List Text) (own : Text) : Text :=
  let guard := negatedBranches branches
  (if guard = [] then guard else guard ++ " And ".toList) ++ ("(".toList ++ own ++ ")".toList)

/-- A `When` without a condition always holds. -/
def whenCondition (own : Option Text) : Text :=
  match own with
  | some own => if trim own = [] then "'1'=='1'".toList else own
  | none => "'1'=='1'".toList

/-! ## Reading events -/

abbrev Attributes := List (Text × Text)

inductive Event where
  | start (name : Text) (attributes : Attributes)
  | empty (name : Text) (attributes : Attributes)
  | text (text : Text)
  | cdata (text : Text)
  | generalRef (resolved : Except String Text)
  | close
  | other

/-- The part of a name after its last colon. -/
def localName (name : Text) : Text := (name.reverse.takeWhile fun c => c ≠ ':').reverse

/-- A later attribute of a name replaces an earlier one. -/
def attributeValue (attributes : Attributes) (name : String) : Option Text :=
  (attributes.reverse.find? fun entry => lower (localName entry.1) = name.toList).map Prod.snd

/-- What an open element is to the reader. -/
inductive FrameKind where
  | other (condition : Option Text) (inTarget : Bool)
  | propertyGroup (operation : Nat) (condition : Option Text)
  | choose (condition : Option Text) (branches : List Text)
  | property (operation : Nat) (condition : Option Text) (entry : PropertyEntry)

namespace FrameKind

def condition : FrameKind → Option Text
  | .other condition _ => condition
  | .propertyGroup _ condition => condition
  | .choose condition _ => condition
  | .property _ condition _ => condition

def inTarget : FrameKind → Bool
  | .other _ inTarget => inTarget
  | _ => false

def group : FrameKind → Option Nat
  | .propertyGroup operation _ => some operation
  | _ => none

end FrameKind

structure XmlFrame where
  kind : FrameKind
  text : Text

/-- The innermost open element comes first. -/
structure ParseState where
  operations : List XmlOperation
  frames : List XmlFrame

namespace ParseState

variable (state : ParseState)

def parentCondition : Option Text := state.frames.head?.bind fun frame => frame.kind.condition

def parentInTarget : Bool :=
  match state.frames with
  | [] => false
  | frame :: _ => frame.kind.inTarget

def parentGroup : Option Nat := state.frames.head?.bind fun frame => frame.kind.group

def push (kind : FrameKind) : ParseState := { state with frames := ⟨kind, []⟩ :: state.frames }

def addOperation (operation : XmlOperation) : ParseState :=
  { state with operations := state.operations ++ [operation] }

def addProperty (entry : PropertyEntry) : XmlOperation → XmlOperation
  | .propertyGroup group => .propertyGroup { group with properties := group.properties ++ [entry] }
  | operation => operation

def pushProperty (operation : Nat) (entry : PropertyEntry) : ParseState :=
  { state with operations := state.operations.modify operation (addProperty entry) }

def isBranch (name : Text) : Bool := isNamed name "when" || isNamed name "otherwise"

/-- A branch of the innermost element, which is a `Choose`. -/
def startBranch (name : Text) (own condition : Option Text) (branches : List Text)
    (frame : XmlFrame) (frames : List XmlFrame) : ParseState :=
  let own := whenCondition own
  let isWhen := isNamed name "when"
  let guard := if isWhen then whenGuard branches own else negatedBranches branches
  let branches := if isWhen then branches ++ [own] else branches
  let branchCondition := combineConditions condition (if guard = [] then none else some guard)
  { state with frames := ⟨.other branchCondition false, []⟩ ::
      { frame with kind := .choose condition branches } :: frames }

def isNamedProperty (name : Text) (attributes : Attributes) : Bool :=
  (isNamed name "option" || isNamed name "property") && (attributeValue attributes "name").isSome

/-- An element that is neither in a target nor a branch of a `Choose`. -/
def startPlain (name : Text) (attributes : Attributes) : ParseState :=
  let own := attributeValue attributes "condition"
  let effective := combineConditions state.parentCondition own
  if isNamed name "choose" then state.push (.choose effective [])
  else if isNamed name "propertygroup" then
    (state.addOperation (.propertyGroup ⟨effective, []⟩)).push
      (.propertyGroup state.operations.length effective)
  else if isNamed name "import" then
    (state.addOperation
      (.importFile ⟨(attributeValue attributes "project").getD [], effective⟩)).push
        (.other none false)
  else if isNamed name "dccreference" then
    (state.addOperation
      (.dccReference ⟨(attributeValue attributes "include").getD [], effective⟩)).push
        (.other none false)
  else if isNamedProperty name attributes then
    (state.addOperation (.propertyGroup ⟨effective, []⟩)).push
      (.property state.operations.length effective
        ⟨(attributeValue attributes "name").getD [], none,
          (attributeValue attributes "value").getD []⟩)
  else
    match state.parentGroup with
    | some operation => state.push (.property operation state.parentCondition ⟨name, own, []⟩)
    | none => state.push (.other effective false)

/-- An opening tag: what it is depends on its name and on the open frames. -/
def startElement (rawName : Text) (attributes : Attributes) : ParseState :=
  let name := localName rawName
  let own := attributeValue attributes "condition"
  let state := if isNamed name "target" && !state.parentInTarget then
    state.addOperation .unsupported else state
  if state.parentInTarget || isNamed name "target" then
    state.push (.other (combineConditions state.parentCondition own) true)
  else
    match state.frames with
    | frame :: frames =>
      match frame.kind with
      | .choose condition branches =>
        -- a nested `Choose` is none of the branches
        if isBranch name then state.startBranch name own condition branches frame frames
        else state.startPlain name attributes
      | _ => state.startPlain name attributes
    | [] => state.startPlain name attributes

def emptyElement (rawName : Text) (attributes : Attributes) : ParseState :=
  let name := localName rawName
  let own := attributeValue attributes "condition"
  let effective := combineConditions state.parentCondition own
  if state.parentInTarget || isNamed name "target" then
    if isNamed name "target" && !state.parentInTarget then state.addOperation .unsupported
    else state
  else if isNamed name "import" then
    state.addOperation (.importFile ⟨(attributeValue attributes "project").getD [], effective⟩)
  else if isNamed name "dccreference" then
    state.addOperation (.dccReference ⟨(attributeValue attributes "include").getD [], effective⟩)
  else if isNamedProperty name attributes then
    state.addOperation (.propertyGroup ⟨effective,
      [⟨(attributeValue attributes "name").getD [], none,
        (attributeValue attributes "value").getD []⟩]⟩)
  else
    match state.parentGroup with
    | some operation => state.pushProperty operation ⟨name, own, []⟩
    | none => state

/-- Only the text of properties is kept. -/
def addText (text : Text) : ParseState :=
  match state.frames with
  | ⟨.property operation condition entry, before⟩ :: frames =>
    { state with frames := ⟨.property operation condition entry, before ++ text⟩ :: frames }
  | _ => state

def isInProperty : Bool :=
  match state.frames with
  | ⟨.property _ _ _, _⟩ :: _ => true
  | _ => false

def step : Event → Except String ParseState
  | .start name attributes => .ok (state.startElement name attributes)
  | .empty name attributes => .ok (state.emptyElement name attributes)
  | .text text | .cdata text => .ok (state.addText text)
  | .generalRef resolved => if state.isInProperty then resolved.map state.addText else .ok state
  | .close =>
    match state.frames with
    | [] => .error "unexpected XML closing tag"
    | ⟨.property operation _ entry, text⟩ :: frames =>
      .ok ({ state with frames }.pushProperty operation { entry with value := trim text })
    | _ :: frames => .ok { state with frames }
  | .other => .ok state

/-- The reader over the events of a file; the first error stops it. -/
def run (state : ParseState) : List (Except String Event) → Except String ParseState
  | [] => .ok state
  | .error message :: _ => .error message
  | .ok event :: events =>
    match state.step event with
    | .error message => .error message
    | .ok state => run state events

end ParseState

/-- The operations of a project file. -/
def parseXmlOperations (events : List (Except String Event)) :
    Except String (List XmlOperation) :=
  match ParseState.run ⟨[], []⟩ events with
  | .error message => .error message
  | .ok state =>
    if state.frames ≠ [] then .error "unterminated XML element" else .ok state.operations

end Lint4d.Msbuild
