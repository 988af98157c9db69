import Lint4d.Msbuild.Document

/-!
# The operations of a document tree

The reader flattens a document with a stack of open elements.  Here the operations are
read off the tree of the document, and the reader computes them.
-/

namespace Lint4d.Msbuild

open ParseState List

open Lint4d.Conditional (Text trim lower)

variable {α : Type} {name : Text}

inductive Node where
  | element (name : Text) (attributes : Attributes) (children : List Node)
  | emptyElement (name : Text) (attributes : Attributes)
  | text (content : Text)
  | cdata (content : Text)
  | reference (resolved : Text)
  | other

namespace Node

mutual

/-- The events of a node. -/
def events : Node → List Event
  | .element name attributes children => .start name attributes :: (listEvents children ++ [.close])
  | .emptyElement name attributes => [.empty name attributes]
  | .text content => [.text content]
  | .cdata content => [.cdata content]
  | .reference resolved => [.generalRef (.ok resolved)]
  | .other => [.other]

def listEvents : List Node → List Event
  | [] => []
  | node :: nodes => events node ++ listEvents nodes

end

def ownText : Node → Text
  | .text content | .cdata content | .reference content => content
  | _ => []

/-- The text right inside an element. -/
def innerText (nodes : List Node) : Text := nodes.flatMap ownText

end Node

/-! ## Where an element stands -/

inductive Context where
  | plain (condition : Option Text) (inTarget : Bool)
  | group (condition : Option Text)
  | choose (condition : Option Text) (branches : List Text)

namespace Context

def condition : Context → Option Text
  | .plain condition _ => condition
  | .group condition => condition
  | .choose condition _ => condition

def inTarget : Context → Bool
  | .plain _ inTarget => inTarget
  | _ => false

/-- What guards the operations of a branch. -/
def branchCondition (name : Text) (own condition : Option Text) (branches : List Text) :
    Option Text :=
  let guard := if isNamed name "when" then whenGuard branches (whenCondition own)
    else negatedBranches branches
  combineConditions condition (if guard = [] then none else some guard)

/-- The context inside an element that is a branch of a `Choose`. -/
def branch? (context : Context) (name : Text) (own : Option Text) : Option Context :=
  match context with
  | .choose condition branches =>
    if isBranch name then
      some (.plain (branchCondition name own condition branches) false)
    else none
  | _ => none

/-- The context of the nodes after one. -/
def after (context : Context) : Node → Context
  | .element rawName attributes _ =>
    match context with
    | .choose condition branches =>
      if isNamed (localName rawName) "when" then
        .choose condition
          (branches ++ [whenCondition (attributeValue attributes "condition")])
      else context
    | _ => context
  | _ => context

end Context

/-- Elements of these names are no properties of a group. -/
def isOperation (name : Text) (attributes : Attributes) : Bool :=
  isNamed name "target" || isNamed name "import" || isNamed name "dccreference" ||
    isNamedProperty name attributes

/-- The property that a child of a group is. -/
def nodeEntry : Node → Option PropertyEntry
  | .element rawName attributes children =>
    let name := localName rawName
    if isOperation name attributes || isNamed name "choose" || isNamed name "propertygroup" then
      none
    else
      some ⟨name, attributeValue attributes "condition", trim (Node.innerText children)⟩
  | .emptyElement rawName attributes =>
    let name := localName rawName
    if isOperation name attributes then none
    else some ⟨name, attributeValue attributes "condition", []⟩
  | _ => none

variable (nodes : List Node)

def groupEntries : List PropertyEntry := nodes.filterMap nodeEntry

/-- The entry of an element that names its property in an attribute. -/
def namedEntry (attributes : Attributes) (value : Text) : PropertyEntry :=
  ⟨(attributeValue attributes "name").getD [], none, value⟩

/-- The operation of an element that has one, with its effective condition; the
properties of a group come from its children. -/
def elementOperation (name : Text) (attributes : Attributes) (effective : Option Text)
    (children : List Node) : Option XmlOperation :=
  if isNamed name "choose" then none
  else if isNamed name "propertygroup" then
    some (.propertyGroup ⟨effective, groupEntries children⟩)
  else if isNamed name "import" then
    some (.importFile ⟨(attributeValue attributes "project").getD [], effective⟩)
  else if isNamed name "dccreference" then
    some (.dccReference ⟨(attributeValue attributes "include").getD [], effective⟩)
  else if isNamedProperty name attributes then
    some (.propertyGroup ⟨effective, [namedEntry attributes (trim (Node.innerText children))]⟩)
  else none

/-- Where the children of an element stand that is no branch. -/
def childContext (context : Context) (name : Text) (attributes : Attributes) : Context :=
  let effective := combineConditions context.condition (attributeValue attributes "condition")
  if isNamed name "choose" then .choose effective []
  else if isNamed name "propertygroup" then .group effective
  else if isNamed name "import" || isNamed name "dccreference" then .plain none false
  else if isNamedProperty name attributes then .plain effective false
  else
    match context with
    | .group condition => .plain condition false
    | _ => .plain effective false

mutual

def nodeOperations (context : Context) : Node → List XmlOperation
  | .element rawName attributes children =>
    let name := localName rawName
    let own := attributeValue attributes "condition"
    let effective := combineConditions context.condition own
    if context.inTarget || isNamed name "target" then
      (if isNamed name "target" && !context.inTarget then [.unsupported] else []) ++
        listOperations (.plain effective true) children
    else
      match context.branch? name own with
      | some inner => listOperations inner children
      | none =>
        (elementOperation name attributes effective children).toList ++
          listOperations (childContext context name attributes) children
  | .emptyElement rawName attributes =>
    let name := localName rawName
    let effective := combineConditions context.condition (attributeValue attributes "condition")
    if context.inTarget || isNamed name "target" then
      if isNamed name "target" && !context.inTarget then [.unsupported] else []
    else if isNamed name "import" then
      [.importFile ⟨(attributeValue attributes "project").getD [], effective⟩]
    else if isNamed name "dccreference" then
      [.dccReference ⟨(attributeValue attributes "include").getD [], effective⟩]
    else if isNamedProperty name attributes then
      [.propertyGroup ⟨effective,
        [namedEntry attributes ((attributeValue attributes "value").getD [])]⟩]
    else []
  | _ => []

def listOperations (context : Context) : List Node → List XmlOperation
  | [] => []
  | node :: nodes => nodeOperations context node ++ listOperations (context.after node) nodes

end

/-! ## The reader -/

namespace XmlFrame

def context (frame : XmlFrame) : Context :=
  match frame.kind with
  | .other condition inTarget => .plain condition inTarget
  | .propertyGroup _ condition => .group condition
  | .choose condition branches => .choose condition branches
  | .property _ condition _ => .plain condition false

/-- The operation the frame adds properties to. -/
def operation? (frame : XmlFrame) : Option Nat :=
  match frame.kind with
  | .propertyGroup operation _ => some operation
  | .property operation _ _ => some operation
  | _ => none

/-- The frame after some of its children. -/
def after (frame : XmlFrame) (nodes : List Node) : XmlFrame :=
  match frame.kind with
  | .choose _ _ =>
    match nodes.foldl Context.after frame.context with
    | .choose condition branches => { frame with kind := .choose condition branches }
    | _ => frame
  | .property _ _ _ => { frame with text := frame.text ++ Node.innerText nodes }
  | _ => frame

end XmlFrame

def stackContext : List XmlFrame → Context
  | [] => .plain none false
  | frame :: _ => frame.context

def stackAfter : List XmlFrame → List XmlFrame
  | [] => []
  | frame :: frames => frame.after nodes :: frames

def addProperties (entries : List PropertyEntry) : XmlOperation → XmlOperation
  | .propertyGroup group => .propertyGroup { group with properties := group.properties ++ entries }
  | operation => operation

/-- The operations with the properties of some children of the innermost element. -/
def withEntries (frames : List XmlFrame) (operations : List XmlOperation) :
    List XmlOperation :=
  match frames with
  | ⟨.propertyGroup operation _, _⟩ :: _ =>
    operations.modify operation (addProperties (groupEntries nodes))
  | _ => operations

/-- The operations that open elements add properties to are there. -/
def Placed (operations : List XmlOperation) (frames : List XmlFrame) : Prop :=
  ∀ frame ∈ frames, ∀ operation, frame.operation? = some operation → operation < operations.length

lemma modify_append {l : List α} {i : Nat} (h : i < l.length) (r : List α)
    (f : α → α) : (l ++ r).modify i f = l.modify i f ++ r := by
  induction l generalizing i with
  | nil => simp at h
  | cons a l ih =>
    cases i with
    | zero => rfl
    | succ i =>
      simp only [cons_append, modify_succ_cons]
      rw [ih (by simpa using h)]

lemma Placed.mono {ops more : List XmlOperation} {frames : List XmlFrame}
    (h : Placed ops frames) (hle : ops.length ≤ more.length) :
    Placed more frames :=
  fun frame hframe op hop =>
    Nat.lt_of_lt_of_le (h frame hframe op hop) hle

lemma length_withEntries (frames : List XmlFrame) (ops : List XmlOperation) :
    (withEntries nodes frames ops).length = ops.length := by
  unfold withEntries
  split
  · exact length_modify ..
  · rfl

/-- The operations when an element is closed. -/
def closeFrame (frame : XmlFrame) (operations : List XmlOperation) : List XmlOperation :=
  match frame.kind with
  | .property operation _ entry =>
    operations.modify operation (addProperty { entry with value := trim frame.text })
  | _ => operations

lemma step_close (ops : List XmlOperation) (frame : XmlFrame) (frames : List XmlFrame) :
    (⟨ops, frame :: frames⟩ : ParseState).step .close = .ok ⟨closeFrame frame ops, frames⟩ := by
  obtain ⟨kind, _⟩ := frame
  cases kind <;> rfl

/-- What opening an element does, and what its operations are once it is closed. -/
structure Opens (operations : List XmlOperation) (frames : List XmlFrame) (node : Node)
    (children : List Node) (state : ParseState) : Prop where
  opened : ∃ frame operations', state = ⟨operations', frame :: stackAfter [node] frames⟩ ∧
    operations.length ≤ operations'.length ∧
    (∀ operation, frame.operation? = some operation → operation < operations'.length) ∧
    closeFrame (frame.after children)
        (withEntries children (frame :: stackAfter [node] frames) operations' ++
          listOperations frame.context children) =
      withEntries [node] frames operations ++ nodeOperations (stackContext frames) node

/-- The reader opens an element. -/
abbrev OpensElement (operations : List XmlOperation) (frames : List XmlFrame) (rawName : Text)
    (attributes : Attributes) (children : List Node) : Prop :=
  Opens operations frames (.element rawName attributes children) children
    ((⟨operations, frames⟩ : ParseState).startElement rawName attributes)

/-- The condition of an element with those around it. -/
abbrev effectiveIn (frames : List XmlFrame) (attributes : Attributes) : Option Text :=
  combineConditions (stackContext frames).condition (attributeValue attributes "condition")

/-- The branch that a node adds to the `Choose` around it. -/
def whenBranch? : Node → Option Text
  | .element rawName attributes _ =>
    if isNamed (localName rawName) "when" then
      some (whenCondition (attributeValue attributes "condition"))
    else none
  | _ => none

lemma Context.after_choose (cond : Option Text) (branches : List Text) (node : Node) :
    (Context.choose cond branches).after node =
      .choose cond (branches ++ (whenBranch? node).toList) := by
  cases node with
  | element =>
    simp only [after, whenBranch?]
    split <;> simp
  | _ => simp [after, whenBranch?]

lemma XmlFrame.after_choose (cond : Option Text) (branches : List Text) (text : Text)
    (nodes : List Node) : (⟨.choose cond branches, text⟩ : XmlFrame).after nodes =
      ⟨.choose cond (branches ++ nodes.filterMap whenBranch?), text⟩ := by
  have hall : nodes.foldl Context.after (.choose cond branches) =
      .choose cond (branches ++ nodes.filterMap whenBranch?) := by
    induction nodes generalizing branches with
    | nil => simp
    | cons node nodes ih =>
      rw [foldl_cons, Context.after_choose, ih]
      cases h : whenBranch? node <;> simp [h]
  simp only [XmlFrame.after, XmlFrame.context, hall]

variable {kids : List Node} {ops : List XmlOperation} {frames : List XmlFrame} {rawName : Text}
  {attrs : Attributes}

lemma stackAfter_element (h : ∀ cond branches, stackContext frames = .choose cond branches →
      isNamed (localName rawName) "when" = false) :
    stackAfter [.element rawName attrs kids] frames = frames := by
  rcases frames with _ | ⟨⟨kind, _⟩, _⟩
  · rfl
  cases kind with
  | choose cond branches =>
    simp [stackAfter, XmlFrame.after_choose, whenBranch?, h cond branches rfl]
  | _ => simp [stackAfter, XmlFrame.after, Node.innerText, Node.ownText]

variable {node : Node}

lemma addProperties_nil : addProperties [] = id := by
  funext op
  cases op <;> simp [addProperties]

lemma withEntries_of_nodeEntry (h : nodeEntry node = none) :
    withEntries [node] frames ops = ops := by
  unfold withEntries
  split
  · simp [groupEntries, h, addProperties_nil, modify_id]
  · rfl

lemma parentCondition_eq :
    (mk ops frames).parentCondition = (stackContext frames).condition := by
  rcases frames with _ | ⟨⟨kind, _⟩, _⟩
  · rfl
  · cases kind <;> rfl

lemma parentInTarget_eq : (mk ops frames).parentInTarget = (stackContext frames).inTarget := by
  rcases frames with _ | ⟨⟨kind, _⟩, _⟩
  · rfl
  · cases kind <;> rfl

/-- Two names that differ are not both the name of an element. -/
lemma isNamed_ne {word other : String} (h : isNamed name word = true)
    (hne : lower word.toList ≠ lower other.toList) : isNamed name other = false := by
  simp only [isNamed, eqIgnoreAsciiCase, beq_iff_eq, beq_eq_false_iff_ne] at h ⊢
  rwa [h]

lemma modify_last (l : List α) (a : α) (r : List α) (f : α → α) :
    ((l ++ [a]) ++ r).modify l.length f = l ++ f a :: r := by
  induction l with
  | nil => rfl
  | cons b l ih => simpa using ih

lemma withEntries_of_target (h : ((stackContext frames).inTarget || isNamed name "target") = true)
    (hentry : isNamed name "target" = true → nodeEntry node = none) :
    withEntries [node] frames ops = ops := by
  rcases Bool.or_eq_true _ _ ▸ h with htarget | htarget
  · rcases frames with _ | ⟨⟨kind, _⟩, _⟩
    · rfl
    cases kind with
    | propertyGroup => cases htarget
    | _ => rfl
  · exact withEntries_of_nodeEntry (hentry htarget)

/-- An element inside a target, or a target. -/
lemma opens_target (kids : List Node)
    (h : ((stackContext frames).inTarget || isNamed (localName rawName) "target") = true) :
    OpensElement ops frames rawName attrs kids := by
  have hframes : stackAfter [.element rawName attrs kids] frames = frames := by
    refine stackAfter_element fun cond branches hchoose => ?_
    rw [hchoose] at h
    exact isNamed_ne (by simpa [Context.inTarget] using h) (by decide)
  have hentry : withEntries [.element rawName attrs kids] frames ops = ops :=
    withEntries_of_target h fun htarget => by simp [nodeEntry, isOperation, htarget]
  refine ⟨⟨⟨.other (effectiveIn frames attrs) true, []⟩,
    ops ++ (if isNamed (localName rawName) "target" && !(stackContext frames).inTarget then
      [.unsupported] else []), ?_, ?_, ?_, ?_⟩⟩
  · rw [hframes]
    cases hinside : (stackContext frames).inTarget <;>
      cases htarget : isNamed (localName rawName) "target"
    · simp [hinside, htarget] at h
    all_goals simp [startElement, parentInTarget_eq, hinside, htarget,
      addOperation, parentCondition_eq, push]
  · simp
  · simp [XmlFrame.operation?]
  · rw [hentry]
    unfold nodeOperations
    rw [if_pos h]
    simp [closeFrame, XmlFrame.after, withEntries, XmlFrame.context]

/-- A branch of a `Choose`. -/
lemma opens_branch (kids : List Node) {cond : Option Text} {branches : List Text}
    {text : Text} {below : List XmlFrame}
    (hframes : frames = ⟨.choose cond branches, text⟩ :: below)
    (htarget : isNamed (localName rawName) "target" = false)
    (hbranch : isBranch (localName rawName) = true) :
    OpensElement ops frames rawName attrs kids := by
  subst hframes
  have hstart : (⟨ops, ⟨.choose cond branches, text⟩ :: below⟩ : ParseState).startElement
      rawName attrs =
      (⟨ops, ⟨.choose cond branches, text⟩ :: below⟩ : ParseState).startBranch
        (localName rawName) (attributeValue attrs "condition") cond branches
        ⟨.choose cond branches, text⟩ below := by
    simp [startElement, parentInTarget, FrameKind.inTarget, htarget, hbranch]
  refine ⟨⟨⟨.other (Context.branchCondition (localName rawName)
    (attributeValue attrs "condition") cond branches) false, []⟩, ops,
    ?_, le_rfl, ?_, ?_⟩⟩
  · rw [hstart]
    unfold startBranch Context.branchCondition
    by_cases hwhen : isNamed (localName rawName) "when" = true
    · simp [stackAfter, XmlFrame.after_choose, whenBranch?, hwhen]
    · simp [stackAfter, XmlFrame.after_choose, whenBranch?, hwhen]
  · simp [XmlFrame.operation?]
  · have hentry : withEntries [.element rawName attrs kids]
        (⟨.choose cond branches, text⟩ :: below) ops = ops := rfl
    rw [hentry]
    unfold nodeOperations
    simp [closeFrame, XmlFrame.after, withEntries, XmlFrame.context, stackContext,
      Context.inTarget, htarget, Context.branch?, hbranch]

/-- Where an element is neither in a target nor a branch. -/
def IsPlain (frames : List XmlFrame) (name : Text) : Prop :=
  (stackContext frames).inTarget = false ∧ isNamed name "target" = false ∧
    ∀ own, (stackContext frames).branch? name own = none

section

variable (h : IsPlain frames (localName rawName))

include h

lemma startElement_plain :
    (mk ops frames).startElement rawName attrs =
      (mk ops frames).startPlain (localName rawName) attrs := by
  obtain ⟨hinside, htarget, hbranch⟩ := h
  have hpar : (mk ops frames).parentInTarget = false := by
    rw [parentInTarget_eq, hinside]
  unfold startElement
  simp only [htarget, hpar, Bool.false_and, Bool.or_self, Bool.false_eq_true, if_false]
  rcases frames with _ | ⟨⟨kind, _⟩, _⟩
  · rfl
  cases kind with
  | choose =>
    have hnot : isBranch (localName rawName) = false := by
      simpa [stackContext, XmlFrame.context, Context.branch?] using hbranch none
    simp [hnot]
  | _ => rfl

lemma nodeOperations_plain (kids : List Node) :
    nodeOperations (stackContext frames) (.element rawName attrs kids) =
      (elementOperation (localName rawName) attrs (effectiveIn frames attrs)
          kids).toList ++
        listOperations (childContext (stackContext frames) (localName rawName) attrs)
          kids := by
  obtain ⟨hinside, htarget, hbranch⟩ := h
  unfold nodeOperations
  simp [hinside, htarget, hbranch]

lemma stackAfter_plain (kids : List Node) :
    stackAfter [.element rawName attrs kids] frames = frames := by
  refine stackAfter_element fun cond branches hchoose => ?_
  have hbranch := h.2.2 none
  rw [hchoose] at hbranch
  have hnot : isBranch (localName rawName) = false := by
    simpa [Context.branch?] using hbranch
  simp only [isBranch, Bool.or_eq_false_iff] at hnot
  exact hnot.1

/-- An element that is no property of a group, with the frame and the operation that
it opens. -/
lemma opens_of_frame (hents : withEntries [.element rawName attrs kids] frames ops = ops)
    (frame : XmlFrame) (opened : List XmlOperation)
    (hstart : (mk ops frames).startPlain (localName rawName) attrs =
      ⟨ops ++ opened, frame :: frames⟩)
    (hplaced : ∀ op, frame.operation? = some op → op < (ops ++ opened).length)
    (hctx : frame.context = childContext (stackContext frames) (localName rawName) attrs)
    (hclose : ∀ more, closeFrame (frame.after kids)
        (withEntries kids (frame :: frames) (ops ++ opened) ++ more) =
      ops ++ ((elementOperation (localName rawName) attrs
        (effectiveIn frames attrs) kids).toList ++ more)) :
    OpensElement ops frames rawName attrs kids := by
  refine ⟨⟨frame, ops ++ opened, ?_, by simp, hplaced, ?_⟩⟩
  · rw [startElement_plain h, stackAfter_plain h, hstart]
  · rw [stackAfter_plain h, hents, nodeOperations_plain h, hctx, hclose]

end

/-- Only a property adds to the operations when it is closed. -/
lemma closeFrame_after {frame : XmlFrame}
    (h : ∀ op cond entry, frame.kind ≠ .property op cond entry)
    (kids : List Node) (ops : List XmlOperation) :
    closeFrame (frame.after kids) ops = ops := by
  obtain ⟨kind, _⟩ := frame
  cases kind with
  | property op cond entry => exact (h op cond entry rfl).elim
  | choose cond => rw [XmlFrame.after_choose, closeFrame]
  | _ => rfl

/-- An element whose frame has no properties. -/
lemma opens_of_other (h : IsPlain frames (localName rawName))
    (hents : withEntries [.element rawName attrs kids] frames ops = ops)
    (frame : XmlFrame) (hframe : frame.operation? = none)
    (hstart : (mk ops frames).startPlain (localName rawName) attrs =
      ⟨ops ++ (elementOperation (localName rawName) attrs
        (effectiveIn frames attrs) kids).toList, frame :: frames⟩)
    (hctx : frame.context = childContext (stackContext frames) (localName rawName) attrs) :
    OpensElement ops frames rawName attrs kids := by
  refine opens_of_frame h hents frame _ hstart (by simp [hframe]) hctx fun more => ?_
  obtain ⟨kind, _⟩ := frame
  rw [closeFrame_after]
  · cases kind with
    | propertyGroup => cases hframe
    | _ => simp [withEntries]
  · rintro _ _ _ rfl
    cases hframe

lemma opens_plain (hplain : IsPlain frames (localName rawName)) (kids : List Node)
    (hplaced : Placed ops frames) :
    OpensElement ops frames rawName attrs kids := by
  have htarget := hplain.2.1
  by_cases hchoose : isNamed (localName rawName) "choose" = true
  · refine opens_of_other hplain ?_ ⟨.choose (effectiveIn frames attrs) [], []⟩ rfl ?_ ?_
    · exact withEntries_of_nodeEntry (by simp [nodeEntry, hchoose])
    · simp [startPlain, elementOperation, hchoose, push, parentCondition_eq]
    · simp [XmlFrame.context, childContext, hchoose]
  by_cases hgroup : isNamed (localName rawName) "propertygroup" = true
  · refine opens_of_frame hplain ?_
      ⟨.propertyGroup ops.length (effectiveIn frames attrs), []⟩
      [.propertyGroup ⟨effectiveIn frames attrs, []⟩] ?_ ?_ ?_ ?_
    · exact withEntries_of_nodeEntry (by simp [nodeEntry, hgroup])
    · simp [startPlain, hchoose, hgroup, push, addOperation, parentCondition_eq]
    · simp [XmlFrame.operation?]
    · simp [XmlFrame.context, childContext, hchoose, hgroup]
    · intro more
      rw [closeFrame_after (by simp)]
      have hlast := modify_last ops (.propertyGroup ⟨effectiveIn frames attrs, []⟩) []
        (addProperties (groupEntries kids))
      rw [append_nil] at hlast
      simp only [withEntries, hlast]
      simp [elementOperation, hchoose, hgroup, addProperties]
  by_cases himport : isNamed (localName rawName) "import" = true
  · refine opens_of_other hplain ?_ ⟨.other none false, []⟩ rfl ?_ ?_
    · exact withEntries_of_nodeEntry (by simp [nodeEntry, isOperation, himport])
    · simp [startPlain, elementOperation, hchoose, hgroup, himport, push,
        addOperation, parentCondition_eq]
    · simp [XmlFrame.context, childContext, hchoose, hgroup, himport]
  by_cases href : isNamed (localName rawName) "dccreference" = true
  · refine opens_of_other hplain ?_ ⟨.other none false, []⟩ rfl ?_ ?_
    · exact withEntries_of_nodeEntry (by simp [nodeEntry, isOperation, href])
    · simp [startPlain, elementOperation, hchoose, hgroup, himport, href,
        push, addOperation, parentCondition_eq]
    · simp [XmlFrame.context, childContext, hchoose, hgroup, href]
  by_cases hnamed : isNamedProperty (localName rawName) attrs = true
  · refine opens_of_frame hplain ?_ ⟨.property ops.length (effectiveIn frames attrs)
      (namedEntry attrs ((attributeValue attrs "value").getD [])), []⟩
      [.propertyGroup ⟨effectiveIn frames attrs, []⟩] ?_ ?_ ?_ ?_
    · exact withEntries_of_nodeEntry (by simp [nodeEntry, isOperation, hnamed])
    · simp [startPlain, hchoose, hgroup, himport, href, hnamed, push,
        addOperation, parentCondition_eq, namedEntry]
    · simp [XmlFrame.operation?]
    · simp [XmlFrame.context, childContext, hchoose, hgroup, himport, href, hnamed]
    · intro more
      simp only [XmlFrame.after, closeFrame, withEntries]
      rw [modify_last]
      simp [elementOperation, hchoose, hgroup, himport, href, hnamed, addProperty, namedEntry]
  -- a property of a group, or an element without a meaning of its own
  have hnot := And.intro hchoose (And.intro hgroup (And.intro himport (And.intro href hnamed)))
  have hno : elementOperation (localName rawName) attrs (effectiveIn frames attrs) kids = none := by
    simp [elementOperation, hnot]
  -- outside of a group it is passed over
  have hover : (mk ops frames).parentGroup = none → (∀ cond, stackContext frames ≠ .group cond) →
      withEntries [.element rawName attrs kids] frames ops = ops →
      OpensElement ops frames rawName attrs kids := by
    intro hpar hctx hents
    refine opens_of_other hplain hents ⟨.other (effectiveIn frames attrs) false, []⟩ rfl ?_ ?_
    · simp [startPlain, hno, hnot, push, hpar, parentCondition_eq]
    · unfold childContext effectiveIn
      simp only [hnot]
      cases hstack : stackContext frames with
      | group cond => exact (hctx cond hstack).elim
      | _ => rfl
  rcases frames with _ | ⟨⟨kind, text⟩, below⟩
  · exact hover rfl (by simp [stackContext]) rfl
  cases kind with
  | propertyGroup op cond =>
    have hlt : op < ops.length := hplaced _ (mem_cons_self ..) op rfl
    refine ⟨⟨⟨.property op cond ⟨localName rawName,
      attributeValue attrs "condition", []⟩, []⟩, ops, ?_, le_rfl, ?_, ?_⟩⟩
    · rw [startElement_plain hplain, stackAfter_plain hplain]
      simp [startPlain, hnot, push, parentGroup, FrameKind.group, parentCondition,
        FrameKind.condition]
    · rintro other hother
      obtain rfl : op = other := by simpa [XmlFrame.operation?] using hother
      exact hlt
    · rw [nodeOperations_plain hplain, hno]
      simp only [XmlFrame.after, closeFrame, withEntries, XmlFrame.context, Option.toList_none,
        nil_append]
      rw [modify_append hlt]
      have hentry : groupEntries [Node.element rawName attrs kids] =
          [⟨localName rawName, attributeValue attrs "condition", trim (Node.innerText kids)⟩] := by
        simp [groupEntries, nodeEntry, isOperation, htarget, hnot]
      have hctx : childContext (stackContext (⟨.propertyGroup op cond, text⟩ ::
          below)) (localName rawName) attrs = .plain cond false := by
        simp [childContext, hnot, stackContext, XmlFrame.context]
      rw [hentry, hctx]
      congr 2
  | _ => exact hover rfl (by simp [stackContext, XmlFrame.context]) rfl

lemma opens_element (kids : List Node) (hplaced : Placed ops frames) :
    OpensElement ops frames rawName attrs kids := by
  by_cases hinside : ((stackContext frames).inTarget || isNamed (localName rawName) "target") = true
  · exact opens_target kids hinside
  obtain ⟨hnotInside, htarget⟩ : (stackContext frames).inTarget = false ∧
      isNamed (localName rawName) "target" = false := by simpa using hinside
  by_cases hbranch : ∃ own inner, (stackContext frames).branch? (localName rawName) own = some inner
  · obtain ⟨own, inner, hbranch⟩ := hbranch
    rcases frames with _ | ⟨⟨kind, _⟩, _⟩
    · cases hbranch
    cases kind with
    | choose =>
      refine opens_branch kids rfl htarget ?_
      by_contra hnot
      simp [stackContext, XmlFrame.context, Context.branch?, hnot] at hbranch
    | _ => cases hbranch
  · refine opens_plain ⟨hnotInside, htarget, fun own => ?_⟩ kids hplaced
    by_contra hsome
    obtain ⟨inner, hinner⟩ := Option.ne_none_iff_exists'.1 hsome
    exact hbranch ⟨own, inner, hinner⟩

/-! ## The whole document -/

lemma run_ok_cons (state after : ParseState) (event : Event)
    (events : List (Except String Event)) (h : state.step event = .ok after) :
    state.run (.ok event :: events) = after.run events := by
  rw [run, h]

/-- What an empty element adds. -/
lemma emptyElement_eq :
    (mk ops frames).emptyElement rawName attrs =
      ⟨withEntries [.emptyElement rawName attrs] frames ops ++
        nodeOperations (stackContext frames) (.emptyElement rawName attrs), frames⟩ := by
  unfold emptyElement nodeOperations
  simp only [parentInTarget_eq, parentCondition_eq]
  by_cases htarget : ((stackContext frames).inTarget || isNamed (localName rawName) "target") = true
  · have hents : withEntries [.emptyElement rawName attrs] frames ops = ops :=
      withEntries_of_target htarget fun hname => by simp [nodeEntry, isOperation, hname]
    rw [if_pos htarget, if_pos htarget, hents]
    split <;> simp [addOperation]
  rw [if_neg htarget, if_neg htarget]
  obtain ⟨hinside, hname⟩ : (stackContext frames).inTarget = false ∧
      isNamed (localName rawName) "target" = false := by simpa using htarget
  by_cases himport : isNamed (localName rawName) "import" = true
  · rw [if_pos himport, if_pos himport,
      withEntries_of_nodeEntry (by simp [nodeEntry, isOperation, himport])]
    rfl
  rw [if_neg himport, if_neg himport]
  by_cases href : isNamed (localName rawName) "dccreference" = true
  · rw [if_pos href, if_pos href, withEntries_of_nodeEntry (by simp [nodeEntry, isOperation, href])]
    rfl
  rw [if_neg href, if_neg href]
  by_cases hnamed : isNamedProperty (localName rawName) attrs = true
  · rw [if_pos hnamed, if_pos hnamed,
      withEntries_of_nodeEntry (by simp [nodeEntry, isOperation, hnamed])]
    rfl
  rw [if_neg hnamed, if_neg hnamed, append_nil]
  -- a property of the group around it, if there is one
  have hentry : groupEntries [.emptyElement rawName attrs] =
      [⟨localName rawName, attributeValue attrs "condition", []⟩] := by
    simp [groupEntries, nodeEntry, isOperation, hname, himport, href, hnamed]
  rcases frames with _ | ⟨⟨kind, _⟩, _⟩
  · rfl
  cases kind with
  | propertyGroup =>
    simp only [withEntries, hentry]
    rfl
  | _ => rfl

lemma addProperties_append (entries others : List PropertyEntry) :
    addProperties others ∘ addProperties entries = addProperties (entries ++ others) := by
  funext op
  cases op <;> simp [addProperties]

lemma withEntries_append (hplaced : Placed ops frames) (node : Node) (nodes : List Node)
    (more : List XmlOperation) :
    withEntries nodes (stackAfter [node] frames) (withEntries [node] frames ops ++ more) =
      withEntries (node :: nodes) frames ops ++ more := by
  rcases frames with _ | ⟨⟨kind, _⟩, _⟩
  · rfl
  cases kind with
  | propertyGroup op cond =>
    have hlt : op < ops.length := hplaced _ (mem_cons_self ..) op rfl
    have hsplit : groupEntries (node :: nodes) = groupEntries [node] ++ groupEntries nodes := by
      rw [groupEntries, ← singleton_append, filterMap_append]
      rfl
    simp only [withEntries, stackAfter, XmlFrame.after]
    rw [modify_append (by simpa using hlt), modify_modify_eq, addProperties_append, ← hsplit]
  | choose cond => simp only [withEntries, stackAfter, XmlFrame.after_choose]
  | _ => rfl

lemma stackContext_after (node : Node) (frames : List XmlFrame) :
    stackContext (stackAfter [node] frames) = (stackContext frames).after node := by
  rcases frames with _ | ⟨⟨kind, _⟩, _⟩
  · cases node <;> rfl
  cases kind with
  | choose =>
    rw [stackAfter, XmlFrame.after_choose]
    simp only [stackContext, XmlFrame.context, Context.after_choose]
    cases h : whenBranch? node <;> simp [h]
  | _ => cases node <;> rfl

lemma stackAfter_cons (node : Node) (nodes : List Node) (frames : List XmlFrame) :
    stackAfter nodes (stackAfter [node] frames) = stackAfter (node :: nodes) frames := by
  rcases frames with _ | ⟨⟨kind, _⟩, _⟩
  · rfl
  cases kind with
  | choose => cases h : whenBranch? node <;> simp [stackAfter, XmlFrame.after_choose, h]
  | property => simp [stackAfter, XmlFrame.after, Node.innerText]
  | _ => rfl

lemma Placed.after (h : Placed ops frames) (nodes : List Node) :
    Placed ops (stackAfter nodes frames) := by
  cases frames with
  | nil => exact h
  | cons frame =>
    intro other hother op hop
    rcases mem_cons.1 hother with rfl | hother
    · refine h frame (mem_cons_self ..) op ?_
      obtain ⟨kind, _⟩ := frame
      cases kind with
      | choose =>
        rw [XmlFrame.after_choose] at hop
        exact hop
      | _ => exact hop
    · exact h other (mem_cons_of_mem _ hother) op hop

/-- Text is kept where a property is open. -/
lemma addText_eq (hnode : ∀ name attrs kids, node ≠ .element name attrs kids) :
    (mk ops frames).addText node.ownText = ⟨ops, stackAfter [node] frames⟩ := by
  rcases frames with _ | ⟨⟨kind, _⟩, _⟩
  · rfl
  cases kind with
  | choose => cases node <;> first | rfl | exact (hnode _ _ _ rfl).elim
  | property => simp [addText, stackAfter, XmlFrame.after, Node.innerText]
  | _ => rfl

lemma addText_nil (state : ParseState) : state.addText [] = state := by
  obtain ⟨_, _ | ⟨⟨kind, _⟩, _⟩⟩ := state
  · rfl
  cases kind with
  | property => simp [addText]
  | _ => rfl

lemma stackAfter_of_text (hnode : ∀ name attrs kids, node ≠ .element name attrs kids)
    (htext : node.ownText = []) : stackAfter [node] frames = frames := by
  have hadd : (⟨[], frames⟩ : ParseState).addText node.ownText = _ := addText_eq hnode
  rw [htext, addText_nil] at hadd
  exact (ParseState.mk.inj hadd).2.symm

/-- A node that is one event and only adds text. -/
lemma run_text {event : Event} (hevents : node.events = [event])
    (hstep : (mk ops frames).step event = .ok ((mk ops frames).addText node.ownText))
    (hnode : ∀ name attrs kids, node ≠ .element name attrs kids)
    (hentry : nodeEntry node = none) (hnone : nodeOperations (stackContext frames) node = [])
    (rest : List (Except String Event)) :
    (mk ops frames).run (node.events.map .ok ++ rest) =
      (⟨withEntries [node] frames ops ++ nodeOperations (stackContext frames) node,
        stackAfter [node] frames⟩ : ParseState).run rest := by
  rw [hevents, map_singleton, singleton_append, run_ok_cons _ _ _ _ hstep, addText_eq hnode,
    withEntries_of_nodeEntry hentry, hnone, append_nil]

mutual

lemma run_node {ops : List XmlOperation} {frames : List XmlFrame}
    (hplaced : Placed ops frames) (node : Node) (rest : List (Except String Event)) :
    (mk ops frames).run (node.events.map .ok ++ rest) =
      (⟨withEntries [node] frames ops ++ nodeOperations (stackContext frames) node,
        stackAfter [node] frames⟩ : ParseState).run rest := by
  match node with
  | .element rawName attrs kids =>
    have hopens : OpensElement ops frames rawName attrs kids :=
      opens_element kids hplaced
    obtain ⟨frame, operations', hstart, hle, hframe, hclose⟩ := hopens.opened
    have hplaced' : Placed operations'
        (frame :: stackAfter [.element rawName attrs kids] frames) := by
      exact forall_mem_cons.2 ⟨hframe, (hplaced.after _).mono hle⟩
    rw [Node.events, map_cons, cons_append, run_ok_cons _ _ _ _ rfl, hstart,
      map_append, append_assoc, run_nodes hplaced' kids, map_cons,
      map_nil, singleton_append]
    refine (run_ok_cons _ _ _ _ (step_close ..)).trans ?_
    rw [← hclose]
    rfl
  | .emptyElement rawName attrs =>
    rw [Node.events, map_cons, cons_append, run_ok_cons _ _ _ _ rfl, emptyElement_eq,
      stackAfter_of_text (by simp) rfl]
    rfl
  | .text content | .cdata content =>
    exact run_text rfl rfl (by simp) rfl (by simp [nodeOperations]) rest
  | .reference _ =>
    refine run_text rfl ?_ (by simp) rfl (by simp [nodeOperations]) rest
    rcases frames with _ | ⟨⟨kind, text⟩, _⟩
    · rfl
    · cases kind <;> rfl
  | .other =>
    refine run_text rfl ?_ (by simp) rfl (by simp [nodeOperations]) rest
    exact congrArg Except.ok (addText_nil _).symm

lemma run_nodes {ops : List XmlOperation} {frames : List XmlFrame}
    (hplaced : Placed ops frames) (nodes : List Node) (rest : List (Except String Event)) :
    (mk ops frames).run ((Node.listEvents nodes).map .ok ++ rest) =
      (⟨withEntries nodes frames ops ++ listOperations (stackContext frames) nodes,
        stackAfter nodes frames⟩ : ParseState).run rest := by
  match nodes with
  | [] =>
    match frames with
    | [] => simp [Node.listEvents, withEntries, listOperations, stackAfter]
    | ⟨.choose _ _, _⟩ :: _ | ⟨.other _ _, _⟩ :: _ | ⟨.propertyGroup _ _, _⟩ :: _
    | ⟨.property _ _ _, _⟩ :: _ =>
      simp [Node.listEvents, withEntries, listOperations, stackAfter, XmlFrame.after,
        XmlFrame.context, groupEntries, addProperties_nil, modify_id, Node.innerText]
  | node :: nodes =>
    have hplaced' : Placed (withEntries [node] frames ops ++
        nodeOperations (stackContext frames) node) (stackAfter [node] frames) :=
      (hplaced.after _).mono (by simp [length_withEntries])
    rw [Node.listEvents, map_append, append_assoc, run_node hplaced node,
      run_nodes hplaced' nodes, stackContext_after, stackAfter_cons, withEntries_append hplaced,
      append_assoc]
    rfl

end

/-- The reader computes the operations of the tree. -/
lemma parseXmlOperations_events :
    parseXmlOperations ((Node.listEvents nodes).map .ok) =
      .ok (listOperations (.plain none false) nodes) := by
  have hrun : (⟨[], []⟩ : ParseState).run ((Node.listEvents nodes).map .ok ++ []) = _ :=
    run_nodes (by simp [Placed]) nodes []
  rw [append_nil] at hrun
  rw [parseXmlOperations, hrun]
  rfl

end Lint4d.Msbuild
