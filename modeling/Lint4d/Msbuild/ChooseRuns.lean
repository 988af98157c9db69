import Lint4d.Msbuild.Choose

/-!
# One branch of every `Choose`

The flattened operations evaluate the joined conditions again before every operation,
so they agree with the tree as long as no condition changes its answer on the way.  An
assignment inside a branch can do that to the condition the branch was taken for.
-/

namespace Lint4d.Msbuild

open Node ProjectBuilder List

open Lint4d.Lib (Truth)
open Lint4d.Conditional (Text trim lower)

variable {exprs : List Expr}

/-! ## Documents the statement is about -/

mutual

def Node.subnodes : Node → List Node
  | .element name attributes children => .element name attributes children :: listSubnodes children
  | node => [node]

/-- The nodes with everything inside them. -/
def Node.listSubnodes : List Node → List Node
  | [] => []
  | node :: nodes => node.subnodes ++ listSubnodes nodes

end

/-- The condition of an element parses on its own. -/
def Node.ConditionReads : Node → Prop
  | .element _ attributes _ | .emptyElement _ attributes =>
    ∃ e, Denotes (attributeValue attributes "condition") e
  | _ => True

/-- A branch that has start and end tags, or no branch. -/
def Node.isTagged : Node → Bool
  | .emptyElement rawName _ => !ParseState.isBranch (localName rawName)
  | _ => true

/-- The branches of a `Choose` have start and end tags. -/
def Node.branchesTagged : Node → Bool
  | .element rawName _ children => !isNamed (localName rawName) "choose" || children.all isTagged
  | _ => true

def Node.isOtherwise : Node → Bool
  | .element rawName _ _ => isNamed (localName rawName) "otherwise"
  | _ => false

/-- No `When` comes after an `Otherwise`. -/
def whensFirst : List Node → Bool
  | [] => true
  | node :: nodes => (!node.isOtherwise || (nodes.filterMap whenText).isEmpty) && whensFirst nodes

def Node.otherwiseLast : Node → Bool
  | .element rawName _ children => !isNamed (localName rawName) "choose" || whensFirst children
  | _ => true

/-- There are no operations inside an import or a reference. -/
def Node.importsHollow : Node → Bool
  | .element rawName _ children =>
    !(isNamed (localName rawName) "import" || isNamed (localName rawName) "dccreference") ||
      (listOperations (.plain none false) children).isEmpty
  | _ => true

/-- What is asked of every node. -/
structure Node.Proper (node : Node) : Prop where
  reads : node.ConditionReads
  tagged : node.branchesTagged = true
  otherwise : node.otherwiseLast = true
  hollow : node.importsHollow = true

/-! ## Steady steps -/

variable {scope : Scope}

section Steady

variable {Path : Type} [DecidableEq Path] (host : Host Path) {builder : ProjectBuilder Path}

/-- Every condition around the operation still has the answer it had when it was
reached, and there is room for the files the joined condition looks at. -/
structure GuardedStep.Steady (step : GuardedStep Path) : Prop where
  same : ∀ guard ∈ step.scope,
    answer host step.sourceFile step.builder guard.condition = guard.reached
  room : step.builder.metadataFiles.length + conditionProbes step.condition ≤ maxMetadataFiles

/-- The expressions of a guard. -/
inductive GuardSpells : Guard → List Expr → Prop where
  | own {condition reached e} (h : Denotes condition e) :
      GuardSpells ⟨condition, false, reached⟩ e.toList
  | negated {condition reached e}
      (h : Denotes condition (some e)) : GuardSpells ⟨condition, true, reached⟩ [e.not]

/-- The condition is the conjunction of the guards. -/
def Follows (condition : Option Text) (scope : Scope) : Prop :=
  ∃ exprs, List.Forall₂ GuardSpells scope exprs ∧ Spells condition exprs.flatten

variable {host} {file : Path}

lemma guard_worth {guard : Guard} (h : GuardSpells guard exprs)
    (hroom : builder.metadataFiles.length + (exprs.map Expr.probes).sum ≤ maxMetadataFiles)
    (hsame : answer host file builder guard.condition = guard.reached) :
    allOf (exprs.map (Expr.value host.toFiles builder.conditionEnvironment file)) =
      guard.worth := by
  cases h with
  | @own cond reached e h =>
    have hans : answer host file builder cond = reached := hsame
    have hmatches : (conditionMatches host.toFiles builder.conditionEnvironment file
        cond builder.metadataFiles).1 = reached := hans
    cases e with
    | none =>
      rw [conditionMatches_of_denotes _ _ _ h] at hmatches
      exact hmatches
    | some e =>
      rw [conditionMatches_of_room h (by simpa using hroom)] at hmatches
      simpa [allOf, Guard.worth] using hmatches
  | @negated cond reached e h =>
    have hmatches : (conditionMatches host.toFiles builder.conditionEnvironment file
        cond builder.metadataFiles).1 = reached := hsame
    rw [conditionMatches_of_room h (by simpa [Expr.probes] using hroom)] at hmatches
    simp [allOf, Guard.worth, Expr.value, hmatches]

lemma scope_truth {exprs : List (List Expr)} (h : List.Forall₂ GuardSpells scope exprs)
    (hroom : builder.metadataFiles.length + (exprs.flatten.map Expr.probes).sum ≤ maxMetadataFiles)
    (hsame : ∀ guard ∈ scope, answer host file builder guard.condition = guard.reached) :
    allOf (exprs.flatten.map
      (Expr.value host.toFiles builder.conditionEnvironment file)) = scope.truth := by
  induction h with
  | nil => rfl
  | @cons guard _ scope exprs hguard _ ih =>
    rw [flatten_cons, map_append, sum_append] at hroom
    have hfirst := guard_worth hguard (by omega) (hsame guard (by simp))
    have hscope := ih (by omega) (forall_mem_cons.1 hsame).2
    rw [flatten_cons, map_append, allOf_append, hfirst, hscope]
    rfl

/-- At a steady step the joined condition has the answer of the scope. -/
lemma evaluate_of_steady (step : GuardedStep Path) (hfollows : Follows step.condition step.scope)
    (h : step.Steady host) :
    (step.builder.evaluateCondition host.toFiles step.sourceFile step.condition).1 =
      step.scope.truth := by
  obtain ⟨_, hguards, e, hden, hprobes, hvalue⟩ := hfollows
  have hle : optionProbes e ≤ conditionProbes step.condition := by
    cases e with
    | none => exact Nat.zero_le _
    | some e =>
      obtain ⟨_, _, hpres, htoks, hform⟩ := denotes_some_iff.1 hden
      rw [conditionProbes, hpres]
      dsimp only
      rw [htoks]
      exact probes_isOr hform
  have hroom := h.room
  rw [← scope_truth hguards (by omega) h.same, ← hvalue]
  change (conditionMatches host.toFiles step.builder.conditionEnvironment step.sourceFile
    step.condition step.builder.metadataFiles).1 = _
  cases e with
  | none =>
    rw [conditionMatches_of_denotes _ _ _ hden]
    rfl
  | some e =>
    rw [optionProbes] at hle
    rw [conditionMatches_of_room hden (by omega)]
    simp [allOf]

end Steady

/-! ## The operations follow the reference -/

section Refinement

variable {Path : Type} [DecidableEq Path] {host : Host Path} {file : Path}
  {src : ProjectPathProvenance Path} {nested : ReferenceNested Path}
  {inner : ProjectBuilder.Nested Path}
  {ops : List XmlOperation} {cond : Option Text} {name rawName : Text}
  {decision : Option (Decision Path)} {nodes children : List Node}

lemma runOperations_append (builder : ProjectBuilder Path) (ops others : List XmlOperation) :
    builder.runOperations host file src inner (ops ++ others) =
      match builder.runOperations host file src inner ops with
      | (after, some error) => (after, some error)
      | (after, none) => after.runOperations host file src inner others := by
  induction ops generalizing builder with
  | nil => rfl
  | cons op ops ih =>
    rw [cons_append, runOperations, runOperations]
    rcases builder.processOperation host file src inner op with ⟨after, _ | error⟩
    · exact ih after
    · rfl

/-- The operations end as the run of the reference does. -/
def Ends (builder : ProjectBuilder Path) (operations : List XmlOperation)
    (run : ReferenceRun Path) (host : Host Path) (sourceFile : Path)
    (source : ProjectPathProvenance Path) (inner : ProjectBuilder.Nested Path) : Prop :=
  builder.runOperations host sourceFile source inner operations = (run.builder, run.error)

variable {builder : ProjectBuilder Path}

lemma Ends.bind {others : List XmlOperation} {run : ReferenceRun Path}
    {next : ProjectBuilder Path → ReferenceRun Path}
    (h : Ends builder ops run host file src inner) (h' : run.error = none →
      Ends run.builder others (next run.builder) host file src inner) :
    Ends builder (ops ++ others) (run.bind next) host file src inner := by
  unfold Ends at h h' ⊢
  rw [runOperations_append, h]
  unfold Run.bind
  cases herror : run.error with
  | none => exact h' herror
  | some error => simp [herror]

/-- An operation whose condition is the conjunction of its scope. -/
def Guarded (scope : Scope) : XmlOperation → Prop
  | .propertyGroup group => Follows group.condition scope
  | .importFile target => Follows target.condition scope
  | _ => True

/-- The files that imports name are evaluated as by the reference. -/
def NestedAgrees (host : Host Path) (nested : ReferenceNested Path)
    (inner : ProjectBuilder.Nested Path) : Prop :=
  ∀ entry operations builder,
    host.read builder.importCount entry >>= parseXmlOperations = .ok operations →
    (∀ step ∈ (nested entry builder).steps, step.Steady host) →
    inner entry operations builder = ((nested entry builder).builder, (nested entry builder).error)

section

variable (hnested : NestedAgrees host nested inner)

include hnested

lemma finishGuarded_eq {step : ImportStep Path} (hopened : ProjectBuilder.Opened host builder step)
    (hsteady : ∀ inside ∈ (finishGuarded nested step).steps, inside.Steady host) :
    finishImport inner step =
      ((finishGuarded nested step).builder, (finishGuarded nested step).error) := by
  cases hopened with
  | @enter after entry ops _ _ _ read =>
    rw [finishImport, hnested entry ops after read hsteady]
    rfl
  | _ => rfl

lemma processGuarded_eq {op : XmlOperation} (hguard : Guarded scope op)
    (hsteady : ∀ step ∈ (processGuarded host file src nested scope builder op).steps,
      step.Steady host) :
    builder.processOperation host file src inner op =
      ((processGuarded host file src nested scope builder op).builder,
        (processGuarded host file src nested scope builder op).error) := by
  cases op with
  | propertyGroup group =>
    have htruth := evaluate_of_steady ⟨builder, file, scope, group.condition⟩ hguard
      (hsteady _ (by simp [processGuarded]))
    rw [processOperation, processGuarded, processPropertyGroup]
    dsimp only at htruth ⊢
    rw [htruth]
  | importFile target =>
    have htruth := evaluate_of_steady ⟨builder, file, scope, target.condition⟩ hguard
      (hsteady _ (by simp [processGuarded]))
    rw [processOperation, processImport, openImport]
    dsimp only at htruth ⊢
    rw [htruth]
    refine finishGuarded_eq hnested (opened_openImportWhen _ _ target)
      fun step hstep => hsteady step ?_
    exact mem_cons_of_mem _ hstep
  | dccReference | unsupported => rfl

lemma ends_runGuarded (hguard : ∀ op ∈ ops, Guarded scope op)
    (hsteady : ∀ step ∈ (runGuarded host file src nested scope ops builder).steps,
      step.Steady host) :
    Ends builder ops (runGuarded host file src nested scope ops builder)
      host file src inner := by
  induction ops generalizing builder with
  | nil => rfl
  | cons op ops ih =>
    obtain ⟨hfirst, hrest⟩ := Run.bind_steps hsteady
    rw [← singleton_append]
    refine Ends.bind ?_ fun hnone => ?_
    · unfold Ends
      rw [runOperations, processGuarded_eq hnested (hguard op (by simp)) hfirst]
      cases herror : (processGuarded host file src nested scope builder op).error
        <;> rfl
    · exact ih (forall_mem_cons.1 hguard).2 (hrest hnone)

end

/-! ### Scopes -/

variable {own : Option Text}

lemma Follows.snoc {parent : Option Text} (h : Follows parent scope) (hown : ∃ e, Denotes own e)
    (reached : Truth) :
    Follows (combineConditions parent own) (scope ++ [⟨own, false, reached⟩]) := by
  obtain ⟨exprs, hguards, hspells⟩ := h
  obtain ⟨e, hden⟩ := hown
  refine ⟨exprs ++ [e.toList], rel_append hguards (.cons (.own hden) .nil), ?_⟩
  rw [flatten_append, flatten_singleton]
  exact hspells.combine (.of_denotes hden)

lemma reads_always : Reads "'1'=='1'".toList (.compare true ['1'] ['1']) := by
  refine denotes_some_iff.2 ⟨"'1'=='1'".toList,
    [.quoted ['1'], .equals, .quoted ['1']], by decide, by decide +kernel, ?_⟩
  exact isOr_of_isPrimary (.compare true (.quoted _) rfl (.quoted _))

lemma exists_reads_whenCondition (h : ∃ e, Denotes own e) : ∃ e, Reads (whenCondition own) e := by
  obtain ⟨e, h⟩ := h
  cases own with
  | none => exact ⟨_, reads_always⟩
  | some text =>
    unfold whenCondition
    by_cases hblank : trim text = []
    · simp only [hblank, if_true]
      exact ⟨_, reads_always⟩
    · simp only [hblank, if_false]
      have hpres : presentCondition (some text) = some (trim text) := by
        simp [presentCondition, hblank]
      cases e with
      | none =>
        rw [denotes_none_iff, hpres] at h
        cases h
      | some e => exact ⟨e, h⟩

/-- The guards of a branch spell its condition. -/
lemma Follows.branch (h : Follows cond scope) {branches : List Text}
    (hbrs : List.Forall₂ Reads branches exprs) {decided : Decision Path}
    (hearlier : decided.earlier = branches) (hown : ∃ e, Denotes own e)
    (hwhens : isNamed name "when" = false → decided.whens = branches) :
    Follows (Context.branchCondition name own cond branches)
      (scope ++ branchGuards host file decided name own) := by
  obtain ⟨outer, hguards, hspells⟩ := h
  have hnegated : List.Forall₂ GuardSpells
      (branches.map fun text => reachGuard host file decided.reached true (some text))
      (exprs.map fun e => [e.not]) := by
    rw [forall₂_map_left_iff, forall₂_map_right_iff]
    exact hbrs.imp fun _ _ hread => .negated hread
  have hflat : ∀ others : List Expr, (others.map fun e => [e.not]).flatten = others.map Expr.not := by
    intro others
    induction others <;> simp_all
  by_cases hwhen : isNamed name "when" = true
  · obtain ⟨e, hread⟩ := exists_reads_whenCondition hown
    have hguard : branchGuards host file decided name own =
        branches.map (fun text => reachGuard host file decided.reached true (some text)) ++
          [reachGuard host file decided.reached false (some (whenCondition own))] := by
      simp [branchGuards, hwhen, hearlier]
    refine ⟨outer ++ (exprs.map (fun e => [e.not]) ++ [[e]]), ?_, ?_⟩
    · rw [hguard]
      exact rel_append hguards (rel_append hnegated
        (.cons (.own hread) .nil))
    · rw [flatten_append, flatten_append, hflat]
      have hne : whenGuard branches (whenCondition own) ≠ [] := by simp [whenGuard]
      simp only [Context.branchCondition, hwhen, if_true, hne, if_false]
      exact hspells.combine (spells_whenGuard hbrs hread)
  · have hguard : branchGuards host file decided name own =
        branches.map fun text => reachGuard host file decided.reached true (some text) := by
      simp [branchGuards, hwhen, hwhens (by simpa using hwhen)]
    refine ⟨outer ++ exprs.map (fun e => [e.not]), ?_, ?_⟩
    · rw [hguard]
      exact rel_append hguards hnegated
    · rw [flatten_append, hflat]
      simp only [Context.branchCondition, hwhen]
      exact hspells.combine (spells_negated hbrs)

/-! ### The tree -/

mutual

lemma nodeOperations_inTarget (cond : Option Text) (node : Node) :
    nodeOperations (.plain cond true) node = [] := by
  match node with
  | .element rawName attrs children =>
    have hkids := listOperations_inTarget
      (combineConditions cond (attributeValue attrs "condition")) children
    simp [nodeOperations, Context.inTarget, Context.condition, hkids]
  | .emptyElement rawName attrs => simp [nodeOperations, Context.inTarget]
  | .text content | .cdata content | .reference content | .other => simp [nodeOperations]

lemma listOperations_inTarget (cond : Option Text) (nodes : List Node) :
    listOperations (.plain cond true) nodes = [] := by
  match nodes with
  | [] => simp [listOperations]
  | node :: nodes =>
    have hnode := nodeOperations_inTarget cond node
    have hrest := listOperations_inTarget cond nodes
    have hafter : (Context.plain cond true).after node = .plain cond true := by
      cases node <;> rfl
    rw [listOperations, hnode, hafter, hrest]
    rfl

end

/-- The children of a `Choose` from some point on. -/
structure Decided (context : Context) (decision : Option (Decision Path)) (nodes : List Node) :
    Prop where
  /-- The branches before parse, and all the `When`s are those and the ones to come. -/
  fits : ∀ condition branches, context = .choose condition branches → ∃ decided,
    decision = some decided ∧ decided.earlier = branches ∧
      decided.whens = branches ++ nodes.filterMap whenText ∧
      ∃ exprs, List.Forall₂ Reads branches exprs
  tagged : ∀ condition branches, context = .choose condition branches → nodes.all isTagged = true
  first : ∀ condition branches, context = .choose condition branches → whensFirst nodes = true

variable {ctx : Context}

omit [DecidableEq Path] in
lemma decided_of_not_choose (h : ∀ cond branches, ctx ≠ .choose cond branches)
    (decision : Option (Decision Path)) (nodes : List Node) : Decided ctx decision nodes :=
  ⟨fun cond branches heq => (h cond branches heq).elim,
    fun cond branches heq => (h cond branches heq).elim,
    fun cond branches heq => (h cond branches heq).elim⟩

omit [DecidableEq Path] in
lemma Decided.after {node : Node} (h : Decided ctx decision (node :: nodes))
    (hreads : node.ConditionReads) :
    Decided (ctx.after node) (decision.map fun decided => decided.after node) nodes := by
  cases hctx : ctx with
  | plain cond | group cond =>
    refine decided_of_not_choose ?_ _ _
    cases node <;> simp [Context.after]
  | choose cond branches =>
    obtain ⟨decided, rfl, hearlier, hwhens, exprs, hexprs⟩ := h.fits cond branches hctx
    have htagged := h.tagged cond branches hctx
    have hfirst := h.first cond branches hctx
    simp only [all_cons, Bool.and_eq_true] at htagged
    simp only [whensFirst, Bool.and_eq_true] at hfirst
    -- a `When` is one of the branches before from here on
    have hafter : (Context.choose cond branches).after node =
        .choose cond (branches ++ node.whenText.toList) ∧
        ∃ exprs, List.Forall₂ Reads (branches ++ node.whenText.toList) exprs := by
      cases node with
      | element rawName attrs =>
        by_cases hwhen : isNamed (localName rawName) "when" = true
        · obtain ⟨e, hread⟩ := exists_reads_whenCondition hreads
          simp only [Context.after, whenText, hwhen, if_true, Option.toList_some]
          exact ⟨trivial, exprs ++ [e], rel_append hexprs (.cons hread .nil)⟩
        · simp only [Context.after, whenText, hwhen]
          exact ⟨by simp, exprs, by simpa using hexprs⟩
      | emptyElement rawName attrs =>
        have hnot : isNamed (localName rawName) "when" = false := by
          have := htagged.1
          simp only [isTagged, ParseState.isBranch, Bool.not_eq_true', Bool.or_eq_false_iff] at this
          exact this.1
        simp only [Context.after, whenText, hnot]
        exact ⟨by simp, exprs, by simpa using hexprs⟩
      | _ => exact ⟨by simp [Context.after, whenText], exprs, by simpa [whenText] using hexprs⟩
    rw [hafter.1]
    refine ⟨?_, fun _ _ _ => htagged.2, fun _ _ _ => hfirst.2⟩
    intro condition' branches' heq
    cases heq
    refine ⟨decided.after node, rfl, by rw [Decision.after, hearlier], ?_, hafter.2⟩
    rw [Decision.after, hwhens, append_assoc]
    cases hnode : node.whenText <;> simp [hnode]

variable {attrs : Attributes}

lemma follows_child (h : Follows ctx.condition scope)
    (hown : ∃ e, Denotes (attributeValue attrs "condition") e) (reached : Truth)
    (htarget : isNamed name "target" = false)
    (hname : (isNamed name "import" || isNamed name "dccreference") = false) :
    Follows (childContext ctx name attrs).condition
      (childScope ctx scope ⟨attributeValue attrs "condition", false, reached⟩ name
        attrs) := by
  have hsnoc := h.snoc hown reached
  obtain ⟨himport, href⟩ := Bool.or_eq_false_iff.1 hname
  unfold childContext childScope
  cases ctx with
  | group cond =>
    by_cases hchoose : isNamed name "choose" = true
    · simpa [hchoose, Context.condition] using hsnoc
    by_cases hgroup : isNamed name "propertygroup" = true
    · simpa [hchoose, hgroup, Context.condition] using hsnoc
    by_cases hnamed : ParseState.isNamedProperty name attrs = true
    · simpa [hchoose, hgroup, himport, href, hnamed, isOperation, htarget,
        Context.condition] using hsnoc
    · simpa [hchoose, hgroup, himport, href, hnamed, isOperation, htarget,
        Context.condition] using h
  | plain cond | choose cond branches =>
    split_ifs <;> first | exact hsnoc | simp_all

lemma guarded_elementOperation (h : Follows cond scope) (name : Text)
    (attrs : Attributes) (children : List Node) :
    ∀ op ∈ (elementOperation name attrs cond children).toList, Guarded scope op := by
  intro op hmem
  unfold elementOperation at hmem
  split_ifs at hmem <;> cases hmem <;> first | exact h | trivial

lemma guarded_emptyElement
    (h : Follows (combineConditions ctx.condition (attributeValue attrs "condition")) scope) :
    ∀ op ∈ nodeOperations ctx (.emptyElement rawName attrs), Guarded scope op := by
  intro op hmem
  unfold nodeOperations at hmem
  dsimp only at hmem
  split_ifs at hmem <;> simp only [mem_singleton, not_mem_nil] at hmem <;>
    subst hmem <;> first | exact h | trivial

lemma follows_after (h : Follows ctx.condition scope) (node : Node) :
    Follows (ctx.after node).condition scope := by
  have hsame : (ctx.after node).condition = ctx.condition := by
    cases node with
    | element rawName =>
      cases ctx with
      | choose =>
        by_cases hwhen : isNamed (localName rawName) "when" = true <;>
          simp [Context.after, Context.condition, hwhen]
      | _ => rfl
    | _ => rfl
  rw [hsame]
  exact h

lemma childContext_of_import (ctx : Context) (attrs : Attributes)
    (h : (isNamed name "import" || isNamed name "dccreference") = true) :
    childContext ctx name attrs = .plain none false := by
  have hothers : isNamed name "choose" = false ∧ isNamed name "propertygroup" = false := by
    rcases Bool.or_eq_true_iff.1 h with h | h <;>
      exact ⟨isNamed_ne h (by decide), isNamed_ne h (by decide)⟩
  simp [childContext, hothers, h]

omit [DecidableEq Path] in
/-- A `Choose` decides when it is reached. -/
lemma decided_child (hproper : (element rawName attrs children).Proper) (ctx : Context)
    (builder : ProjectBuilder Path) :
    Decided (childContext ctx (localName rawName) attrs)
      (decisionOf builder (localName rawName) children) children := by
  by_cases hchoose : isNamed (localName rawName) "choose" = true
  · have htagged : children.all isTagged = true := by
      simpa [branchesTagged, hchoose] using hproper.tagged
    have hfirst : whensFirst children = true := by
      simpa [otherwiseLast, hchoose] using hproper.otherwise
    refine ⟨?_, fun _ _ _ => htagged, fun _ _ _ => hfirst⟩
    intro cond branches heq
    simp only [childContext, hchoose, if_true, Context.choose.injEq] at heq
    obtain ⟨-, rfl⟩ := heq
    exact ⟨⟨builder, children.filterMap whenText, []⟩, by simp [decisionOf, hchoose], rfl,
      rfl, [], .nil⟩
  · refine decided_of_not_choose (fun cond branches heq => ?_) _ _
    unfold childContext at heq
    split_ifs at heq
    all_goals first | contradiction | cases heq | (cases ctx <;> cases heq)

/-- A branch of a `Choose` is evaluated under the guards its condition spells. -/
lemma branch_follows {ctx inner : Context} {rest : List Node}
    (hown : (element rawName attrs children).ConditionReads)
    (hfollows : Follows ctx.condition scope)
    (hdecided : Decided ctx decision (.element rawName attrs children :: rest))
    (hinner : ctx.branch? (localName rawName) (attributeValue attrs "condition") = some inner) :
    ∃ innerScope, branchScope host file ctx decision scope (localName rawName)
        (attributeValue attrs "condition") = some (inner, innerScope) ∧
      Follows inner.condition innerScope ∧ ∀ cond branches, inner ≠ .choose cond branches := by
  cases hctx : ctx with
  | plain cond | group cond => simp [hctx, Context.branch?] at hinner
  | choose cond branches =>
    rw [hctx] at hinner hfollows
    obtain ⟨decided, rfl, hearlier, hwhens, _, hexprs⟩ := hdecided.fits cond branches hctx
    have hfirst := hdecided.first cond branches hctx
    simp only [whensFirst, Bool.and_eq_true] at hfirst
    simp only [Context.branch?, Option.ite_none_right_eq_some, Option.some.injEq] at hinner
    obtain ⟨hbranch, rfl⟩ := hinner
    refine ⟨scope ++ branchGuards host file decided (localName rawName)
      (attributeValue attrs "condition"), by simp [branchScope, hbranch], ?_, by simp⟩
    refine hfollows.branch hexprs hearlier hown fun hnotWhen => ?_
    -- nothing but `Otherwise` is left, and no `When` comes after it
    have hotherwise : isNamed (localName rawName) "otherwise" = true := by
      simpa [ParseState.isBranch, hnotWhen] using hbranch
    have hnone : rest.filterMap whenText = [] := by
      simpa [whensFirst, isOtherwise, hotherwise] using hfirst.1
    simp [hwhens, whenText, hnotWhen, hnone]

/-- Where there is no branch the reference sees none either. -/
lemma branchScope_none (h : ctx.branch? name own = none) (decision : Option (Decision Path))
    (scope : Scope) : branchScope host file ctx decision scope name own = none := by
  cases ctx with
  | choose =>
    have hnot : ParseState.isBranch name = false := by
      by_contra hbranch
      simp [Context.branch?, hbranch] at h
    cases decision <;> simp [branchScope, hnot]
  | _ => rfl

mutual

lemma ends_node (hnested : NestedAgrees host nested inner) {ctx : Context}
    {decision : Option (Decision Path)} {scope : Scope}
    {rest : List Node} (node : Node) (builder : ProjectBuilder Path)
    (hproper : ∀ inner ∈ node.subnodes, inner.Proper) (hfollows : Follows ctx.condition scope)
    (hdecided : Decided ctx decision (node :: rest))
    (hsteady : ∀ step ∈ (referenceNode host file src nested ctx decision scope node
      builder).steps, step.Steady host) :
    Ends builder (nodeOperations ctx node)
      (referenceNode host file src nested ctx decision scope node builder) host
      file src inner := by
  match node with
  | .element rawName attrs children =>
    have hown := hproper (.element rawName attrs children) (by simp [subnodes])
    have hkids : ∀ inner ∈ listSubnodes children, inner.Proper :=
      fun inner hinner => hproper inner (by simp [subnodes, hinner])
    unfold referenceNode at hsteady ⊢
    unfold nodeOperations
    by_cases htarget : (ctx.inTarget || isNamed (localName rawName) "target") = true
    · rw [if_pos htarget, if_pos htarget, listOperations_inTarget, append_nil]
      split <;> rfl
    rw [if_neg htarget] at hsteady
    rw [if_neg htarget, if_neg htarget]
    obtain ⟨-, hnotTarget⟩ := Bool.or_eq_false_iff.1 (by simpa using htarget)
    by_cases hbranch : ∃ inner,
        ctx.branch? (localName rawName) (attributeValue attrs "condition") = some inner
    · -- a branch of a `Choose`, with the answers from when that was reached
      obtain ⟨inner, hinner⟩ := hbranch
      obtain ⟨_, hsome, hinnerFollows, hplain⟩ :=
        branch_follows hown.reads hfollows hdecided hinner
      rw [hsome] at hsteady
      rw [hsome, hinner]
      exact ends_list hnested children builder hkids hinnerFollows
        (decided_of_not_choose hplain _ _) hsteady
    have hnone : ctx.branch? (localName rawName) (attributeValue attrs "condition") =
        none := Option.eq_none_iff_forall_ne_some.2 fun inner hinner => hbranch ⟨inner, hinner⟩
    rw [branchScope_none hnone] at hsteady
    rw [branchScope_none hnone, hnone]
    have hguard := guarded_elementOperation
      (hfollows.snoc hown.reads (answer host file builder
        (attributeValue attrs "condition"))) (localName rawName) attrs children
    by_cases himport : (isNamed (localName rawName) "import" ||
        isNamed (localName rawName) "dccreference") = true
    · have hempty : listOperations (.plain none false) children = [] := by
        simpa [importsHollow, himport] using hown.hollow
      rw [if_pos himport] at hsteady
      rw [if_pos himport, childContext_of_import ctx attrs himport, hempty, append_nil]
      exact ends_runGuarded hnested hguard hsteady
    · rw [if_neg himport] at hsteady
      rw [if_neg himport]
      obtain ⟨hfirst, hrest⟩ := Run.bind_steps hsteady
      refine (ends_runGuarded hnested hguard hfirst).bind fun herror => ?_
      exact ends_list hnested children _ hkids
        (follows_child hfollows hown.reads _ hnotTarget (by simpa using himport))
        (decided_child hown ctx builder) (hrest herror)
  | .emptyElement rawName attrs =>
    have hown := (hproper (.emptyElement rawName attrs) (by simp [subnodes])).reads
    unfold referenceNode at hsteady ⊢
    exact ends_runGuarded hnested (guarded_emptyElement (hfollows.snoc hown _)) hsteady
  | .text content | .cdata content | .reference content | .other =>
    simp [nodeOperations, referenceNode]
    rfl

lemma ends_list (hnested : NestedAgrees host nested inner) {ctx : Context}
    {decision : Option (Decision Path)} {scope : Scope}
    (nodes : List Node) (builder : ProjectBuilder Path)
    (hproper : ∀ inner ∈ listSubnodes nodes, inner.Proper) (hfollows : Follows ctx.condition scope)
    (hdecided : Decided ctx decision nodes)
    (hsteady : ∀ step ∈ (referenceList host file src nested ctx decision scope nodes
      builder).steps, step.Steady host) :
    Ends builder (listOperations ctx nodes)
      (referenceList host file src nested ctx decision scope nodes builder) host
      file src inner := by
  match nodes with
  | [] => simp [listOperations, referenceList, Ends, runOperations, Run.stay]
  | node :: nodes =>
    rw [listOperations]
    obtain ⟨hfirst, hrest⟩ := Run.bind_steps hsteady
    have hreads : node.ConditionReads :=
      (hproper node (by cases node <;> simp [listSubnodes, subnodes])).reads
    have hnode := ends_node hnested node builder
      (fun inner hinner => hproper inner (by simp [listSubnodes, hinner])) hfollows hdecided
      hfirst
    refine hnode.bind fun hnone => ?_
    exact ends_list hnested nodes _
      (fun inner hinner => hproper inner (by simp [listSubnodes, hinner]))
      (follows_after hfollows node) (hdecided.after hreads) (hrest hnone)

end

/-- The texts that imports read are documents. -/
def ReadsDocuments (host : Host Path)
    (documents : Nat → ProjectPathEntry Path → List Node) : Prop :=
  ∀ count entry events, host.read count entry = .ok events →
    (∃ operations, parseXmlOperations events = .ok operations) →
    events = (listEvents (documents count entry)).map .ok ∧
      ∀ inner ∈ listSubnodes (documents count entry), inner.Proper

lemma follows_nil : Follows none [] := ⟨[], .nil, .of_denotes (denotes_none_iff.2 rfl)⟩

lemma ends_document (hnested : NestedAgrees host nested inner)
    (hproper : ∀ inner ∈ listSubnodes nodes, inner.Proper)
    (hsteady : ∀ step ∈ (referenceDocument host file src nested nodes builder).steps,
      step.Steady host) :
    Ends builder (listOperations (.plain none false) nodes)
      (referenceDocument host file src nested nodes builder) host file src
      inner :=
  ends_list hnested nodes builder hproper follows_nil
    (decided_of_not_choose (by simp) _ _) hsteady

/-- The induction is on how deep the files are nested. -/
lemma ends_project {documents : Nat → ProjectPathEntry Path → List Node}
    (hdocs : ReadsDocuments host documents) (depth : Nat) (entry : ProjectPathEntry Path)
    (hproper : ∀ inner ∈ listSubnodes nodes, inner.Proper)
    (hsteady : ∀ step ∈ (referenceProject host documents depth entry nodes builder).steps,
      step.Steady host) :
    processOperations host depth entry (listOperations (.plain none false) nodes) builder =
      ((referenceProject host documents depth entry nodes builder).builder,
        (referenceProject host documents depth entry nodes builder).error) := by
  induction depth generalizing entry nodes builder with
  | zero =>
    refine ends_document (fun entry ops builder _ _ => ?_) hproper hsteady
    rfl
  | succ depth ih =>
    refine ends_document (fun entry ops builder hread hinside => ?_) hproper hsteady
    cases hevents : host.read builder.importCount entry with
    | error => simp [hevents, bind, Except.bind] at hread
    | ok events =>
      have hparse : parseXmlOperations events = .ok ops := by
        simpa [hevents, bind, Except.bind] using hread
      obtain ⟨rfl, hinner⟩ := hdocs builder.importCount entry events hevents ⟨_, hparse⟩
      rw [parseXmlOperations_events] at hparse
      cases hparse
      exact ih entry hinner hinside

end Refinement

/-! ## The result -/

instance (node : Node) : Decidable node.ConditionReads := by
  cases node <;> unfold Node.ConditionReads <;> infer_instance

instance (node : Node) : Decidable node.Proper :=
  decidable_of_iff (node.ConditionReads ∧ node.branchesTagged = true ∧
      node.otherwiseLast = true ∧ node.importsHollow = true)
    ⟨fun h => ⟨h.1, h.2.1, h.2.2.1, h.2.2.2⟩, fun h => ⟨h.reads, h.tagged, h.otherwise, h.hollow⟩⟩

instance {Path : Type} [DecidableEq Path] (host : Host Path) (step : GuardedStep Path) :
    Decidable (step.Steady host) :=
  decidable_of_iff ((∀ guard ∈ step.scope,
      answer host step.sourceFile step.builder guard.condition = guard.reached) ∧
      step.builder.metadataFiles.length + conditionProbes step.condition ≤ maxMetadataFiles)
    ⟨fun h => ⟨h.1, h.2⟩, fun h => ⟨h.same, h.room⟩⟩

/-- The operations of a document end with the properties of the reference, in every
evaluation that keeps the answers of the conditions around each operation until the
operation is reached. -/
theorem choose_applies_one_branch {Path : Type} [DecidableEq Path] (host : Host Path)
    (documents : Nat → ProjectPathEntry Path → List Node)
    (hdocuments : ReadsDocuments host documents) (depth : Nat) (entry : ProjectPathEntry Path)
    (nodes : List Node) (builder : ProjectBuilder Path)
    (hproper : ∀ node ∈ listSubnodes nodes, node.Proper)
    (hsteady : ∀ step ∈ (referenceProject host documents depth entry nodes builder).steps,
      step.Steady host) :
    ∃ operations, parseXmlOperations ((listEvents nodes).map .ok) = .ok operations ∧
      processOperations host depth entry operations builder =
        ((referenceProject host documents depth entry nodes builder).builder,
          (referenceProject host documents depth entry nodes builder).error) :=
  ⟨_, parseXmlOperations_events nodes, ends_project hdocuments depth entry hproper hsteady⟩

/-! ### Two documents -/

/-- Files of which none can be read. -/
def Host.none : Host Unit where
  toFiles := Files.none
  isSupportedProjectImport _ := false
  read _ _ := .error "missing"
  isTransientError _ := false

/-- An evaluation that knows the value of one property. -/
def ProjectBuilder.knowing {Path : Type} (key value : Text) : ProjectBuilder Path where
  properties := AList.singleton key value
  configuredRanges := ∅
  propertyProvenanceRanges := ∅
  propertyDefaultProvenances := ∅
  propertyEmptyExpansions := ∅
  configuredProperties := ∅
  globalProperties := ∅
  unknownProperties := ∅
  unknownImportTaint := false
  opaqueImport := false
  installationDataMode := false
  references := []
  incomplete := false
  unevaluatedAssignments := ∅
  activeImports := []
  importCount := 0
  propertyBytes := 0
  metadataFiles := []

/-- A group that assigns one property. -/
def assigning (name value : String) : Node :=
  .element "PropertyGroup".toList [] [.element name.toList [] [.text value.toList]]

/-- A property that is `1` if another one is `0`, and `2` otherwise. -/
def oneOrTwo (name tested : String) : Node :=
  .element "Choose".toList []
    [.element "When".toList
        [("Condition".toList, "'$(".toList ++ tested.toList ++ ")'=='0'".toList)]
        [assigning name "1"],
      .element "Otherwise".toList [] [assigning name "2"]]

theorem choose_applies_one_branch_other : (∀ node ∈ listSubnodes [oneOrTwo "A" "B"], node.Proper) ∧
    ∃ operations, parseXmlOperations ((listEvents [oneOrTwo "A" "B"]).map .ok) = .ok operations ∧
      (processOperations Host.none maxImportCount ⟨(), .legacyNative⟩ operations
        (.knowing "b".toList "0".toList)).1.properties.lookup "a".toList = some "1".toList := by
  refine ⟨by decide +kernel, ?_⟩
  obtain ⟨operations, hparse, hends⟩ := choose_applies_one_branch Host.none (fun _ _ => [])
    (fun _ _ _ h => by cases h) maxImportCount ⟨(), .legacyNative⟩ [oneOrTwo "A" "B"]
    (.knowing "b".toList "0".toList) (by decide +kernel) (by decide +kernel)
  refine ⟨operations, hparse, ?_⟩
  rw [hends]
  decide +kernel

/-- The first branch is taken, and its assignment makes `Otherwise` hold. -/
theorem choose_applies_both_branches :
    ∃ operations, parseXmlOperations ((listEvents [oneOrTwo "A" "A"]).map .ok) = .ok operations ∧
      (processOperations Host.none maxImportCount ⟨(), .legacyNative⟩ operations
        (.knowing "a".toList "0".toList)).1.properties.lookup "a".toList = some "2".toList ∧
      (referenceProject Host.none (fun _ _ => []) maxImportCount ⟨(), .legacyNative⟩
        [oneOrTwo "A" "A"] (.knowing "a".toList "0".toList)).builder.properties.lookup
          "a".toList = some "1".toList :=
  ⟨_, parseXmlOperations_events _, by decide +kernel, by decide +kernel⟩

end Lint4d.Msbuild
