import Lint4d.Fix.Spelling

/-!
# Only case changes

Every spelling that the restricted fixer gives to an identifier has the lower
case of the identifier, so that its edits replace letters by letters and the
fixed source has the lower case of the source.
-/

namespace Lint4d.Fix

open List Lint4d.Cache Lint4d.Lib Lint4d.Lib.Utf8 EditWalk

variable {edit : TextEdit}

/-! ## The walk, node by node -/

variable {node : Node}

namespace EditWalk

variable (walk : EditWalk)

/-- The context of the routine around a node, and whether a `with` body is around it. -/
def stateOf (node : Node) : Option ProcContext × Bool :=
  Lib.Node.stateAt walk.enter (none, false) node.above

/-- The spelling that the walk gives to an identifier. -/
def respelled (node : Node) : Option Text :=
  if walk.shadowBarriers && (walk.stateOf node).2 then none
  else walk.resolve (walk.stateOf node).1 node

/-- The edit of an identifier, if its spelling changes. -/
def editOf (node : Node) : List TextEdit :=
  match walk.respelled node with
  | none => []
  | some newName =>
    if walk.text node = newName then [] else [⟨node.startByte, node.endByte, encode newName⟩]

/-- The identifiers of a tree, in the order of the source. -/
def identifiers (root : Tree) : List Node := root.outermost (·.kind = .identifier)

lemma walkForEdits_eq (root : Tree) :
    walk.walkForEdits root = (identifiers root).flatMap walk.editOf := by
  have hwalk := Lib.Node.walk_eq (·.kind = .identifier) walk.enter walk.emit (none, false) [] root
  rw [walkForEdits]
  refine hwalk.trans ?_
  rw [identifiers, Lib.Node.outermost]
  -- nodes of other kinds emit nothing
  induction root.visited (·.kind = .identifier) [] with
  | nil => rfl
  | cons node _ ih =>
    rw [flatMap_cons, filter_cons, ih]
    by_cases hkind : node.kind = .identifier
    · have hemit : walk.emit (Lib.Node.stateAt walk.enter (none, false) node.above) node =
          walk.editOf node := by
        rw [emit, if_pos hkind, editOf, respelled, stateOf]
        split <;> rfl
      have hdecide : decide (node.node.kind = .identifier) = true := decide_eq_true hkind
      rw [if_pos hdecide, flatMap_cons, hemit]
    · have hemit : walk.emit (Lib.Node.stateAt walk.enter (none, false) node.above) node = [] :=
        if_neg hkind
      have hdecide : ¬ decide (node.node.kind = .identifier) = true := fun h =>
        hkind (of_decide_eq_true h)
      rw [if_neg hdecide, hemit, nil_append]

lemma mem_editOf (h : edit ∈ walk.editOf node) :
    ∃ newName, walk.respelled node = some newName ∧ walk.text node ≠ newName ∧
      edit = ⟨node.startByte, node.endByte, encode newName⟩ := by
  unfold editOf at h
  split at h
  · cases h
  · next newName hnew =>
    split at h
    · cases h
    · next hne => exact ⟨newName, hnew, hne, mem_singleton.1 h⟩

end EditWalk

/-! ## Contexts are spelled -/

structure ProcContext.Spelled (unicode : Unicode) (context : ProcContext) : Prop where
  methodScope : context.methodScope.Spelled unicode
  localRenames : context.localRenames.Spelled unicode
  classFields : ∀ fields ∈ context.classFields, NameMap.Spelled unicode fields

/-- What the walk is given is spelled, and there are no file renames. -/
structure EditWalk.Spelled (walk : EditWalk) : Prop where
  scopes : walk.scopes.Spelled walk.unicode
  locals : ∀ rename ∈ walk.renameMap.locals.entries, Spelling walk.unicode rename.1.oldName rename.2
  file : walk.renameMap.file = ∅

namespace SyntaxTree

variable {walk : EditWalk} (tree : SyntaxTree walk.source)
  {procNode : Node} {outer : Option ProcContext} {newName : Text}

lemma spelled_directScope (hvalid : procNode.Valid tree.root) :
    (walk.directScope procNode).Spelled walk.unicode := by
  have hscope : (collectMethodScope walk.unicode walk.source NameMap.empty procNode).Spelled
      walk.unicode := tree.spelled_collectMethodScope .empty hvalid
  unfold directScope
  split
  · exact foldlRecOn _ _ hscope fun _ hmap _ hdecl =>
      tree.spelled_collectDeclNames hmap (valid_lambdaArgumentDeclarations hvalid hdecl)
  · exact hscope

variable (hwalk : walk.Spelled)

include hwalk

lemma spelled_inheritedContext (hvalid : procNode.Valid tree.root)
    (houter : ∀ ctx ∈ outer, ctx.Spelled walk.unicode) :
    (walk.inheritedContext procNode outer).Spelled walk.unicode := by
  have hmethod : ((outer.map (·.methodScope)).getD NameMap.empty).Spelled walk.unicode := by
    cases outer with
    | none => exact .empty
    | some ctx => exact (houter ctx rfl).methodScope
  have hlocal : ((outer.map (·.localRenames)).getD NameMap.empty).Spelled walk.unicode := by
    cases outer with
    | none => exact .empty
    | some ctx => exact (houter ctx rfl).localRenames
  have hclass : ∀ fields ∈ (classNameNode procNode).bind
      (fun name => walk.scopes.classes (walk.lower name)), NameMap.Spelled walk.unicode fields := by
    intro fields hfields
    obtain ⟨name, -, hfields⟩ := Option.bind_eq_some_iff.1 hfields
    exact hwalk.scopes.2 _ fields hfields
  unfold inheritedContext
  split
  · exact ⟨(tree.spelled_directScope hvalid).or hmethod, hlocal.restrict _, hclass⟩
  · exact ⟨tree.spelled_collectMethodScope hmethod hvalid, hlocal, hclass⟩

omit tree in
lemma spelled_applyRename {ctx : ProcContext} (h : ctx.Spelled walk.unicode)
    {rename : Rename} (hrename : rename ∈ walk.renameMap.locals.entries) :
    (walk.applyRename procNode ctx rename).Spelled walk.unicode := by
  have hspell := hwalk.locals rename hrename
  unfold applyRename
  dsimp only
  split
  · exact h
  · split
    · exact ⟨h.methodScope, h.localRenames, h.classFields⟩
    · refine ⟨?_, ?_, h.classFields⟩
      · rw [hspell.1]
        exact h.methodScope.erase.insert hspell
      · split
        · exact h.localRenames.insert hspell
        · exact h.localRenames

lemma spelled_enterProc (hvalid : procNode.Valid tree.root)
    (houter : ∀ ctx ∈ outer, ctx.Spelled walk.unicode) :
    (walk.enterProc procNode outer).Spelled walk.unicode :=
  foldlRecOn _ _ (tree.spelled_inheritedContext hwalk hvalid houter)
    fun _ hctx _ hrename => spelled_applyRename hwalk hctx (by simp_all [containingRenames])

/-- All contexts along a path are spelled. -/
lemma spelled_stateOf (hvalid : node.Valid tree.root) :
    ∀ ctx ∈ (walk.stateOf node).1, ctx.Spelled walk.unicode := by
  obtain ⟨above, node⟩ := node
  unfold stateOf
  induction above generalizing node with
  | nil => nofun
  | cons place above ih =>
    have hpar : Cursor.Valid tree.root ⟨above, place.parent⟩ := hvalid.2
    have houter := ih place.parent hpar
    rw [Lib.Node.stateAt, enter]
    split
    · rintro ctx ⟨⟩
      exact tree.spelled_enterProc hwalk hpar houter
    · exact houter

omit tree in
lemma spelling_resolve {ctx : Option ProcContext} (hctx : ∀ c ∈ ctx, c.Spelled walk.unicode)
    (h : walk.resolve ctx node = some newName) :
    Spelling walk.unicode (walk.lower node) newName := by
  unfold resolve at h
  split at h
  · cases h
  split at h
  · next name hname =>
    cases h
    obtain ⟨c, hc, hname⟩ := Option.bind_eq_some_iff.1 hname
    exact (hctx c hc).localRenames _ _ hname
  split at h
  · next name hname =>
    rw [hwalk.file] at hname
    cases hname
  split at h
  · cases h
  rcases Option.or_eq_some_iff.1 h with h | ⟨-, h⟩
  · obtain ⟨c, hc, h⟩ := Option.bind_eq_some_iff.1 h
    exact (hctx c hc).methodScope _ _ h
  rcases Option.or_eq_some_iff.1 h with h | ⟨-, h⟩
  · obtain ⟨c, hc, h⟩ := Option.bind_eq_some_iff.1 h
    obtain ⟨fields, hfields, h⟩ := Option.bind_eq_some_iff.1 h
    exact (hctx c hc).classFields fields hfields _ _ h
  · exact hwalk.scopes.1 _ _ h

/-- The spelling given to an identifier agrees with it up to case. -/
lemma agree_respelled (hascii : walk.unicode.Ascii) (hnode : tree.IsIdentifierNode node)
    (h : walk.respelled node = some newName) :
    IsAscii newName ∧ Agree (walk.text node) newName := by
  obtain ⟨-, h⟩ := Option.ite_none_left_eq_some.1 h
  exact Spelling.agree hascii (tree.identifier_text hnode.1 hnode.2).1
    (spelling_resolve hwalk (tree.spelled_stateOf hwalk hnode.1) h)

end SyntaxTree

/-! ## The edits -/

section Edits

variable {unicode : Unicode} (hascii : unicode.Ascii) {source : Bytes} (tree : SyntaxTree source)
  (config : Config)

lemma mem_identifiers (h : node ∈ identifiers tree.root) : tree.IsIdentifierNode node := by
  obtain ⟨hvisited, hkind⟩ := mem_filter.1 h
  exact ⟨(Lib.Node.mem_visited_iff.1 hvisited).1, of_decide_eq_true hkind⟩

include hascii

lemma spelled_restrictedWalk : (restrictedWalk unicode source config tree.root).Spelled where
  scopes := tree.spelled_collectFileScope hascii
  locals rename hrename := by
    obtain ⟨hentry, hlower⟩ := mem_filter.1 hrename
    exact ⟨(of_decide_eq_true hlower).symm, .inl (tree.asciiLocals_buildRenameMap rfl rename hentry)⟩
  file := rfl

/-- Each edit replaces one identifier by a spelling that agrees with it. -/
lemma mem_restrictedEdits (h : edit ∈ restrictedEdits unicode source config tree.root) :
    ∃ node newName, node ∈ identifiers tree.root ∧
      edit = ⟨node.startByte, node.endByte, encode newName⟩ ∧ IsAscii newName ∧
      Agree (nodeText source node) newName := by
  rw [restrictedEdits, walkForEdits_eq] at h
  obtain ⟨node, hnode, hedit⟩ := mem_flatMap.1 h
  obtain ⟨newName, hnew, -, rfl⟩ := mem_editOf _ hedit
  obtain ⟨hnewAscii, hagree⟩ := tree.agree_respelled
    (spelled_restrictedWalk hascii tree config) hascii (mem_identifiers tree hnode) hnew
  exact ⟨node, newName, hnode, rfl, hnewAscii, hagree⟩

/-- The edits replace identifiers in the order of the source by spellings that agree with them. -/
lemma replaces_restrictedEdits :
    Replaces source (restrictedEdits unicode source config tree.root) ∧
      ∀ edit ∈ restrictedEdits unicode source config tree.root,
        BytesAgree ((source.take edit.endByte).drop edit.startByte) edit.newText := by
  have hagree : ∀ edit ∈ restrictedEdits unicode source config tree.root,
      BytesAgree ((source.take edit.endByte).drop edit.startByte) edit.newText ∧
        edit.startByte < edit.endByte ∧ edit.endByte ≤ source.length := by
    intro edit hedit
    obtain ⟨node, newName, hnode, rfl, -, hagree⟩ := mem_restrictedEdits hascii tree config hedit
    have hident := mem_identifiers tree hnode
    obtain ⟨hword, hbytes⟩ := tree.identifier_text hident.1 hident.2
    have hend := (tree.spanned.valid hident.1).2.2.trans tree.inSource
    refine ⟨?_, ?_, hend⟩
    · change BytesAgree (nodeBytes source node) (encode newName)
      rw [hbytes]
      exact hagree.encode
    · -- an empty range would have no text
      by_contra hle
      have hempty : nodeBytes source node = [] := by
        apply drop_eq_nil_of_le
        rw [length_take]
        dsimp only at hle
        omega
      exact identifier_ne_nil hword (eq_nil_of_encode_eq_nil (hbytes.symm.trans hempty))
  refine ⟨⟨?_, fun edit h => (hagree edit h).2.1, fun edit h => ?_⟩, fun edit h => (hagree edit h).1⟩
  · refine ordered_of_pairwise ?_ fun edit h => ⟨(hagree edit h).2.1.le, (hagree edit h).2.2⟩
    rw [restrictedEdits, walkForEdits_eq, pairwise_flatMap]
    constructor
    · intro node _
      unfold editOf
      split
      · exact .nil
      · split
        · exact .nil
        · exact pairwise_singleton _ _
    · -- the identifiers follow each other, and each edit has the range of its identifier
      apply tree.spanned.pairwise_outermost.imp
      intro a b hab x hx y hy
      obtain ⟨_, -, -, rfl⟩ := mem_editOf _ hx
      obtain ⟨_, -, -, rfl⟩ := mem_editOf _ hy
      exact hab
  · have hlen := (hagree edit h).1.length_eq
    rw [length_drop, length_take] at hlen
    have := (hagree edit h).2
    omega

end Edits

/-- There is memory for the source twice. -/
structure Memory.HoldsTwice (memory : Memory) (source : Bytes) : Prop where
  total : 2 * source.length ≤ usizeMax
  reserves : ∀ n ≤ 2 * source.length, memory.tryReserve n = .ok ()

lemma Replaces.holds {memory : Memory} {source : Bytes} {edits : List TextEdit}
    (h : Replaces source edits) (hmemory : memory.HoldsTwice source) :
    memory.Holds source edits := by
  have hadded := h.added_le
  unfold added at hadded
  exact ⟨by have := hmemory.total; omega, fun n hn => hmemory.reserves n (by omega)⟩

/-- On a source without parse errors the fixer splices its edits into the source. -/
lemma fixFileRestricted_eq {platform : Platform} (hascii : platform.unicode.Ascii) {text : Text}
    (tree : SyntaxTree (encode text)) (config : Config)
    (hparse : platform.parseFile .pas (encode text) = .ok ⟨tree.root, false⟩)
    (hmemory : platform.memory.HoldsTwice (encode text)) :
    fixFileRestricted platform .pas (encode text) config = some (.ok (spliced (encode text)
          (restrictedEdits platform.unicode (encode text) config tree.root),
        (restrictedEdits platform.unicode (encode text) config tree.root).length)) := by
  have hreplaces := (replaces_restrictedEdits hascii tree config).1
  unfold fixFileRestricted
  rw [if_neg (by simp), if_neg (by simp), hparse]
  dsimp only
  rw [if_neg (by simp), applyEdits_of_checked (hreplaces.holds hmemory) hreplaces.findOverlap_eq
    fun _ hedit => hreplaces.range hedit]
  rfl

/-- The restricted fixer changes letter case only. -/
theorem fix_file_restricted_case_only (platform : Platform) (hascii : platform.unicode.Ascii)
    (text : Text) (tree : SyntaxTree (encode text)) (config : Config) (fileType : FileType)
    (hparse : platform.parseFile fileType (encode text) = .ok ⟨tree.root, false⟩)
    (hmemory : platform.memory.HoldsTwice (encode text)) :
    ∃ (edits : List TextEdit) (output : Text),
      fixFileRestricted platform fileType (encode text) config =
        some (.ok (encode output, edits.length)) ∧
      encode output = spliced (encode text) edits ∧
      lowercase platform.unicode output = lowercase platform.unicode text ∧
      (∀ i, (∀ node, tree.IsIdentifierNode node → ¬ (node.startByte ≤ i ∧ i < node.endByte)) →
        (encode output)[i]? = (encode text)[i]?) ∧
      (edits.Pairwise fun a b => a.endByte ≤ b.startByte) ∧
      ∀ edit ∈ edits, ∃ node newName, tree.IsIdentifierNode node ∧
        edit = ⟨node.startByte, node.endByte, encode newName⟩ ∧
        lowercase platform.unicode newName =
          lowercase platform.unicode (nodeText (encode text) node) := by
  by_cases hproject : fileType = .dpr ∨ fileType = .dpk
  · -- project files are returned as they are
    have hnone : Replaces (encode text) [] := ⟨trivial, by simp, by simp⟩
    refine ⟨[], text, if_pos hproject, ?_, rfl, fun _ _ => rfl, .nil, by simp⟩
    rw [hnone.spliced_eq, joined, drop_zero]
  · obtain rfl : fileType = .pas := by
      cases fileType <;> simp_all
    -- each edit keeps the letters, so the spliced text does too
    obtain ⟨hreplaces, hagree⟩ := replaces_restrictedEdits hascii tree config
    obtain ⟨output, houtput, hcase⟩ := (hreplaces.agree hagree).decode
    refine ⟨_, output, ?_, houtput, (lowercase_agree hascii hcase).symm, ?_, hreplaces.pairwise, ?_⟩
    · rw [fixFileRestricted_eq hascii tree config hparse hmemory, houtput]
    · intro i hi
      rw [houtput, hreplaces.spliced_eq, getElem?_joined hreplaces i (by simp), Nat.zero_add,
        Replaces.replacedAt_of_not_covered]
      rintro ⟨edit, hedit, hrange⟩
      obtain ⟨node, _, hnode, rfl, -⟩ := mem_restrictedEdits hascii tree config hedit
      exact hi node (mem_identifiers tree hnode) hrange
    · intro edit hedit
      obtain ⟨node, newName, hnode, rfl, -, hnew⟩ := mem_restrictedEdits hascii tree config hedit
      exact ⟨node, newName, mem_identifiers tree hnode, rfl, (lowercase_agree hascii hnew).symm⟩

/-! A variable used in another case. -/

def useSource : Text := "var Foo: T; begin FOO end.".toList

def useRoot : Tree :=
  .mk .other 0 26 0 [⟨none, .mk .declVar 4 11 0 [⟨some .name, .mk .identifier 4 7 0 []⟩,
      ⟨some .type, .mk .typeref 9 10 0 [⟨none, .mk .identifier 9 10 0 []⟩]⟩]⟩,
    ⟨none, .mk .other 12 25 0 [⟨none, .mk .identifier 18 21 0 []⟩]⟩]

def useTree : SyntaxTree (encode useSource) := .ofChecked _ useRoot (by decide +kernel)

def usePlatform : Platform where
  unicode := asciiTables
  memory := ampleMemory
  parseFile _ _ := .ok ⟨useRoot, false⟩

def camelCaseConfig : Config where
  localVariableStyle := "camelCase"
  constantStyle := "UPPER_CASE"
  isOff _ := false

example : restrictedEdits asciiTables (encode useSource) camelCaseConfig useRoot =
    [⟨18, 21, encode "Foo".toList⟩] := by
  decide +kernel

theorem fix_file_restricted_case_only_use :
    usePlatform.memory.HoldsTwice (encode useSource) ∧ ∃ (edits : List TextEdit) (output : Text),
      fixFileRestricted usePlatform .pas (encode useSource) camelCaseConfig =
        some (.ok (encode output, edits.length)) ∧
      lowercase asciiTables output = lowercase asciiTables useSource := by
  have hmemory : usePlatform.memory.HoldsTwice (encode useSource) :=
    ⟨by decide +kernel, fun _ _ => rfl⟩
  refine ⟨hmemory, ?_⟩
  obtain ⟨edits, output, hfixed, -, hlower, -⟩ := fix_file_restricted_case_only usePlatform
    asciiTables_ascii useSource useTree camelCaseConfig .pas rfl hmemory
  exact ⟨edits, output, hfixed, hlower⟩

end Lint4d.Fix
