import Lint4d.Fix.Restricted

/-!
# The full fixer

It renames the declarations of the file as well, and moves their entries in the
scopes to the new names before the walk.  Both the file scope and the class
scopes are moved rename by rename, in the order in which a hash map lists the
renames.  Two renames that meet, one leading to the old or the new name of the
other, make the result depend on that order unless they leave the same behind;
local renames are sorted and never do.
-/

namespace Lint4d.Fix

open Lint4d.Cache Lint4d.Lib Lint4d.Lib.Utf8 List

variable {left right : Rename}

/-! ## The code -/

abbrev FileRename := Sigma fun _ : Text => Text

/-- The lower case of the new name. -/
def newKey (unicode : Unicode) (rename : FileRename) : Text := lowercase unicode rename.2

def renameFile (unicode : Unicode) (file : NameMap) (rename : FileRename) : NameMap :=
  (file.erase rename.1).insert (newKey unicode rename) rename.2

def renameClass (unicode : Unicode) (classes : Text → Option NameMap) (rename : FileRename) :
    Text → Option NameMap :=
  match classes rename.1 with
  | none => classes
  | some fields => fun name =>
    if name = newKey unicode rename then some fields
    else if name = rename.1 then none
    else classes name

/-- Which renames are about classes is decided before the first one is applied. -/
def updateScopes (unicode : Unicode) (scopes : Scopes) (renameMap : RenameMap) : Scopes where
  file := renameMap.file.entries.foldl (renameFile unicode) scopes.file
  classes := (renameMap.file.entries.filter fun rename => (scopes.classes rename.1).isSome).foldl
    (renameClass unicode) scopes.classes

/-- The maps hold the same renames and may list them in another order. -/
structure RenameMap.SameEntries (left right : RenameMap) : Prop where
  file : left.file.entries.Perm right.file.entries
  locals : left.locals.entries.Perm right.locals.entries

/-- The order in which the hash maps of a run list their entries. -/
structure HashOrder where
  iterate : RenameMap → RenameMap
  same (map : RenameMap) : (iterate map).SameEntries map

/-- The renames that the fixer finds in a syntax tree. -/
def fullRenames (unicode : Unicode) (source : Bytes) (config : Config) (root : Tree) : RenameMap :=
  Checks.buildRenameMap ⟨unicode, source, parseSuppressions source, config⟩ root

def fullWalk (unicode : Unicode) (source : Bytes) (config : Config) (root : Tree)
    (renameMap : RenameMap) : EditWalk where
  unicode := unicode
  source := source
  renameMap := renameMap
  scopes := updateScopes unicode (collectFileScope unicode source root) renameMap
  casingEnabled := (FixConfig.fromConfig config).casing
  shadowBarriers := false

def collectFileEdits (unicode : Unicode) (source : Bytes) (config : Config) (root : Tree)
    (order : HashOrder) : List TextEdit :=
  (fullWalk unicode source config root
    (order.iterate (fullRenames unicode source config root))).walkForEdits root

/-! ## Local renames are sorted -/

instance : Std.TransCmp compareRenames :=
  inferInstanceAs <| Std.TransCmp <|
    compareLex (compareOn fun rename : Rename => rename.1.procEnd - rename.1.procStart) <|
      compareLex (compareOn fun rename => rename.1.procStart) <|
        compareLex (compareOn fun rename => rename.1.procEnd) <|
          compareLex (compareOn fun rename => rename.1.oldName) (compareOn fun rename => rename.2)

lemma eq_of_compareRenames (h : compareRenames left right = .eq) : left = right := by
  obtain ⟨⟨_, _, _⟩, _⟩ := right
  simp only [compareRenames, Ordering.then_eq_eq, Std.LawfulEqCmp.compare_eq_iff_eq] at h
  obtain ⟨-, rfl, rfl, rfl, rfl⟩ := h
  rfl

lemma compareRenames_ne_gt :
    (compareRenames left right != .gt) = (compareRenames left right).isLE := by
  cases compareRenames left right <;> rfl

lemma sorted_renames (renames : List Rename) :
    (renames.mergeSort fun left right => compareRenames left right != .gt).Pairwise
      fun left right => (compareRenames left right).isLE := by
  simp only [compareRenames_ne_gt]
  refine pairwise_mergeSort (fun _ _ _ => Std.TransCmp.isLE_trans) (fun left right => ?_) renames
  have hswap : compareRenames left right = (compareRenames right left).swap :=
    Std.OrientedCmp.eq_swap
  rw [hswap]
  cases compareRenames right left <;> rfl

lemma containingRenames_of_same {left right : RenameMap} (h : left.SameEntries right)
    (first last : Nat) : containingRenames left first last = containingRenames right first last := by
  refine Perm.eq_of_pairwise (fun a b _ _ hab hba => ?_) (sorted_renames _) (sorted_renames _)
    (((mergeSort_perm _ _).trans (h.locals.filter _)).trans (mergeSort_perm _ _).symm)
  exact eq_of_compareRenames (Std.OrientedCmp.isLE_antisymm hab hba)

/-! ## File renames that agree -/

/-- Two renames leave the same behind in either order.  To one place they bring one spelling and,
if both move a class there, the same fields; and a rename leads to the old name of the other only
if that one stays there. -/
structure Accord (unicode : Unicode) (classes : Text → Option NameMap) (left right : FileRename) :
    Prop where
  spelling : newKey unicode left = newKey unicode right → left.2 = right.2
  stays : newKey unicode left = right.1 → newKey unicode right = right.1
  fields : newKey unicode left = newKey unicode right →
    newKey unicode left ≠ left.1 → newKey unicode right ≠ right.1 →
    (classes left.1).isSome → (classes right.1).isSome → classes left.1 = classes right.1

def RenameMap.Agrees (unicode : Unicode) (classes : Text → Option NameMap) (map : RenameMap) :
    Prop :=
  ∀ left ∈ map.file.entries, ∀ right ∈ map.file.entries, Accord unicode classes left right

/-- Steps that commute in the states of an invariant can be taken in any order. -/
lemma foldl_eq_of_perm {α β : Type} {step : α → β → α} {P : α → Prop} {items items' : List β}
    (h : items.Perm items') (hkeep : ∀ b ∈ items, ∀ a, P a → P (step a b))
    (hcomm : ∀ b ∈ items, ∀ c ∈ items, ∀ a, P a → step (step a b) c = step (step a c) b) {a : α}
    (ha : P a) : items.foldl step a = items'.foldl step a := by
  induction h generalizing a with
  | nil => rfl
  | cons b _ ih =>
    exact ih (fun c hc => hkeep c (mem_cons_of_mem b hc))
      (fun c hc d hd => hcomm c (mem_cons_of_mem b hc) d (mem_cons_of_mem b hd))
      (hkeep b mem_cons_self a ha)
  | swap b c items =>
    rw [foldl_cons, foldl_cons, foldl_cons, foldl_cons, hcomm c (by simp) b (by simp) a ha]
  | trans hfirst _ ih ih' =>
    refine (ih hkeep hcomm ha).trans (ih' (fun b hb => hkeep b (hfirst.mem_iff.2 hb)) ?_ ha)
    exact fun b hb c hc => hcomm b (hfirst.mem_iff.2 hb) c (hfirst.mem_iff.2 hc)

section

variable {unicode : Unicode} {classes current : Text → Option NameMap} {left right : FileRename}

lemma renameFile_comm (h : Accord unicode classes left right) (h' : Accord unicode classes right left)
    (file : NameMap) : renameFile unicode (renameFile unicode file left) right =
      renameFile unicode (renameFile unicode file right) left := by
  obtain ⟨hspell, hstays, -⟩ := h
  obtain ⟨hspell', hstays', -⟩ := h'
  funext name
  simp only [renameFile, NameMap.insert, NameMap.erase]
  grind

/-- A class that is still to be moved has its fields. -/
def Unmoved (unicode : Unicode) (classes current : Text → Option NameMap) (rename : FileRename) :
    Prop :=
  newKey unicode rename ≠ rename.1 →
    current rename.1 = classes rename.1 ∨ current rename.1 = none

lemma renameClass_eq (current : Text → Option NameMap) (rename : FileRename) (name : Text) :
    renameClass unicode current rename name =
      if (current rename.1).isNone then current name
      else if name = newKey unicode rename then current rename.1
      else if name = rename.1 then none
      else current name := by
  unfold renameClass
  cases current rename.1 <;> simp

lemma Unmoved.renameClass (h : Unmoved unicode classes current left)
    (hagree : Accord unicode classes right left) :
    Unmoved unicode classes (renameClass unicode current right) left := by
  intro hmoves
  have hstays := hagree.stays
  have hleft := h hmoves
  rw [renameClass_eq]
  grind

lemma renameClass_comm (h : Accord unicode classes left right)
    (h' : Accord unicode classes right left) (hold : left.1 ≠ right.1)
    (hleft : Unmoved unicode classes current left) (hright : Unmoved unicode classes current right)
    (hsome : (classes left.1).isSome) (hsome' : (classes right.1).isSome) :
    renameClass unicode (renameClass unicode current left) right =
      renameClass unicode (renameClass unicode current right) left := by
  obtain ⟨-, hstays, hfields⟩ := h
  have hstays' := h'.stays
  unfold Unmoved at hleft hright
  funext name
  simp only [renameClass_eq]
  grind

end

section

variable {unicode : Unicode} {map first second : RenameMap} {scopes : Scopes}

/-- Renames that agree can be applied in any order. -/
lemma RenameMap.Agrees.updateScopes_eq (hagree : map.Agrees unicode scopes.classes)
    (hfirst : first.SameEntries map) (hsecond : second.SameEntries map) :
    updateScopes unicode scopes first = updateScopes unicode scopes second := by
  have hperm := hfirst.file.trans hsecond.file.symm
  unfold updateScopes
  congr 1
  · refine hperm.foldl_eq' (fun left hleft right hright => ?_) _
    have hleft := hfirst.file.subset hleft
    have hright := hfirst.file.subset hright
    exact renameFile_comm (hagree left hleft right hright) (hagree right hright left hleft)
  · -- the classes that are still to be moved keep their fields
    let Kept (current : Text → Option NameMap) : Prop :=
      ∀ rename ∈ map.file.entries, Unmoved unicode scopes.classes current rename
    refine foldl_eq_of_perm (P := Kept) (hperm.filter _) ?_ ?_ (fun _ _ _ => .inl rfl)
    · intro right hright current hkept left hleft
      have hright := hfirst.file.subset (mem_of_mem_filter hright)
      exact (hkept left hleft).renameClass (hagree right hright left hleft)
    · intro left hleft right hright current hkept
      obtain ⟨hleft, hsome⟩ := mem_filter.1 hleft
      obtain ⟨hright, hsome'⟩ := mem_filter.1 hright
      have hleft := hfirst.file.subset hleft
      have hright := hfirst.file.subset hright
      by_cases hold : left.1 = right.1
      · rw [map.file.nodupKeys.eq_of_fst_eq hleft hright hold]
      · exact renameClass_comm (hagree left hleft right hright) (hagree right hright left hleft)
          hold (hkept left hleft) (hkept right hright) hsome hsome'

/-! ## Renames that do not agree -/

lemma HashOrder.exists_iterate {other : RenameMap} (h : other.SameEntries map) :
    ∃ order : HashOrder, order.iterate map = other := by
  classical
  refine ⟨⟨fun listed => if listed = map then other else listed, fun listed => ?_⟩, if_pos rfl⟩
  split
  · rename_i heq
    exact heq ▸ h
  · exact ⟨.refl _, .refl _⟩

variable {left right : FileRename}

/-- Of any two renames there are two orders that end with them. -/
lemma exists_last_two (hleft : left ∈ map.file.entries) (hright : right ∈ map.file.entries)
    (hne : left ≠ right) : ∃ rest, (rest ++ [left, right]).Perm map.file.entries ∧
      (rest ++ [right, left]).Perm map.file.entries := by
  have hmem : right ∈ map.file.entries.erase left := (mem_erase_of_ne hne.symm).2 hright
  have hperm := calc (map.file.entries.erase left).erase right ++ [left, right]
    _ ~ left :: right :: (map.file.entries.erase left).erase right := perm_append_comm
    _ ~ left :: map.file.entries.erase left := (perm_cons_erase hmem).symm.cons left
    _ ~ map.file.entries := (perm_cons_erase hleft).symm
  exact ⟨_, hperm, ((Perm.swap left right []).append_left _).trans hperm⟩

/-- A name that no rename leaves or leads to is left alone. -/
lemma foldl_renameClass_apply {renames : List FileRename} {name : Text}
    (h : ∀ rename ∈ renames, name ≠ rename.1 ∧ name ≠ newKey unicode rename)
    (current : Text → Option NameMap) :
    renames.foldl (renameClass unicode) current name = current name := by
  induction renames generalizing current with
  | nil => rfl
  | cons rename renames ih =>
    obtain ⟨hold, hnew⟩ := h rename mem_cons_self
    rw [foldl_cons, ih fun rename hrename => h rename (mem_cons_of_mem _ hrename), renameClass_eq]
    simp [hold, hnew]

/-- Where two moved classes meet, the one that is moved last is found. -/
lemma renameClass_meet {current : Text → Option NameMap} (hold : left.1 ≠ right.1)
    (hmeet : newKey unicode left = newKey unicode right) (hmoves : newKey unicode right ≠ right.1)
    (hsome : (current right.1).isSome) :
    renameClass unicode (renameClass unicode current left) right (newKey unicode left) =
      current right.1 := by
  have hkept : renameClass unicode current left right.1 = current right.1 := by
    rw [renameClass_eq]
    simp [hmeet, hmoves.symm, hold.symm]
  rw [renameClass_eq, hkept]
  simp [hmeet, Option.isSome_iff_ne_none.1 hsome]

section

variable (hsame : ∀ first second : HashOrder, updateScopes unicode scopes (first.iterate map) =
  updateScopes unicode scopes (second.iterate map))

include hsame

lemma updateScopes_eq_of_perm {renames renames' : List FileRename}
    (h : renames.Perm map.file.entries) (h' : renames'.Perm map.file.entries) :
    renames.foldl (renameFile unicode) scopes.file =
        renames'.foldl (renameFile unicode) scopes.file ∧
      (renames.filter fun rename => (scopes.classes rename.1).isSome).foldl (renameClass unicode)
          scopes.classes =
        (renames'.filter fun rename => (scopes.classes rename.1).isSome).foldl
          (renameClass unicode) scopes.classes := by
  have hlisted : RenameMap.SameEntries
      ⟨⟨renames, (perm_nodupKeys h).2 map.file.nodupKeys⟩, map.locals⟩ map := ⟨h, .refl _⟩
  have hlisted' : RenameMap.SameEntries
      ⟨⟨renames', (perm_nodupKeys h').2 map.file.nodupKeys⟩, map.locals⟩ map := ⟨h', .refl _⟩
  obtain ⟨first, hfirst⟩ := HashOrder.exists_iterate hlisted
  obtain ⟨second, hsecond⟩ := HashOrder.exists_iterate hlisted'
  have heq := hsame first second
  rw [hfirst, hsecond] at heq
  exact ⟨congrArg Scopes.file heq, congrArg Scopes.classes heq⟩

/-- What the file scope holds at the new name of a rename when another one is applied after it. -/
lemma file_agree_of_same (hleft : left ∈ map.file.entries) (hright : right ∈ map.file.entries)
    (hne : left ≠ right) :
    (newKey unicode left = newKey unicode right → left.2 = right.2) ∧
      (newKey unicode left = right.1 → newKey unicode right = right.1) := by
  obtain ⟨rest, hperm, hswap⟩ := exists_last_two hleft hright hne
  have hfile := congrFun (updateScopes_eq_of_perm hsame hperm hswap).1 (newKey unicode left)
  simp only [foldl_append, foldl_cons, foldl_nil, renameFile, NameMap.insert, NameMap.erase] at hfile
  grind

lemma classes_agree_of_same (hleft : left ∈ map.file.entries) (hright : right ∈ map.file.entries)
    (hne : left ≠ right) (hmeet : newKey unicode left = newKey unicode right)
    (hmoves : newKey unicode left ≠ left.1) (hmoves' : newKey unicode right ≠ right.1)
    (hsome : (scopes.classes left.1).isSome) (hsome' : (scopes.classes right.1).isSome) :
    scopes.classes left.1 = scopes.classes right.1 := by
  obtain ⟨rest, hperm, hswap⟩ := exists_last_two hleft hright hne
  have hclass := congrFun (updateScopes_eq_of_perm hsame hperm hswap).2 (newKey unicode left)
  -- the renames before do not touch a class that is still to be moved
  have huntouched : ∀ mover ∈ map.file.entries, newKey unicode mover ≠ mover.1 → mover ∉ rest →
      (rest.filter fun rename => (scopes.classes rename.1).isSome).foldl (renameClass unicode)
        scopes.classes mover.1 = scopes.classes mover.1 := by
    intro mover hmover hmoves hnot
    apply foldl_renameClass_apply
    intro rename hrename
    have hrest := mem_of_mem_filter hrename
    have hrename := hperm.subset (mem_append_left _ hrest)
    have hother : rename ≠ mover := fun heq => hnot (heq ▸ hrest)
    refine ⟨fun hold => hother (map.file.nodupKeys.eq_of_fst_eq hrename hmover hold.symm), ?_⟩
    exact fun hnew => hmoves ((file_agree_of_same hsame hrename hmover hother).2 hnew.symm)
  have hnodup : (rest ++ [left, right]).Nodup := hperm.nodup_iff.2 map.file.nodupKeys.nodup
  have hleft' := huntouched left hleft hmoves (by grind)
  have hright' := huntouched right hright hmoves' (by grind)
  have hold : left.1 ≠ right.1 := fun heq => hne (map.file.nodupKeys.eq_of_fst_eq hleft hright heq)
  simp only [filter_append, filter_cons, hsome, hsome', if_true, filter_nil, foldl_append,
    foldl_cons, foldl_nil] at hclass
  rw [renameClass_meet hold hmeet hmoves' (hright' ▸ hsome'), hmeet,
    renameClass_meet hold.symm hmeet.symm hmoves (hleft' ▸ hsome), hleft', hright'] at hclass
  exact hclass.symm

lemma agrees_of_same : map.Agrees unicode scopes.classes := by
  intro left hleft right hright
  by_cases hne : left = right
  · subst hne
    exact ⟨fun _ => rfl, id, fun _ _ _ _ _ => rfl⟩
  · obtain ⟨hspell, hstays⟩ := file_agree_of_same hsame hleft hright hne
    exact ⟨hspell, hstays, classes_agree_of_same hsame hleft hright hne⟩

end

end

/-! ## Edits -/

/-- The walk asks the rename map for a name and for the sorted renames of a range only. -/
lemma walkForEdits_of_same (walk : EditWalk) {map : RenameMap}
    (h : map.SameEntries walk.renameMap) (root : Tree) :
    EditWalk.walkForEdits { walk with renameMap := map } root = walk.walkForEdits root := by
  have henter : EditWalk.enter { walk with renameMap := map } = walk.enter := by
    funext state parent index
    unfold EditWalk.enter EditWalk.enterProc
    rw [containingRenames_of_same h]
    rfl
  have hemit : EditWalk.emit { walk with renameMap := map } = walk.emit := by
    funext state node
    unfold EditWalk.emit EditWalk.resolveAndEmit EditWalk.resolve
    rw [AList.perm_lookup h.file]
    rfl
  unfold EditWalk.walkForEdits
  rw [henter, hemit]

/-- The scopes and the edits are the same for all orders of the hash maps exactly when the file
renames agree on what they leave behind. -/
theorem full_fixer_order_independent (unicode : Unicode) (source : Bytes) (config : Config)
    (root : Tree) :
    let renames := fullRenames unicode source config root
    let scopes := collectFileScope unicode source root
    ((∀ first second : HashOrder, updateScopes unicode scopes (first.iterate renames) =
        updateScopes unicode scopes (second.iterate renames)) ∧
      ∀ first second : HashOrder, collectFileEdits unicode source config root first =
        collectFileEdits unicode source config root second) ↔
      renames.Agrees unicode scopes.classes := by
  intro renames scopes
  refine ⟨fun h => agrees_of_same h.1, fun hagree => ?_⟩
  have hscopes : ∀ first second : HashOrder, updateScopes unicode scopes (first.iterate renames) =
      updateScopes unicode scopes (second.iterate renames) := fun first second =>
    hagree.updateScopes_eq (first.same renames) (second.same renames)
  refine ⟨hscopes, fun first second => ?_⟩
  have hfirst := first.same renames
  have hsecond := second.same renames
  unfold collectFileEdits fullWalk
  rw [hscopes first second]
  exact walkForEdits_of_same
    (fullWalk unicode source config root _) ⟨hfirst.file.trans hsecond.file.symm,
      hfirst.locals.trans hsecond.locals.symm⟩ root

/-! ## Two classes

A class `foo` with a field, and a method of the class `tfoo`. -/

def classesSource : Bytes :=
  encode "type foo=class Val:T;end;tfoo=class end;procedure tfoo.b;begin val end;".toList

def classesRoot : Tree :=
  .mk .other 0 71 0 [⟨none, .mk .declType 5 25 0 [⟨some .name, .mk .identifier 5 8 0 []⟩,
      ⟨some .type, .mk .declClass 9 24 0 [⟨none, .mk .declSection 15 21 0 [
          ⟨none, .mk .declField 15 21 0 [⟨some .name, .mk .identifier 15 18 0 []⟩]⟩]⟩]⟩]⟩,
    ⟨none, .mk .declType 25 40 0 [⟨some .name, .mk .identifier 25 29 0 []⟩,
      ⟨some .type, .mk .declClass 30 39 0 []⟩]⟩,
    ⟨none, .mk .defProc 40 71 0 [⟨some .header, .mk .declProc 40 57 0 [
        ⟨some .name, .mk .genericDot 50 56 0 [⟨some .lhs, .mk .identifier 50 54 0 []⟩,
          ⟨none, .mk .identifier 55 56 0 []⟩]⟩]⟩,
      ⟨some .body, .mk .other 57 71 0 [⟨none, .mk .identifier 63 66 0 []⟩]⟩]⟩]

def prefixConfig : Config where
  localVariableStyle := "camelCase"
  constantStyle := "UPPER_CASE"
  isOff _ := false

/-- The order of the association lists. -/
def listedOrder : HashOrder where
  iterate map := map
  same _ := ⟨.refl _, .refl _⟩

def reversedOrder : HashOrder where
  iterate map :=
    ⟨⟨map.file.entries.reverse, (perm_nodupKeys (reverse_perm _)).2 map.file.nodupKeys⟩,
      ⟨map.locals.entries.reverse, (perm_nodupKeys (reverse_perm _)).2 map.locals.nodupKeys⟩⟩
  same _ := ⟨reverse_perm _, reverse_perm _⟩

def classesScopes (order : HashOrder) : Scopes :=
  updateScopes asciiTables (collectFileScope asciiTables classesSource classesRoot)
    (order.iterate (fullRenames asciiTables classesSource prefixConfig classesRoot))

def classesEdits : HashOrder → List TextEdit :=
  collectFileEdits asciiTables classesSource prefixConfig classesRoot

/-- The class `foo` becomes `Tfoo` and `tfoo` becomes `Ttfoo`.  If `foo` is moved last, the method of
`tfoo` finds the field of the other class. -/
theorem full_fixer_follows_hash_order :
    classesScopes listedOrder ≠ classesScopes reversedOrder ∧
    (⟨63, 66, encode "Val".toList⟩ : TextEdit) ∈ classesEdits listedOrder ∧
    (⟨63, 66, encode "Val".toList⟩ : TextEdit) ∉ classesEdits reversedOrder := by
  refine ⟨fun h => ?_, by decide +kernel, by decide +kernel⟩
  have hclass := congrArg (fun scopes => (scopes.classes "tfoo".toList).isSome) h
  revert hclass
  decide +kernel

end Lint4d.Fix
