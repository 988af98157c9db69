import Lint4d.Conditional.Syntax

/-!
# Classes and their ancestors

Types are looked up by name in the units a source uses, and the ancestors of a
class are found by looking up one parent after the other.
-/

namespace Lint4d.Dcu

open Lint4d.Conditional (Text lower)

inductive TypeRef where
  | resolved (name : Text)
  | unresolved (index : UInt32)
  deriving DecidableEq

structure TypeInfo where
  name : Text
  parent : Option TypeRef
  deriving DecidableEq

structure DcuUnit where
  types : List TypeInfo

/-- Units are found by their case-folded names.  What loading one came to is kept, also when it
failed. -/
structure ProjectContext (Path : Type) where
  toLowercase : Text → Text
  index : Text → Option Path
  load : Path → Option DcuUnit
  units : Text → Option (Option DcuUnit)

variable {Path : Type} (project : ProjectContext Path) (uses : List Text)

namespace ProjectContext

/-- The unit after `ensure_loaded`. -/
def unit (unitName : Text) : Option DcuUnit :=
  let key := project.toLowercase unitName
  match project.units key with
  | some result => result
  | none => (project.index key).bind project.load

/-- The last unit with the type wins. -/
def resolveType (name : Text) : Option TypeInfo :=
  uses.reverse.findSome? fun unitName =>
    (project.unit unitName).bind fun unit => unit.types.find? fun ty => lower ty.name = lower name

/-- The loop of `descends_from`. -/
def descendsFromWithin (ancestorName : Text) : Nat → TypeInfo → Option Bool
  | 0, _ => some false
  | turns + 1, current =>
    match current.parent with
    | some (.resolved parentName) =>
      if lower parentName = lower ancestorName then some true
      else (project.resolveType uses parentName).bind (descendsFromWithin ancestorName turns)
    | _ => some false

def descendsFrom (className ancestorName : Text) : Option Bool :=
  if lower className = lower ancestorName then some true
  else (project.resolveType uses className).bind (project.descendsFromWithin uses ancestorName 20)

/-! ## The chain of parents -/

/-- The type that the parent of a type resolves to. -/
def parentType (ty : TypeInfo) : Option TypeInfo :=
  match ty.parent with
  | some (.resolved parentName) => project.resolveType uses parentName
  | _ => none

/-- The type a number of parents above a type. -/
def above (ty : TypeInfo) : Nat → Option TypeInfo
  | 0 => some ty
  | n + 1 => (project.parentType uses ty).bind (above · n)

/-- A type on the chain meets a condition. -/
def Reaches (stop : TypeInfo → Prop) (ty : TypeInfo) : Prop :=
  ∃ n last, project.above uses ty n = some last ∧ stop last

/-- One of the first `turns` types on the chain meets a condition. -/
def ReachesWithin (stop : TypeInfo → Prop) (turns : Nat) (ty : TypeInfo) : Prop :=
  ∃ n < turns, ∃ last, project.above uses ty n = some last ∧ stop last

/-- The ancestor is the parent of the type. -/
def IsParent (ancestorName : Text) (ty : TypeInfo) : Prop :=
  ∃ parentName, ty.parent = some (.resolved parentName) ∧ lower parentName = lower ancestorName

/-- The parent of the type has a name that no unit resolves. -/
def LosesParent (ty : TypeInfo) : Prop :=
  ∃ parentName, ty.parent = some (.resolved parentName) ∧
    project.resolveType uses parentName = none

/-- The ancestor is the parent of a type on the chain. -/
def HasAncestor (ty : TypeInfo) (ancestorName : Text) : Prop :=
  project.Reaches uses (IsParent ancestorName) ty

/-- The chain is resolved up to a class without a parent. -/
def Ends (ty : TypeInfo) : Prop :=
  project.Reaches uses (·.parent = none) ty

/-- The walk comes to the ancestor or to the end of the chain in its turns. -/
def Followed (ancestorName : Text) (turns : Nat) (ty : TypeInfo) : Prop :=
  project.ReachesWithin uses (fun last => last.parent = none ∨ IsParent ancestorName last) turns ty

/-- The walk comes to the ancestor, to the end of the chain or to a name it cannot resolve in its
turns, and to no unresolved reference before. -/
def Settles (ancestorName : Text) (turns : Nat) (ty : TypeInfo) : Prop :=
  project.Followed uses ancestorName turns ty ∨
    project.ReachesWithin uses (project.LosesParent uses) turns ty

variable {project uses} {ancestorName : Text} {turns : Nat} {ty up : TypeInfo}
  {stop : TypeInfo → Prop}

lemma reaches_iff : project.Reaches uses stop ty ↔
    stop ty ∨ ∃ up, project.parentType uses ty = some up ∧ project.Reaches uses stop up := by
  constructor
  · rintro ⟨_ | n, last, habove, hstop⟩
    · cases habove
      exact .inl hstop
    · obtain ⟨up, hup, habove⟩ := Option.bind_eq_some_iff.1 habove
      exact .inr ⟨up, hup, n, last, habove, hstop⟩
  · rintro (hstop | ⟨up, hup, n, last, habove, hstop⟩)
    · exact ⟨0, ty, rfl, hstop⟩
    · exact ⟨n + 1, last, by rw [above, hup]; exact habove, hstop⟩

lemma ReachesWithin.here (h : stop ty) : project.ReachesWithin uses stop (turns + 1) ty :=
  ⟨0, Nat.succ_pos turns, ty, rfl, h⟩

/-- A walk that does not stop at a type goes on with its parent. -/
lemma reachesWithin_succ (hup : project.parentType uses ty = some up) (hstop : ¬ stop ty) :
    project.ReachesWithin uses stop (turns + 1) ty ↔
      project.ReachesWithin uses stop turns up := by
  constructor
  · rintro ⟨_ | n, hn, last, habove, hlast⟩
    · cases habove
      exact (hstop hlast).elim
    · rw [above, hup] at habove
      exact ⟨n, Nat.lt_of_succ_lt_succ hn, last, habove, hlast⟩
  · rintro ⟨n, hn, last, habove, hlast⟩
    exact ⟨n + 1, Nat.succ_lt_succ hn, last, by rw [above, hup]; exact habove, hlast⟩

/-- A walk that does not stop at a type without a parent type goes no further. -/
lemma not_reachesWithin (hup : project.parentType uses ty = none) (hstop : ¬ stop ty) :
    ¬ project.ReachesWithin uses stop turns ty := by
  rintro ⟨_ | n, -, last, habove, hlast⟩
  · cases habove
    exact hstop hlast
  · rw [above, hup] at habove
    cases habove

variable (project uses ancestorName) in
/-- What the walk's answer about a type says.  A denial is wrong exactly when the walk does not
settle the question. -/
def Tells (turns : Nat) (ty : TypeInfo) : Option Bool → Prop
  | some true => project.HasAncestor uses ty ancestorName ∧
      project.Followed uses ancestorName turns ty
  | some false => project.Settles uses ancestorName turns ty →
      project.Ends uses ty ∧ ¬ project.HasAncestor uses ty ancestorName ∧
        project.Followed uses ancestorName turns ty
  | none => project.Settles uses ancestorName turns ty

variable (project uses ancestorName) in
lemma tells_descendsFromWithin (turns : Nat) (ty : TypeInfo) :
    project.Tells uses ancestorName turns ty
      (project.descendsFromWithin uses ancestorName turns ty) := by
  induction turns generalizing ty with
  | zero =>
    rintro (⟨_, hn, -⟩ | ⟨_, hn, -⟩) <;> cases hn
  | succ turns ih =>
    rw [descendsFromWithin]
    cases hpar : ty.parent with
    | none =>
      intro _
      refine ⟨reaches_iff.2 (.inl hpar), fun h => ?_, .here (.inl hpar)⟩
      rw [HasAncestor, reaches_iff] at h
      simp [IsParent, parentType, hpar] at h
    | some ref =>
      cases ref with
      | unresolved idx =>
        -- nothing is above an unresolved reference, so the walk settles nothing
        have hup : project.parentType uses ty = none := by
          rw [parentType, hpar]
        rintro (h | h)
        · exact (not_reachesWithin hup (by simp [IsParent, hpar]) h).elim
        · exact (not_reachesWithin hup (by simp [LosesParent, hpar]) h).elim
      | resolved pname =>
        have hup : project.parentType uses ty = project.resolveType uses pname := by
          rw [parentType, hpar]
        dsimp only
        split_ifs with hname
        · exact ⟨reaches_iff.2 (.inl ⟨pname, hpar, hname⟩), .here (.inr ⟨pname, hpar, hname⟩)⟩
        cases hresolve : project.resolveType uses pname with
        | none => exact .inr (.here ⟨pname, hpar, hresolve⟩)
        | some up =>
          rw [hresolve] at hup
          -- the parent is not the ancestor, so all depends on what is above it
          have hmore : project.HasAncestor uses ty ancestorName ↔
              project.HasAncestor uses up ancestorName := by
            rw [HasAncestor, reaches_iff]
            simp [IsParent, HasAncestor, hpar, hname, hup]
          have hends : project.Ends uses ty ↔ project.Ends uses up := by
            rw [Ends, reaches_iff]
            simp [Ends, hpar, hup]
          have hfollowed : project.Followed uses ancestorName (turns + 1) ty ↔
              project.Followed uses ancestorName turns up :=
            reachesWithin_succ hup (by simp [IsParent, hpar, hname])
          have hsettles : project.Settles uses ancestorName (turns + 1) ty ↔
              project.Settles uses ancestorName turns up :=
            or_congr hfollowed (reachesWithin_succ hup (by simp [LosesParent, hpar, hresolve]))
          have hinner := ih up
          rw [Option.bind_some]
          unfold Tells at hinner ⊢
          rw [hmore, hends, hfollowed, hsettles]
          exact hinner

variable (project uses) in
/-- The test is honest about a class and an ancestor — the ancestor is confirmed only if it is on
the chain, denied only if the chain ends without it, and left open whenever the chain is not
followed to the one or the other — exactly when its twenty turns come to the ancestor, to a class
without a parent or to a name they cannot resolve. -/
theorem descendsFrom_honest (className ancestorName : Text) :
    let answer := project.descendsFrom uses className ancestorName
    let OnChain := lower className = lower ancestorName ∨
      ∃ ty, project.resolveType uses className = some ty ∧ project.HasAncestor uses ty ancestorName
    let Ended := ∃ ty, project.resolveType uses className = some ty ∧ project.Ends uses ty
    let FollowedToEnd := lower className = lower ancestorName ∨
      ∃ ty, project.resolveType uses className = some ty ∧
        project.Followed uses ancestorName 20 ty
    ((answer = some true → OnChain) ∧ (answer = some false → Ended ∧ ¬ OnChain) ∧
        (¬ FollowedToEnd → answer = none)) ↔
      (lower className = lower ancestorName ∨
        ∀ ty, project.resolveType uses className = some ty →
          project.Settles uses ancestorName 20 ty) := by
  intro answer OnChain Ended FollowedToEnd
  by_cases hname : lower className = lower ancestorName
  · have hanswer : answer = some true := if_pos hname
    simp [hanswer, OnChain, FollowedToEnd, hname]
  cases hresolve : project.resolveType uses className with
  | none =>
    have hanswer : answer = none := by
      simp only [answer, descendsFrom, if_neg hname, hresolve, Option.bind_none]
    simp [hanswer]
  | some ty =>
    have hanswer : answer = project.descendsFromWithin uses ancestorName 20 ty := by
      simp only [answer, descendsFrom, if_neg hname, hresolve, Option.bind_some]
    have htells := project.tells_descendsFromWithin uses ancestorName 20 ty
    rw [← hanswer] at htells
    simp only [OnChain, Ended, FollowedToEnd, hname, hresolve, false_or, Option.some.injEq,
      exists_eq_left', forall_eq']
    -- no answer, a denial, a confirmation
    rcases answer with _ | _ | _
    · have hsettles : project.Settles uses ancestorName 20 ty := htells
      simpa using hsettles
    · constructor
      · -- a denial is not open, so the chain was followed
        rintro ⟨-, -, hopen⟩
        by_contra hsettles
        have := hopen fun hfollowed => hsettles (.inl hfollowed)
        cases this
      · intro hsettles
        obtain ⟨hends, hnot, hfollowed⟩ := htells hsettles
        exact ⟨by simp, fun _ => ⟨hends, hnot⟩, fun hopen => (hopen hfollowed).elim⟩
    · exact ⟨fun _ => .inl htells.2, fun _ => ⟨fun _ => htells.1, by simp,
        fun hopen => (hopen htells.2).elim⟩⟩

/-- One unit, used under one name. -/
def singleUnit (types : List TypeInfo) : ProjectContext Unit where
  toLowercase := lower
  index _ := none
  load _ := none
  units _ := some (some ⟨types⟩)

def classNamed (name : Char) (parent : Option TypeRef) : TypeInfo := ⟨[name], parent⟩

lemma not_ends_classNamed {parent : TypeRef}
    (hpar : parent = .unresolved 1 ∨ parent = .resolved ['a']) :
    ¬ (singleUnit [classNamed 'a' (some parent)]).Ends [['u']] (classNamed 'a' (some parent)) := by
  rintro ⟨n, last, habove, hlast⟩
  -- every type above the class is the class
  have hsame : last = classNamed 'a' (some parent) := by
    induction n with
    | zero => exact (Option.some.inj habove).symm
    | succ n ih =>
      rcases hpar with rfl | rfl
      · cases habove
      · exact ih habove
  cases hsame
  cases hlast

/-- A class with an unresolved parent, and a class that is its own parent, are denied an ancestor
although their chains do not end. -/
theorem descendsFrom_denies_open_chain : let unresolved := classNamed 'a' (some (.unresolved 1))
    let cyclic := classNamed 'a' (some (.resolved ['a']))
    ((singleUnit [unresolved]).resolveType [['u']] ['a'] = some unresolved ∧
      (singleUnit [unresolved]).descendsFrom [['u']] ['a'] ['b'] = some false ∧
      ¬ (singleUnit [unresolved]).Ends [['u']] unresolved) ∧
    (singleUnit [cyclic]).resolveType [['u']] ['a'] = some cyclic ∧
      (singleUnit [cyclic]).descendsFrom [['u']] ['a'] ['b'] = some false ∧
      ¬ (singleUnit [cyclic]).Ends [['u']] cyclic :=
  ⟨⟨rfl, by decide +kernel, not_ends_classNamed (.inl rfl)⟩,
    rfl, by decide +kernel, not_ends_classNamed (.inr rfl)⟩

end ProjectContext

end Lint4d.Dcu
