import Mathlib

/-!
# Three-valued facts

Kleene's strong three-valued logic, with a merge that keeps what two facts
agree on.  A fact that is not unknown stands for one truth value; `Allows` says
which truth values it leaves open.
-/

namespace Lint4d.Lib

/-- What is known of a fact. -/
inductive Truth where
  | true
  | false
  | unknown
deriving DecidableEq, Repr

namespace Truth

/-- False as soon as one side is. -/
def and : Truth → Truth → Truth
  | .false, _ => .false
  | _, .false => .false
  | .true, value => value
  | value, .true => value
  | .unknown, .unknown => .unknown

/-- True as soon as one side is. -/
def or : Truth → Truth → Truth
  | .true, _ => .true
  | _, .true => .true
  | .false, value => value
  | value, .false => value
  | .unknown, .unknown => .unknown

/-- An unknown fact stays unknown. -/
def not : Truth → Truth
  | .true => .false
  | .false => .true
  | .unknown => .unknown

/-- What two facts agree on. -/
def merge : Truth → Truth → Truth
  | .true, .true => .true
  | .false, .false => .false
  | _, _ => .unknown

/-- The fact that is one truth value. -/
def ofBool (b : Bool) : Truth := if b then .true else .false

/-- The fact does not contradict the truth value. -/
def Allows (t : Truth) (b : Bool) : Prop := t = .unknown ∨ t = ofBool b

variable {s t : Truth} {a b : Bool}

@[simp] lemma unknown_allows (b : Bool) : unknown.Allows b := .inl rfl

@[simp] lemma ofBool_allows (b : Bool) : (ofBool b).Allows b := .inr rfl

/-- A known fact allows its own truth value only. -/
@[simp] lemma true_allows_iff : true.Allows b ↔ b = .true := by cases b <;> simp [Allows, ofBool]

@[simp] lemma false_allows_iff : false.Allows b ↔ b = .false := by
  cases b <;> simp [Allows, ofBool]

@[simp] lemma and_true (t : Truth) : t.and .true = t := by cases t <;> rfl

@[simp] lemma and_false (t : Truth) : t.and .false = .false := by cases t <;> rfl

@[simp] lemma true_and (t : Truth) : Truth.true.and t = t := by cases t <;> rfl

lemma and_assoc (r s t : Truth) : (r.and s).and t = r.and (s.and t) := by
  cases r <;> cases s <;> cases t <;> rfl

@[simp] lemma false_and (t : Truth) : Truth.false.and t = .false := by cases t <;> rfl

lemma merge_comm (s t : Truth) : s.merge t = t.merge s := by cases s <;> cases t <;> rfl

/-- A connective of facts allows that connective of what they allow. -/
lemma Allows.and (hs : s.Allows a) (ht : t.Allows b) : (s.and t).Allows (a && b) := by
  cases s <;> cases t <;> cases a <;> cases b <;> simp_all [Truth.and]

lemma Allows.or (hs : s.Allows a) (ht : t.Allows b) : (s.or t).Allows (a || b) := by
  cases s <;> cases t <;> cases a <;> cases b <;> simp_all [Truth.or]

lemma Allows.not (hs : s.Allows a) : s.not.Allows (!a) := by
  cases s <;> cases a <;> simp_all [Truth.not]

/-- A merge allows whatever one of its facts does. -/
lemma Allows.merge_left (hs : s.Allows a) (t : Truth) : (s.merge t).Allows a := by
  cases s <;> cases t <;> simp_all [merge]

lemma Allows.ne_false (h : t.Allows Bool.true) : t ≠ .false := by
  rintro rfl
  simp at h

/-- The conjunction with a fact that excludes `false` is no stronger than the other one. -/
lemma and_allows_false_left (hs : s.Allows Bool.false) (t : Truth) :
    (s.and t).Allows Bool.false := by
  cases s <;> cases t <;> simp_all [Truth.and]

lemma and_allows_false_right (ht : t.Allows Bool.false) (s : Truth) :
    (s.and t).Allows Bool.false := by
  cases s <;> cases t <;> simp_all [Truth.and]

/-- The fact is one of the two truth values. -/
def IsKnown (t : Truth) : Prop := t ≠ .unknown

/-- A connective of known facts is known. -/
lemma IsKnown.and (hs : s.IsKnown) (ht : t.IsKnown) : (s.and t).IsKnown := by
  cases s <;> cases t <;> simp_all [Truth.and, IsKnown]

lemma IsKnown.or (hs : s.IsKnown) (ht : t.IsKnown) : (s.or t).IsKnown := by
  cases s <;> cases t <;> simp_all [Truth.or, IsKnown]

lemma IsKnown.not (hs : s.IsKnown) : s.not.IsKnown := by
  cases s <;> simp_all [Truth.not, IsKnown]

lemma IsKnown.eq_false_of_ne_true (h : t.IsKnown) (hne : t ≠ .true) : t = .false := by
  cases t <;> simp_all [IsKnown]

end Truth

end Lint4d.Lib
