import Lint4d.Conditional.Analysis
import Lint4d.Conditional.Preprocessor

/-!
# Environments and sets of symbols

An environment describes a set of defined symbols when none of its facts is wrong
about it.  Every operation on environments keeps this, with two exceptions that
are named here: the meeting of two environments (`MeetsSoundly`) and an include
(`KeepsVersion`).
-/

namespace Lint4d.Conditional

open Lint4d.Lib

variable {body : Text} {condition : Truth}

/-- No fact of the environment is wrong about the defined symbols. -/
def Environment.Describes (environment : Environment) (defines : Defines) : Prop :=
  ∀ symbol, IsSymbol symbol → (environmentValue environment symbol).Allows (defines symbol)

/-- A `VER` symbol with an explicit fact in `other` alone, equal to the fact about absent symbols of
`environment`: the latter is also the fact of the symbol in `environment`. -/
def Environment.AbsentFits (environment other : Environment) : Prop :=
  ∀ symbol fact, versionSymbolFact symbol environment.compilerVersion = some fact →
    environment.values symbol = none → other.values symbol = some environment.absentDefine →
    environment.absentDefine = .unknown ∨ environment.absentDefine = fact

/-- Two environments can meet without a wrong fact about a `VER` symbol. -/
def MeetsSoundly (left right : Environment) : Prop :=
  left.AbsentFits right ∧ right.AbsentFits left

/-- The `VER` symbols are defined as the compiler version says. -/
def KeepsVersion (version : Option CompilerVersion) (defines : Defines) : Prop :=
  ∀ symbol fact, versionSymbolFact symbol version = some fact → fact.Allows (defines symbol)

variable {env left right : Environment} {defines : Defines} {symbol : Text}

lemma Environment.Describes.insert (h : env.Describes defines) (key : Text) (b : Bool) :
    (env.insert key (Truth.ofBool b)).Describes
      (fun t => if t = key then b else defines t) := by
  intro symbol hs
  rw [environmentValue_insert hs]
  by_cases heq : symbol = key
  · simp [heq]
  · simpa [heq] using h symbol hs

lemma Environment.describes_clear (h : KeepsVersion env.compilerVersion defines) :
    env.clear.Describes defines := by
  intro symbol hs
  rw [environmentValue_clear hs]
  cases hfact : versionSymbolFact symbol env.compilerVersion with
  | none => simp
  | some fact => exact h symbol fact hfact

/-- An environment's own contribution to a merge is right where its fact is. -/
lemma Environment.AbsentFits.contribution_allows (hfit : env.AbsentFits right) {b : Bool}
    {value : Truth} (hnone : env.values symbol = none) (hright : right.values symbol = some value)
    (h : (env.implicitFact symbol).Allows b) :
    (env.absentDefine.merge value).Allows b := by
  unfold Environment.implicitFact at h
  cases hfact : versionSymbolFact symbol env.compilerVersion with
  | none =>
    rw [hfact] at h
    exact Truth.Allows.merge_left h value
  | some fact =>
    rw [hfact] at h
    by_cases heq : env.absentDefine = value
    · -- both sides agree, so the merge keeps the value, which must be the version's
      subst heq
      rcases hfit symbol fact hfact hnone hright with hunk | hfits
      · rw [hunk]
        simp [Truth.merge]
      · rw [hfits]
        exact Truth.Allows.merge_left h fact
    · have : env.absentDefine.merge value = .unknown := by
        cases hl : env.absentDefine <;> cases hv : value <;> simp_all [Truth.merge]
      simp [this]

lemma meet_values_comm (left right : Environment) (symbol : Text) :
    (meet left right).values symbol = (meet right left).values symbol := by
  cases hl : left.values symbol <;> cases hr : right.values symbol <;>
    simp [meet, hl, hr, Truth.merge_comm]

/-- A side that is right about the symbols makes the meeting right, by the symbol's explicit facts:
on both sides, on one, or on none. -/
lemma Environment.Describes.meet_left (h : left.Describes defines)
    (hfit : left.AbsentFits right) (hversion : left.compilerVersion = right.compilerVersion) :
    (meet left right).Describes defines := by
  intro symbol hs
  have hallow := h symbol hs
  rw [environmentValue_symbol hs] at hallow ⊢
  cases hl : left.values symbol with
  | some l =>
    have : (meet left right).values symbol =
        some (l.merge ((right.values symbol).getD right.absentDefine)) := by
      cases hr : right.values symbol <;> simp [meet, hl, hr]
    rw [this]
    rw [hl] at hallow
    exact Truth.Allows.merge_left hallow _
  | none =>
    rw [hl] at hallow
    cases hr : right.values symbol with
    | some r =>
      have : (meet left right).values symbol = some (left.absentDefine.merge r) := by
        simp [meet, hl, hr]
      rw [this]
      exact hfit.contribution_allows hl hr hallow
    | none =>
      have hnone : (meet left right).values symbol = none := by simp [meet, hl, hr]
      have hver : (meet left right).compilerVersion = left.compilerVersion := by
        simp [meet, hversion]
      rw [hnone]
      simp only [Option.getD_none, Environment.implicitFact, hver] at hallow ⊢
      cases hfact : versionSymbolFact symbol left.compilerVersion with
      | some => simpa [hfact] using hallow
      | none =>
        simp only [hfact, Option.getD_none] at hallow ⊢
        exact Truth.Allows.merge_left hallow _

lemma environmentValue_meet_comm (hver : left.compilerVersion = right.compilerVersion) :
    environmentValue (meet left right) symbol = environmentValue (meet right left) symbol := by
  unfold environmentValue Environment.implicitFact
  simp only [meet_values_comm left right]
  simp [meet, hver, Truth.merge_comm left.absentDefine]

lemma Environment.Describes.meet_right (h : right.Describes defines)
    (hfit : right.AbsentFits left) (hver : left.compilerVersion = right.compilerVersion) :
    (meet left right).Describes defines := by
  intro symbol hs
  rw [environmentValue_meet_comm hver]
  exact h.meet_left hfit hver.symm symbol hs

lemma environmentValue_canonical {name : Text} (h : canonicalSymbol name = some symbol) :
    environmentValue env name = environmentValue env symbol := by
  unfold environmentValue
  rw [h, isSymbol_of_canonicalSymbol h]

lemma evaluateValue_allows (h : env.Describes defines) {cond : Cond} (named : cond.Named)
    {truth : Truth} (value : evaluateValue env cond = some truth) :
    truth.Allows (cond.holds defines) := by
  induction cond generalizing truth with
  | defined =>
    obtain ⟨symbol, hsym⟩ := Option.isSome_iff_exists.mp named
    cases value
    have := h symbol (isSymbol_of_canonicalSymbol hsym)
    simpa [Cond.holds, hsym, environmentValue_canonical hsym] using this
  | dotted => cases value
  | not cond ih =>
    obtain ⟨inner, hinner, rfl⟩ := Option.map_eq_some_iff.mp value
    exact (ih named hinner).not
  | and left right ihl ihr =>
    obtain ⟨l, hl, r, hr, rfl⟩ := by simpa [evaluateValue, Option.bind_eq_some_iff] using value
    exact (ihl named.1 hl).and (ihr named.2 hr)
  | or left right ihl ihr =>
    obtain ⟨l, hl, r, hr, rfl⟩ := by simpa [evaluateValue, Option.bind_eq_some_iff] using value
    exact (ihl named.1 hl).or (ihr named.2 hr)

lemma evaluateCond_allows (h : env.Describes defines) {cond : Cond}
    (named : cond.Named) : (evaluateCond env cond).Allows (cond.holds defines) := by
  unfold evaluateCond
  cases value : evaluateValue env cond with
  | none => exact .inl rfl
  | some truth => exact evaluateValue_allows h named value

variable {foreign : Text → Environment → Truth × Bool}

/-- A condition in the fragment that is understood is evaluated as it is written. -/
lemma evaluateCondition_fragment (hfrag : (conditionOf body).isSome)
    (h : evaluateCondition foreign body env = (condition, true)) :
    ∃ cond : Cond, conditionOf body = some cond ∧ cond.Named ∧
      condition = evaluateCond env cond := by
  obtain ⟨cond, hcond⟩ := Option.isSome_iff_exists.mp hfrag
  refine ⟨cond, hcond, ?_⟩
  unfold conditionOf at hcond
  unfold evaluateCondition at h
  dsimp only at hcond h
  split at hcond
  next hif =>
    -- IFDEF
    obtain ⟨symbol, hsym, rfl⟩ := Option.map_eq_some_iff.mp hcond
    rw [if_pos hif, hsym] at h
    obtain rfl : environmentValue env symbol = condition := by simpa using h
    exact ⟨(isSymbol_directiveSymbol hsym).isSome, rfl⟩
  next hif =>
    rw [if_neg hif] at h
    split at hcond
    next hif =>
      -- IFNDEF
      obtain ⟨symbol, hsym, rfl⟩ := Option.map_eq_some_iff.mp hcond
      rw [if_pos hif, hsym] at h
      obtain rfl : (environmentValue env symbol).not = condition := by simpa using h
      exact ⟨(isSymbol_directiveSymbol hsym).isSome, rfl⟩
    next hif =>
      rw [if_neg hif] at h
      split at hcond
      next hif =>
        rw [if_pos hif] at h
        refine ⟨parseExpression_named hcond, ?_⟩
        unfold evaluateExpression at h
        simp only [hcond] at h
        -- both limits report the condition as not understood
        split at h
        · simp at h
        · split at h
          · simp at h
          · simpa using h.symm
      · simp at hcond

/-- The evaluated condition leaves open what the preprocessor finds. -/
lemma evaluateCondition_allows (hfrag : (conditionOf body).isSome)
    (h : evaluateCondition foreign body env = (condition, true))
    (describes : env.Describes defines) :
    condition.Allows (conditionHolds body defines) := by
  obtain ⟨_, hcond, named, rfl⟩ := evaluateCondition_fragment hfrag h
  simpa [conditionHolds, hcond] using evaluateCond_allows describes named

end Lint4d.Conditional
