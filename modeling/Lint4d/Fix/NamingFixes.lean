import Lint4d.Fix.Conforming

/-!
# Naming fixes and the rules that ask for them

Upper snake case and camel case always satisfy the rule.  Pascal case does not
in two cases: the check of constants looks at the very first character, which
stays an underscore, and a segment of a local name that starts with a digit
keeps its first letter in lower case.
-/

namespace Lint4d.Fix

open Lint4d.Lib.Utf8 List

variable {name : Text} {c : Char}

/-- A name of ASCII letters, digits and underscores that does not start with a digit. -/
structure IsName (name : Text) : Prop where
  ne_nil : name ≠ []
  chars : ∀ c ∈ name, c.isAlpha = true ∨ c.isDigit = true ∨ c = '_'
  first : ∀ c ∈ name.head?, c.isDigit = false

lemma IsName.isAscii (h : IsName name) : IsAscii name := by
  intro c hc
  rcases h.chars c hc with hc | hc | rfl
  · exact ascii_of_isAlpha hc
  · have := isDigit_iff.1 hc
    omega
  · decide

/-! ## Upper snake case -/

/-- The characters of a constant in upper snake case. -/
def isUpperSnake (c : Char) : Bool := c.isUpper || c.isDigit || c = '_'

lemma isUpperSnake_toUpper (h : c.isAlpha = true ∨ c.isDigit = true ∨ c = '_') :
    isUpperSnake c.toUpper = true := by
  have hcode := toUpper_toNat c
  simp only [isUpperSnake, Bool.or_eq_true, decide_eq_true_eq, isUpper_iff, isDigit_iff]
  rcases h with h | h | rfl
  · rw [isAlpha_iff] at h
    split at hcode <;> omega
  · rw [isDigit_iff] at h
    split at hcode <;> omega
  · exact .inr rfl

lemma all_toUpperSnakeCase (h : ∀ c ∈ name, c.isAlpha = true ∨ c.isDigit = true ∨ c = '_')
    (prev : Option Char) : (toUpperSnakeCaseFrom prev name).all isUpperSnake = true := by
  induction name generalizing prev with
  | nil => rfl
  | cons c _ ih =>
    have hc := isUpperSnake_toUpper (h c (by simp))
    have hrest := ih (forall_mem_cons.1 h).2 (some c)
    unfold toUpperSnakeCaseFrom
    rw [all_append, hrest, Bool.and_true]
    split
    · simp only [all_cons, hc, all_nil, Bool.and_true]
      decide
    · simp [hc]

/-! ## Pascal case, character by character -/

/-- Capitalised segments in one pass; `start` says that a segment begins here. -/
def pascalFrom (start : Bool) : Text → Text
  | [] => []
  | c :: rest =>
    if c = '_' then pascalFrom true rest
    else (if start then c.toUpper else c.toLower) :: pascalFrom false rest

lemma pascalFrom_splitOn (text : Text) : ∃ first parts, text.splitOn '_' = first :: parts ∧
    (first :: parts |>.filter (· ≠ [])).flatMap capitalize = pascalFrom true text ∧
    first.map Char.toLower ++ (parts.filter (· ≠ [])).flatMap capitalize =
      pascalFrom false text := by
  induction text with
  | nil => exact ⟨[], [], rfl, rfl, rfl⟩
  | cons c _ ih =>
    obtain ⟨first, parts, hsplit, hstart, hinside⟩ := ih
    rw [splitOn] at hsplit
    rw [splitOn, splitOnP_cons_eq_if_modifyHead, hsplit]
    unfold pascalFrom
    by_cases hc : c = '_'
    · rw [if_pos (by simp [hc])]
      refine ⟨[], first :: parts, rfl, ?_, ?_⟩
      · rw [if_pos hc, ← hstart]
        rfl
      · rw [if_pos hc, ← hstart]
        rfl
    · rw [if_neg (by simp [hc])]
      refine ⟨c :: first, parts, rfl, ?_, ?_⟩
      · rw [if_neg hc, filter_cons_of_pos (by simp), flatMap_cons, capitalize, cons_append, hinside]
        rfl
      · rw [if_neg hc, map_cons, cons_append, hinside]
        rfl

/-- Joining capitalised segments is one pass over the name. -/
lemma flatMap_capitalize (text : Text) :
    ((text.splitOn '_').filter (· ≠ [])).flatMap capitalize = pascalFrom true text := by
  obtain ⟨_, _, hsplit, hstart, -⟩ := pascalFrom_splitOn text
  rw [hsplit]
  exact hstart

/-- Whether the first letter of a text begins a segment: nothing or an underscore stands before
it. -/
def firstLetterStarts (unicode : Unicode) (start : Bool) : Text → Bool
  | [] => start
  | c :: rest =>
    if unicode.alphabetic c then start else firstLetterStarts unicode (decide (c = '_')) rest

section Pascal

variable {unicode : Unicode} (hascii : unicode.Ascii) {text : Text} {style : String}

include hascii

lemma alphabetic_underscore : unicode.alphabetic '_' = false := hascii.alphabetic (by decide)

lemma alphabetic_recased {start : Bool} (hc : c.toNat < 128) :
    unicode.alphabetic (if start then c.toUpper else c.toLower) = unicode.alphabetic c := by
  split
  · rw [hascii.alphabetic hc, hascii.alphabetic (toUpper_lt hc), Bool.eq_iff_iff, isAlpha_iff,
      isAlpha_iff, toUpper_toNat]
    split <;> omega
  · rw [hascii.alphabetic hc, hascii.alphabetic (toLower_lt hc), Bool.eq_iff_iff, isAlpha_iff,
      isAlpha_iff, toLower_toNat]
    split <;> omega

/-- The first letter is raised where it begins a segment, and lowered elsewhere. -/
lemma find?_pascalFrom (htext : IsAscii text) (start : Bool) :
    (pascalFrom start text).find? unicode.alphabetic = (text.find? unicode.alphabetic).map fun c =>
        if firstLetterStarts unicode start text then c.toUpper else c.toLower := by
  induction text generalizing start with
  | nil => rfl
  | cons c rest ih =>
    have hc := htext c (by simp)
    have hrest : IsAscii rest := (forall_mem_cons.1 htext).2
    unfold pascalFrom firstLetterStarts
    by_cases hunder : c = '_'
    · have halpha : ¬ unicode.alphabetic c = true := by
        rw [hunder, alphabetic_underscore hascii]
        decide
      rw [if_pos hunder, if_neg halpha, find?_cons_of_neg halpha, ih hrest, decide_eq_true hunder]
    · rw [if_neg hunder]
      by_cases halpha : unicode.alphabetic c = true
      · rw [if_pos halpha, find?_cons_of_pos halpha, find?_cons_of_pos, Option.map_some]
        rw [alphabetic_recased hascii hc]
        exact halpha
      · rw [if_neg halpha, find?_cons_of_neg halpha, find?_cons_of_neg, ih hrest,
          decide_eq_false hunder]
        rw [alphabetic_recased hascii hc]
        exact halpha

lemma countP_pascalFrom (htext : IsAscii text) (start : Bool) :
    (pascalFrom start text).countP unicode.alphabetic = text.countP unicode.alphabetic := by
  induction text generalizing start with
  | nil => rfl
  | cons c rest ih =>
    have hrest : IsAscii rest := (forall_mem_cons.1 htext).2
    unfold pascalFrom
    split
    · next hunder =>
      rw [ih hrest, countP_cons_of_neg]
      rw [hunder, alphabetic_underscore hascii]
      decide
    · rw [countP_cons, countP_cons, ih hrest, alphabetic_recased hascii (htext c (by simp))]

omit hascii in
lemma violatesNamingStyle_eq (name : Text) (style : String) :
    violatesNamingStyle unicode name style = ((name.find? unicode.alphabetic).any
          (fun c => if style = "camelCase" then unicode.uppercase c else unicode.lowercase c) &&
        decide (1 < name.countP unicode.alphabetic)) := by
  unfold violatesNamingStyle
  rw [← countP_eq_length_filter]
  cases name.find? unicode.alphabetic with
  | none => rfl
  | some =>
    by_cases hcount : name.countP unicode.alphabetic ≤ 1
    · simp [hcount, Nat.not_lt.2 hcount]
    · have hlt : 1 < name.countP unicode.alphabetic := Nat.lt_of_not_le hcount
      simp only [if_neg hcount, Option.any_some, decide_eq_true hlt, Bool.and_true]

lemma leading_underscores (name : Text) :
    (name.takeWhile (· = '_')).find? unicode.alphabetic = none ∧
      (name.takeWhile (· = '_')).countP unicode.alphabetic = 0 := by
  have hnone : ∀ c ∈ name.takeWhile (· = '_'), ¬ unicode.alphabetic c = true := by
    intro c hc
    have hunder : c = '_' := by simpa using mem_takeWhile_imp hc
    rw [hunder, alphabetic_underscore hascii]
    decide
  exact ⟨find?_eq_none.2 hnone, countP_eq_zero.2 hnone⟩

/-- Leading underscores do not matter to the style. -/
lemma violates_leading (name rest : Text) (style : String) :
    violatesNamingStyle unicode (name.takeWhile (· = '_') ++ rest) style =
      violatesNamingStyle unicode rest style := by
  obtain ⟨hfind, hcount⟩ := leading_underscores hascii name
  rw [violatesNamingStyle_eq, violatesNamingStyle_eq, find?_append, countP_append, hfind,
    hcount, Option.none_or, Nat.zero_add]

lemma violates_dropWhile (name : Text) (style : String) :
    violatesNamingStyle unicode (name.dropWhile (· = '_')) style =
      violatesNamingStyle unicode name style := by
  conv_rhs => rw [← takeWhile_append_dropWhile (p := (· = '_')) (l := name)]
  rw [violates_leading hascii]

/-- Joined segments break the style when the first letter does not begin its segment. -/
lemma violates_pascalFrom (htext : IsAscii text) (hstyle : style ≠ "camelCase")
    (hviol : violatesNamingStyle unicode text style = true) :
    violatesNamingStyle unicode (pascalFrom true text) style =
      !firstLetterStarts unicode true text := by
  rw [violatesNamingStyle_eq, Bool.and_eq_true, Option.any_eq_true] at hviol
  obtain ⟨⟨first, hfirst, -⟩, hcount⟩ := hviol
  have hascii' := htext first (mem_of_find?_eq_some hfirst)
  have halpha := find?_some hfirst
  rw [hascii.alphabetic hascii', isAlpha_iff] at halpha
  rw [violatesNamingStyle_eq, find?_pascalFrom hascii htext, countP_pascalFrom hascii htext, hfirst,
    hcount, Bool.and_true]
  simp only [Option.map_some, Option.any_some, if_neg hstyle]
  cases firstLetterStarts unicode true text with
  | true =>
    simp only [if_true, Bool.not_true]
    rw [hascii.lowercase (toUpper_lt hascii'), Char.isLower_toUpper_eq_false]
  | false =>
    simp only [Bool.false_eq_true, if_false, Bool.not_false]
    rw [hascii.lowercase (toLower_lt hascii'), isLower_iff, toLower_toNat]
    split <;> omega

/-- In Pascal case a local name with inner underscores ends up right when its first letter begins
a segment. -/
lemma violates_localSpelling_inner (hname : IsAscii name) (hstyle : style ≠ "camelCase")
    (hinner : '_' ∈ name.dropWhile (· = '_'))
    (hviol : violatesNamingStyle unicode name style = true) :
    violatesNamingStyle unicode (localSpelling unicode style name) style =
      !firstLetterStarts unicode true (name.dropWhile (· = '_')) := by
  have hrest : IsAscii (name.dropWhile (· = '_')) := fun c hc =>
    hname c (dropWhile_sublist _ |>.subset hc)
  rw [localSpelling, if_neg hstyle, toPascalCase, if_neg (ne_nil_of_mem hinner),
    if_pos hinner, violates_leading hascii, flatMap_capitalize]
  rw [← violates_dropWhile hascii] at hviol
  exact violates_pascalFrom hascii hrest hstyle hviol

end Pascal

/-! ## Constants in Pascal case -/

lemma head?_toPascalCase_letter {unicode : Unicode} (hascii : unicode.Ascii)
    (hc : c.isAlpha = true) (rest : Text) :
    (toPascalCase unicode (c :: rest)).head? = some c.toUpper := by
  have hne : c ≠ '_' := by
    rintro rfl
    exact absurd hc (by decide)
  have hleading : (c :: rest).takeWhile (· = '_') = [] := by simp [hne]
  have hrest : (c :: rest).dropWhile (· = '_') = c :: rest := by simp [hne]
  unfold toPascalCase
  simp only [hleading, hrest]
  rw [if_neg (cons_ne_nil c rest), nil_append]
  split
  · rw [flatMap_capitalize, pascalFrom, if_neg hne]
    rfl
  · rw [changeFirstAlpha, if_pos]
    · rfl
    · rw [hascii.alphabetic (ascii_of_isAlpha hc)]
      exact hc

lemma head?_toPascalCase_underscore (unicode : Unicode) (rest : Text) :
    (toPascalCase unicode ('_' :: rest)).head? = some '_' := by
  unfold toPascalCase
  simp only [takeWhile_cons, decide_true, if_true]
  split <;> rfl

namespace Checks

variable (checks : Checks)

/-- The rule for constants is satisfied after the fix: Pascal case needs a letter in front. -/
def ConstantFixable (name : Text) : Prop :=
  checks.config.constantStyle = "PascalCase" → name.head? ≠ some '_'

/-- The rule for local names is satisfied after the fix: in Pascal case with inner underscores no
digit may stand directly before the first letter. -/
def LocalFixable (name : Text) : Prop :=
  checks.config.localVariableStyle ≠ "camelCase" →
    violatesNamingStyle checks.unicode name checks.config.localVariableStyle = true →
    '_' ∈ name.dropWhile (· = '_') →
      firstLetterStarts checks.unicode true (name.dropWhile (· = '_')) = true

variable {checks} (hascii : checks.unicode.Ascii) {name : Text} (hname : IsName name)

include hascii hname

/-- The spelling of a constant passes the check unless it has to start with an underscore. -/
lemma constantConforms_constantSpelling_iff :
    (checks.constantConforms name = false →
      checks.constantConforms (checks.constantSpelling name) = true) ↔
    checks.ConstantFixable name := by
  unfold constantConforms constantSpelling ConstantFixable
  by_cases hstyle : checks.config.constantStyle = "PascalCase"
  · simp only [if_pos hstyle]
    obtain ⟨c, _, rfl⟩ := exists_cons_of_ne_nil hname.ne_nil
    simp only [head?_cons, Option.any_some, hstyle, forall_const, ne_eq, Option.some.injEq]
    rcases hname.chars c (by simp) with hc | hc | rfl
    · rw [head?_toPascalCase_letter hascii hc, Option.any_some,
        hascii.uppercase (toUpper_lt (ascii_of_isAlpha hc))]
      have hupper : c.toUpper.isUpper = true := by
        rw [isAlpha_iff] at hc
        rw [isUpper_iff, toUpper_toNat]
        split <;> omega
      have hne : c ≠ '_' := by
        rintro rfl
        exact absurd hc (by decide)
      simp [hupper, hne]
    · have := hname.first c rfl
      rw [hc] at this
      cases this
    · have hlow : checks.unicode.uppercase '_' = false := hascii.uppercase (by decide)
      rw [head?_toPascalCase_underscore, Option.any_some, hlow]
      simp
  · simp only [hstyle, false_implies, iff_true]
    intro _
    exact all_toUpperSnakeCase hname.chars none

/-- The spelling of a local name passes the check unless a digit hides its first letter. -/
lemma violates_localSpelling_iff :
    (violatesNamingStyle checks.unicode name checks.config.localVariableStyle = true →
      violatesNamingStyle checks.unicode
        (localSpelling checks.unicode checks.config.localVariableStyle name)
        checks.config.localVariableStyle = false) ↔
    checks.LocalFixable name := by
  unfold LocalFixable
  by_cases hcase : changesCaseOnly checks.config.localVariableStyle name = true
  · -- nothing but case changes
    have hconforms := localSpelling_conforms hascii hname.isAscii hcase
    refine ⟨fun _ hstyle _ hinner => ?_, fun _ _ => hconforms⟩
    simp [changesCaseOnly, hstyle, hinner] at hcase
  · simp only [changesCaseOnly, Bool.or_eq_true, decide_eq_true_eq, not_or, not_not] at hcase
    obtain ⟨hstyle, hinner⟩ := hcase
    simp only [ne_eq, hstyle, not_false_eq_true, hinner, forall_const]
    apply forall_congr'
    intro hviol
    rw [violates_localSpelling_inner hascii hname.isAscii hstyle hinner hviol, Bool.not_eq_false']

end Checks

/-- A naming fix satisfies the rule that asked for it exactly when no underscore leads a constant
in Pascal case and no digit hides the first letter of a local name. -/
theorem naming_fix_satisfies_rule (checks : Checks) (hascii : checks.unicode.Ascii) (name : Text)
    (hname : IsName name) :
    ((checks.constantConforms name = false →
        checks.constantConforms (checks.constantSpelling name) = true) ∧
      (violatesNamingStyle checks.unicode name checks.config.localVariableStyle = true →
        violatesNamingStyle checks.unicode
          (localSpelling checks.unicode checks.config.localVariableStyle name)
          checks.config.localVariableStyle = false)) ↔
    checks.ConstantFixable name ∧ checks.LocalFixable name :=
  and_congr (Checks.constantConforms_constantSpelling_iff hascii hname)
    (Checks.violates_localSpelling_iff hascii hname)

/-- Pascal case for constants and local names. -/
def pascalCaseChecks : Checks where
  unicode := asciiTables
  source := []
  suppressions := []
  config :=
    { localVariableStyle := "PascalCase"
      constantStyle := "PascalCase"
      isOff := fun _ => false }

lemma isName_http_port : IsName "http_port".toList := by
  refine ⟨by decide, by simp, ?_⟩
  intro c hc
  cases hc
  decide

theorem naming_fix_satisfies_rule_http_port :
    pascalCaseChecks.constantConforms
      (pascalCaseChecks.constantSpelling "http_port".toList) = true ∧
    violatesNamingStyle asciiTables
      (localSpelling asciiTables "PascalCase" "http_port".toList) "PascalCase" = false := by
  have hfixes := (naming_fix_satisfies_rule pascalCaseChecks asciiTables_ascii "http_port".toList
    isName_http_port).2 ⟨fun _ => by decide, fun _ _ _ => by decide⟩
  exact ⟨hfixes.1 (by decide), hfixes.2 (by decide)⟩

/-- `_max` becomes `_Max`, which the check of constants still rejects, and `_1a_b` becomes `_1aB`,
whose first letter is still in lower case. -/
theorem naming_fix_leaves_violation :
    (pascalCaseChecks.constantConforms "_max".toList = false ∧
      pascalCaseChecks.constantSpelling "_max".toList = "_Max".toList ∧
      pascalCaseChecks.constantConforms "_Max".toList = false) ∧
    (violatesNamingStyle asciiTables "_1a_b".toList "PascalCase" = true ∧
      localSpelling asciiTables "PascalCase" "_1a_b".toList = "_1aB".toList ∧
      violatesNamingStyle asciiTables "_1aB".toList "PascalCase" = true) := by
  decide +kernel

end Lint4d.Fix
