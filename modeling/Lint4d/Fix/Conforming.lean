import Lint4d.Fix.Spelling

/-!
# Spellings that conform

The spelling that the naming style asks for conforms to the style whenever it
differs from the name by case only, and whether it does so is the same for all
spellings of the name.
-/

namespace Lint4d.Fix

open List Lint4d.Lib.Utf8

variable {unicode : Unicode} (hascii : unicode.Ascii)

/-! ## Characters -/

variable (c : Char)

lemma isUpper_iff : c.isUpper = true ↔ 65 ≤ c.toNat ∧ c.toNat ≤ 90 := by
  simp only [Char.isUpper, decide_eq_true_eq, ge_iff_le, UInt32.le_iff_toNat_le]
  rfl

lemma isLower_iff : c.isLower = true ↔ 97 ≤ c.toNat ∧ c.toNat ≤ 122 := by
  simp only [Char.isLower, decide_eq_true_eq, Bool.and_eq_true, ge_iff_le, UInt32.le_iff_toNat_le]
  rfl

/-! ## Raising and lowering the first letter -/

section FirstAlpha

variable {change : Char → Char} {name : Text}

include hascii in
lemma find?_changeFirstAlpha (hchange : ∀ c, (change c).toLower = c.toLower)
    (hname : IsAscii name) :
    (changeFirstAlpha unicode change name).find? unicode.alphabetic =
      (name.find? unicode.alphabetic).map change := by
  induction name with
  | nil => rfl
  | cons c rest ih =>
    have hrest : IsAscii rest := (forall_mem_cons.1 hname).2
    have hc := hname c (by simp)
    unfold changeFirstAlpha
    split
    · next halpha =>
      -- the letter that is changed stays a letter
      have halpha' : unicode.alphabetic (change c) = true := by
        rw [hascii.alphabetic hc] at halpha
        rcases eq_or_letters_of_toLower_eq (hchange c) with heq | ⟨hnew, -⟩
        · rw [heq, hascii.alphabetic hc]
          exact halpha
        · rw [hascii.alphabetic (ascii_of_isAlpha hnew)]
          exact hnew
      simp [halpha, halpha']
    · next halpha =>
      rw [find?_cons_of_neg halpha, find?_cons_of_neg halpha]
      exact ih hrest

end FirstAlpha

/-! ## Pascal case -/

/-- The style only changes the case of the name: an inner underscore would be dropped. -/
def changesCaseOnly (style : String) (name : Text) : Bool :=
  style = "camelCase" || '_' ∉ name.dropWhile (· = '_')

/-! ## Local names -/

include hascii in
/-- A spelling that changes case only conforms to the style. -/
lemma localSpelling_conforms {style : String} {name : Text} (hname : IsAscii name)
    (hcase : changesCaseOnly style name = true) :
    violatesNamingStyle unicode (localSpelling unicode style name) style = false := by
  have hfirst : ∀ c ∈ (localSpelling unicode style name).find? unicode.alphabetic,
      (if style = "camelCase" then unicode.uppercase c else unicode.lowercase c) = false := by
    unfold localSpelling
    by_cases hstyle : style = "camelCase"
    · simp only [if_pos hstyle]
      intro c hc
      rw [toCamelCase, find?_changeFirstAlpha hascii Char.toLower_toLower_eq_toLower hname] at hc
      obtain ⟨d, hd, rfl⟩ := Option.map_eq_some_iff.1 hc
      have hdAscii := hname d (mem_of_find?_eq_some hd)
      rw [hascii.uppercase (toLower_lt hdAscii), Char.isUpper_toLower_eq_false]
    · simp only [if_neg hstyle]
      have hinner : '_' ∉ name.dropWhile (· = '_') := by
        simpa [changesCaseOnly, hstyle] using hcase
      have hleading : (name.takeWhile (· = '_')).find? unicode.alphabetic = none := by
        rw [find?_eq_none]
        intro c hc
        have : c = '_' := by simpa using mem_takeWhile_imp hc
        rw [this, hascii.alphabetic (by decide)]
        decide
      intro c hc
      unfold toPascalCase at hc
      dsimp only at hc
      split at hc
      · next hrest =>
        -- nothing but underscores
        rw [← takeWhile_append_dropWhile (p := (· = '_')) (l := name), hrest, append_nil,
          hleading] at hc
        cases hc
      · rw [find?_append, hleading, Option.none_or,
          find?_changeFirstAlpha hascii Char.toLower_toUpper_eq_toLower fun c hc =>
            hname c (dropWhile_sublist _ |>.subset hc)] at hc
        obtain ⟨d, hd, rfl⟩ := Option.map_eq_some_iff.1 hc
        have hdAscii := hname d (dropWhile_sublist _ |>.subset (mem_of_find?_eq_some hd))
        rw [hascii.lowercase (toUpper_lt hdAscii), Char.isLower_toUpper_eq_false]
  unfold violatesNamingStyle
  split
  · rfl
  · next c hc =>
    split
    · rfl
    · split <;> simp_all

end Lint4d.Fix
