import Lint4d.Fix.Splice
import Lint4d.Lib.Utf8

/-!
# Replacements

Edits in source order that replace bytes by as many others.  They pass every
check, and each byte of the result stands where it stood in the source.
-/

namespace Lint4d.Fix

open Lint4d.Cache Lint4d.Lib.Utf8 List

variable {src : Bytes} {edits : List TextEdit} {edit : TextEdit} {cur : Nat}

/-- Edits in source order that keep the length of what they replace. -/
structure Replaces (source : Bytes) (edits : List TextEdit) : Prop where
  ordered : Ordered source.length edits
  nonempty : ∀ edit ∈ edits, edit.startByte < edit.endByte
  keepsLength : ∀ edit ∈ edits, edit.newText.length = edit.endByte - edit.startByte

lemma Replaces.tail (h : Replaces src (edit :: edits)) : Replaces src edits where
  ordered := h.ordered.2.2.2
  nonempty e he := h.nonempty e (mem_cons_of_mem _ he)
  keepsLength e he := h.keepsLength e (mem_cons_of_mem _ he)

/-- The byte that replacements put at a position. -/
def replacedAt (source : Bytes) (edits : List TextEdit) (i : Nat) : Option UInt8 :=
  match edits.find? fun edit => edit.startByte ≤ i ∧ i < edit.endByte with
  | some edit => edit.newText[i - edit.startByte]?
  | none => source[i]?

section

variable (h : Replaces src edits)

include h

lemma getElem?_joined (k : Nat) (hstart : ∀ edit ∈ edits, cur ≤ edit.startByte) :
    (joined src edits cur)[k]? = replacedAt src edits (cur + k) := by
  induction edits generalizing cur k with
  | nil => simp [joined, replacedAt]
  | cons edit rest ih =>
    obtain ⟨hrange, hend, hlater, -⟩ := h.ordered
    have hfirst := hstart edit mem_cons_self
    have hlen := h.keepsLength edit mem_cons_self
    have hkept : ((src.take edit.startByte).drop cur).length = edit.startByte - cur := by
      simp only [length_drop, length_take]
      omega
    rw [joined, append_assoc]
    rcases Nat.lt_or_ge k (edit.startByte - cur) with hlt | hge
    · -- before the edit
      have huncovered : (edit :: rest).find?
          (fun e => e.startByte ≤ cur + k ∧ cur + k < e.endByte) = none := by
        rw [find?_eq_none]
        intro e he
        have : edit.startByte ≤ e.startByte := by
          rcases mem_cons.1 he with rfl | he
          · exact le_rfl
          · exact (by omega : edit.startByte ≤ edit.endByte).trans (hlater e he)
        simp
        omega
      rw [getElem?_append_left (by omega), replacedAt, huncovered, getElem?_drop,
        getElem?_take_of_lt (by omega)]
    · rw [getElem?_append_right (by omega), hkept]
      rcases Nat.lt_or_ge (cur + k) edit.endByte with hlt | hge'
      · -- inside it
        rw [getElem?_append_left (by omega), replacedAt, find?_cons_of_pos (by simp; omega)]
        congr 1
        omega
      · -- after it
        rw [getElem?_append_right (by omega), ih h.tail _ hlater, replacedAt, replacedAt,
          find?_cons_of_neg (by simp; omega)]
        have : edit.endByte + (k - (edit.startByte - cur) - edit.newText.length) = cur + k := by
          omega
        rw [this]

lemma Replaces.pairwise : edits.Pairwise fun a b => a.endByte ≤ b.startByte := by
  induction edits with
  | nil => exact .nil
  | cons _ _ ih => exact .cons h.ordered.2.2.1 (ih h.tail)

lemma Replaces.range (hedit : edit ∈ edits) :
    edit.startByte ≤ edit.endByte ∧ edit.endByte ≤ src.length := by
  induction edits with
  | nil => cases hedit
  | cons _ _ ih =>
    rcases mem_cons.1 hedit with rfl | hrest
    · exact ⟨h.ordered.1, h.ordered.2.1⟩
    · exact ih h.tail hrest

/-- Sorting turns the list around. -/
lemma Replaces.sortDescending_eq : sortDescending edits = edits.reverse := by
  have hstart : edits.Pairwise fun a b => a.startByte < b.startByte := by
    apply h.pairwise.imp_of_mem
    intro a b ha _ hab
    exact (h.nonempty a ha).trans_le hab
  have hdist : (edits.map (·.startByte)).Nodup := pairwise_map.2 (hstart.imp fun hab => by omega)
  rw [← sortDescending_eq_of_perm (reverse_perm edits) hdist]
  apply List.Pairwise.insertionSort_eq
  exact pairwise_reverse.2 (hstart.imp fun hab => by omega)

lemma Replaces.findOverlap_eq : findOverlap (sortDescending edits) = none := by
  by_contra hsome
  obtain ⟨⟨_, lower⟩, hsome⟩ := Option.ne_none_iff_exists'.1 hsome
  obtain ⟨_, _, heq, hlt⟩ := findOverlap_eq_some hsome
  rw [h.sortDescending_eq] at heq
  have hpw := pairwise_reverse.2 h.pairwise
  rw [heq, pairwise_append, pairwise_cons] at hpw
  have := hpw.2.1.1 lower (by simp)
  omega

lemma Replaces.spliced_eq : spliced src edits = joined src edits 0 := by
  rw [joined_eq_flatMap h.ordered (by simp) (Nat.zero_le _), spliced,
    ← pieceInOrder_sorted, h.sortDescending_eq, reverse_reverse, range_eq_range']
  rfl

end

lemma Replaces.replacedAt_of_not_covered {i : Nat} (hi : ¬ Covered edits i) :
    replacedAt src edits i = src[i]? := by
  have hnone : edits.find? (fun edit => edit.startByte ≤ i ∧ i < edit.endByte) = none := by
    rw [find?_eq_none]
    intro edit hedit hrange
    exact hi ⟨edit, hedit, by simpa using hrange⟩
  rw [replacedAt, hnone]

lemma drop_eq_append {α : Type} {start stop : Nat} (l : List α) (h : start ≤ stop)
    (hstop : stop ≤ l.length) : l.drop start = (l.take stop).drop start ++ l.drop stop := by
  conv_lhs => rw [← take_append_drop stop l]
  rw [drop_append_of_le_length (by rw [length_take]; omega)]

lemma agree_joined (h : Replaces src edits) (hagree : ∀ edit ∈ edits,
      BytesAgree ((src.take edit.endByte).drop edit.startByte) edit.newText)
    (hstart : ∀ edit ∈ edits, cur ≤ edit.startByte) :
    BytesAgree (src.drop cur) (joined src edits cur) := by
  induction edits generalizing cur with
  | nil => exact .refl _
  | cons edit _ ih =>
    obtain ⟨hrange, hend, hlater, -⟩ := h.ordered
    have hfirst := hstart edit mem_cons_self
    -- what is kept before the edit, what it replaces, and what follows
    have hsplit : src.drop cur = (src.take edit.startByte).drop cur ++
        (src.take edit.endByte).drop edit.startByte ++ src.drop edit.endByte := by
      rw [append_assoc, ← drop_eq_append src hrange hend, ← drop_eq_append src hfirst (by omega)]
    rw [hsplit, joined]
    exact ((BytesAgree.refl _).append (hagree edit mem_cons_self)).append
      (ih h.tail (forall_mem_cons.1 hagree).2 hlater)

/-- Replacements by bytes that agree up to case keep the source up to case. -/
lemma Replaces.agree (h : Replaces src edits) (hagree : ∀ edit ∈ edits,
      BytesAgree ((src.take edit.endByte).drop edit.startByte) edit.newText) :
    BytesAgree src (spliced src edits) := by
  rw [h.spliced_eq]
  exact agree_joined h hagree fun _ _ => Nat.zero_le _

/-- All new texts together are no longer than the source. -/
lemma Replaces.added_le (h : Replaces src edits) : added edits ≤ src.length := by
  have hrem := h.ordered.removed_le (fun _ _ => Nat.zero_le _) (Nat.zero_le _)
  have hsame : added edits = removed edits := by
    unfold added removed
    congr 1
    exact map_congr_left h.keepsLength
  omega

end Lint4d.Fix
