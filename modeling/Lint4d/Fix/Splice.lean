import Lint4d.Cache.Encoding
import Lint4d.Lib.Checked

/-!
# Applying text edits

Fixes of a source file are collected as edits of byte ranges.  They are applied
together: sorted from the last to the first, checked against their neighbours
and the length of the source, and spliced into a buffer that is reserved in
advance.
-/

namespace Lint4d.Fix

open Lint4d.Cache Lint4d.Lib
open List hiding isEmpty_iff

variable {n i : Nat}

/-- Replace the bytes from `startByte` up to `endByte` by the UTF-8 bytes of a new text. -/
structure TextEdit where
  startByte : Nat
  endByte : Nat
  newText : Bytes
deriving DecidableEq

/-! ## The code -/

/-- The largest `usize`. -/
def usizeMax : Nat := 2 ^ 64 - 1

/-- Why a list of edits is refused. -/
inductive EditError where
  | overlapping (upper lower : TextEdit)
  | startExceedsEnd (edit : TextEdit)
  | exceedsSource (edit : TextEdit) (sourceLength : Nat)
  | lengthOverflow
  | couldNotReserve (error : String)
deriving DecidableEq

def rangeText (edit : TextEdit) : String := toString edit.startByte ++ ".." ++ toString edit.endByte

def EditError.message : EditError → String
  | overlapping upper lower =>
    "overlapping edits detected at byte offsets " ++ rangeText upper ++ " and " ++
      rangeText lower ++ " — skipping file"
  | startExceedsEnd edit => "invalid edit range " ++ rangeText edit ++ " — start exceeds end"
  | exceedsSource edit sourceLength =>
    "edit range " ++ rangeText edit ++ " exceeds source length " ++ toString sourceLength
  | lengthOverflow => "edited source length overflow"
  | couldNotReserve error => "could not reserve edited source: " ++ error

/-- The allocator's answer to a request for so many bytes. -/
structure Memory where
  tryReserve : Nat → Except String Unit

/-- The edits from the last to the first; edits with one start keep their order. -/
def sortDescending (edits : List TextEdit) : List TextEdit :=
  edits.insertionSort fun a b => b.startByte ≤ a.startByte

/-- The first two neighbours of which the lower one reaches into the upper one. -/
def findOverlap : List TextEdit → Option (TextEdit × TextEdit)
  | upper :: lower :: rest =>
    if lower.endByte > upper.startByte then some (upper, lower) else findOverlap (lower :: rest)
  | _ => none

def checkRange (sourceLength : Nat) (edit : TextEdit) : Except EditError Unit :=
  if edit.startByte > edit.endByte then .error (.startExceedsEnd edit)
  else if edit.endByte > sourceLength then .error (.exceedsSource edit sourceLength)
  else .ok ()

/-- The length of the result; `none` when a subtraction underflows that is not checked. -/
def outputLength (length : Nat) : List TextEdit → Option (Except EditError Nat)
  | [] => some (.ok length)
  | edit :: rest =>
    if edit.endByte < edit.startByte then none
    else
      -- `checked_sub` and `checked_add`
      if length < edit.endByte - edit.startByte then some (.error .lengthOverflow)
      else if usizeMax < length - (edit.endByte - edit.startByte) + edit.newText.length then
        some (.error .lengthOverflow)
      else outputLength (length - (edit.endByte - edit.startByte) + edit.newText.length) rest

/-- The bytes from `first` up to `last`; `none` when the slice is out of bounds. -/
def slice (source : Bytes) (first last : Nat) : Option Bytes :=
  if first ≤ last ∧ last ≤ source.length then some ((source.take last).drop first) else none

/-- Copy what lies between the edits, which are given in source order. -/
def rebuild (source : Bytes) : List TextEdit → Nat → Bytes → Option Bytes
  | [], cursor, result => (slice source cursor source.length).map (result ++ ·)
  | edit :: rest, cursor, result =>
    match slice source cursor edit.startByte with
    | none => none
    | some kept => rebuild source rest edit.endByte (result ++ kept ++ edit.newText)

/-- Apply a list of edits; `none` when the call panics. -/
def applyEdits (memory : Memory) (source : Bytes) (edits : List TextEdit) :
    Option (Except EditError (Bytes × Nat)) :=
  if edits.isEmpty then some (.ok (source, 0))
  else
    let sorted := sortDescending edits
    match findOverlap sorted with
    | some (upper, lower) => some (.error (.overlapping upper lower))
    | none =>
      match sorted.forM (checkRange source.length) with
      | .error error => some (.error error)
      | .ok () =>
        match outputLength source.length sorted with
        | none => none
        | some (.error error) => some (.error error)
        | some (.ok outputLen) =>
          match memory.tryReserve outputLen with
          | .error error => some (.error (.couldNotReserve error))
          | .ok () =>
            match rebuild source sorted.reverse 0 [] with
            | none => none
            | some result =>
              -- a debug assertion
              if result.length = outputLen then some (.ok (result, sorted.length)) else none

/-! ## What splicing means -/

/-- Some edit replaces the byte at `i`. -/
def Covered (edits : List TextEdit) (i : Nat) : Prop :=
  ∃ edit ∈ edits, edit.startByte ≤ i ∧ i < edit.endByte

instance (edits : List TextEdit) (i : Nat) : Decidable (Covered edits i) :=
  inferInstanceAs (Decidable (∃ edit ∈ edits, _))

/-- What stands in the result for position `i` of the source: the texts of the edits that start
there, of several the one listed last first, and the byte itself unless it is replaced. -/
def piece (source : Bytes) (edits : List TextEdit) (i : Nat) : Bytes :=
  (edits.reverse.filter (·.startByte = i)).flatMap (·.newText) ++
    if Covered edits i then [] else source[i]?.toList

/-- The source with each edited range replaced by its text. -/
def spliced (source : Bytes) (edits : List TextEdit) : Bytes :=
  (range (source.length + 1)).flatMap (piece source edits)

/-- Two edits next to each other in start order of which the lower one reaches into the upper. -/
def NeighboursOverlap (edits : List TextEdit) : Prop :=
  ∃ before upper lower after, sortDescending edits = before ++ upper :: lower :: after ∧
    upper.startByte < lower.endByte

/-- The source and all new texts fit into memory together, and so does every buffer that is not
longer than they are. -/
structure Memory.Holds (memory : Memory) (source : Bytes) (edits : List TextEdit) : Prop where
  total : source.length + (edits.map (·.newText.length)).sum ≤ usizeMax
  reserves : ∀ n ≤ source.length + (edits.map (·.newText.length)).sum, memory.tryReserve n = .ok ()

/-! ## Sorting -/

variable {memory : Memory} {source : Bytes} {edits edits' rest : List TextEdit} {edit : TextEdit}

lemma sortDescending_perm (edits : List TextEdit) : (sortDescending edits).Perm edits :=
  perm_insertionSort _ edits

lemma sortDescending_pairwise (edits : List TextEdit) :
    (sortDescending edits).Pairwise fun a b => b.startByte ≤ a.startByte := by
  exact pairwise_insertionSort _ edits

/-- Inserting an edit puts it before all edits with its start. -/
lemma filter_orderedInsert (edit : TextEdit) (edits : List TextEdit) (i : Nat) :
    (edits.orderedInsert (fun a b => b.startByte ≤ a.startByte) edit).filter (·.startByte = i) =
      (edit :: edits).filter (·.startByte = i) := by
  induction edits with
  | nil => rfl
  | cons first _ ih =>
    rw [orderedInsert]
    split
    · rfl
    · next hlt =>
      rw [filter_cons, ih]
      by_cases hedit : edit.startByte = i <;> by_cases hfirst : first.startByte = i <;>
        simp [hedit, hfirst]
      -- both have the start `i`, so `edit` would have been put before `first`
      omega

/-- Sorting keeps the order of the edits with one start. -/
lemma filter_sortDescending (edits : List TextEdit) (i : Nat) :
    (sortDescending edits).filter (·.startByte = i) = edits.filter (·.startByte = i) := by
  induction edits with
  | nil => rfl
  | cons _ _ ih =>
    rw [sortDescending, insertionSort_cons, filter_orderedInsert, filter_cons, filter_cons]
    rw [sortDescending] at ih
    rw [ih]

/-- With distinct starts the sorted list does not depend on the order of the edits. -/
lemma sortDescending_eq_of_perm (hperm : edits'.Perm edits)
    (hdist : (edits.map (·.startByte)).Nodup) : sortDescending edits' = sortDescending edits := by
  have hinj := inj_on_of_nodup_map hdist
  have hmem : ∀ edit ∈ sortDescending edits', edit ∈ edits :=
    fun edit h => hperm.mem_iff.1 ((sortDescending_perm edits').mem_iff.1 h)
  apply List.Perm.eq_of_pairwise _ (sortDescending_pairwise edits') (sortDescending_pairwise edits)
  · exact (sortDescending_perm edits').trans (hperm.trans (sortDescending_perm edits).symm)
  · intro a b ha hb hab hba
    exact hinj (hmem a ha) ((sortDescending_perm edits).mem_iff.1 hb) (Nat.le_antisymm hba hab)

/-! ## Checked edits -/

/-- Edits in source order: each range lies in the source and ends before the next one starts. -/
def Ordered (sourceLength : Nat) : List TextEdit → Prop
  | [] => True
  | edit :: rest => edit.startByte ≤ edit.endByte ∧ edit.endByte ≤ sourceLength ∧
      (∀ next ∈ rest, edit.endByte ≤ next.startByte) ∧ Ordered sourceLength rest

lemma findOverlap_eq_some {upper lower : TextEdit} (h : findOverlap edits = some (upper, lower)) :
    ∃ before after, edits = before ++ upper :: lower :: after ∧
      upper.startByte < lower.endByte := by
  fun_induction findOverlap edits with
  | case1 a b rest hlt =>
    cases h
    exact ⟨[], rest, rfl, hlt⟩
  | case2 a b rest _ ih =>
    obtain ⟨before, after, heq, hlt⟩ := ih h
    exact ⟨a :: before, after, by rw [heq]; rfl, hlt⟩
  | case3 => cases h

lemma findOverlap_eq_none (h : findOverlap edits = none) :
    edits.IsChain fun upper lower => lower.endByte ≤ upper.startByte := by
  fun_induction findOverlap edits with
  | case1 => cases h
  | case2 a b rest hle ih => exact .cons_cons (Nat.le_of_not_lt hle) (ih h)
  | case3 edits hshape =>
    cases edits with
    | nil => exact .nil
    | cons a rest =>
      cases rest with
      | nil => exact .singleton a
      | cons b rest => exact absurd rfl (hshape a b rest)

lemma findOverlap_isSome_iff : findOverlap (sortDescending edits) ≠ none ↔
    NeighboursOverlap edits := by
  constructor
  · intro h
    obtain ⟨⟨upper, lower⟩, hsome⟩ := Option.ne_none_iff_exists'.1 h
    obtain ⟨before, after, heq, hlt⟩ := findOverlap_eq_some hsome
    exact ⟨before, upper, lower, after, heq, hlt⟩
  · rintro ⟨before, upper, lower, after, heq, hlt⟩ hnone
    have hchain := isChain_iff_forall_rel_of_append_cons_cons.1 (findOverlap_eq_none hnone)
    exact absurd (hchain heq) (Nat.not_le.2 hlt)

lemma checkRange_ok_iff (sourceLength : Nat) (edit : TextEdit) :
    checkRange sourceLength edit = .ok () ↔
      edit.startByte ≤ edit.endByte ∧ edit.endByte ≤ sourceLength := by
  unfold checkRange
  split
  · next h => simp [Nat.not_le.2 h]
  split
  · next h => simp [Nat.not_le.2 h]
  · next hstart hend => simp [Nat.le_of_not_lt hstart, Nat.le_of_not_lt hend]

lemma checkRanges_ok_iff (sourceLength : Nat) (edits : List TextEdit) :
    edits.forM (checkRange sourceLength) = .ok () ↔
      ∀ edit ∈ edits, edit.startByte ≤ edit.endByte ∧ edit.endByte ≤ sourceLength := by
  rw [forM_ok_iff]
  simp only [checkRange_ok_iff]

lemma ordered_of_pairwise (h : edits.Pairwise fun a b => a.endByte ≤ b.startByte)
    (hranges : ∀ edit ∈ edits, edit.startByte ≤ edit.endByte ∧ edit.endByte ≤ n) :
    Ordered n edits := by
  induction edits with
  | nil => trivial
  | cons edit _ ih =>
    obtain ⟨hlater, hrest⟩ := pairwise_cons.1 h
    have hrange := hranges edit mem_cons_self
    exact ⟨hrange.1, hrange.2, hlater, ih hrest (forall_mem_cons.1 hranges).2⟩

/-- Edits that pass the checks are in order when they are read from the first. -/
lemma ordered_reverse (hchain : edits.IsChain fun upper lower => lower.endByte ≤ upper.startByte)
    (hranges : ∀ edit ∈ edits, edit.startByte ≤ edit.endByte ∧ edit.endByte ≤ n) :
    Ordered n edits.reverse := by
  -- all ranges below an edit end before it starts, not only that of its neighbour
  have hpw : edits.Pairwise fun upper lower => lower.endByte ≤ upper.startByte := by
    induction edits with
    | nil => exact .nil
    | cons upper rest ih =>
      have hrest := ih hchain.tail (forall_mem_cons.1 hranges).2
      refine .cons (fun lower hlower => ?_) hrest
      cases rest with
      | nil => cases hlower
      | cons next rest =>
        have hnext := (isChain_cons_cons.1 hchain).1
        rcases mem_cons.1 hlower with rfl | hlower
        · exact hnext
        · have hbelow := (pairwise_cons.1 hrest).1 lower hlower
          have hrange := hranges next (by simp)
          omega
  exact ordered_of_pairwise (pairwise_reverse.2 hpw) fun edit h => hranges edit (mem_reverse.1 h)

/-! ## Lengths -/

/-- How many bytes the edits take out. -/
def removed (edits : List TextEdit) : Nat := (edits.map fun edit => edit.endByte - edit.startByte).sum

/-- How many bytes the edits put in. -/
def added (edits : List TextEdit) : Nat := (edits.map (·.newText.length)).sum

@[simp] lemma removed_cons : removed (edit :: edits) =
    (edit.endByte - edit.startByte) + removed edits := by simp [removed]

@[simp] lemma added_cons : added (edit :: edits) = edit.newText.length + added edits := by
  simp [added]

/-- Ranges in order take out no more than there is. -/
lemma Ordered.removed_le {cur : Nat} (hord : Ordered n edits)
    (hstart : ∀ edit ∈ edits, cur ≤ edit.startByte) (hcur : cur ≤ n) :
    cur + removed edits ≤ n := by
  induction edits generalizing cur with
  | nil => exact hcur
  | cons edit _ ih =>
    obtain ⟨hrange, hend, hlater, hrest⟩ := hord
    have hfirst := hstart edit mem_cons_self
    have htail := ih hrest hlater hend
    rw [removed_cons]
    omega

/-- With room for all texts the length is computed without overflow. -/
lemma outputLength_eq {length : Nat} (hranges : ∀ edit ∈ edits, edit.startByte ≤ edit.endByte)
    (hrem : removed edits ≤ length) (hadded : length + added edits ≤ usizeMax) :
    outputLength length edits = some (.ok (length - removed edits + added edits)) := by
  induction edits generalizing length with
  | nil => rfl
  | cons edit _ ih =>
    rw [removed_cons] at hrem
    rw [added_cons] at hadded
    have hrange := hranges edit mem_cons_self
    rw [outputLength, if_neg (by omega), if_neg (by omega), if_neg (by omega)]
    rw [ih (forall_mem_cons.1 hranges).2 (by omega) (by omega)]
    simp only [removed_cons, added_cons, Option.some.injEq, Except.ok.injEq]
    omega

/-! ## Rebuilding -/

/-- What rebuilding appends after the cursor. -/
def joined (source : Bytes) : List TextEdit → Nat → Bytes
  | [], cursor => source.drop cursor
  | edit :: rest, cursor =>
    (source.take edit.startByte).drop cursor ++ edit.newText ++ joined source rest edit.endByte

section

variable {cur : Nat} (hord : Ordered source.length edits)
  (hstart : ∀ edit ∈ edits, cur ≤ edit.startByte) (hcur : cur ≤ source.length)

include hord hstart hcur

lemma rebuild_eq (res : Bytes) :
    rebuild source edits cur res = some (res ++ joined source edits cur) := by
  induction edits generalizing cur res with
  | nil => simp [rebuild, slice, joined, hcur]
  | cons edit _ ih =>
    obtain ⟨hrange, hend, hlater, hrest⟩ := hord
    have hfirst := hstart edit mem_cons_self
    have hslice : slice source cur edit.startByte =
        some ((source.take edit.startByte).drop cur) := if_pos ⟨hfirst, by omega⟩
    rw [rebuild, hslice]
    dsimp only
    rw [ih hrest hlater hend]
    simp [joined]

lemma length_joined :
    (joined source edits cur).length = source.length - cur - removed edits + added edits := by
  induction edits generalizing cur with
  | nil => simp [joined, removed, added]
  | cons edit _ ih =>
    have htotal := hord.removed_le hstart hcur
    obtain ⟨hrange, hend, hlater, hrest⟩ := hord
    have hfirst := hstart edit mem_cons_self
    have htail := ih hrest hlater hend
    have hroom := hrest.removed_le hlater hend
    rw [removed_cons] at htotal ⊢
    rw [joined, length_append, length_append, length_drop, length_take, htail, added_cons]
    omega

end

/-! ## Splicing -/

/-- The piece for a position when the edits are in source order. -/
def pieceInOrder (source : Bytes) (edits : List TextEdit) (i : Nat) : Bytes :=
  (edits.filter (·.startByte = i)).flatMap (·.newText) ++
    if Covered edits i then [] else source[i]?.toList

lemma copy_range (source : Bytes) (count : Nat) : ∀ first,
    (range' first count).flatMap (fun i => source[i]?.toList) = (source.drop first).take count := by
  induction count with
  | zero => simp
  | succ count ih =>
    intro first
    rw [range'_succ, flatMap_cons, ih]
    by_cases hfirst : first < source.length
    · rw [getElem?_eq_getElem hfirst, drop_eq_getElem_cons hfirst, take_succ_cons]
      rfl
    · have hdrop : source.drop first = [] := drop_eq_nil_iff.2 (by omega)
      have hrest : source.drop (first + 1) = [] := drop_eq_nil_iff.2 (by omega)
      simp [hdrop, hrest, getElem?_eq_none (Nat.le_of_not_lt hfirst)]

/-- Before the first edit the bytes are kept. -/
lemma pieceInOrder_of_lt (h : ∀ edit ∈ edits, i < edit.startByte) :
    pieceInOrder source edits i = source[i]?.toList := by
  have hfilter : edits.filter (·.startByte = i) = [] := by
    rw [filter_eq_nil_iff]
    intro edit hedit
    have := h edit hedit
    simp
    omega
  have hcov : ¬ Covered edits i := by
    rintro ⟨edit, hedit, hle, -⟩
    have := h edit hedit
    omega
  simp [pieceInOrder, hfilter, hcov]

lemma covered_cons_of_ge (hge : edit.endByte ≤ i) : Covered (edit :: edits) i ↔ Covered edits i := by
  simp only [Covered, mem_cons, exists_eq_or_imp, or_iff_right_iff_imp]
  omega

/-- After an edit only the later ones matter. -/
lemma pieceInOrder_cons_of_ge (hne : edit.startByte ≠ i) (hge : edit.endByte ≤ i) :
    pieceInOrder source (edit :: edits) i = pieceInOrder source edits i := by
  simp [pieceInOrder, hne, covered_cons_of_ge hge]

/-- From the start of an edit on: its text, and what follows its range. -/
lemma flatMap_pieceInOrder_cons (hstart : edit.startByte ≤ edit.endByte) (hend : edit.endByte ≤ n)
    (hlater : ∀ next ∈ edits, edit.endByte ≤ next.startByte) :
    (range' edit.startByte (n + 1 - edit.startByte)).flatMap
        (pieceInOrder source (edit :: edits)) =
      edit.newText ++ (range' edit.endByte (n + 1 - edit.endByte)).flatMap
        (pieceInOrder source edits) := by
  have htail : ∀ first, edit.startByte < first → edit.endByte ≤ first → ∀ count,
      (range' first count).flatMap (pieceInOrder source (edit :: edits)) =
        (range' first count).flatMap (pieceInOrder source edits) := by
    intro first hlt hle count
    apply flatMap_congr
    intro i hi
    have := mem_range'_1.1 hi
    exact pieceInOrder_cons_of_ge (by omega) (by omega)
  rcases Nat.eq_or_lt_of_le hstart with heq | hlt
  · -- an insertion: the byte at its position follows the text
    obtain ⟨count, hcount⟩ : ∃ count, n + 1 - edit.startByte = count + 1 :=
      ⟨n - edit.startByte, by omega⟩
    rw [← heq, hcount, range'_succ, flatMap_cons, flatMap_cons, htail _ (by omega) (by omega)]
    simp [pieceInOrder, covered_cons_of_ge heq.ge]
  · -- a replacement: the text stands for the first byte, the others of its range are gone
    obtain ⟨count, hcount⟩ : ∃ count, edit.endByte - edit.startByte = count + 1 :=
      ⟨edit.endByte - edit.startByte - 1, by omega⟩
    have hsplit : n + 1 - edit.startByte = (count + 1) + (n + 1 - edit.endByte) := by omega
    have hnext : edit.startByte + (count + 1) = edit.endByte := by omega
    have hgone : ∀ i, edit.startByte ≤ i → i < edit.endByte →
        pieceInOrder source (edit :: edits) i =
          if edit.startByte = i then edit.newText else [] := by
      intro i hge hless
      have hcov : Covered (edit :: edits) i := ⟨edit, mem_cons_self, hge, hless⟩
      have hfilter : edits.filter (·.startByte = i) = [] := by
        rw [filter_eq_nil_iff]
        intro next hnext
        have := hlater next hnext
        simp
        omega
      by_cases hi : edit.startByte = i <;> simp [pieceInOrder, hcov, hfilter, hi]
    have hinner : (range' (edit.startByte + 1) count).flatMap
        (pieceInOrder source (edit :: edits)) = [] := by
      rw [flatMap_eq_nil_iff]
      intro i hi
      have := mem_range'_1.1 hi
      rw [hgone i (by omega) (by omega), if_neg (by omega)]
    rw [hsplit, ← range'_append_1, hnext, flatMap_append, range'_succ,
      flatMap_cons, hinner, hgone _ le_rfl hlt, htail _ (by omega) le_rfl]
    simp

lemma joined_eq_flatMap {cur : Nat} (hord : Ordered source.length edits)
    (hstart : ∀ edit ∈ edits, cur ≤ edit.startByte) (hcur : cur ≤ source.length) :
    joined source edits cur =
      (range' cur (source.length + 1 - cur)).flatMap (pieceInOrder source edits) := by
  induction edits generalizing cur with
  | nil =>
    have hpiece : pieceInOrder source [] = fun i => source[i]?.toList := by
      funext i
      exact pieceInOrder_of_lt (by simp)
    rw [hpiece, copy_range, joined, take_of_length_le (by simp; omega)]
  | cons edit rest ih =>
    obtain ⟨hrange, hend, hlater, hrest⟩ := hord
    have hfirst := hstart edit mem_cons_self
    have hsplit : source.length + 1 - cur =
        (edit.startByte - cur) + (source.length + 1 - edit.startByte) := by omega
    have hnext : cur + (edit.startByte - cur) = edit.startByte := by omega
    have hkept : (range' cur (edit.startByte - cur)).flatMap
        (pieceInOrder source (edit :: rest)) = (source.take edit.startByte).drop cur := by
      rw [drop_take, ← copy_range]
      apply flatMap_congr
      intro i hi
      have hmem := mem_range'_1.1 hi
      refine pieceInOrder_of_lt (forall_mem_cons.2 ⟨by omega, fun next hnext => ?_⟩)
      have := hlater next hnext
      omega
    rw [joined, ih hrest hlater hend, hsplit, ← range'_append_1, hnext,
      flatMap_append, hkept, flatMap_pieceInOrder_cons hrange hend hlater, append_assoc]

/-- The order of the edits with one start is all that a piece reads of the order of the list. -/
lemma pieceInOrder_sorted (source : Bytes) (edits : List TextEdit) :
    pieceInOrder source (sortDescending edits).reverse = piece source edits := by
  funext i
  have hfilter : (sortDescending edits).reverse.filter (·.startByte = i) =
      edits.reverse.filter (·.startByte = i) := by
    rw [filter_reverse, filter_sortDescending, filter_reverse]
  have hcov : Covered (sortDescending edits).reverse i ↔ Covered edits i := by
    simp only [Covered, mem_reverse, (sortDescending_perm edits).mem_iff]
  simp [pieceInOrder, piece, hfilter, hcov]

/-! ## Applying edits -/

/-- Edits whose neighbours do not overlap and whose ranges lie in the source are spliced. -/
lemma applyEdits_of_checked (hmemory : memory.Holds source edits)
    (hoverlap : findOverlap (sortDescending edits) = none)
    (hranges : ∀ edit ∈ edits, edit.startByte ≤ edit.endByte ∧ edit.endByte ≤ source.length) :
    applyEdits memory source edits = some (.ok (spliced source edits, edits.length)) := by
  have hperm := sortDescending_perm edits
  have hsorted : ∀ edit ∈ sortDescending edits, edit.startByte ≤ edit.endByte ∧
      edit.endByte ≤ source.length := fun edit h => hranges edit (hperm.mem_iff.1 h)
  have hord := ordered_reverse (findOverlap_eq_none hoverlap) hsorted
  have hstart : ∀ edit ∈ (sortDescending edits).reverse, 0 ≤ edit.startByte :=
    fun edit _ => Nat.zero_le _
  have hjoined := joined_eq_flatMap hord hstart (Nat.zero_le _)
  have hres : joined source (sortDescending edits).reverse 0 = spliced source edits := by
    rw [hjoined, pieceInOrder_sorted, spliced, range_eq_range', Nat.sub_zero]
  -- the sums do not depend on the order
  have hremovedSum : removed (sortDescending edits).reverse = removed (sortDescending edits) :=
    ((reverse_perm _).map _).sum_nat
  have haddedSum : added (sortDescending edits).reverse = added (sortDescending edits) :=
    ((reverse_perm _).map _).sum_nat
  have hadded : added (sortDescending edits) = (edits.map (·.newText.length)).sum :=
    (hperm.map _).sum_nat
  have hrem := hord.removed_le hstart (Nat.zero_le _)
  rw [hremovedSum, Nat.zero_add] at hrem
  have hlen := outputLength_eq (fun edit h => (hsorted edit h).1) hrem
    (by rw [hadded]; exact hmemory.total)
  have hreserve := hmemory.reserves
    (source.length - removed (sortDescending edits) + added (sortDescending edits))
    (by rw [hadded]; omega)
  have hbuilt := length_joined hord hstart (Nat.zero_le _)
  rw [hres, Nat.sub_zero, hremovedSum, haddedSum] at hbuilt
  cases edits with
  | nil =>
    have : spliced source [] = source := by
      rw [← hres]
      rfl
    rw [this]
    rfl
  | cons edit =>
    rw [applyEdits, if_neg (by simp)]
    dsimp only
    rw [hoverlap, (checkRanges_ok_iff _ _).2 hsorted, hlen]
    dsimp only
    rw [hreserve]
    rw [rebuild_eq hord hstart (Nat.zero_le _), nil_append, hres]
    dsimp only
    rw [if_pos hbuilt, hperm.length_eq]

/-- Edits with a bad range or with neighbours that overlap are refused. -/
lemma applyEdits_refused (memory : Memory) (h : (∃ edit ∈ edits, edit.startByte > edit.endByte ∨
      edit.endByte > source.length) ∨ NeighboursOverlap edits) :
    ∃ error, applyEdits memory source edits = some (.error error) := by
  have hne : edits ≠ [] := by
    rintro rfl
    rcases h with ⟨edit, hedit, -⟩ | ⟨_, _, _, _, heq, -⟩
    · cases hedit
    · simp [sortDescending] at heq
  rw [applyEdits, if_neg (by simpa using hne)]
  dsimp only
  cases hoverlap : findOverlap (sortDescending edits) with
  | some => exact ⟨_, rfl⟩
  | none =>
    cases hranges : (sortDescending edits).forM (checkRange source.length) with
    | error error => exact ⟨error, rfl⟩
    | ok =>
      -- both checks passed, so that nothing was wrong
      exfalso
      have hchecked := (checkRanges_ok_iff _ _).1 hranges
      rcases h with ⟨edit, hedit, hbad⟩ | hneighbours
      · have := hchecked edit ((sortDescending_perm edits).mem_iff.2 hedit)
        omega
      · exact findOverlap_isSome_iff.2 hneighbours hoverlap

/-- Applying edits never panics.  It is an error exactly when a range is bad or neighbours in
start order overlap, and splices the texts into the source otherwise; with distinct starts the
order in which the edits are listed does not matter. -/
theorem apply_edits_exact (memory : Memory) (source : Bytes) (edits : List TextEdit)
    (hmemory : memory.Holds source edits) :
    ∃ result, applyEdits memory source edits = some result ∧ ((∃ error, result = .error error) ↔
        (∃ edit ∈ edits, edit.startByte > edit.endByte ∨ edit.endByte > source.length) ∨
          NeighboursOverlap edits) ∧
      (∀ output count, result = .ok (output, count) →
        output = spliced source edits ∧ count = edits.length) ∧
      ((edits.map (·.startByte)).Nodup → ∀ edits' : List TextEdit, edits'.Perm edits →
        applyEdits memory source edits' = some result) := by
  have horder : (edits.map (·.startByte)).Nodup → ∀ edits' : List TextEdit, edits'.Perm edits →
      applyEdits memory source edits' = applyEdits memory source edits := by
    intro hdistinct edits' hperm
    have hempty : edits'.isEmpty = edits.isEmpty := by
      rw [Bool.eq_iff_iff, List.isEmpty_iff, List.isEmpty_iff]
      exact ⟨fun h => by simpa [h] using hperm.symm, fun h => by simpa [h] using hperm⟩
    rw [applyEdits, applyEdits, hempty, sortDescending_eq_of_perm hperm hdistinct]
  by_cases hbad : (∃ edit ∈ edits, edit.startByte > edit.endByte ∨ edit.endByte > source.length) ∨
      NeighboursOverlap edits
  · obtain ⟨error, hrun⟩ := applyEdits_refused memory hbad
    refine ⟨.error error, hrun, ⟨fun _ => hbad, fun _ => ⟨error, rfl⟩⟩, nofun, ?_⟩
    exact fun hdistinct edits' hperm => (horder hdistinct edits' hperm).trans hrun
  · rw [not_or] at hbad
    have hoverlap : findOverlap (sortDescending edits) = none := by
      by_contra hsome
      exact hbad.2 (findOverlap_isSome_iff.1 hsome)
    have hranges : ∀ edit ∈ edits, edit.startByte ≤ edit.endByte ∧
        edit.endByte ≤ source.length := by
      intro edit hedit
      by_contra hrange
      exact hbad.1 ⟨edit, hedit, by omega⟩
    have hrun := applyEdits_of_checked hmemory hoverlap hranges
    refine ⟨_, hrun, ⟨nofun, fun h => absurd h (not_or.2 hbad)⟩, ?_, ?_⟩
    · rintro output count ⟨⟩
      exact ⟨rfl, rfl⟩
    · exact fun hdistinct edits' hperm => (horder hdistinct edits' hperm).trans hrun

/-- Enough memory for everything. -/
def ampleMemory : Memory where
  tryReserve _ := .ok ()

/-- Two insertions at one position of a source of two bytes. -/
theorem apply_edits_exact_insertions :
    ampleMemory.Holds [97, 98] [⟨1, 1, [88]⟩, ⟨1, 1, [89]⟩] ∧
      ∃ result, applyEdits ampleMemory [97, 98] [⟨1, 1, [88]⟩, ⟨1, 1, [89]⟩] = some result ∧
        ∀ output count, result = .ok (output, count) → output = [97, 89, 88, 98] ∧ count = 2 := by
  have hmemory : ampleMemory.Holds [97, 98] [⟨1, 1, [88]⟩, ⟨1, 1, [89]⟩] :=
    ⟨by decide, fun _ _ => rfl⟩
  refine ⟨hmemory, ?_⟩
  obtain ⟨result, hrun, -, houtput, -⟩ := apply_edits_exact _ _ _ hmemory
  refine ⟨result, hrun, fun output count hresult => ?_⟩
  obtain ⟨hspliced, hcount⟩ := houtput output count hresult
  exact ⟨hspliced.trans (by decide), hcount⟩

end Lint4d.Fix
