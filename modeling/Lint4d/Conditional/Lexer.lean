import Lint4d.Conditional.Syntax

/-!
# Finding the directives of a source

Strings and comments are skipped; a comment that starts with `$` is a
directive.  An unfinished string, comment or directive ends the search and the
result is incomplete.  Offsets count the bytes of the UTF-8 text.
-/

namespace Lint4d.Conditional

open List hiding tail_suffix

variable {total stop p : Nat} {wanted : Char}

/-- The length of a text in bytes. -/
def byteLen (text : Text) : Nat := (text.map Char.utf8Size).sum

@[simp] lemma byteLen_nil : byteLen [] = 0 := rfl

@[simp] lemma byteLen_cons (c : Char) (text : Text) :
    byteLen (c :: text) = c.utf8Size + byteLen text := by
  simp [byteLen]

@[simp] lemma byteLen_append (s t : Text) : byteLen (s ++ t) = byteLen s + byteLen t := by
  simp [byteLen]

structure Span where
  start : Nat
  stop : Nat
deriving DecidableEq, Repr

def Span.Contains (span : Span) (p : Nat) : Prop := span.start ≤ p ∧ p < span.stop

instance (span : Span) (p : Nat) : Decidable (span.Contains p) :=
  inferInstanceAs (Decidable (_ ∧ _))

structure RawDirective where
  start : Nat
  stop : Nat
  body : Text
deriving DecidableEq, Repr

structure LexResult where
  directives : List RawDirective
  complete : Bool
deriving DecidableEq, Repr

def maxDirectives : Nat := 16384

/-- The text after a string, whose opening quote has been read. -/
def skipString : Text → Option Text
  | [] => none
  | '\'' :: '\'' :: rest => skipString rest
  | '\'' :: rest => some rest
  | '\n' :: _ => none
  | _ :: rest => skipString rest

/-- An assembler character literal ends on its own line; otherwise only the quote is skipped. -/
def skipAssemblerString (text : Text) : Text :=
  match breakAt '"' text with
  | some (before, after) => if before.contains '\n' then text else after
  | none => text

def LexResult.push (raw : RawDirective) (result : LexResult) : LexResult :=
  { result with directives := raw :: result.directives }

/-- Every turn reads at least one character, so the length of the text is fuel enough. -/
def lexDirectivesInner (total : Nat) : Nat → Nat → Text → LexResult
  | 0, _, _ => ⟨[], true⟩
  | _ + 1, _, [] => ⟨[], true⟩
  | fuel + 1, count, c :: rest =>
    if c = '\'' then
      match skipString rest with
      | none => ⟨[], false⟩
      | some after => lexDirectivesInner total fuel count after
    else if c = '"' then lexDirectivesInner total fuel count (skipAssemblerString rest)
    else if c = '/' ∧ rest.head? = some '/' then
      lexDirectivesInner total fuel count (skipLineComment rest.tail)
    else if c = '\x7b' ∧ rest.head? = some '$' then
      match breakAt '\x7d' rest.tail with
      | none => ⟨[], false⟩
      | some (body, after) =>
        if maxDirectives ≤ count then ⟨[], false⟩
        else
          (lexDirectivesInner total fuel (count + 1) after).push
            ⟨total - byteLen (c :: rest), total - byteLen after, body⟩
    else if c = '\x7b' then
      match breakAt '\x7d' rest with
      | none => ⟨[], false⟩
      | some (_, after) => lexDirectivesInner total fuel count after
    else if c = '(' ∧ rest.head? = some '*' then
      if rest.tail.head? = some '$' then
        match breakAtParenClose rest.tail.tail with
        | none => ⟨[], false⟩
        | some (body, after) =>
          if maxDirectives ≤ count then ⟨[], false⟩
          else
            (lexDirectivesInner total fuel (count + 1) after).push
              ⟨total - byteLen (c :: rest), total - byteLen after, body⟩
      else
        match breakAtParenClose rest.tail with
        | none => ⟨[], false⟩
        | some (_, after) => lexDirectivesInner total fuel count after
    else lexDirectivesInner total fuel count rest

def lexDirectives (source : Text) : LexResult :=
  lexDirectivesInner (byteLen source) source.length 0 source

/-! ## The directives cut the source into pieces -/

/-- The text consists of the directives, in order and apart, and of what lies between them. -/
inductive Pieces (total : Nat) : Text → List RawDirective → Prop
  | text (text : Text) : Pieces total text []
  | directive (gap directive rest body : Text) {raws} (tail : Pieces total rest raws) :
      Pieces total (gap ++ (directive ++ rest))
        (⟨total - byteLen (directive ++ rest), total - byteLen rest, body⟩ :: raws)

variable {raws : List RawDirective} {text : Text}

lemma Pieces.skip (h : Pieces total text raws) (gap : Text) : Pieces total (gap ++ text) raws := by
  cases h with
  | text => exact .text _
  | directive _ directive _ _ tail =>
    rw [← append_assoc]
    exact .directive _ _ _ _ tail

lemma Pieces.of_suffix {after : Text} (h : Pieces total after raws)
    (suffix : after <:+ text) : Pieces total text raws := by
  obtain ⟨gap, rfl⟩ := suffix
  exact h.skip gap

lemma skipString_suffix {after : Text} (h : skipString text = some after) : after <:+ text := by
  fun_induction skipString text with
  | case1 => simp at h
  | case2 rest ih => exact (ih h).trans (suffix_append ['\'', '\''] rest)
  | case3 rest =>
    obtain rfl : rest = after := by simpa using h
    exact suffix_cons _ _
  | case4 => simp at h
  | case5 c rest _ _ _ ih => exact (ih h).trans (suffix_cons c rest)

variable {text before after : Text}

lemma breakAt_eq (h : breakAt wanted text = some (before, after)) :
    text = before ++ wanted :: after := by
  induction text generalizing before with
  | nil => simp [breakAt] at h
  | cons c rest ih =>
    rw [breakAt] at h
    split at h
    next hc =>
      obtain ⟨rfl, rfl⟩ : [] = before ∧ rest = after := by simpa using h
      simp [hc]
    next =>
      obtain ⟨⟨before', after'⟩, hrest, heq⟩ := Option.map_eq_some_iff.mp h
      obtain ⟨rfl, rfl⟩ : c :: before' = before ∧ after' = after := by simpa using heq
      simp [ih hrest]

lemma breakAtParenClose_eq (h : breakAtParenClose text = some (before, after)) :
    text = before ++ '*' :: ')' :: after := by
  induction text generalizing before with
  | nil => simp [breakAtParenClose] at h
  | cons c rest ih =>
    rw [breakAtParenClose] at h
    split at h
    next hc =>
      obtain ⟨rfl, hhead⟩ := hc
      obtain ⟨rfl, rfl⟩ : [] = before ∧ rest.tail = after := by simpa using h
      simp [cons_head?_tail hhead]
    next =>
      obtain ⟨⟨before', after'⟩, hrest, heq⟩ := Option.map_eq_some_iff.mp h
      obtain ⟨rfl, rfl⟩ : c :: before' = before ∧ after' = after := by simpa using heq
      simp [ih hrest]

lemma breakAt_suffix (h : breakAt wanted text = some (before, after)) : after <:+ text :=
  ⟨before ++ [wanted], by simp [breakAt_eq h]⟩

lemma breakAtParenClose_suffix (h : breakAtParenClose text = some (before, after)) :
    after <:+ text :=
  ⟨before ++ ['*', ')'], by simp [breakAtParenClose_eq h]⟩

lemma skipAssemblerString_suffix (text : Text) : skipAssemblerString text <:+ text := by
  unfold skipAssemblerString
  split
  next _ _ h =>
    split
    · exact suffix_rfl
    · exact breakAt_suffix h
  next => exact suffix_rfl

/-- A directive whose text is what the search has read since the last piece. -/
lemma Pieces.push {after : Text} (body : Text) {result : LexResult}
    (h : Pieces total after result.directives) (suffix : after <:+ text) :
    Pieces total text
      (result.push ⟨total - byteLen text, total - byteLen after, body⟩).directives := by
  obtain ⟨directive, rfl⟩ := suffix
  exact Pieces.directive [] directive after body h

lemma lexDirectivesInner_pieces (total fuel count : Nat) (text : Text) :
    Pieces total text (lexDirectivesInner total fuel count text).directives := by
  have tail_suffix (c : Char) (rest : Text) : rest.tail <:+ c :: rest :=
    (List.tail_suffix rest).trans (suffix_cons c rest)
  fun_induction lexDirectivesInner total fuel count text with
  | case1 | case2 | case3 | case7 | case8 | case10 | case12 | case13 | case15 => exact .text _
  | case4 fuel count rest after h ih =>
    exact ih.of_suffix ((skipString_suffix h).trans (suffix_cons _ _))
  | case5 fuel count rest _ ih =>
    exact ih.of_suffix ((skipAssemblerString_suffix _).trans (suffix_cons _ _))
  | case6 fuel count c rest _ _ _ ih =>
    exact ih.of_suffix ((dropWhile_suffix _).trans (tail_suffix _ _))
  | case9 fuel count c rest _ _ _ _ body after h _ ih =>
    exact ih.push body ((breakAt_suffix h).trans (tail_suffix _ _))
  | case11 fuel count rest _ after h _ _ _ _ ih =>
    exact ih.of_suffix ((breakAt_suffix h).trans (suffix_cons _ _))
  | case14 fuel count c rest _ _ _ _ _ _ _ body after h _ ih =>
    exact ih.push body
      ((breakAtParenClose_suffix h).trans ((List.tail_suffix _).trans (tail_suffix _ _)))
  | case16 fuel count c rest _ _ _ _ _ _ _ _ after h ih =>
    exact ih.of_suffix ((breakAtParenClose_suffix h).trans (tail_suffix _ _))
  | case17 fuel count c rest _ _ _ _ _ _ ih => exact ih.of_suffix (suffix_cons _ _)

lemma lexDirectives_pieces (source : Text) :
    Pieces (byteLen source) source (lexDirectives source).directives :=
  lexDirectivesInner_pieces _ _ _ _

/-! ## Directives and gaps in order -/

/-- The directives lie between the two offsets, in order and apart. -/
def Ordered : Nat → List RawDirective → Nat → Prop
  | cursor, [], stop => cursor ≤ stop
  | cursor, raw :: rest, stop =>
    cursor ≤ raw.start ∧ raw.start ≤ raw.stop ∧ Ordered raw.stop rest stop

lemma Pieces.ordered (h : Pieces total text raws) (hle : byteLen text ≤ total) :
    Ordered (total - byteLen text) raws total := by
  induction h with
  | text text => exact Nat.sub_le _ _
  | directive _ directive _ _ _ ih =>
    simp only [byteLen_append] at hle ⊢
    refine ⟨?_, ?_, ih (by omega)⟩ <;> dsimp only <;> omega

lemma lexDirectives_ordered (source : Text) :
    Ordered 0 (lexDirectives source).directives (byteLen source) := by
  simpa using (lexDirectives_pieces source).ordered le_rfl

/-- The text before, between and after the directives. -/
def gapSpans (stop : Nat) : List RawDirective → Nat → List Span
  | [], cursor => [⟨cursor, stop⟩]
  | raw :: rest, cursor => ⟨cursor, raw.start⟩ :: gapSpans stop rest raw.stop

variable {cursor : Nat} {span : Span}

lemma Ordered.cursor_le (h : Ordered cursor raws stop)
    (hspan : span ∈ gapSpans stop raws cursor) : cursor ≤ span.start := by
  induction raws generalizing cursor with
  | nil =>
    obtain rfl : span = ⟨cursor, stop⟩ := by simpa [gapSpans] using hspan
    exact le_rfl
  | cons _ _ ih =>
    obtain ⟨hstart, hstop, htail⟩ := h
    rcases mem_cons.mp hspan with rfl | hspan
    · exact le_rfl
    · exact hstart.trans (hstop.trans (ih htail hspan))

variable {raw : RawDirective}

section

variable (h : Ordered cursor raws stop)

include h

lemma Ordered.start_le (hraw : raw ∈ raws) : cursor ≤ raw.start := by
  induction raws generalizing cursor with
  | nil => simp at hraw
  | cons _ _ ih =>
    obtain ⟨hstart, hstop, htail⟩ := h
    rcases mem_cons.mp hraw with rfl | hraw
    · exact hstart
    · exact hstart.trans (hstop.trans (ih htail hraw))

lemma Ordered.gapSpans_pairwise :
    (gapSpans stop raws cursor).Pairwise fun a b => a.stop ≤ b.start := by
  induction raws generalizing cursor with
  | nil => simp [gapSpans]
  | cons _ _ ih =>
    obtain ⟨-, hstop, htail⟩ := h
    exact .cons (fun span hspan => hstop.trans (htail.cursor_le hspan)) (ih htail)

/-- Every byte is in a gap or in a directive. -/
lemma Ordered.covered (hcursor : cursor ≤ p) (hstop : p < stop) :
    (∃ span ∈ gapSpans stop raws cursor, span.Contains p) ∨
      ∃ raw ∈ raws, (⟨raw.start, raw.stop⟩ : Span).Contains p := by
  induction raws generalizing cursor with
  | nil => exact .inl ⟨⟨cursor, stop⟩, by simp [gapSpans], hcursor, hstop⟩
  | cons raw _ ih =>
    obtain ⟨-, -, htail⟩ := h
    rcases Nat.lt_or_ge p raw.start with hlt | hge
    · exact .inl ⟨⟨cursor, raw.start⟩, by simp [gapSpans], hcursor, hlt⟩
    rcases Nat.lt_or_ge p raw.stop with hlt | hge'
    · exact .inr ⟨raw, by simp, hge, hlt⟩
    rcases ih htail hge' with ⟨span, hspan, hp⟩ | ⟨raw', hraw', hp⟩
    · exact .inl ⟨span, mem_cons_of_mem _ hspan, hp⟩
    · exact .inr ⟨raw', mem_cons_of_mem _ hraw', hp⟩

/-- No byte is both in a gap and in a directive. -/
lemma Ordered.disjoint (hspan : span ∈ gapSpans stop raws cursor)
    (hp : span.Contains p) (hraw : raw ∈ raws) : ¬ (⟨raw.start, raw.stop⟩ : Span).Contains p := by
  induction raws generalizing cursor with
  | nil => simp at hraw
  | cons _ _ ih =>
    obtain ⟨hstart, hstop, htail⟩ := h
    intro hp'
    rcases mem_cons.mp hspan with rfl | hspan <;> rcases mem_cons.mp hraw with rfl | hraw
    · exact absurd hp.2 (Nat.not_lt.mpr hp'.1)
    · have := htail.start_le hraw
      exact absurd (hp.2.trans_le (hstop.trans this)) (Nat.not_lt.mpr hp'.1)
    · have := htail.cursor_le hspan
      exact absurd (hp'.2.trans_le this) (Nat.not_lt.mpr hp.1)
    · exact ih htail hspan hraw hp'

end

/-- Two labelled gaps that share a byte are the same one. -/
lemma gap_unique {α : Type} {gaps : List (Span × α)}
    (h : (gaps.map Prod.fst).Pairwise fun a b => a.stop ≤ b.start) {a b : Span × α} (ha : a ∈ gaps)
    (hb : b ∈ gaps) (hpa : a.1.Contains p) (hpb : b.1.Contains p) : a = b := by
  induction gaps with
  | nil => simp at ha
  | cons gap rest ih =>
    obtain ⟨hhead, htail⟩ := pairwise_cons.mp h
    have hlater : ∀ c ∈ rest, gap.1.Contains p → c.1.Contains p → False := by
      intro c hc hp hpc
      have := hhead c.1 (mem_map_of_mem hc)
      exact absurd (hp.2.trans_le this) (Nat.not_lt.mpr hpc.1)
    rcases mem_cons.mp ha with rfl | ha' <;> rcases mem_cons.mp hb with rfl | hb'
    · rfl
    · exact (hlater b hb' hpa hpb).elim
    · exact (hlater a ha' hpb hpa).elim
    · exact ih htail ha' hb'

end Lint4d.Conditional
