import Lint4d.Msbuild.ConditionGrammar
import Lint4d.Msbuild.Flatten

/-!
# Conditions put together as texts

The conditions of nested elements are joined as texts and parsed again.  A condition
that parses on its own keeps its expression inside parentheses, so the joined text
denotes the conjunction.
-/

namespace Lint4d.Msbuild

open List

open Lint4d.Lib (Truth)
open Msbuild.Expr hiding not
open Lint4d.Conditional (Text isWhitespace trim trimStart trimEnd lower)

variable {more blank : Text} {c : Char} {token : ConditionToken} {toks : List ConditionToken}

/-! ## Tokens of joined texts -/

/-- A text at which a token before it ends. -/
def Breaks : Text → Prop
  | [] => True
  | c :: _ => isWordChar c = false ∧ c ≠ '='

lemma breakQuote_append {quote : Char} {text value after : Text}
    (h : breakQuote quote text = some (value, after)) (more : Text) :
    breakQuote quote (text ++ more) = some (value, after ++ more) := by
  induction text generalizing value with
  | nil => cases h
  | cons c _ ih =>
    rw [breakQuote] at h
    rw [cons_append, breakQuote]
    split at h
    · rename_i hc
      cases h
      rw [if_pos hc]
    · rename_i hc
      obtain ⟨⟨_, _⟩, hrest, heq⟩ := Option.map_eq_some_iff.1 h
      obtain ⟨rfl, rfl⟩ := Prod.mk.inj heq
      rw [if_neg hc, ih hrest]
      rfl

lemma takeWhile_append_breaks {text : Text} (h : Breaks more) :
    (text ++ more).takeWhile isWordChar = text.takeWhile isWordChar ∧
      (text ++ more).dropWhile isWordChar = text.dropWhile isWordChar ++ more := by
  induction text with
  | nil =>
    cases more with
    | nil => simp
    | cons c rest => simp [h.1]
  | cons c rest ih =>
    by_cases hc : isWordChar c = true
    · simp [hc, ih]
    · simp [hc]

lemma head?_append_breaks {text : Text} (h : Breaks more) :
    (text ++ more).head? = some '=' ↔ text.head? = some '=' := by
  cases text with
  | nil =>
    cases more with
    | nil => simp
    | cons c rest => simp [h.2]
  | cons c rest => simp

lemma firstToken_append {rest after : Text} (h : firstToken c rest = .token token after)
    (hmore : Breaks more) : firstToken c (rest ++ more) = .token token (after ++ more) := by
  have htail : rest.head? = some '=' → (rest ++ more).tail = rest.tail ++ more := by
    cases rest <;> simp
  unfold firstToken at h ⊢
  simp only [head?_append_breaks hmore]
  split_ifs at h ⊢ with heq hne hbang hopen hclose hcomma hquote hword
  · cases h
    rw [htail heq.2]
  · cases h
    rw [htail hne.2]
  iterate 4
    cases h
    rfl
  · split at h
    · cases h
    · rename_i hbreak
      cases h
      rw [breakQuote_append hbreak]
  · cases h
    rw [(takeWhile_append_breaks hmore).1, (takeWhile_append_breaks hmore).2]

lemma tokenize_cons {rest after : Text} (hspace : isWhitespace c = false)
    (h : firstToken c rest = .token token after) :
    tokenizeCondition (c :: rest) = (tokenizeCondition after).map (token :: ·) := by
  rw [tokenizeCondition, if_neg (by simp [hspace])]
  split
  · rename_i hfirst
    rw [h] at hfirst
    cases hfirst
  · rename_i hfirst
    rw [h] at hfirst
    cases hfirst
    cases tokenizeCondition after <;> rfl

/-- Text that starts a new token is tokenized by itself. -/
lemma tokenize_append {text : Text} (h : tokenizeCondition text = .ok toks) (hmore : Breaks more) :
    tokenizeCondition (text ++ more) = (tokenizeCondition more).map (toks ++ ·) := by
  fun_induction tokenizeCondition text generalizing toks with
  | case1 =>
    cases h
    cases hrest : tokenizeCondition more <;> simp [hrest, Except.map]
  | case2 c rest hspace ih =>
    rw [cons_append, tokenizeCondition, if_pos hspace]
    exact ih h
  | case3 c rest hspace message hfirst => cases h
  | case4 c rest hspace _ after hfirst ih =>
    rw [cons_append, tokenize_cons (by simpa using hspace) (firstToken_append hfirst hmore)]
    cases hafter : tokenizeCondition after with
    | error message =>
      rw [hafter] at h
      cases h
    | ok =>
      rw [hafter] at h
      cases h
      rw [ih hafter]
      cases tokenizeCondition more <;> rfl

lemma tokenize_blank (h : ∀ c ∈ blank, isWhitespace c = true) (more : Text) :
    tokenizeCondition (blank ++ more) = tokenizeCondition more := by
  induction blank with
  | nil => rfl
  | cons c blank ih =>
    rw [cons_append, tokenizeCondition, if_pos (h c (by simp)), ih (forall_mem_cons.1 h).2]

/-- The text before and after a trimmed text is blank. -/
lemma exists_trim (text : Text) : ∃ before after, text = before ++ (trim text ++ after) ∧
    (∀ c ∈ before, isWhitespace c = true) ∧ ∀ c ∈ after, isWhitespace c = true := by
  refine ⟨text.takeWhile isWhitespace,
    ((trimStart text).reverse.takeWhile isWhitespace).reverse, ?_, ?_, ?_⟩
  · have hend : trimEnd (trimStart text) ++
        ((trimStart text).reverse.takeWhile isWhitespace).reverse = trimStart text := by
      rw [trimEnd, ← reverse_append, takeWhile_append_dropWhile, reverse_reverse]
    rw [trim, hend, trimStart, takeWhile_append_dropWhile]
  · exact fun c hc => mem_takeWhile_imp hc
  · intro c hc
    exact mem_takeWhile_imp (mem_reverse.1 hc)

lemma breaks_of_blank (h : ∀ c ∈ blank, isWhitespace c = true) : Breaks blank := by
  cases blank with
  | nil => trivial
  | cons c blank =>
    have hc := h c (by simp)
    refine ⟨by simp [isWordChar, hc], ?_⟩
    rintro rfl
    revert hc
    decide

variable {text : Text}

lemma tokenize_of_trim
    (h : tokenizeCondition (trim text) = .ok toks) : tokenizeCondition text = .ok toks := by
  obtain ⟨_, _, htext, hbefore, hafter⟩ := exists_trim text
  rw [htext, tokenize_blank hbefore, tokenize_append h (breaks_of_blank hafter)]
  have hnil := tokenize_blank hafter []
  rw [append_nil] at hnil
  rw [hnil, tokenizeCondition]
  simp [Except.map]

lemma trim_of_ends {first last : Char} (hfirst : text.head? = some first)
    (hlast : text.getLast? = some last) (hf : isWhitespace first = false)
    (hl : isWhitespace last = false) : trim text = text := by
  have hstart : trimStart text = text := by
    cases text with
    | nil => rfl
    | cons c rest =>
      obtain rfl : c = first := by simpa using hfirst
      simp [trimStart, hf]
  rw [trim, hstart, trimEnd]
  rw [← head?_reverse] at hlast
  cases hrev : text.reverse with
  | nil => simpa using hrev.symm
  | cons c rest =>
    obtain rfl : c = last := by simpa [hrev] using hlast
    rw [dropWhile_cons_of_neg (by simpa using hl), ← hrev, reverse_reverse]

/-- A text in parentheses is a primary with the expression of the text. -/
lemma tokenize_paren (h : tokenizeCondition text = .ok toks) (more : Text) :
    tokenizeCondition ('(' :: (text ++ ')' :: more)) = (tokenizeCondition more).map fun rest =>
        .leftParen :: (toks ++ .rightParen :: rest) := by
  have hopen : firstToken '(' (text ++ ')' :: more) = .token .leftParen (text ++ ')' :: more) := by
    simp [firstToken]
  have hclose : firstToken ')' more = .token .rightParen more := by simp [firstToken]
  have hbreaks : Breaks (')' :: more) := ⟨by decide, by decide⟩
  rw [tokenize_cons (by decide) hopen, tokenize_append h hbreaks, tokenize_cons (by decide) hclose]
  cases tokenizeCondition more <;> rfl

def andToken : ConditionToken := .word "And".toList

lemma tokenize_and (more : Text) :
    tokenizeCondition (" And ".toList ++ more) = (tokenizeCondition more).map (andToken :: ·) := by
  have hword : firstToken 'A' ('n' :: 'd' :: ' ' :: more) = .token andToken (' ' :: more) := by
    have hn : isWordChar 'n' = true := by decide
    have hd : isWordChar 'd' = true := by decide
    have hs : isWordChar ' ' = false := by decide
    have ha : isWordChar 'A' = true := by decide
    simp [firstToken, hn, hd, hs, ha, andToken]
  have hspace : ∀ rest, tokenizeCondition (' ' :: rest) = tokenizeCondition rest := by
    intro rest
    rw [tokenizeCondition, if_pos (by decide)]
  change tokenizeCondition (' ' :: 'A' :: 'n' :: 'd' :: ' ' :: more) = _
  rw [hspace, tokenize_cons (by decide) hword, hspace]

/-! ## Conjunctions -/

variable {e : Expr}

lemma isOr_of_isPrimary (h : IsPrimary toks e) :
    IsOr toks e := by
  have hand : IsAnd (toks ++ []) e := .mk h (.nil e)
  have hor : IsOr (toks ++ [] ++ []) e := .mk hand (.nil e)
  simpa using hor

/-- A text that is a primary of its own, with nothing blank around it. -/
structure IsUnit (text : Text) (tokens : List ConditionToken) (e : Expr) : Prop where
  tokens_eq : tokenizeCondition text = .ok tokens
  form : IsPrimary tokens e
  head : ∃ c, text.head? = some c ∧ isWhitespace c = false
  last : ∃ c, text.getLast? = some c ∧ isWhitespace c = false

lemma isUnit_paren (htoks : tokenizeCondition text = .ok toks) (hform : IsOr toks e) :
    IsUnit ("(".toList ++ text ++ ")".toList) (.leftParen :: (toks ++ [.rightParen])) e where
  tokens_eq := by
    have hparen := tokenize_paren htoks []
    rw [show "(".toList ++ text ++ ")".toList = '(' :: (text ++ ')' :: []) by simp, hparen,
      tokenizeCondition]
    rfl
  form := .paren hform
  head := ⟨'(', by simp, by decide⟩
  last := ⟨')', by rw [getLast?_append]; rfl, by decide⟩

lemma isUnit_not (htoks : tokenizeCondition text = .ok toks) (hform : IsOr toks e) :
    IsUnit ("!(".toList ++ text ++ ")".toList)
      (.bang :: .leftParen :: (toks ++ [.rightParen])) e.not where
  tokens_eq := by
    have hbang : firstToken '!' ('(' :: (text ++ ')' :: [])) =
        .token .bang ('(' :: (text ++ ')' :: [])) := by simp [firstToken]
    rw [show "!(".toList ++ text ++ ")".toList = '!' :: '(' :: (text ++ ')' :: []) by simp,
      tokenize_cons (by decide) hbang, tokenize_paren htoks, tokenizeCondition]
    rfl
  form := .not (.paren hform)
  head := ⟨'!', by simp, by decide⟩
  last := ⟨')', by rw [getLast?_append]; rfl, by decide⟩

/-- A text of a conjunction with its tokens and its expression. -/
structure Conjunct where
  text : Text
  tokens : List ConditionToken
  expr : Expr

variable {rest : List Conjunct} {first : Conjunct}

namespace Conjunct

def Valid (conjunct : Conjunct) : Prop :=
  IsUnit conjunct.text conjunct.tokens conjunct.expr

/-- The conjunction of expressions as `And` reads them. -/
def conjunction (first : Conjunct) (rest : List Conjunct) : Expr :=
  rest.foldl (fun e conjunct => e.and conjunct.expr) first.expr

def joined (conjuncts : List Conjunct) : Text :=
  joinTexts " And ".toList (conjuncts.map Conjunct.text)

def tailTokens (rest : List Conjunct) : List ConditionToken :=
  rest.flatMap fun conjunct => andToken :: conjunct.tokens

lemma joined_cons (first second : Conjunct) (rest : List Conjunct) :
    joined (first :: second :: rest) = first.text ++ (" And ".toList ++ joined (second :: rest)) := by
  simp [joined, joinTexts]

/-- The tokens of joined conjuncts. -/
lemma tokenize_joined (h : ∀ conj ∈ first :: rest, conj.Valid) :
    tokenizeCondition (joined (first :: rest)) = .ok (first.tokens ++ tailTokens rest) := by
  induction rest generalizing first with
  | nil => simpa [joined, joinTexts, tailTokens] using (h first (by simp)).tokens_eq
  | cons second rest ih =>
    have hrest := ih (forall_mem_cons.1 h).2
    have hbreaks : Breaks (" And ".toList ++ joined (second :: rest)) := ⟨by decide, by decide⟩
    rw [joined_cons, tokenize_append (h first (by simp)).tokens_eq hbreaks, tokenize_and, hrest]
    simp [tailTokens, Except.map]

lemma andTail_conjuncts (h : ∀ conj ∈ rest, conj.Valid) (e : Expr) :
    AndTail e (tailTokens rest)
      (rest.foldl (fun e conj => e.and conj.expr) e) := by
  induction rest generalizing e with
  | nil => exact .nil e
  | cons first rest ih =>
    have htail := ih (forall_mem_cons.1 h).2 (e.and first.expr)
    exact .cons (by decide) (h first (by simp)).form htail

section

variable (h : ∀ conjunct ∈ first :: rest, conjunct.Valid)

include h

lemma isOr_joined : IsOr (first.tokens ++ tailTokens rest) (conjunction first rest) := by
  obtain ⟨hfirst, hrest⟩ := forall_mem_cons.1 h
  have hor : IsOr (first.tokens ++ tailTokens rest ++ []) (conjunction first rest) :=
    .mk (.mk hfirst.form (andTail_conjuncts hrest first.expr)) (.nil _)
  simpa using hor

lemma ends_joined :
    (∃ c, (joined (first :: rest)).head? = some c ∧ isWhitespace c = false) ∧
      ∃ c, (joined (first :: rest)).getLast? = some c ∧ isWhitespace c = false := by
  induction rest generalizing first with
  | nil =>
    have hunit := h first (by simp)
    simpa [joined, joinTexts] using And.intro hunit.head hunit.last
  | cons _ rest ih =>
    obtain ⟨c, hc, hblank⟩ := (h first (by simp)).head
    obtain ⟨-, d, hd, hblank'⟩ := ih (forall_mem_cons.1 h).2
    rw [joined_cons]
    refine ⟨⟨c, ?_, hblank⟩, d, ?_, hblank'⟩
    · rw [head?_append, hc]
      rfl
    · rw [← append_assoc, getLast?_append, hd]
      rfl

/-- Joined conditions denote their conjunction. -/
lemma denotes_joined :
    Denotes (some (joined (first :: rest))) (some (conjunction first rest)) := by
  obtain ⟨⟨c, hc, hblank⟩, d, hd, hblank'⟩ := ends_joined h
  have hpres : presentCondition (some (joined (first :: rest))) =
      some (joined (first :: rest)) := by
    have hne : joined (first :: rest) ≠ [] := by
      intro hnil
      rw [hnil] at hc
      cases hc
    simp [presentCondition, trim_of_ends hc hd hblank hblank', hne]
  unfold Denotes
  rw [hpres]
  exact ⟨_, tokenize_joined h, isOr_joined h⟩

end

end Conjunct

lemma dropWhile_head {l : Text} (h : (l.dropWhile isWhitespace).head? = some c) :
    isWhitespace c = false := by
  have hnot := head?_dropWhile_not isWhitespace l
  rw [h] at hnot
  exact hnot

lemma trim_trim (text : Text) : trim (trim text) = trim text := by
  rcases eq_nil_or_concat (trim text) with hnil | ⟨_, last, hlast⟩
  · rw [hnil]
    rfl
  have hends : ∃ first, (trim text).head? = some first ∧ isWhitespace first = false := by
    have hfront : trimStart text = trim text ++
        ((trimStart text).reverse.takeWhile isWhitespace).reverse := by
      rw [trim, trimEnd, ← reverse_append, takeWhile_append_dropWhile, reverse_reverse]
    cases hhead : (trim text).head? with
    | none =>
      rw [head?_eq_none_iff] at hhead
      simp [hhead] at hlast
    | some first =>
      refine ⟨first, rfl, dropWhile_head (l := text) ?_⟩
      change (trimStart text).head? = some first
      rw [hfront, head?_append, hhead]
      rfl
  obtain ⟨first, hfirst, hblank⟩ := hends
  have hgetLast : (trim text).getLast? = some last := by
    rw [hlast, concat_eq_append, getLast?_append]
    rfl
  refine trim_of_ends hfirst hgetLast hblank (dropWhile_head (l := (trimStart text).reverse) ?_)
  rw [trim, trimEnd, getLast?_reverse] at hgetLast
  exact hgetLast

variable {cond : Option Text}

lemma denotes_none_iff : Denotes cond none ↔ presentCondition cond = none := by
  unfold Denotes
  cases presentCondition cond <;> simp

lemma denotes_some_iff :
    Denotes cond (some e) ↔ ∃ text tokens, presentCondition cond = some text ∧
      tokenizeCondition text = .ok tokens ∧ IsOr tokens e := by
  unfold Denotes
  cases presentCondition cond <;> simp

lemma presentCondition_present (h : presentCondition cond = some text) :
    presentCondition (some text) = some text := by
  obtain ⟨htext, hne⟩ := Option.filter_eq_some_iff.1 h
  obtain ⟨_, -, rfl⟩ := Option.map_eq_some_iff.1 htext
  simpa [presentCondition, trim_trim] using hne

/-- The expression of a condition inside another. -/
def combineExpr : Option Expr → Option Expr → Option Expr
  | none, own => own
  | some parent, none => some parent
  | some parent, some own => some (parent.and own)

/-- Combined conditions denote the conjunction. -/
lemma denotes_combine {parent own : Option Text} {e e' : Option Expr} (h : Denotes parent e)
    (h' : Denotes own e') : Denotes (combineConditions parent own) (combineExpr e e') := by
  unfold combineConditions
  cases e with
  | none =>
    have hpar := denotes_none_iff.1 h
    cases e' with
    | none =>
      rw [hpar, denotes_none_iff.1 h']
      exact denotes_none_iff.2 rfl
    | some e' =>
      obtain ⟨text, tokens, hown, htoks, hform⟩ := denotes_some_iff.1 h'
      rw [hpar, hown]
      exact denotes_some_iff.2 ⟨text, tokens, presentCondition_present hown, htoks, hform⟩
  | some e =>
    obtain ⟨text, tokens, hpar, htoks, hform⟩ := denotes_some_iff.1 h
    cases e' with
    | none =>
      rw [hpar, denotes_none_iff.1 h']
      exact denotes_some_iff.2 ⟨text, tokens, presentCondition_present hpar, htoks, hform⟩
    | some e' =>
      obtain ⟨text', tokens', hown, htokens', hform'⟩ := denotes_some_iff.1 h'
      rw [hpar, hown]
      have hvalid : ∀ conj ∈ [(⟨"(".toList ++ text ++ ")".toList,
          .leftParen :: (tokens ++ [.rightParen]), e⟩ : Conjunct),
          ⟨"(".toList ++ text' ++ ")".toList, .leftParen :: (tokens' ++ [.rightParen]), e'⟩],
          conj.Valid := by
        exact forall_mem_cons.2 ⟨isUnit_paren htoks hform,
          forall_mem_singleton.2 (isUnit_paren htokens' hform')⟩
      have hjoined := Conjunct.denotes_joined hvalid
      have htext : Conjunct.joined [⟨"(".toList ++ text ++ ")".toList,
          .leftParen :: (tokens ++ [.rightParen]), e⟩, ⟨"(".toList ++ text' ++ ")".toList,
          .leftParen :: (tokens' ++ [.rightParen]), e'⟩] =
          "(".toList ++ text ++ ") And (".toList ++ text' ++ ")".toList := by
        simp [Conjunct.joined, joinTexts]
      rw [htext] at hjoined
      exact hjoined

/-! ## What a condition is worth -/

/-- All of the values. -/
def allOf (values : List Truth) : Truth := values.foldr Truth.and .true

lemma allOf_append (values others : List Truth) :
    allOf (values ++ others) = (allOf values).and (allOf others) := by
  induction values with
  | nil => exact (Truth.true_and _).symm
  | cons value values ih =>
    rw [cons_append, allOf, foldr_cons]
    change value.and (allOf (values ++ others)) = _
    rw [ih, ← Truth.and_assoc]
    rfl

section Worth

variable {Path : Type} (files : Files Path) (environment : ConditionEnvironment) (sourceFile : Path)

/-- What `Exists` says when there is room for the file it looks at. -/
def existsTruth (argument : ConditionValue) : Truth :=
  if argument.unknown then .unknown
  else
    match files.candidate (files.parent sourceFile) argument.value with
    | none => .unknown
    | some resolved =>
      if !files.allowsLocation (.resolved resolved.path resolved true) then .unknown
      else
        match files.status resolved with
        | .found _ => .true
        | .missing => .false
        | .unresolvable => .unknown

/-- What an expression is worth when there is room for the files it looks at. -/
def Expr.value : Expr → Truth
  | .compare equal left right =>
    ConditionParser.compare equal (expandConditionValue files environment sourceFile left)
      (expandConditionValue files environment sourceFile right)
  | .fileExists argument =>
    existsTruth files sourceFile (expandConditionValue files environment sourceFile argument)
  | .not inner => inner.value.not
  | .and left right => left.value.and right.value
  | .or left right => left.value.or right.value

end Worth

/-- The files an expression looks at. -/
def Expr.probes : Expr → Nat
  | .compare _ _ _ => 0
  | .fileExists _ => 1
  | .not inner => inner.probes
  | .and left right => left.probes + right.probes
  | .or left right => left.probes + right.probes

section Room

variable {Path : Type} [DecidableEq Path] {files : Files Path} {env : ConditionEnvironment}
  {file : Path} {metas : List Path}

lemma addMetadataFile_of_lt (h : metas.length < maxMetadataFiles) (path : Path) :
    (addMetadataFile metas path).1 = true ∧
      (addMetadataFile metas path).2.length ≤ metas.length + 1 := by
  unfold addMetadataFile
  split
  · simp
  · rw [if_neg (by omega)]
    simp

lemma existsValue_of_lt (h : metas.length < maxMetadataFiles) (argument : ConditionValue) :
    (ConditionParser.existsValue files file ⟨[], metas⟩ argument).1 =
        existsTruth files file argument ∧
      (ConditionParser.existsValue files file ⟨[], metas⟩
        argument).2.metadataFiles.length ≤ metas.length + 1 := by
  unfold ConditionParser.existsValue existsTruth
  by_cases hunk : argument.unknown = true
  · rw [if_pos hunk, if_pos hunk]
    exact ⟨rfl, Nat.le_succ _⟩
  rw [if_neg hunk, if_neg hunk]
  cases hcandidate : files.candidate (files.parent file) argument.value with
  | none => exact ⟨rfl, Nat.le_succ _⟩
  | some resolved =>
    dsimp only
    by_cases hallowed : (!files.allowsLocation (.resolved resolved.path resolved true)) = true
    · rw [if_pos hallowed, if_pos hallowed]
      exact ⟨rfl, Nat.le_succ _⟩
    rw [if_neg hallowed, if_neg hallowed]
    cases hstatus : files.status resolved with
    | found path =>
      obtain ⟨hadded, hlen⟩ := addMetadataFile_of_lt h path
      rcases hadd : addMetadataFile metas path with ⟨_ | _, after⟩
      · simp [hadd] at hadded
      · rw [hadd] at hlen
        exact ⟨rfl, hlen⟩
    | missing | unresolvable =>
      obtain ⟨hadded, hlen⟩ := addMetadataFile_of_lt h resolved.path
      rcases hadd : addMetadataFile metas resolved.path with ⟨_ | _, after⟩
      · simp [hadd] at hadded
      · rw [hadd] at hlen
        exact ⟨rfl, hlen⟩

/-- With room for its files an expression has its worth. -/
lemma Expr.eval_of_room (h : metas.length + e.probes ≤ maxMetadataFiles) :
    (e.eval files env file metas).1 = e.value files env file ∧
      (e.eval files env file metas).2.length ≤ metas.length + e.probes := by
  induction e generalizing metas with
  | compare _ left right => exact ⟨rfl, Nat.le_refl _⟩
  | fileExists =>
    rw [probes] at h
    exact existsValue_of_lt (by omega) _
  | not _ ih =>
    obtain ⟨hvalue, hlen⟩ := ih h
    exact ⟨congrArg Truth.not hvalue, hlen⟩
  | and left right ihLeft ihRight | or left right ihLeft ihRight =>
    rw [probes] at h
    have hroom : metas.length + left.probes ≤ maxMetadataFiles := by omega
    obtain ⟨hvalue, hlen⟩ := ihLeft hroom
    have hroom' : (left.eval files env file metas).2.length +
        right.probes ≤ maxMetadataFiles := by omega
    obtain ⟨hvalue', hlength'⟩ := ihRight hroom'
    rw [probes, eval, value, ← hvalue, ← hvalue']
    exact ⟨rfl, Nat.le_trans hlength' (by omega)⟩

end Room

/-- The words `Exists` among tokens. -/
def existsWords (tokens : List ConditionToken) : Nat :=
  tokens.countP fun token => token.isWordNamed "exists"

lemma existsWords_append (tokens others : List ConditionToken) :
    existsWords (tokens ++ others) = existsWords tokens + existsWords others :=
  countP_append ..

lemma existsWords_le_cons (token : ConditionToken) (tokens : List ConditionToken) :
    existsWords tokens ≤ existsWords (token :: tokens) := by
  unfold existsWords
  rw [countP_cons]
  omega

mutual

lemma probes_isOr {tokens : List ConditionToken} {e : Expr} (h : IsOr tokens e) :
    e.probes ≤ existsWords tokens := by
  match h with
  | .mk hfirst htail =>
    have hle := probes_isAnd hfirst
    have hle' := probes_orTail htail
    rw [existsWords_append]
    omega

lemma probes_orTail {tokens : List ConditionToken} {e res : Expr}
    (h : OrTail e tokens res) : res.probes ≤ e.probes + existsWords tokens := by
  match h with
  | .nil _ => exact Nat.le_add_right ..
  | .cons _ hnext htail =>
    have hle := probes_isAnd hnext
    have hle' := probes_orTail htail
    refine Nat.le_trans hle' (Nat.le_trans ?_ (Nat.add_le_add_left (existsWords_le_cons ..) _))
    rw [existsWords_append, probes]
    omega

lemma probes_isAnd {tokens : List ConditionToken} {e : Expr} (h : IsAnd tokens e) :
    e.probes ≤ existsWords tokens := by
  match h with
  | .mk hfirst htail =>
    have hle := probes_isPrimary hfirst
    have hle' := probes_andTail htail
    rw [existsWords_append]
    omega

lemma probes_andTail {tokens : List ConditionToken} {e res : Expr}
    (h : AndTail e tokens res) : res.probes ≤ e.probes + existsWords tokens := by
  match h with
  | .nil _ => exact Nat.le_add_right ..
  | .cons _ hnext htail =>
    have hle := probes_isPrimary hnext
    have hle' := probes_andTail htail
    refine Nat.le_trans hle' (Nat.le_trans ?_ (Nat.add_le_add_left (existsWords_le_cons ..) _))
    rw [existsWords_append, probes]
    omega

lemma probes_isPrimary {tokens : List ConditionToken} {e : Expr} (h : IsPrimary tokens e) :
    e.probes ≤ existsWords tokens := by
  match h with
  | .not h =>
    have hle := probes_isPrimary h
    rw [probes]
    exact Nat.le_trans hle (existsWords_le_cons ..)
  | .paren h =>
    have hle := probes_isOr h
    refine Nat.le_trans hle (Nat.le_trans ?_ (existsWords_le_cons ..))
    rw [existsWords_append]
    exact Nat.le_add_right ..
  | .fileExists hword _ =>
    simp only [probes, existsWords, countP_cons, hword, if_true]
    omega
  | .compare .. => exact Nat.zero_le _

end

/-- The files a condition looks at, at most. -/
def conditionProbes (condition : Option Text) : Nat :=
  match presentCondition condition with
  | none => 0
  | some text =>
    match tokenizeCondition text with
    | .error _ => 0
    | .ok tokens => existsWords tokens

/-- With room for its files a condition has the worth of its expression. -/
lemma conditionMatches_of_room {Path : Type} [DecidableEq Path] {files : Files Path}
    {env : ConditionEnvironment} {file : Path} (h : Denotes cond (some e))
    {metas : List Path} (hroom : metas.length + e.probes ≤ maxMetadataFiles) :
    (conditionMatches files env file cond metas).1 = e.value files env file := by
  rw [conditionMatches_of_denotes files env file h]
  exact (eval_of_room hroom).1

/-! ## Conditions spelled by several texts -/

def optionProbes : Option Expr → Nat
  | none => 0
  | some e => e.probes

/-- The condition is the conjunction of the expressions, whatever the files and the
properties are. -/
def Spells (condition : Option Text) (exprs : List Expr) : Prop :=
  ∃ e, Denotes condition e ∧ optionProbes e = (exprs.map probes).sum ∧
    ∀ (Path : Type) (files : Files Path) environment sourceFile,
      allOf (e.toList.map (value files environment sourceFile)) =
        allOf (exprs.map (value files environment sourceFile))

lemma Spells.of_denotes {e : Option Expr} (h : Denotes cond e) : Spells cond e.toList :=
  ⟨e, h, by cases e <;> simp [optionProbes], fun _ _ _ _ => rfl⟩

variable {exprs : List Expr}

lemma Spells.combine {parent own : Option Text} {others : List Expr} (h : Spells parent exprs)
    (h' : Spells own others) :
    Spells (combineConditions parent own) (exprs ++ others) := by
  obtain ⟨e, hden, hprobes, hvalue⟩ := h
  obtain ⟨e', hdenotes', hprobes', hvalue'⟩ := h'
  refine ⟨combineExpr e e', denotes_combine hden hdenotes', ?_, ?_⟩
  · rw [map_append, sum_append, ← hprobes, ← hprobes']
    cases e <;> cases e' <;> simp [combineExpr, optionProbes, probes]
  · intro Path files env file
    rw [map_append, allOf_append, ← hvalue, ← hvalue']
    cases e <;> cases e' <;> simp [combineExpr, allOf, value]

namespace Conjunct

lemma probes_conjunction (first : Conjunct) (rest : List Conjunct) :
    (conjunction first rest).probes = ((first :: rest).map fun conj => conj.expr.probes).sum := by
  unfold conjunction
  induction rest generalizing first with
  | nil => simp
  | cons second rest ih =>
    rw [foldl_cons]
    have hnext := ih ⟨[], [], first.expr.and second.expr⟩
    rw [hnext]
    simp [probes, Nat.add_assoc]

lemma value_conjunction {Path : Type} (files : Files Path) (env : ConditionEnvironment)
    (file : Path) (first : Conjunct) (rest : List Conjunct) :
    (conjunction first rest).value files env file = allOf ((first :: rest).map fun conj =>
        conj.expr.value files env file) := by
  unfold conjunction
  induction rest generalizing first with
  | nil => simp [allOf]
  | cons second rest ih =>
    rw [foldl_cons]
    have hnext := ih ⟨[], [], first.expr.and second.expr⟩
    rw [hnext]
    simp [allOf, value, Truth.and_assoc]

lemma spells_joined (h : ∀ conj ∈ first :: rest, conj.Valid) :
    Spells (some (joined (first :: rest))) ((first :: rest).map Conjunct.expr) := by
  refine ⟨some (conjunction first rest), denotes_joined h, ?_, ?_⟩
  · rw [optionProbes, probes_conjunction, map_map]
    rfl
  · intro Path files env file
    change ((conjunction first rest).value files env file).and .true = _
    rw [map_map, value_conjunction, Truth.and_true]
    rfl

end Conjunct

/-! ## Branches of a `Choose` -/

/-- The text of a branch that parses on its own. -/
def Reads (text : Text) (e : Expr) : Prop := Denotes (some text) (some e)

lemma Reads.tokens (h : Reads text e) :
    ∃ tokens, tokenizeCondition text = .ok tokens ∧ IsOr tokens e := by
  obtain ⟨trimmed, tokens, hpres, htoks, hform⟩ := denotes_some_iff.1 h
  obtain ⟨htext, -⟩ := Option.filter_eq_some_iff.1 hpres
  obtain rfl : trim text = trimmed := by simpa using htext
  exact ⟨tokens, tokenize_of_trim htoks, hform⟩

variable {branches : List Text}

/-- The conjuncts that negate the branches before. -/
lemma exists_negated (h : List.Forall₂ Reads branches exprs) :
    ∃ conjs : List Conjunct, (∀ conj ∈ conjs, conj.Valid) ∧ conjs.map Conjunct.text =
        branches.map (fun earlier => "!(".toList ++ earlier ++ ")".toList) ∧
      conjs.map Conjunct.expr = exprs.map Expr.not := by
  induction h with
  | nil => exact ⟨[], by simp, rfl, rfl⟩
  | @cons text e branches exprs hread _ ih =>
    obtain ⟨conjs, hvalid, htexts, hexprs⟩ := ih
    obtain ⟨tokens, htoks, hform⟩ := hread.tokens
    refine ⟨⟨_, _, e.not⟩ :: conjs, forall_mem_cons.2 ⟨isUnit_not htoks hform, hvalid⟩, ?_, ?_⟩
    · simp [htexts]
    · simp [hexprs]

lemma negatedBranches_eq_nil : negatedBranches branches = [] ↔ branches = [] := by
  cases branches with
  | nil => simp [negatedBranches, joinTexts]
  | cons _ rest => cases rest <;> simp [negatedBranches, joinTexts]

/-- The branches before: each one negated. -/
lemma spells_negated (h : List.Forall₂ Reads branches exprs) :
    Spells (if negatedBranches branches = [] then none else some (negatedBranches branches))
      (exprs.map Expr.not) := by
  obtain ⟨conjs, hvalid, htexts, hexprs⟩ := exists_negated h
  cases conjs with
  | nil =>
    obtain rfl : branches = [] := by simpa using htexts.symm
    rw [if_pos (negatedBranches_eq_nil.2 rfl), ← hexprs]
    exact Spells.of_denotes (e := none) (denotes_none_iff.2 rfl)
  | cons first rest =>
    have hne : negatedBranches branches ≠ [] := by
      rw [Ne, negatedBranches_eq_nil]
      rintro rfl
      cases htexts
    have hjoined : Conjunct.joined (first :: rest) = negatedBranches branches := by
      rw [Conjunct.joined, htexts, negatedBranches]
    rw [if_neg hne, ← hexprs, ← hjoined]
    exact Conjunct.spells_joined hvalid

lemma joinTexts_concat (sep : Text) {texts : List Text} (h : texts ≠ []) (last : Text) :
    joinTexts sep (texts ++ [last]) = joinTexts sep texts ++ sep ++ last := by
  induction texts with
  | nil => exact (h rfl).elim
  | cons first rest ih =>
    cases rest with
    | nil => simp [joinTexts]
    | cons second rest =>
      have hrest := ih (by simp)
      have hcons : ∀ others, joinTexts sep (first :: second :: others) =
          first ++ sep ++ joinTexts sep (second :: others) := fun _ => rfl
      simp only [cons_append, hcons] at hrest ⊢
      rw [hrest]
      simp

/-- The guard of a branch: none before it, and its own condition. -/
lemma spells_whenGuard {own : Text} (h : List.Forall₂ Reads branches exprs) (hown : Reads own e) :
    Spells (some (whenGuard branches own)) (exprs.map Expr.not ++ [e]) := by
  obtain ⟨conjs, hvalid, htexts, hexprs⟩ := exists_negated h
  obtain ⟨tokens, htoks, hform⟩ := hown.tokens
  -- the own condition comes last
  obtain ⟨last, hlast, htext, hexpr⟩ : ∃ last : Conjunct, last.Valid ∧
      last.text = "(".toList ++ own ++ ")".toList ∧ last.expr = e :=
    ⟨⟨_, _, e⟩, isUnit_paren htoks hform, rfl, rfl⟩
  have hall : ∀ conj ∈ conjs ++ [last], conj.Valid := by
    exact forall_mem_append.2 ⟨hvalid, forall_mem_singleton.2 hlast⟩
  have hjoined : Conjunct.joined (conjs ++ [last]) = whenGuard branches own := by
    rw [Conjunct.joined, map_append, htexts, whenGuard, map_singleton, htext]
    by_cases hnil : branches = []
    · subst hnil
      simp [negatedBranches, joinTexts]
    · rw [if_neg (by rwa [negatedBranches_eq_nil]), joinTexts_concat _ (by simpa using hnil)]
      rfl
  have hexprs' : (conjs ++ [last]).map Conjunct.expr = exprs.map Expr.not ++ [e] := by
    rw [map_append, hexprs, map_singleton, hexpr]
  rw [← hjoined, ← hexprs']
  cases hconjuncts : conjs ++ [last] with
  | nil => simp at hconjuncts
  | cons =>
    rw [hconjuncts] at hall
    exact Conjunct.spells_joined hall

end Lint4d.Msbuild
