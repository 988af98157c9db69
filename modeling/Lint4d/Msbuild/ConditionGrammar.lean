import Lint4d.Msbuild.Condition

/-!
# The grammar of conditions

The parser evaluates a condition while it reads it.  Here the two are taken apart:
`IsOr` says which tokens are a condition and with which expression, `Expr.eval` what an
expression is worth, and the parser accepts exactly the conditions, with the worth of
their expressions.
-/

namespace Lint4d.Msbuild

open List

open Lint4d.Lib (Truth)
open ConditionParser hiding compare
open Lint4d.Conditional (Text byteLen isWhitespace trim lower)

inductive Expr where
  | compare (equal : Bool) (left right : Text)
  | fileExists (argument : Text)
  | not (inner : Expr)
  | and (left right : Expr)
  | or (left right : Expr)
deriving DecidableEq

/-- Tokens a value is read from. -/
inductive IsValue : ConditionToken → Text → Prop where
  | word (text : Text) : IsValue (.word text) text
  | quoted (text : Text) : IsValue (.quoted text) text

def ConditionToken.isWordNamed (expected : String) : ConditionToken → Bool
  | .word text => isNamed text expected
  | _ => false

def comparisonToken (equal : Bool) : ConditionToken := if equal then .equals else .notEquals

mutual

/-- The tokens of an expression.  The tails carry the expression read so far, as the
loops of the parser do. -/
inductive IsOr : List ConditionToken → Expr → Prop where
  | mk {first tail e result} (hfirst : IsAnd first e)
      (htail : OrTail e tail result) : IsOr (first ++ tail) result

inductive OrTail : Expr → List ConditionToken → Expr → Prop where
  | nil (e : Expr) : OrTail e [] e
  | cons {token next tail e p result} (hword : token.isWordNamed "or") (hnext : IsAnd next p)
      (htail : OrTail (e.or p) tail result) : OrTail e (token :: (next ++ tail)) result

inductive IsAnd : List ConditionToken → Expr → Prop where
  | mk {first tail e result} (hfirst : IsPrimary first e)
      (htail : AndTail e tail result) : IsAnd (first ++ tail) result

inductive AndTail : Expr → List ConditionToken → Expr → Prop where
  | nil (e : Expr) : AndTail e [] e
  | cons {token next tail e p result} (hword : token.isWordNamed "and") (hnext : IsPrimary next p)
      (htail : AndTail (e.and p) tail result) : AndTail e (token :: (next ++ tail)) result

inductive IsPrimary : List ConditionToken → Expr → Prop where
  | not {tokens e} (h : IsPrimary tokens e) : IsPrimary (.bang :: tokens) e.not
  | paren {tokens e} (h : IsOr tokens e) : IsPrimary (.leftParen :: (tokens ++ [.rightParen])) e
  | fileExists {token value argument}
      (hword : token.isWordNamed "exists") (hvalue : IsValue value argument) :
      IsPrimary [token, .leftParen, value, .rightParen] (.fileExists argument)
  | compare (equal : Bool) {l r left right} (hl : IsValue l left)
      (hword : l.isWordNamed "exists" = false) (hr : IsValue r right) :
      IsPrimary [l, comparisonToken equal, r] (.compare equal left right)

end

section Evaluation

variable {Path : Type} (files : Files Path) (environment : ConditionEnvironment) (sourceFile : Path)
  {value : Truth}

/-- What an expression is worth; every `Exists` notes the file it looks at. -/
def Expr.eval [DecidableEq Path] : Expr → List Path → Truth × List Path
  | .compare equal left right, metadataFiles =>
    (ConditionParser.compare equal (expandConditionValue files environment sourceFile left)
      (expandConditionValue files environment sourceFile right), metadataFiles)
  | .fileExists argument, metadataFiles =>
    let (value, parser) := existsValue files sourceFile ⟨[], metadataFiles⟩
      (expandConditionValue files environment sourceFile argument)
    (value, parser.metadataFiles)
  | .not inner, metadataFiles =>
    let (value, metadataFiles) := inner.eval metadataFiles
    (value.not, metadataFiles)
  | .and left right, metadataFiles =>
    let (value, metadataFiles) := left.eval metadataFiles
    let (next, metadataFiles) := right.eval metadataFiles
    (value.and next, metadataFiles)
  | .or left right, metadataFiles =>
    let (value, metadataFiles) := left.eval metadataFiles
    let (next, metadataFiles) := right.eval metadataFiles
    (value.or next, metadataFiles)

variable {tokens : List ConditionToken} {metas : List Path} (env : ConditionEnvironment) (file : Path)

namespace ConditionParser

/-! ## Small steps of the parser -/

@[simp] lemma advance_mk (token : ConditionToken) :
    (⟨token :: tokens, metas⟩ : ConditionParser Path).advance = ⟨tokens, metas⟩ := rfl

@[simp] lemma peek_mk (token exp : ConditionToken) :
    (⟨token :: tokens, metas⟩ : ConditionParser Path).peek exp = decide (token = exp) := by
  simp [peek]

@[simp] lemma peekWord_mk (token : ConditionToken) (exp : String) :
    (⟨token :: tokens, metas⟩ : ConditionParser Path).peekWord exp = token.isWordNamed exp := by
  cases token <;> rfl

variable {token : ConditionToken}

lemma parseValue_mk {text : Text} (h : IsValue token text) :
    parseValue files env file ⟨token :: tokens, metas⟩ =
      (.ok (expandConditionValue files env file text), ⟨tokens, metas⟩) := by
  cases h <;> rfl

variable {files env file} {parser after : ConditionParser Path}

lemma tokens_of_peek (h : parser.peek token = true) :
    parser.tokens = token :: parser.advance.tokens := by
  obtain ⟨tokens, _⟩ := parser
  cases tokens with
  | nil => simp [peek] at h
  | cons first =>
    obtain rfl : first = token := by simpa using h
    rfl

lemma tokens_of_peekWord {exp : String} (h : parser.peekWord exp = true) :
    ∃ token, token.isWordNamed exp = true ∧ parser.tokens = token :: parser.advance.tokens := by
  obtain ⟨tokens, _⟩ := parser
  cases tokens with
  | nil => cases h
  | cons first => exact ⟨first, by simpa using h, rfl⟩

lemma parseValue_ok {value : ConditionValue}
    (h : parseValue files env file parser = (.ok value, after)) :
    ∃ token text, IsValue token text ∧ parser.tokens = token :: after.tokens ∧
      value = expandConditionValue files env file text ∧
      after.metadataFiles = parser.metadataFiles := by
  obtain ⟨tokens, _⟩ := parser
  unfold parseValue at h
  split at h
  · cases h
  · rename_i value' rest heq
    cases h
    cases heq
    exact ⟨_, _, .word value', rfl, rfl, rfl⟩
  · rename_i value' rest heq
    cases h
    cases heq
    exact ⟨_, _, .quoted value', rfl, rfl, rfl⟩
  · cases h

variable [DecidableEq Path]

lemma existsValue_tokens (parser : ConditionParser Path) (argument : ConditionValue) :
    existsValue files file parser argument =
      ((existsValue files file ⟨[], parser.metadataFiles⟩ argument).1, ⟨parser.tokens,
          (existsValue files file ⟨[], parser.metadataFiles⟩ argument).2.metadataFiles⟩) := by
  unfold existsValue
  split
  · rfl
  · split
    · rfl
    · split
      · rfl
      · dsimp only
        split <;> rfl

/-! ## Every condition is accepted -/

/-- A token after which no operator of this level follows. -/
def Stops (words : List String) : List ConditionToken → Prop
  | [] => True
  | token :: _ => ∀ word ∈ words, token.isWordNamed word = false

lemma Stops.mono {words others : List String} (h : Stops words tokens)
    (hsub : ∀ word ∈ others, word ∈ words) : Stops others tokens := by
  cases tokens with
  | nil => trivial
  | cons => exact fun word hword => h word (hsub word hword)

omit [DecidableEq Path] in
lemma Stops.peekWord {word : String} {words : List String} (h : Stops words tokens)
    (hword : word ∈ words) :
    (⟨tokens, metas⟩ : ConditionParser Path).peekWord word = false := by
  cases tokens with
  | nil => rfl
  | cons => simpa using h word hword

lemma isWordNamed_and_of_or (h : token.isWordNamed "or" = true) :
    token.isWordNamed "and" = false := by
  cases token with
  | word =>
    simp only [ConditionToken.isWordNamed, isNamed, eqIgnoreAsciiCase, beq_iff_eq,
      beq_eq_false_iff_ne] at h ⊢
    rw [h]
    decide
  | _ => rfl

lemma stops_orTail {e res : Expr} {tail rest : List ConditionToken} (h : OrTail e tail res)
    (hrest : Stops ["or", "and"] rest) : Stops ["and"] (tail ++ rest) := by
  cases h with
  | nil => exact hrest.mono (by simp)
  | cons hword => exact forall_mem_singleton.2 (isWordNamed_and_of_or hword)

mutual

lemma parseOr_of_isOr {tokens : List ConditionToken} {e : Expr} (h : IsOr tokens e)
    {rest : List ConditionToken} {m : List Path} {fuel : Nat} (hrest : Stops ["or", "and"] rest)
    (hfuel : 3 * (tokens ++ rest).length + 3 ≤ fuel) :
    parseOr files env file fuel ⟨tokens ++ rest, m⟩ = (.ok (e.eval files env file m).1,
        ⟨rest, (e.eval files env file m).2⟩) := by
  cases h with
  | @mk _ _ e _ hfirst htail =>
    match fuel, hfuel with
    | fuel + 1, hfuel =>
      rw [append_assoc] at hfuel ⊢
      simp only [length_append] at hfuel
      rw [parseOr, parseAnd_of_isAnd hfirst (stops_orTail htail hrest)
        (by simp; omega)]
      exact orLoop_of_orTail htail rfl hrest (by simp; omega)

lemma orLoop_of_orTail {tokens : List ConditionToken} {e res : Expr}
    (h : OrTail e tokens res) {rest : List ConditionToken} {m m' : List Path} {v : Truth}
    (hv : e.eval files env file m = (v, m')) {fuel : Nat}
    (hrest : Stops ["or", "and"] rest) (hfuel : 3 * (tokens ++ rest).length + 1 ≤ fuel) :
    orLoop files env file fuel v ⟨tokens ++ rest, m'⟩ = (.ok (res.eval files env file m).1,
        ⟨rest, (res.eval files env file m).2⟩) := by
  match fuel, hfuel with
  | fuel + 1, hfuel =>
    cases h with
    | nil =>
      rw [orLoop, nil_append, hrest.peekWord (by simp), hv]
      rfl
    | @cons _ _ _ e p res hword hnext htail =>
      rw [cons_append, append_assoc] at hfuel ⊢
      simp only [length_cons, length_append] at hfuel
      rw [orLoop, peekWord_mk, if_pos hword, advance_mk,
        parseAnd_of_isAnd hnext (stops_orTail htail hrest)
          (by simp; omega)]
      refine orLoop_of_orTail htail ?_ hrest (by simp; omega)
      rw [Expr.eval, hv]

lemma parseAnd_of_isAnd {tokens : List ConditionToken} {e : Expr} (h : IsAnd tokens e)
    {rest : List ConditionToken} {m : List Path} {fuel : Nat} (hrest : Stops ["and"] rest)
    (hfuel : 3 * (tokens ++ rest).length + 2 ≤ fuel) :
    parseAnd files env file fuel ⟨tokens ++ rest, m⟩ = (.ok (e.eval files env file m).1,
        ⟨rest, (e.eval files env file m).2⟩) := by
  cases h with
  | @mk _ _ e _ hfirst htail =>
    match fuel, hfuel with
    | fuel + 1, hfuel =>
      rw [append_assoc] at hfuel ⊢
      simp only [length_append] at hfuel
      rw [parseAnd, parsePrimary_of_isPrimary hfirst (by simp; omega)]
      exact andLoop_of_andTail htail rfl hrest (by simp; omega)

lemma andLoop_of_andTail {tokens : List ConditionToken} {e res : Expr}
    (h : AndTail e tokens res) {rest : List ConditionToken} {m m' : List Path} {v : Truth}
    (hv : e.eval files env file m = (v, m')) {fuel : Nat}
    (hrest : Stops ["and"] rest) (hfuel : 3 * (tokens ++ rest).length + 1 ≤ fuel) :
    andLoop files env file fuel v ⟨tokens ++ rest, m'⟩ = (.ok (res.eval files env file m).1,
        ⟨rest, (res.eval files env file m).2⟩) := by
  match fuel, hfuel with
  | fuel + 1, hfuel =>
    cases h with
    | nil =>
      rw [andLoop, nil_append, hrest.peekWord (by simp), hv]
      rfl
    | @cons _ _ _ e p res hword hnext htail =>
      rw [cons_append, append_assoc] at hfuel ⊢
      simp only [length_cons, length_append] at hfuel
      rw [andLoop, peekWord_mk, if_pos hword, advance_mk,
        parsePrimary_of_isPrimary hnext (by simp; omega)]
      refine andLoop_of_andTail htail ?_ hrest (by simp; omega)
      rw [Expr.eval, hv]

lemma parsePrimary_of_isPrimary {tokens : List ConditionToken} {e : Expr}
    (h : IsPrimary tokens e) {rest : List ConditionToken} {m : List Path} {fuel : Nat}
    (hfuel : 3 * (tokens ++ rest).length + 1 ≤ fuel) :
    parsePrimary files env file fuel ⟨tokens ++ rest, m⟩ = (.ok (e.eval files env file m).1,
        ⟨rest, (e.eval files env file m).2⟩) := by
  match fuel, hfuel with
  | fuel + 1, hfuel =>
    cases h with
    | @not tokens e h =>
      simp only [cons_append, length_cons] at hfuel
      rw [cons_append, parsePrimary, peek_mk, if_pos (by simp), advance_mk,
        parsePrimary_of_isPrimary h (by omega)]
      rfl
    | @paren tokens e h =>
      rw [cons_append, append_assoc] at hfuel ⊢
      simp only [length_cons] at hfuel
      have hstops : Stops ["or", "and"] ([ConditionToken.rightParen] ++ rest) := fun _ _ => rfl
      rw [parsePrimary, peek_mk, if_neg (by simp), peek_mk, if_pos (by simp), advance_mk,
        parseOr_of_isOr h hstops (by omega)]
      simp
    | @fileExists token _ _ hword hvalue =>
      have hother : token ≠ .bang ∧ token ≠ .leftParen := by
        constructor <;> rintro rfl <;> cases hword
      rw [cons_append, parsePrimary, peek_mk, if_neg (by simpa using hother.1), peek_mk,
        if_neg (by simpa using hother.2), peekWord_mk, if_pos hword, advance_mk]
      simp only [parseExists, cons_append, nil_append, peek_mk, decide_true,
        Bool.not_true, Bool.false_eq_true, if_false, advance_mk,
        parseValue_mk files env file hvalue]
      rw [existsValue_tokens]
      rfl
    | @compare equal l r _ _ hl hword hr =>
      have hother : l ≠ .bang ∧ l ≠ .leftParen := by
        constructor <;> rintro rfl <;> cases hl
      rw [cons_append, parsePrimary, peek_mk, if_neg (by simpa using hother.1), peek_mk,
        if_neg (by simpa using hother.2), peekWord_mk, if_neg (by simpa using hword)]
      simp only [parseComparison, cons_append, nil_append, peek_mk,
        advance_mk, parseValue_mk files env file hl,
        parseValue_mk files env file hr]
      cases equal <;> simp [comparisonToken, Expr.eval]

end

/-! ## Only conditions are accepted -/

/-- A run of the parser has read the tokens of an expression with the value it returns. -/
def Reads (form : List ConditionToken → Expr → Prop) (files : Files Path)
    (environment : ConditionEnvironment) (sourceFile : Path) (parser : ConditionParser Path)
    (value : Truth) (after : ConditionParser Path) : Prop :=
  ∃ tokens e, form tokens e ∧ parser.tokens = tokens ++ after.tokens ∧
    e.eval files environment sourceFile parser.metadataFiles = (value, after.metadataFiles)

/-- A loop of the parser has read a tail, whatever the expression before it is. -/
def ReadsTail (form : Expr → List ConditionToken → Expr → Prop) (files : Files Path)
    (environment : ConditionEnvironment) (sourceFile : Path) (before : Truth)
    (parser : ConditionParser Path) (value : Truth) (after : ConditionParser Path) : Prop :=
  ∃ tokens, parser.tokens = tokens ++ after.tokens ∧
    ∀ e m, e.eval files environment sourceFile m = (before, parser.metadataFiles) →
      ∃ result, form e tokens result ∧
        result.eval files environment sourceFile m = (value, after.metadataFiles)

lemma Reads.append {first whole : List ConditionToken → Expr → Prop}
    {tail : Expr → List ConditionToken → Expr → Prop} {next : Truth} {middle : ConditionParser Path}
    (h : Reads first files env file parser next middle)
    (htail : ReadsTail tail files env file next middle value after)
    (hmk : ∀ {used rest e res}, first used e → tail e rest res → whole (used ++ rest) res) :
    Reads whole files env file parser value after := by
  obtain ⟨used, e, hform, hused, heval⟩ := h
  obtain ⟨rest, hrest, hres⟩ := htail
  obtain ⟨res, hform', heval'⟩ := hres e _ heval
  exact ⟨used ++ rest, res, hmk hform hform', by rw [hused, hrest, append_assoc], heval'⟩

lemma parseExists_ok (hword : token.isWordNamed "exists" = true)
    (htoks : parser.tokens = token :: parser.advance.tokens)
    (h : parser.advance.parseExists files env file = (.ok value, after)) :
    Reads IsPrimary files env file parser value after := by
  unfold parseExists at h
  split at h
  · cases h
  · rename_i hparen
    split at h
    · cases h
    · rename_i argument middle hvalue
      split at h
      · cases h
      · rename_i hclose
        obtain ⟨valueToken, text, hform, hrest, rfl, hmeta⟩ := parseValue_ok hvalue
        rw [existsValue_tokens] at h
        cases h
        refine ⟨[token, .leftParen, valueToken, .rightParen], .fileExists text,
          .fileExists hword hform, ?_, ?_⟩
        · rw [htoks, tokens_of_peek (by simpa using hparen), hrest,
            tokens_of_peek (by simpa using hclose)]
          rfl
        · have hsame : middle.advance.metadataFiles = parser.metadataFiles := hmeta
          rw [hsame]
          rfl

lemma parseComparison_ok (hword : parser.peekWord "exists" = false)
    (h : parser.parseComparison files env file = (.ok value, after)) :
    Reads IsPrimary files env file parser value after := by
  unfold parseComparison at h
  split at h
  · cases h
  · rename_i left middle hleft
    obtain ⟨l, _, hl, htoks, rfl, hmeta⟩ := parseValue_ok hleft
    split at h
    · rename_i hoperator
      split at h
      · cases h
      · rename_i right last hright
        obtain ⟨r, _, hr, hrest, rfl, hmeta'⟩ := parseValue_ok hright
        cases h
        have hmiddle : middle.tokens =
            comparisonToken (middle.peek .equals) :: middle.advance.tokens := by
          cases hequals : middle.peek .equals with
          | true => exact tokens_of_peek hequals
          | false =>
            rw [hequals, Bool.false_or] at hoperator
            exact tokens_of_peek hoperator
        have hnotExists : l.isWordNamed "exists" = false := by
          obtain ⟨tokens, _⟩ := parser
          subst htoks
          simpa using hword
        refine ⟨[l, comparisonToken (middle.peek .equals), r], _,
          .compare (middle.peek .equals) hl hnotExists hr, ?_, ?_⟩
        · rw [htoks, hmiddle, hrest]
          rfl
        · have hsame : after.metadataFiles = parser.metadataFiles := hmeta'.trans hmeta
          rw [hsame]
          rfl
    · cases h

/-- All five functions at once, by induction on the fuel. -/
lemma parse_reads (fuel : Nat) :
    (∀ parser value after, parseOr files env file fuel parser = (.ok value, after) →
      Reads IsOr files env file parser value after) ∧
    (∀ before parser value after, orLoop files env file fuel before parser = (.ok value, after) →
      ReadsTail OrTail files env file before parser value after) ∧
    (∀ parser value after, parseAnd files env file fuel parser = (.ok value, after) →
      Reads IsAnd files env file parser value after) ∧
    (∀ before parser value after, andLoop files env file fuel before parser = (.ok value, after) →
      ReadsTail AndTail files env file before parser value after) ∧
    (∀ parser value after, parsePrimary files env file fuel parser = (.ok value, after) →
      Reads IsPrimary files env file parser value after) := by
  -- on the fuel, the five mutual parsers together
  induction fuel with
  | zero =>
    refine ⟨?_, ?_, ?_, ?_, ?_⟩ <;> intros <;> rename_i h <;>
      simp [parseOr, orLoop, parseAnd, andLoop, parsePrimary] at h
  | succ fuel ih =>
    obtain ⟨ihOr, ihOrLoop, ihAnd, ihAndLoop, ihPrimary⟩ := ih
    refine ⟨?_, ?_, ?_, ?_, ?_⟩
    · intro parser value after h
      rw [parseOr] at h
      split at h
      · cases h
      · rename_i first middle hfirst
        exact (ihAnd _ _ _ hfirst).append (ihOrLoop _ _ _ _ h) .mk
    · intro before parser value after h
      rw [orLoop] at h
      split at h
      · rename_i hword
        obtain ⟨token, hnamed, htoken⟩ := tokens_of_peekWord hword
        split at h
        · cases h
        · rename_i next middle hnext
          obtain ⟨tokens, p, hform, htoks, heval⟩ := ihAnd _ _ _ hnext
          obtain ⟨tail, htail, hres⟩ := ihOrLoop _ _ _ _ h
          -- left associative: the loop goes on with what it has read so far
          refine ⟨token :: (tokens ++ tail), ?_, ?_⟩
          · rw [htoken, htoks, htail, cons_append, append_assoc]
          · intro e m he
            obtain ⟨res, hform', heval'⟩ := hres (e.or p) m (by
              rw [Expr.eval, he]
              exact congrArg (fun r => (before.or r.1, r.2)) heval)
            exact ⟨res, .cons hnamed hform hform', heval'⟩
      · cases h
        exact ⟨[], rfl, fun e m he => ⟨e, .nil e, he⟩⟩
    · intro parser value after h
      rw [parseAnd] at h
      split at h
      · cases h
      · rename_i first middle hfirst
        exact (ihPrimary _ _ _ hfirst).append (ihAndLoop _ _ _ _ h) .mk
    · intro before parser value after h
      rw [andLoop] at h
      split at h
      · rename_i hword
        obtain ⟨token, hnamed, htoken⟩ := tokens_of_peekWord hword
        split at h
        · cases h
        · rename_i next middle hnext
          obtain ⟨tokens, p, hform, htoks, heval⟩ := ihPrimary _ _ _ hnext
          obtain ⟨tail, htail, hres⟩ := ihAndLoop _ _ _ _ h
          refine ⟨token :: (tokens ++ tail), ?_, ?_⟩
          · rw [htoken, htoks, htail, cons_append, append_assoc]
          · intro e m he
            obtain ⟨res, hform', heval'⟩ := hres (e.and p) m (by
              rw [Expr.eval, he]
              exact congrArg (fun r => (before.and r.1, r.2)) heval)
            exact ⟨res, .cons hnamed hform hform', heval'⟩
      · cases h
        exact ⟨[], rfl, fun e m he => ⟨e, .nil e, he⟩⟩
    · intro parser value after h
      rw [parsePrimary] at h
      split at h
      · -- `!`, then a parenthesis, then `Exists`, then a comparison
        rename_i hbang
        split at h
        · cases h
        · rename_i inner middle hinner
          cases h
          obtain ⟨tokens, e, hform, htoks, heval⟩ := ihPrimary _ _ _ hinner
          refine ⟨.bang :: tokens, e.not, .not hform, ?_, ?_⟩
          · rw [tokens_of_peek hbang, htoks, cons_append]
          · exact congrArg (fun r => (Truth.not r.1, r.2)) heval
      · split at h
        · rename_i hparen
          split at h
          · cases h
          · rename_i inner middle hinner
            split at h
            · cases h
            · rename_i hclose
              cases h
              obtain ⟨tokens, e, hform, htoks, heval⟩ := ihOr _ _ _ hinner
              refine ⟨.leftParen :: (tokens ++ [.rightParen]), e, .paren hform, ?_, heval⟩
              rw [tokens_of_peek hparen, htoks, tokens_of_peek (by simpa using hclose)]
              simp
        · split at h
          · rename_i hword
            obtain ⟨token, hnamed, htoken⟩ := tokens_of_peekWord hword
            exact parseExists_ok hnamed htoken h
          · rename_i hword
            exact parseComparison_ok (by simpa using hword) h

end ConditionParser

/-! ## Conditions as texts -/

/-- The condition is blank or the text of the expression. -/
def Denotes (condition : Option Text) (e : Option Expr) : Prop :=
  match presentCondition condition, e with
  | none, none => True
  | some text, some e => ∃ tokens, tokenizeCondition text = .ok tokens ∧ IsOr tokens e
  | _, _ => False

/-- A blank condition holds. -/
def evalCondition [DecidableEq Path] (e : Option Expr) (metadataFiles : List Path) :
    Truth × List Path :=
  match e with
  | none => (.true, metadataFiles)
  | some e => e.eval files environment sourceFile metadataFiles

variable [DecidableEq Path]

lemma parse_of_isOr {e : Expr} (h : IsOr tokens e) (m : List Path) :
    parse files env file ⟨tokens, m⟩ = (.ok (e.eval files env file m).1,
        ⟨[], (e.eval files env file m).2⟩) := by
  have hparse : parseOr files env file
      (3 * (tokens ++ []).length + 3) ⟨tokens ++ [], m⟩ = _ :=
    parseOr_of_isOr h trivial le_rfl
  rw [append_nil] at hparse
  rw [parse, hparse]
  simp

lemma conditionMatches_of_denotes {cond : Option Text} {e : Option Expr}
    (h : Denotes cond e) (m : List Path) :
    conditionMatches files env file cond m = evalCondition files env file e m := by
  unfold Denotes at h
  unfold conditionMatches evalCondition
  split at h
  · rename_i hpres
    rw [hpres]
  · rename_i text e hpres
    obtain ⟨_, htoks, hform⟩ := h
    rw [hpres]
    dsimp only
    rw [htoks]
    dsimp only
    rw [parse_of_isOr files env file hform]
  · exact h.elim

lemma isOr_of_parse {m : List Path} {after : ConditionParser Path}
    (h : parse files env file ⟨tokens, m⟩ = (.ok value, after)) :
    ∃ e, IsOr tokens e := by
  unfold parse at h
  split at h
  · cases h
  · rename_i value' middle hor
    split at h
    · cases h
    · rename_i hend
      obtain ⟨used, e, hform, hused, -⟩ := (parse_reads _).1 _ _ _ hor
      have hnil : middle.tokens = [] := by simpa using hend
      obtain rfl : tokens = used := by simpa [hnil] using hused
      exact ⟨e, hform⟩

/-- The parser reads the condition to its end. -/
def accepts (condition : Option Text) : Bool :=
  match presentCondition condition with
  | none => true
  | some text =>
    match tokenizeCondition text with
    | .error _ => false
    | .ok tokens => (parse files environment sourceFile ⟨tokens, []⟩).1.isOk

/-- The parser evaluates while it reads, but what it accepts depends on the text only. -/
lemma accepts_iff (cond : Option Text) :
    accepts files env file cond = true ↔ ∃ e, Denotes cond e := by
  unfold accepts Denotes
  cases hpres : presentCondition cond with
  | none => exact ⟨fun _ => ⟨none, trivial⟩, fun _ => rfl⟩
  | some text =>
    dsimp only
    cases htoks : tokenizeCondition text with
    | error =>
      refine ⟨fun h => (Bool.false_ne_true h).elim, ?_⟩
      rintro ⟨_ | e, h⟩
      · exact h.elim
      · obtain ⟨tokens, h, -⟩ := h
        cases htoks.symm.trans h
    | ok tokens =>
      constructor
      · intro h
        rcases hparse : parse files env file ⟨tokens, []⟩ with
          ⟨_ | _, _⟩
        · simp [hparse, Except.isOk, Except.toBool] at h
        · obtain ⟨e, hform⟩ := isOr_of_parse files env file hparse
          exact ⟨some e, tokens, htoks, hform⟩
      · rintro ⟨_ | e, h⟩
        · exact h.elim
        · obtain ⟨_, htokens', hform⟩ := h
          cases htoks.symm.trans htokens'
          dsimp only
          rw [parse_of_isOr files env file hform]
          rfl

/-- A condition is worth what the expression it is written as is worth, whatever the properties
and files are; a text that is no expression is unknown. -/
theorem condition_evaluated_as_written (cond : Option Text) :
    (∃ e, Denotes cond e ∧ ∀ (files : Files Path) env file metas,
      conditionMatches files env file cond metas = evalCondition files env file e metas) ∨
    (∀ e, ¬ Denotes cond e) ∧ ∀ (files : Files Path) env file metas,
      (conditionMatches files env file cond metas).1 = .unknown := by
  by_cases hdenotes : ∃ e, Denotes cond e
  · obtain ⟨e, he⟩ := hdenotes
    exact .inl ⟨e, he, fun files env file => conditionMatches_of_denotes files env file he⟩
  refine .inr ⟨not_exists.1 hdenotes, fun files env file metas => ?_⟩
  unfold conditionMatches
  split
  · next hblank => exact absurd ⟨none, by simp [Denotes, hblank]⟩ hdenotes
  · next htext =>
    split
    · rfl
    · next tokens htokens =>
      split
      · rfl
      · next hparse =>
        obtain ⟨e, hform⟩ := isOr_of_parse files env file hparse
        exact absurd ⟨some e, by simpa [Denotes, htext] using ⟨tokens, htokens, hform⟩⟩ hdenotes

end Evaluation

/-- Files of which none is there. -/
def Files.none : Files Unit where
  parent := id
  display _ := []
  candidate _ _ := Option.none
  status _ := .unresolvable
  allowsLocation _ := false
  allowsEntry _ := false

instance (condition : Option Text) : Decidable (∃ e, Denotes condition e) :=
  decidable_of_iff _ (accepts_iff Files.none ⟨∅, ∅, false, false⟩ () condition)

end Lint4d.Msbuild
