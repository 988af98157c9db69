import Lint4d.Lib.Kleene

/-!
# Directives of a Pascal source

The text between `{$` and `}` is a directive: a keyword and its arguments.  The
conditions of `IFDEF`, `IFNDEF`, and of `IF` and `ELSEIF` over `defined(..)`,
`not`, `and` and `or` are read into a tree; other conditions (`IFOPT`, numbers,
comparisons, constants) are outside this fragment.

Text is a list of characters.  The source compares bytes only with ASCII bytes,
which no other character of a UTF-8 text contains.
-/

namespace Lint4d.Conditional

open Lint4d.Lib

abbrev Text := List Char

/-! ## Characters -/

def isAsciiWhitespace (c : Char) : Bool :=
  c == ' ' || c == '\t' || c == '\n' || c == '\x0c' || c == '\r'

/-- Unicode white space, which trimming a string removes. -/
def isWhitespace (c : Char) : Bool :=
  let n := c.toNat
  (0x09 ≤ n && n ≤ 0x0d) || n == 0x20 || n == 0x85 || n == 0xa0 || n == 0x1680 ||
    (0x2000 ≤ n && n ≤ 0x200a) || n == 0x2028 || n == 0x2029 || n == 0x202f || n == 0x205f ||
    n == 0x3000

def trimStart (text : Text) : Text := text.dropWhile isWhitespace

def trimEnd (text : Text) : Text := (text.reverse.dropWhile isWhitespace).reverse

def trim (text : Text) : Text := trimEnd (trimStart text)

def lower (text : Text) : Text := text.map Char.toLower

def upper (text : Text) : Text := text.map Char.toUpper

/-- Split at every separator; there is always one part more than separators. -/
def splitAt (separator : Char → Bool) : Text → List Text
  | [] => [[]]
  | c :: rest =>
    if separator c then [] :: splitAt separator rest
    else
      match splitAt separator rest with
      | [] => [[c]]
      | part :: parts => (c :: part) :: parts

/-! ## Symbols -/

def isSymbolChar (c : Char) : Bool := c.isAlphanum || c == '_'

/-- The name of a symbol: trimmed, without `&`, and not an identifier alone, for it may start with
a digit and contain dots. -/
def canonicalSymbolRef (symbol : Text) : Option Text :=
  match (trim symbol).dropWhile (· == '&') with
  | [] => none
  | first :: rest =>
    if isSymbolChar first && rest.all (fun c => isSymbolChar c || c == '.') then
      some (first :: rest)
    else none

def canonicalSymbol (symbol : Text) : Option Text := (canonicalSymbolRef symbol).map upper

/-- A symbol in the form in which facts about it are stored. -/
def IsSymbol (symbol : Text) : Prop := canonicalSymbol symbol = some symbol

lemma IsSymbol.isSome {symbol : Text} (h : IsSymbol symbol) : (canonicalSymbol symbol).isSome :=
  Option.isSome_iff_exists.mpr ⟨symbol, h⟩

/-! ## Keywords and arguments -/

inductive DirectiveKind where
  | include
  | conditionalStart
  | conditionalMiddle
  | conditionalEnd
  | define
  | undef
  /-- Method information, harmless directives and all others: none changes a define. -/
  | other
deriving DecidableEq, Repr

def isNumericSwitch (member : Text) : Bool :=
  match member with
  | letter :: digits =>
    if letter == 'A' || letter == 'a' then
      ["1".toList, "2".toList, "4".toList, "8".toList, "16".toList].contains digits
    else if letter == 'Z' || letter == 'z' then
      ["1".toList, "2".toList, "4".toList].contains digits
    else false
  | [] => false

def isSwitch (member : Text) : Bool :=
  match member with
  | [letter, sign] => (letter.isAlpha && (sign == '+' || sign == '-')) || isNumericSwitch member
  | _ => isNumericSwitch member

variable (body : Text)

/-- A list of switches such as `R+,Q-`. -/
def isSwitchList : Bool :=
  body.contains ',' && ((splitAt (· == ',') body).map trim).all isSwitch

def directiveKeyword : Option Text :=
  match splitAt (fun c => isAsciiWhitespace c || c == ':') (trimStart body) with
  | [] => none
  | keyword :: _ => if keyword.isEmpty then none else some keyword

def directiveArguments : Text :=
  match directiveKeyword (trimStart body) with
  | none => []
  | some keyword => trimStart ((trimStart body).drop keyword.length)

def keywordIs (keyword : Text) (words : List String) : Bool :=
  words.any fun word => keyword == word.toList

def directiveKind : DirectiveKind :=
  if isSwitchList body then .other
  else
    let keyword := lower ((directiveKeyword body).getD [])
    if keywordIs keyword ["i", "include"] then .include
    else if keywordIs keyword ["if", "ifdef", "ifndef", "ifopt"] then .conditionalStart
    else if keywordIs keyword ["else", "elseif", "elif"] then .conditionalMiddle
    else if keywordIs keyword ["endif", "ifend"] then .conditionalEnd
    else if keywordIs keyword ["define"] then .define
    else if keywordIs keyword ["undef"] then .undef
    else .other

def isElseDirective : Bool :=
  match directiveKeyword body with
  | none => false
  | some keyword => lower keyword == "else".toList

/-- The symbol of a `DEFINE`, `UNDEF`, `IFDEF` or `IFNDEF`: the leading identifier of its
arguments; what follows it is ignored. -/
def directiveSymbol : Option Text :=
  let argument := trim (directiveArguments body)
  let symbol := match argument with
    | '&' :: rest => rest
    | _ => argument
  let name := symbol.takeWhile isSymbolChar
  if name.isEmpty then none else canonicalSymbol name

/-! ## Conditions -/

inductive Cond where
  | defined (symbol : Text)
  /-- A call of `defined` with a dotted symbol, which the compiler rejects. -/
  | dotted (symbol : Text)
  | not (cond : Cond)
  | and (left right : Cond)
  | or (left right : Cond)
deriving DecidableEq, Repr

inductive ExprToken where
  | identifier (name : Text)
  | lparen
  | rparen
  /-- A number, string, operator or invalid character. -/
  | other
deriving DecidableEq, Repr

/-- The text before and after the first occurrence of a character. -/
def breakAt (wanted : Char) : Text → Option (Text × Text)
  | [] => none
  | c :: rest =>
    if c = wanted then some ([], rest)
    else (breakAt wanted rest).map fun (before, after) => (c :: before, after)

/-- The text before and after the first `*)`. -/
def breakAtParenClose : Text → Option (Text × Text)
  | [] => none
  | c :: rest =>
    if c = '*' ∧ rest.head? = some ')' then some ([], rest.tail)
    else (breakAtParenClose rest).map fun (before, after) => (c :: before, after)

def skipLineComment (text : Text) : Text := text.dropWhile (· != '\n')

/-- The tokens of an expression; a directive or an unfinished comment inside it ends the list. -/
def tokenizeExpression : Nat → Text → List ExprToken
  | 0, _ => []
  | _ + 1, [] => []
  | fuel + 1, c :: rest =>
    if c = '\x7b' then
      if rest.head? = some '$' then [.other]
      else
        match breakAt '\x7d' rest with
        | none => [.other]
        | some (_, after) => tokenizeExpression fuel after
    else if c = '(' ∧ rest.head? = some '*' then
      if rest.tail.head? = some '$' then [.other]
      else
        match breakAtParenClose rest.tail with
        | none => [.other]
        | some (_, after) => tokenizeExpression fuel after
    else if c = '/' ∧ rest.head? = some '/' then tokenizeExpression fuel (skipLineComment rest.tail)
    else if isAsciiWhitespace c then tokenizeExpression fuel rest
    else if c = '(' then .lparen :: tokenizeExpression fuel rest
    else if c = ')' then .rparen :: tokenizeExpression fuel rest
    else if c.isAlpha || c == '_' || c == '&' then
      let tail := rest.takeWhile fun c => isSymbolChar c || c == '.'
      .identifier ((c :: tail).dropWhile (· == '&')) ::
        tokenizeExpression fuel (rest.drop tail.length)
    else .other :: tokenizeExpression fuel rest

def nameIs (name : Text) (word : String) : Bool := lower name == word.toList

mutual

/-- Operands joined by `or`; `none` outside the fragment. -/
def parseAdditive : Nat → List ExprToken → Option (Cond × List ExprToken)
  | 0, _ => none
  | fuel + 1, tokens =>
    match parseMultiplicative fuel tokens with
    | none => none
    | some (left, rest) => parseOrs fuel left rest

def parseOrs : Nat → Cond → List ExprToken → Option (Cond × List ExprToken)
  | 0, _, _ => none
  | fuel + 1, left, .identifier name :: rest =>
    if nameIs name "or" then
      match parseMultiplicative fuel rest with
      | none => none
      | some (right, rest) => parseOrs fuel (.or left right) rest
    else some (left, .identifier name :: rest)
  | _ + 1, left, rest => some (left, rest)

/-- Operands joined by `and`. -/
def parseMultiplicative : Nat → List ExprToken → Option (Cond × List ExprToken)
  | 0, _ => none
  | fuel + 1, tokens =>
    match parseUnary fuel tokens with
    | none => none
    | some (left, rest) => parseAnds fuel left rest

def parseAnds : Nat → Cond → List ExprToken → Option (Cond × List ExprToken)
  | 0, _, _ => none
  | fuel + 1, left, .identifier name :: rest =>
    if nameIs name "and" then
      match parseUnary fuel rest with
      | none => none
      | some (right, rest) => parseAnds fuel (.and left right) rest
    else some (left, .identifier name :: rest)
  | _ + 1, left, rest => some (left, rest)

def parseUnary : Nat → List ExprToken → Option (Cond × List ExprToken)
  | 0, _ => none
  | fuel + 1, .identifier name :: rest =>
    if nameIs name "not" then (parseUnary fuel rest).map fun (cond, rest) => (.not cond, rest)
    else parseValue name rest
  | fuel + 1, .lparen :: rest =>
    match parseAdditive fuel rest with
    | some (cond, .rparen :: rest) => some (cond, rest)
    | _ => none
  | _ + 1, _ => none

/-- A call of `defined`. -/
def parseValue : Text → List ExprToken → Option (Cond × List ExprToken)
  | name, .lparen :: .identifier symbol :: .rparen :: rest =>
    if nameIs name "defined" && (canonicalSymbol symbol).isSome then
      some (if symbol.contains '.' then .dotted symbol else .defined symbol, rest)
    else none
  | _, _ => none

end

/-- The condition of an expression in the fragment. -/
def parseExpression (expression : Text) : Option Cond :=
  let tokens := tokenizeExpression expression.length expression
  match parseAdditive (4 * tokens.length + 4) tokens with
  | some (cond, []) => some cond
  | _ => none

/-- The condition of a directive, when it has one in the fragment. -/
def conditionOf : Option Cond :=
  let keyword := lower ((directiveKeyword body).getD [])
  if keywordIs keyword ["ifdef"] then (directiveSymbol body).map .defined
  else if keywordIs keyword ["ifndef"] then (directiveSymbol body).map (.not <| .defined ·)
  else if keywordIs keyword ["if", "elseif", "elif"] then parseExpression (directiveArguments body)
  else none

/-- Every name in the condition is the name of a symbol. -/
def Cond.Named : Cond → Prop
  | .defined symbol | .dotted symbol => (canonicalSymbol symbol).isSome
  | .not cond => cond.Named
  | .and left right => left.Named ∧ right.Named
  | .or left right => left.Named ∧ right.Named

/-- No call of `defined` in the condition has a dotted symbol. -/
def Cond.undotted : Cond → Bool
  | .defined _ => true
  | .dotted _ => false
  | .not cond => cond.undotted
  | .and left right | .or left right => left.undotted && right.undotted

variable {cond : Cond}

lemma parseValue_named {name : Text} {tokens rest : List ExprToken}
    (h : parseValue name tokens = some (cond, rest)) : cond.Named := by
  unfold parseValue at h
  split at h
  next symbol rest' =>
    split at h
    next hsymbol =>
      obtain ⟨rfl, rfl⟩ := Prod.mk.inj (Option.some.inj h)
      simp only [Bool.and_eq_true] at hsymbol
      split
      · exact hsymbol.2
      · exact hsymbol.2
    · simp at h
  · simp at h

/-- One statement for each of the mutually recursive parsers, by induction on the fuel. -/
lemma parse_named (fuel : Nat) :
    (∀ tokens cond rest, parseAdditive fuel tokens = some (cond, rest) → cond.Named) ∧
    (∀ left tokens cond rest, left.Named → parseOrs fuel left tokens = some (cond, rest) →
      cond.Named) ∧
    (∀ tokens cond rest, parseMultiplicative fuel tokens = some (cond, rest) → cond.Named) ∧
    (∀ left tokens cond rest, left.Named → parseAnds fuel left tokens = some (cond, rest) →
      cond.Named) ∧
    (∀ tokens cond rest, parseUnary fuel tokens = some (cond, rest) → cond.Named) := by
  -- on the fuel, the five mutual parsers together
  induction fuel with
  | zero => simp [parseAdditive, parseOrs, parseMultiplicative, parseAnds, parseUnary]
  | succ fuel ih =>
    obtain ⟨ihAdditive, ihOrs, ihMultiplicative, ihAnds, ihUnary⟩ := ih
    refine ⟨fun tokens cond rest h => ?_, fun left tokens cond rest hleft h => ?_,
      fun tokens cond rest h => ?_, fun left tokens cond rest hleft h => ?_,
      fun tokens cond rest h => ?_⟩
    · rw [parseAdditive] at h
      split at h
      · simp at h
      next left tail hleft => exact ihOrs _ _ _ _ (ihMultiplicative _ _ _ hleft) h
    · unfold parseOrs at h
      split at h
      · simp at h
      next name tail heq =>
        cases heq
        split at h
        · split at h
          · simp at h
          next right tail hright =>
            have hor : (Cond.or _ right).Named := ⟨hleft, ihMultiplicative _ _ _ hright⟩
            exact ihOrs _ _ _ _ hor h
        · obtain ⟨rfl, -⟩ : _ = cond ∧ _ := by simpa using h
          exact hleft
      next =>
        obtain ⟨rfl, -⟩ : _ = cond ∧ _ := by simpa using h
        exact hleft
    · rw [parseMultiplicative] at h
      split at h
      · simp at h
      next left tail hleft => exact ihAnds _ _ _ _ (ihUnary _ _ _ hleft) h
    · unfold parseAnds at h
      split at h
      · simp at h
      next name tail heq =>
        cases heq
        split at h
        · split at h
          · simp at h
          next right tail hright =>
            have hand : (Cond.and _ right).Named := ⟨hleft, ihUnary _ _ _ hright⟩
            exact ihAnds _ _ _ _ hand h
        · obtain ⟨rfl, -⟩ : _ = cond ∧ _ := by simpa using h
          exact hleft
      next =>
        obtain ⟨rfl, -⟩ : _ = cond ∧ _ := by simpa using h
        exact hleft
    · unfold parseUnary at h
      split at h
      · simp at h
      next fuel' name tail heq =>
        obtain rfl : fuel = fuel' := by simpa using heq
        split at h
        · obtain ⟨⟨inner, tail'⟩, hinner, heq⟩ := Option.map_eq_some_iff.mp h
          obtain ⟨rfl, -⟩ : .not inner = cond ∧ tail' = rest := by simpa using heq
          exact ihUnary _ inner _ hinner
        · exact parseValue_named h
      next fuel' tail heq =>
        obtain rfl : fuel = fuel' := by simpa using heq
        split at h
        next inner tail' hinner =>
          obtain ⟨rfl, -⟩ : inner = cond ∧ tail' = rest := by simpa using h
          exact ihAdditive _ _ _ hinner
        · simp at h
      · simp at h

lemma parseExpression_named {expression : Text}
    (h : parseExpression expression = some cond) : cond.Named := by
  unfold parseExpression at h
  dsimp only at h
  split at h
  next parsed hparsed =>
    obtain rfl : parsed = cond := by simpa using h
    exact (parse_named _).1 _ _ _ hparsed
  · simp at h

example : conditionOf "IF not defined(&Foo) and (Defined(BAR) or defined(baz))".toList =
    some (.and (.not (.defined "Foo".toList))
      (.or (.defined "BAR".toList) (.defined "baz".toList))) := by
  decide +kernel

end Lint4d.Conditional
