import Lint4d.Conditional.Syntax

/-!
# What is known about the conditional symbols

An environment holds explicit facts about symbols.  A symbol without one has the
fact its compiler version gives it, when it is a `VER` symbol, and otherwise the
fact about absent symbols.
-/

namespace Lint4d.Conditional

open List Lint4d.Lib

variable {defines : List (Text × Truth)} {c : Char} {text : Text}

/-! ## Compiler versions -/

/-- A version with its exact decimal value; `mantissa` is missing for versions that have none. -/
structure CompilerVersion where
  major : Nat
  minor : Nat
  patch : Nat
  mantissa : Option Nat
  scale : Nat
deriving DecidableEq, Repr

namespace CompilerVersion

variable (version : CompilerVersion)

def numericParts : Option (Nat × Nat) :=
  version.mantissa.map fun mantissa => (mantissa, version.scale)

/-- Versions are equal when their values are, or their parts when neither has a value. -/
def same (left right : CompilerVersion) : Bool :=
  match left.numericParts, right.numericParts with
  | some left, some right => left == right
  | none, none => (left.major, left.minor, left.patch) == (right.major, right.minor, right.patch)
  | _, _ => false

lemma same_self : version.same version = true := by
  unfold same
  cases version.numericParts <;> simp

def firstFractionalDigit : Option Nat :=
  match version.numericParts with
  | none => none
  | some (mantissa, scale) =>
    let denominator := 10 ^ scale
    let whole := version.major * denominator
    if mantissa < whole then none
    else
      let digit := (mantissa - whole) * 10 / denominator
      if digit < 256 then some digit else none

/-- The version is 18.5, which also defines the symbol of 18.0. -/
def isTurbo : Bool :=
  match version.numericParts with
  | none => false
  | some (mantissa, scale) => mantissa * 10 == 185 * 10 ^ scale

end CompilerVersion

/-- The `VER` symbols that a compiler of the version defines. -/
def verSymbols (version : CompilerVersion) : List Text :=
  match version.firstFractionalDigit with
  | none => []
  | some digit =>
    let symbol := "VER".toList ++ Nat.toDigits 10 version.major ++ Nat.toDigits 10 digit
    if version.isTurbo then [symbol, "VER180".toList] else [symbol]

def isVersionSymbol (name : Text) : Bool :=
  3 < name.length && lower (name.take 3) == "ver".toList && (name.drop 3).all Char.isDigit

/-- The fact about a `VER` symbol; `none` for any other symbol. -/
def versionSymbolFact (name : Text) (version : Option CompilerVersion) : Option Truth :=
  if isVersionSymbol name then
    match version.filter fun version => version.numericParts.isSome with
    | none => some .unknown
    | some version =>
      some (if (verSymbols version).any (fun symbol => lower symbol == lower name) then .true
        else .false)
  else none

/-! ## Environments -/

structure Environment where
  values : Text → Option Truth
  absentDefine : Truth
  compilerVersion : Option CompilerVersion

namespace Environment

/-- The fact about a symbol that has no explicit one. -/
def implicitFact (environment : Environment) (symbol : Text) : Truth :=
  (versionSymbolFact symbol environment.compilerVersion).getD environment.absentDefine

def insert (environment : Environment) (symbol : Text) (value : Truth) : Environment :=
  { environment with values := fun s => if s = symbol then some value else environment.values s }

/-- What is left after an include whose text is not at hand. -/
def clear (environment : Environment) : Environment :=
  { environment with values := fun _ => none, absentDefine := .unknown }

end Environment

def environmentValue (environment : Environment) (symbol : Text) : Truth :=
  match canonicalSymbol symbol with
  | none => environment.absentDefine
  | some symbol => (environment.values symbol).getD (environment.implicitFact symbol)

/-- The effect of `DEFINE` and `UNDEF`.  A branch that may be compiled takes the new value; that it
may be skipped is accounted for where the branches meet. -/
def applyFact (environment : Environment) (symbol : Text) (value activity : Truth) :
    Environment :=
  let next := match activity with
    | .false => environmentValue environment symbol
    | .true | .unknown => value
  match canonicalSymbol symbol with
  | none => environment
  | some symbol => environment.insert symbol next

def sameCompilerVersion : Option CompilerVersion → Option CompilerVersion → Bool
  | some left, some right => left.same right
  | none, none => true
  | _, _ => false

/-- The meeting of two branches: for every symbol with an explicit fact on one side, the facts of
both are merged, where the other side contributes its fact about absent symbols. -/
def meet (current incoming : Environment) : Environment where
  values symbol :=
    match current.values symbol, incoming.values symbol with
    | none, none => none
    | left, right =>
      some ((left.getD current.absentDefine).merge (right.getD incoming.absentDefine))
  absentDefine := current.absentDefine.merge incoming.absentDefine
  compilerVersion :=
    if sameCompilerVersion current.compilerVersion incoming.compilerVersion then
      current.compilerVersion
    else none

def mergeEnvironment (target : Option Environment) (incoming : Environment) : Environment :=
  match target with
  | none => incoming
  | some current => meet current incoming

/-! ## The initial environment -/

structure ConditionalContext where
  defines : List (Text × Truth)
  absentDefine : Truth
  compilerVersion : Option CompilerVersion

def importDefines : List (Text × Truth) → Environment → Option Environment
  | [], environment => some environment
  | (symbol, value) :: rest, environment =>
    match canonicalSymbol symbol with
    | none => none
    | some symbol =>
      let value := match environment.values symbol with
        | none => value
        | some previous => previous.merge value
      importDefines rest (environment.insert symbol value)

def initialEnvironment (context : ConditionalContext) : Option Environment :=
  importDefines context.defines
    ⟨fun _ => none, context.absentDefine, context.compilerVersion⟩

/-- The explicit fact of a symbol after the facts `values` about it have been imported. -/
def importedFact (previous : Option Truth) (values : List Truth) : Option Truth :=
  match previous, values with
  | none, [] => none
  | none, value :: values => some (values.foldl Truth.merge value)
  | some previous, values => some (values.foldl Truth.merge previous)

/-- What the defines of the context say about a symbol; facts under several spellings of its name
count together. -/
def ConditionalContext.explicitFact (context : ConditionalContext) (symbol : Text) :
    Option Truth :=
  importedFact none
    ((context.defines.filter fun define => canonicalSymbol define.1 = some symbol).map Prod.snd)

/-- What the context says about a symbol. -/
def ConditionalContext.fact (context : ConditionalContext) (symbol : Text) : Truth :=
  (context.explicitFact symbol).getD
    ((versionSymbolFact symbol context.compilerVersion).getD context.absentDefine)

/-! ## Lemmas -/

variable {symbol : Text}

lemma environmentValue_symbol (h : IsSymbol symbol) (env : Environment) :
    environmentValue env symbol = (env.values symbol).getD (env.implicitFact symbol) := by
  unfold environmentValue
  rw [h]

@[simp] lemma sameCompilerVersion_self (version : Option CompilerVersion) :
    sameCompilerVersion version version = true := by
  cases version <;> simp [sameCompilerVersion, CompilerVersion.same_self]

lemma applyFact_symbol (h : IsSymbol symbol) (env : Environment) (value activity : Truth) :
    applyFact env symbol value activity = env.insert symbol
        (if activity = .false then environmentValue env symbol else value) := by
  unfold applyFact
  rw [h]
  cases activity <;> rfl

@[simp] lemma applyFact_compilerVersion (env : Environment) (symbol : Text)
    (value activity : Truth) :
    (applyFact env symbol value activity).compilerVersion = env.compilerVersion := by
  unfold applyFact
  cases canonicalSymbol symbol <;> rfl

lemma environmentValue_insert (h : IsSymbol symbol) (env : Environment) (key : Text)
    (value : Truth) :
    environmentValue (env.insert key value) symbol =
      if symbol = key then value else environmentValue env symbol := by
  rw [environmentValue_symbol h, environmentValue_symbol h]
  by_cases heq : symbol = key <;> simp [Environment.insert, Environment.implicitFact, heq]

lemma environmentValue_clear (h : IsSymbol symbol) (env : Environment) :
    environmentValue env.clear symbol =
      (versionSymbolFact symbol env.compilerVersion).getD .unknown := by
  rw [environmentValue_symbol h]
  simp [Environment.clear, Environment.implicitFact]

variable {env : Environment} {result : Environment}

lemma importDefines_values (h : importDefines defines env = some result) (symbol : Text) :
    result.values symbol = importedFact (env.values symbol)
        ((defines.filter fun define => canonicalSymbol define.1 = some symbol).map Prod.snd) := by
  induction defines generalizing env with
  | nil =>
    obtain rfl : env = result := by simpa [importDefines] using h
    cases env.values symbol <;> simp [importedFact]
  | cons define _ ih =>
    obtain ⟨name, _⟩ := define
    rw [importDefines] at h
    cases hname : canonicalSymbol name with
    | none => simp [hname] at h
    | some key =>
      rw [hname] at h
      rw [ih h]
      by_cases hkey : symbol = key
      · subst hkey
        cases hprev : env.values symbol <;>
          simp [Environment.insert, hname, importedFact]
      · have hne : key ≠ symbol := fun h => hkey h.symm
        simp [Environment.insert, hname, hkey, hne]

lemma importDefines_rest (h : importDefines defines env = some result) :
    result.absentDefine = env.absentDefine ∧ result.compilerVersion = env.compilerVersion := by
  induction defines generalizing env with
  | nil =>
    obtain rfl : env = result := by simpa [importDefines] using h
    exact ⟨rfl, rfl⟩
  | cons _ _ ih =>
    rw [importDefines] at h
    split at h
    · simp at h
    · obtain ⟨habsent, hversion⟩ := ih h
      exact ⟨habsent, hversion⟩

/-- The initial environment says about every symbol what the context says. -/
lemma environmentValue_initial {ctx : ConditionalContext}
    (h : initialEnvironment ctx = some env) (hs : IsSymbol symbol) :
    environmentValue env symbol = ctx.fact symbol := by
  obtain ⟨habsent, hversion⟩ := importDefines_rest h
  rw [environmentValue_symbol hs, importDefines_values h, Environment.implicitFact, habsent,
    hversion]
  rfl

/-! ## Symbols are in canonical form -/

/-- A character that a symbol may contain after its first one. -/
def isNameChar (c : Char) : Bool := isSymbolChar c || c == '.'

/-- Names are made of ASCII characters, so facts about their characters can be checked one by one. -/
lemma isNameChar_induction (P : Char → Prop)
    (h : ∀ n < 128, isNameChar (Char.ofNat n) → P (Char.ofNat n)) (hc : isNameChar c) : P c := by
  have hlt : c.toNat < 128 := by
    simp only [isNameChar, isSymbolChar, Char.isAlphanum, Char.isAlpha, Char.isUpper, Char.isLower,
      Char.isDigit, Bool.or_eq_true, Bool.and_eq_true, decide_eq_true_eq, beq_iff_eq] at hc
    rcases hc with ((((h | h) | h) | h) | h)
    · exact lt_of_le_of_lt (UInt32.le_iff_toNat_le.mp h.2) (by decide)
    · exact lt_of_le_of_lt (UInt32.le_iff_toNat_le.mp h.2) (by decide)
    · exact lt_of_le_of_lt (UInt32.le_iff_toNat_le.mp h.2) (by decide)
    · rw [h]; decide
    · rw [h]; decide
  have := h c.toNat hlt
  rw [Char.ofNat_toNat] at this
  exact this hc

lemma isNameChar_facts (h : isNameChar c) :
    isWhitespace c = false ∧ c ≠ '&' ∧ isNameChar c.toUpper ∧
      isSymbolChar c.toUpper = isSymbolChar c ∧ c.toUpper.toUpper = c.toUpper := by
  apply isNameChar_induction (fun c => isWhitespace c = false ∧ c ≠ '&' ∧ isNameChar c.toUpper ∧
    isSymbolChar c.toUpper = isSymbolChar c ∧ c.toUpper.toUpper = c.toUpper) ?_ h
  decide +kernel

lemma trim_eq_self (h : ∀ c ∈ text, isWhitespace c = false) : trim text = text := by
  have hdrop (text : Text) (h : ∀ c ∈ text, isWhitespace c = false) :
      text.dropWhile isWhitespace = text := by
    cases text with
    | nil => rfl
    | cons c => simp [h c (by simp)]
  unfold trim trimEnd trimStart
  rw [hdrop text h, hdrop text.reverse (by simpa using h), reverse_reverse]

lemma canonicalSymbolRef_spec {name : Text} (h : canonicalSymbolRef text = some name) :
    ∃ first rest, name = first :: rest ∧ isSymbolChar first ∧ ∀ c ∈ name, isNameChar c := by
  unfold canonicalSymbolRef at h
  split at h
  · simp at h
  next first rest _ =>
    split at h
    next hchars =>
      obtain rfl : first :: rest = name := by simpa using h
      obtain ⟨hfirst, hrest⟩ : isSymbolChar first = true ∧ ∀ c ∈ rest, isNameChar c = true := by
        simpa [isNameChar] using hchars
      exact ⟨first, rest, rfl, hfirst, forall_mem_cons.mpr ⟨by simp [isNameChar, hfirst], hrest⟩⟩
    · simp at h

lemma canonicalSymbolRef_name {first : Char} {rest : Text} (hfirst : isSymbolChar first)
    (hall : ∀ c ∈ first :: rest, isNameChar c) :
    canonicalSymbolRef (first :: rest) = some (first :: rest) := by
  have htrim : trim (first :: rest) = first :: rest :=
    trim_eq_self fun c hc => (isNameChar_facts (hall c hc)).1
  have hne : first ≠ '&' := (isNameChar_facts (hall first (by simp))).2.1
  have hrest : (rest.all fun c => isSymbolChar c || c == '.') = true :=
    all_eq_true.mpr (forall_mem_cons.mp hall).2
  have hdrop : (first :: rest).dropWhile (· == '&') = first :: rest := by simp [hne]
  unfold canonicalSymbolRef
  rw [htrim, hdrop]
  simp only [hfirst, hrest, Bool.and_self, if_true]

/-- What `canonicalSymbol` returns is a symbol. -/
lemma isSymbol_of_canonicalSymbol {symbol : Text} (h : canonicalSymbol text = some symbol) :
    IsSymbol symbol := by
  obtain ⟨_, hname, rfl⟩ := Option.map_eq_some_iff.mp h
  obtain ⟨first, rest, rfl, hfirst, hall⟩ := canonicalSymbolRef_spec hname
  have href : canonicalSymbolRef (upper (first :: rest)) = some (upper (first :: rest)) := by
    apply canonicalSymbolRef_name
    · rw [(isNameChar_facts (hall first (by simp))).2.2.2.1, hfirst]
    · exact forall_mem_map.mpr fun d hd => (isNameChar_facts (hall d hd)).2.2.1
  have hidem : upper (upper (first :: rest)) = upper (first :: rest) := by
    unfold upper
    rw [map_map]
    apply map_congr_left
    intro c hc
    exact (isNameChar_facts (hall c hc)).2.2.2.2
  unfold IsSymbol canonicalSymbol
  rw [href, Option.map_some, hidem]

lemma isSymbol_directiveSymbol {body symbol : Text} (h : directiveSymbol body = some symbol) :
    IsSymbol symbol := by
  unfold directiveSymbol at h
  dsimp only at h
  generalize takeWhile isSymbolChar _ = name at h
  split at h
  · simp at h
  · exact isSymbol_of_canonicalSymbol h

end Lint4d.Conditional
