import Lint4d.Conditional.Syntax
import Lint4d.Fix.RenameMap

/-!
# Suppression comments

`// lint4d:ignore` and `// lint4d:ignore-next-line`, with an optional rule and a
reason after a dash, switch rules off on one line.
-/

namespace Lint4d.Fix

open Lint4d.Cache Lint4d.Lib.Utf8
open Lint4d.Conditional (trim trimStart)

/-- The lines of a text without their line ends; `current` is the line being read, turned
around. -/
def lines (current : Text) : Text → List Text
  | [] => if current = [] then [] else [current.reverse]
  | c :: rest =>
    if c = '\n' then
      (if current.head? = some '\r' then current.tail.reverse else current.reverse) :: lines [] rest
    else lines (c :: current) rest

/-- What stands before and after the first `//` outside a string literal.  A doubled quote stays
inside its literal. -/
def findLineComment (inString : Bool) (before : Text) : Text → Option (Text × Text)
  | '\'' :: '\'' :: rest =>
    if inString then findLineComment inString (before ++ ['\'', '\'']) rest
    else findLineComment true (before ++ ['\'']) ('\'' :: rest)
  | '\'' :: rest => findLineComment (!inString) (before ++ ['\'']) rest
  | '/' :: '/' :: rest =>
    if inString then findLineComment inString (before ++ ['/']) ('/' :: rest)
    else some (before, rest)
  | c :: rest => findLineComment inString (before ++ [c]) rest
  | [] => none

/-- What stands before the first occurrence of a text. -/
def beforeFirst? (wanted : Text) : Text → Option Text
  | [] => if wanted = [] then some [] else none
  | c :: rest => if wanted <+: c :: rest then some [] else (beforeFirst? wanted rest).map (c :: ·)

/-- The rule after the keyword of a directive, up to a reason. -/
def extractRuleId (rest : Text) : Option Text :=
  let trimmed := trimStart rest
  let rulePart :=
    match beforeFirst? " -- ".toList trimmed with
    | some part => part
    | none => (beforeFirst? ['—'] trimmed).getD trimmed
  let rule := trim rulePart
  if rule = [] then none else some rule

def stripPrefix? (wanted text : Text) : Option Text :=
  if wanted <+: text then some (text.drop wanted.length) else none

/-- The suppression on one line. -/
def lineSuppression (lineNumber : Nat) (line : Text) : Option Suppression :=
  match findLineComment false [] line with
  | none => none
  | some (before, after) =>
    let comment := trim after
    match stripPrefix? "lint4d:ignore-next-line".toList comment with
    | some rest => some ⟨lineNumber + 1, (extractRuleId rest).map String.ofList⟩
    | none =>
      match stripPrefix? "lint4d:ignore".toList comment with
      | some rest =>
        -- a comment on a line of its own is about the line that follows
        let targetLine := if trim before = [] then lineNumber + 1 else lineNumber
        some ⟨targetLine, (extractRuleId rest).map String.ofList⟩
      | none => none

def suppressionsFrom (lineNumber : Nat) : List Text → List Suppression
  | [] => []
  | line :: rest => (lineSuppression lineNumber line).toList ++ suppressionsFrom (lineNumber + 1) rest

def parseSuppressions (source : Bytes) : List Suppression :=
  suppressionsFrom 1 (lines [] (decodeBytes source))

end Lint4d.Fix
