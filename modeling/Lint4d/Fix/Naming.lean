import Lint4d.Lib.Utf8

/-!
# Naming conventions

The spellings that the naming rules ask for, and the check of local names.
-/

namespace Lint4d.Fix

open Lint4d.Lib.Utf8

section Conversions

variable (unicode : Unicode)

/-- Change the first alphabetic character. -/
def changeFirstAlpha (change : Char → Char) : Text → Text
  | [] => []
  | c :: rest => if unicode.alphabetic c then change c :: rest else c :: changeFirstAlpha change rest

/-- Lower the first alphabetic character. -/
def toCamelCase (name : Text) : Text := changeFirstAlpha unicode Char.toLower name

/-- A segment between underscores with its first letter raised and the others lowered. -/
def capitalize : Text → Text
  | [] => []
  | c :: rest => c.toUpper :: rest.map Char.toLower

/-- Join capitalised segments, or raise the first alphabetic character of a name without inner
underscores.  Leading underscores stay. -/
def toPascalCase (name : Text) : Text :=
  let leading := name.takeWhile (· = '_')
  let rest := name.dropWhile (· = '_')
  if rest = [] then name
  else leading ++ if '_' ∈ rest then ((rest.splitOn '_').filter (· ≠ [])).flatMap capitalize
    else changeFirstAlpha unicode Char.toUpper rest

/-- Whether an underscore goes before an upper case character. -/
def startsWord (prev : Char) (next : Option Char) : Bool :=
  if prev.isLower || prev.isDigit then true
  else if prev.isUpper then next.any Char.isLower
  else false

def toUpperSnakeCaseFrom (prev : Option Char) : Text → Text
  | [] => []
  | c :: rest =>
    (if c.isUpper && prev.any (startsWord · rest.head?) then ['_', c.toUpper] else [c.toUpper]) ++
      toUpperSnakeCaseFrom (some c) rest

def toUpperSnakeCase (name : Text) : Text := toUpperSnakeCaseFrom none name

/-- Names with at most one alphabetic character are exempt. -/
def violatesNamingStyle (name : Text) (style : String) : Bool :=
  match name.find? unicode.alphabetic with
  | none => false
  | some first =>
    if (name.filter unicode.alphabetic).length ≤ 1 then false
    else if style = "camelCase" then unicode.uppercase first
    else unicode.lowercase first

/-- The spelling of a local name that the style asks for. -/
def localSpelling (style : String) (name : Text) : Text :=
  if style = "camelCase" then toCamelCase unicode name else toPascalCase unicode name

end Conversions

end Lint4d.Fix
