import Mathlib.Tactic

/-! The environment variables that configure the programs, and the numbers they are read as. -/
namespace SafeEdge.Apps

/-- The variables that are set, as `getenv` finds them. -/
abbrev Environment := String → Option String

def environmentString (environment : Environment) (name fallback : String) : String :=
  match environment name with
  | none => fallback
  | some raw => if raw ≠ "" then raw else fallback

/-- The white space of the C locale. -/
def isSpace (c : Char) : Bool :=
  [' ', '\t', '\n', '\x0b', '\x0c', '\r'].contains c

/-- The sign a numeral may start with, and what follows it. -/
def takeSign : List Char → Bool × List Char
  | '-' :: rest => (true, rest)
  | '+' :: rest => (false, rest)
  | text => (false, text)

/-- The function `strtol` with base 10: the value, which saturates, and the text its end pointer
points to. Without any digit that is the whole text. -/
def strtol (text : List Char) : ℤ × List Char :=
  let (negative, body) := takeSign (text.dropWhile isSpace)
  let digits := body.takeWhile Char.isDigit
  if digits = [] then (0, text)
  else
    let magnitude : ℤ := Nat.ofDigitChars 10 digits 0
    (max (-2 ^ 63) (min (if negative then -magnitude else magnitude) (2 ^ 63 - 1)),
      body.dropWhile Char.isDigit)

def environmentLong (environment : Environment) (name : String) (fallback : ℤ) : ℤ :=
  match environment name with
  | none => fallback
  | some raw =>
    if raw = "" then fallback
    else
      let (parsed, rest) := strtol raw.toList
      if rest = [] then parsed else fallback

end SafeEdge.Apps
