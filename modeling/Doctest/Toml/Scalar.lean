import Doctest.Text.Step
import Doctest.Toml.Value

/-! The values of TOML that hold no other values: strings, numbers, dates and times. -/
namespace Doctest.TomlScalar

open Step

/-- Characters outside ASCII are allowed in every string and comment. -/
def isWide (c : Char) : Bool :=
  0x80 ≤ c.toNat

/-- Characters that stand for themselves in strings and comments, but for the marks of the string. -/
def isPlain (c : Char) : Bool :=
  c = '\t' || (0x20 ≤ c.toNat && c.toNat ≤ 0x7e) || isWide c

def isSpace (c : Char) : Bool :=
  c = ' ' || c = '\t'

def newline : Step Unit :=
  text ['\n'] <|> text ['\r', '\n']

def digitValue (c : Char) : Nat :=
  if c.isDigit then c.toNat - 0x30
  else if c.isLower then c.toNat - 0x57
  else c.toNat - 0x37

def isHex (c : Char) : Bool :=
  c.isDigit || ('a' ≤ c && c ≤ 'f') || ('A' ≤ c && c ≤ 'F')

def ofDigits (base : Nat) (ds : List Char) : Nat :=
  ds.foldl (fun n c => n * base + digitValue c) 0

/-- A character by the digits of its number. -/
def scalar (digits : Nat) : Step Char := do
  let n := ofDigits 16 (← exactly (char isHex) digits)
  if n.isValidChar then pure (Char.ofNat n) else failure

/-- What follows a backslash. -/
def escape : Step Char := do
  match ← char fun _ => true with
  | 'b' => pure '\x08'
  | 't' => pure '\t'
  | 'n' => pure '\n'
  | 'f' => pure '\x0c'
  | 'r' => pure '\r'
  | '"' => pure '"'
  | '\\' => pure '\\'
  | 'u' => scalar 4
  | 'U' => scalar 8
  | _ => failure

def escaped : Step Char := do
  text ['\\']
  escape

/-- A string on one line, with escapes. -/
def basicString : Step (List Char) := do
  text ['"']
  let body ← many (char (fun c => isPlain c && c != '"' && c != '\\') <|> escaped)
  text ['"']
  pure body

/-- A string on one line, without escapes. -/
def literalString : Step (List Char) := do
  text ['\'']
  let body ← many (char fun c => isPlain c && c != '\'')
  text ['\'']
  pure body

/-- One or two quotation marks, with no third one after them. -/
def innerQuotes (q : Char) : Step (List Char) := fun cs =>
  let n := (cs.takeWhile (· = q)).length
  if n = 1 ∨ n = 2 then some (List.replicate n q, cs.drop n) else none

/-- At most two quotation marks that stand right before the three which end the string. -/
def lastQuotes (q : Char) : Step (List Char) := fun cs =>
  let n := min 2 ((cs.takeWhile (· = q)).length - 3)
  some (List.replicate n q, cs.drop n)

/-- A backslash at the end of a line, with the blank space after it. -/
def lineJoin : Step (List Char) := do
  text ['\\']
  let _ ← run isSpace
  newline
  let _ ← many ((do let _ ← char isSpace) <|> newline)
  pure []

def lineBreak : Step (List Char) := do
  newline
  pure ['\n']

/-- A string between three quotation marks. A line break right after the first three is left out. -/
def longString (q : Char) (content : Step (List Char)) : Step (List Char) := do
  text [q, q, q]
  let _ ← optional newline
  let body ← many (content <|> lineBreak <|> innerQuotes q)
  let last ← lastQuotes q
  text [q, q, q]
  pure (body.flatten ++ last)

def plainPart (p : Char → Bool) : Step (List Char) := do
  pure [← char fun c => isPlain c && p c]

def longBasicString : Step (List Char) :=
  longString '"' (plainPart (fun c => c != '"' && c != '\\') <|> lineJoin <|> do pure [← escaped])

def longLiteralString : Step (List Char) :=
  longString '\'' (plainPart (· != '\''))

def anyString : Step (List Char) :=
  longBasicString <|> basicString <|> longLiteralString <|> literalString

/-- Digits, with single underscores between them. -/
def digits (p : Char → Bool) : Step (List Char) := do
  let first ← char p
  let rest ← many (char p <|> do
    text ['_']
    char p)
  pure (first :: rest)

def sign : Step (Option Char) :=
  optional (char fun c => c = '+' || c = '-')

/-- A decimal number without leading zeros. -/
def wholeNumber : Step (List Char) := do
  if (← peek) = some '0' then pure [← char (· = '0')] else digits Char.isDigit

/-- Numbers have 64 bits and a sign. -/
def maxNumber : Nat := UInt64.size / 2 - 1

def decimal : Step Unit := do
  let limit := if (← sign) = some '-' then maxNumber + 1 else maxNumber
  if ofDigits 10 (← wholeNumber) ≤ limit then pure () else failure

def based (lead : List Char) (base : Nat) (p : Char → Bool) : Step Unit := do
  text lead
  if ofDigits base (← digits p) ≤ maxNumber then pure () else failure

def integer : Step Unit :=
  based ['0', 'x'] 16 isHex <|> based ['0', 'o'] 8 (fun c => '0' ≤ c && c ≤ '7') <|>
    based ['0', 'b'] 2 (fun c => c = '0' || c = '1') <|> decimal

/-- Whether a number is too great for double precision, where it is `digits` with `shift` more places
before the point. -/
def isTooGreat (ds : List Char) (shift : Int) : Bool :=
  let significant := ds.dropWhile (· = '0')
  let magnitude := (significant.length : Int) + shift
  if significant.isEmpty || magnitude < 300 then false
  else if 320 < magnitude then true
  else
    let limit := Nat.pow 2 1024 - Nat.pow 2 970
    limit * Nat.pow 10 (-shift).toNat ≤ ofDigits 10 ds * Nat.pow 10 shift.toNat

def exponent : Step Int := do
  let _ ← char fun c => c = 'e' || c = 'E'
  let negative := (← sign) = some '-'
  let n := ofDigits 10 (← digits Char.isDigit)
  pure (if negative then -n else n)

def fraction : Step (List Char) := do
  text ['.']
  digits Char.isDigit

/-- A number with a fraction or an exponent or both. A negative one may be too great. -/
def float : Step Unit := do
  let negative := (← sign) = some '-'
  let whole ← wholeNumber
  let places ← optional fraction
  let power ← if places.isSome then optional exponent else some <$> exponent
  let places := places.getD []
  if !negative && isTooGreat (whole ++ places) (power.getD 0 - places.length) then failure
  else pure ()

def specialFloat : Step Unit := do
  let _ ← sign
  text "inf".toList <|> text "nan".toList

/-- A number of a fixed count of digits within bounds. -/
def field (count lo hi : Nat) : Step Nat := do
  let n := ofDigits 10 (← exactly (char Char.isDigit) count)
  if lo ≤ n && n ≤ hi then pure n else failure

def daysIn (year month : Nat) : Nat :=
  if month = 2 then
    if year % 4 = 0 ∧ (year % 100 ≠ 0 ∨ year % 400 = 0) then 29 else 28
  else if month = 4 ∨ month = 6 ∨ month = 9 ∨ month = 11 then 30
  else 31

def date : Step Unit := do
  let year ← field 4 0 9999
  text ['-']
  let month ← field 2 1 12
  text ['-']
  let _ ← field 2 1 (daysIn year month)

/-- A time of day, to the second or finer. -/
def time : Step Unit := do
  let _ ← field 2 0 23
  text [':']
  let _ ← field 2 0 59
  text [':']
  let _ ← field 2 0 60
  let _ ← optional (do
    text ['.']
    let _ ← char Char.isDigit
    run Char.isDigit)

/-- The distance from universal time. -/
def offset : Step Unit :=
  (do let _ ← char fun c => c = 'Z' || c = 'z') <|> do
    let _ ← char fun c => c = '+' || c = '-'
    let _ ← field 2 0 23
    text [':']
    let _ ← field 2 0 59

def moment : Step Unit :=
  (do
    date
    let _ ← optional (do
      let _ ← char fun c => c = 'T' || c = 't' || c = ' '
      time
      optional offset)) <|> time

def scalarValue : Step TomlValue :=
  (do pure (.text (String.ofList (← anyString)))) <|>
  (do moment; pure .moment) <|>
  (do float <|> specialFloat <|> integer <|> text "true".toList <|> text "false".toList
      pure .other)

end Doctest.TomlScalar
