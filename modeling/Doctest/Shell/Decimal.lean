import Doctest.Shell.Source

/-! Numbers with finitely many decimals: how they are read, rounded and printed. -/
namespace Doctest.Shell

/-- A whole number of parts, of which so many decimals make one. -/
structure Decimal where
  parts : Int
  places : Nat
deriving DecidableEq, Repr

namespace Decimal

def ofNat (n : Nat) : Decimal :=
  ⟨n, 0⟩

/-- The parts of a decimal where there are so many places, of which it has no more. -/
def partsAt (d : Decimal) (places : Nat) : Int :=
  d.parts * Nat.pow 10 (places - d.places)

def add (a b : Decimal) : Decimal :=
  let places := max a.places b.places
  ⟨a.partsAt places + b.partsAt places, places⟩

def scale (n : Nat) (d : Decimal) : Decimal :=
  ⟨n * d.parts, d.places⟩

def order (a b : Decimal) : Ordering :=
  let places := max a.places b.places
  compare (a.partsAt places) (b.partsAt places)

/-- Reads digits with a sign, decimals and an exponent as far as they go, and gives what is left. -/
def front (cs : Text) : Option (Decimal × Text) := do
  let (isNegative, body) := match cs with
    | '-' :: rest => (true, rest)
    | '+' :: rest => (false, rest)
    | _ => (false, cs)
  let whole := body.takeWhile Char.isDigit
  let rest := body.drop whole.length
  let (decimals, rest) := match rest with
    | '.' :: more =>
      let ds := more.takeWhile Char.isDigit
      (ds, more.drop ds.length)
    | _ => ([], rest)
  let n ← natOf? (whole ++ decimals)
  let (exponent, rest) := exponentOf rest
  let parts : Int := if isNegative then -n else n
  let places : Int := decimals.length - exponent
  pure (if 0 ≤ places then ⟨parts, places.toNat⟩ else ⟨parts * Nat.pow 10 (-places).toNat, 0⟩, rest)
where
  /-- The exponent behind a mark, unless there is none. -/
  exponentOf (cs : Text) : Int × Text :=
    match cs with
    | mark :: rest =>
      if mark ≠ 'e' ∧ mark ≠ 'E' then (0, cs)
      else
        let (sign, ds) : Int × Text := match rest with
          | '-' :: ds => (-1, ds)
          | '+' :: ds => (1, ds)
          | ds => (1, ds)
        let digits := ds.takeWhile Char.isDigit
        match natOf? digits with
        | some n => (sign * min n 400, ds.drop digits.length)
        | none => (0, cs)
    | [] => (0, cs)

/-- Reads all of a text. -/
def ofText? (cs : Text) : Option Decimal :=
  match front cs with
  | some (d, []) => some d
  | _ => none

/-- The quotient that is nearest, of two the even one. -/
def roundDiv (n d : Nat) : Nat :=
  let q := n / d
  let twice := 2 * (n % d)
  if twice < d ∨ (twice = d ∧ q % 2 = 0) then q else q + 1

/-- The parts without their sign after rounding to so many places. -/
def roundedParts (d : Decimal) (places : Nat) : Nat :=
  if d.places ≤ places then d.parts.natAbs * Nat.pow 10 (places - d.places)
  else roundDiv d.parts.natAbs (Nat.pow 10 (d.places - places))

/-- Digits with a point before so many of them. -/
def withPoint (n places : Nat) : Text :=
  let ds := digits n
  let ds := List.replicate (places + 1 - ds.length) '0' ++ ds
  let whole := ds.take (ds.length - places)
  if places = 0 then whole else whole ++ '.' :: ds.drop whole.length

/-- A number without its sign with so many decimals. -/
def fixed (d : Decimal) (places : Nat) : Text :=
  withPoint (d.roundedParts places) places

/-- The power of ten of the first digit after rounding to so many digits behind it, and those digits. -/
def leadingDigits (d : Decimal) (behind : Nat) : Int × Nat :=
  let n := d.parts.natAbs
  if n = 0 then (0, 0)
  else
    let size := (digits n).length
    let rounded :=
      if size ≤ behind + 1 then n * Nat.pow 10 (behind + 1 - size)
      else roundDiv n (Nat.pow 10 (size - behind - 1))
    let exponent : Int := size - 1 - d.places
    if Nat.pow 10 (behind + 1) ≤ rounded then (exponent + 1, rounded / 10) else (exponent, rounded)

def exponentText (mark : Char) (e : Int) : Text :=
  let ds := digits e.natAbs
  mark :: (if e < 0 then '-' else '+') :: (List.replicate (2 - ds.length) '0' ++ ds)

/-- A number without its sign with one digit before the point and an exponent. -/
def scientific (d : Decimal) (mark : Char) (places : Nat) : Text :=
  let (e, n) := d.leadingDigits places
  withPoint n places ++ exponentText mark e

def zerosDropped (cs : Text) : Text :=
  if cs.contains '.' then
    let kept := (cs.reverse.dropWhile (· = '0')).reverse
    if kept.getLast? = some '.' then kept.dropLast else kept
  else cs

/-- A number without its sign by so many digits in the form that is shorter. -/
def general (d : Decimal) (mark : Char) (precision : Nat) : Text :=
  let precision := max 1 precision
  let (e, n) := d.leadingDigits (precision - 1)
  if e < -4 ∨ (precision : Int) ≤ e then
    zerosDropped (withPoint n (precision - 1)) ++ exponentText mark e
  else zerosDropped (d.fixed (precision - 1 - e).toNat)

/-- The number that a binary one of 64 bits is which comes nearest. -/
def asBinary (d : Decimal) : Decimal :=
  let bits := (Float.ofScientific d.parts.natAbs true d.places).toBits.toNat
  let fraction := bits % 4503599627370496
  let field := bits / 4503599627370496 % 2048
  let mantissa := if field = 0 then fraction else fraction + 4503599627370496
  let exponent : Int := (max 1 field : Nat) - 1075
  let sign : Int := if d.parts < 0 then -1 else 1
  if field = 2047 then d
  else if 0 ≤ exponent then ⟨sign * (mantissa * Nat.pow 2 exponent.toNat : Nat), 0⟩
  else ⟨sign * (mantissa * Nat.pow 5 (-exponent).toNat : Nat), (-exponent).toNat⟩

end Decimal

end Doctest.Shell
