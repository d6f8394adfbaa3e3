import Doctest.Shell.Call
import Doctest.Shell.Decimal
import Doctest.Text.Step

/-! Texts with escapes, and formats with directives for arguments. -/
namespace Doctest.Shell.Printing

open Step

/-- A character by at most `n` octal digits. -/
def octal (n : Nat) : Step Char := fun cs =>
  let digits := (cs.take n).takeWhile fun c => '0' ≤ c && c ≤ '7'
  if digits.isEmpty then none
  else
    let value := digits.foldl (fun n c => n * 8 + (c.toNat - 0x30)) 0
    some (Char.ofNat (value % 256), cs.drop digits.length)

def escapes : List (Char × Char) :=
  [('a', '\x07'), ('b', '\x08'), ('e', '\x1b'), ('f', '\x0c'), ('n', '\n'), ('r', '\r'), ('t', '\t'),
    ('v', '\x0b'), ('\\', '\\')]

/-- An escape of a format. -/
def escape : Step Char := do
  text ['\\']
  octal 3 <|> do
    let c ← char fun _ => true
    StateT.lift (escapes.lookup c)

/-- An escape of a text, or none for the one that ends all output. Octal digits may follow a zero. -/
def textEscape : Step (Option Char) :=
  (do
    text ['\\', '0']
    some <$> (octal 3 <|> pure '\x00')) <|>
  (do
    text ['\\', 'c']
    pure none) <|>
  some <$> escape

/-- A text with its escapes carried out, and whether all output ends with it. There are at most so many
escapes. -/
def unescapeAll : (fuel : Nat) → Text → Text × Bool
  | 0, cs => (cs, false)
  | fuel + 1, cs =>
    let plain := cs.takeWhile (· != '\\')
    match cs.drop plain.length with
    | [] => (plain, false)
    | c :: rest =>
      match textEscape (c :: rest) with
      | some (none, _) => (plain, true)
      | some (some e, rest) =>
        let (out, isCut) := unescapeAll fuel rest
        (plain ++ e :: out, isCut)
      | none =>
        let (out, isCut) := unescapeAll fuel rest
        (plain ++ c :: out, isCut)

def unescape (cs : Text) : Text × Bool :=
  unescapeAll (cs.count '\\' + 1) cs

/-- A number that stands in a format or is taken from the arguments. -/
inductive Count
  | fixed (n : Nat)
  | argument
deriving DecidableEq, Repr

structure Directive where
  flags : List Char
  width : Count
  precision : Option Count
  kind : Char
deriving DecidableEq, Repr

/-- A piece of a format. -/
inductive Piece
  | text (cs : Text)
  | directive (d : Directive)
  /-- A directive that is none. -/
  | fault (words : Text)
deriving DecidableEq, Repr

def count : Step Count :=
  (do text ['*']; pure .argument) <|> do pure (.fixed ((natOf? (← run Char.isDigit)).getD 0))

def directive : Step Piece := fun cs => do
  let ((flags, width, precision), rest) ← (do
    text ['%']
    let flags ← run fun c => c ∈ ['-', '0', '+', ' ', '#']
    let width ← count
    let precision ← optional (do text ['.']; count)
    pure (flags, width, precision) : Step _) cs
  match rest with
  | [] => some (.fault (textOf "missing format character"), [])
  | kind :: after =>
    if kind ∈ ['s', 'd', 'i', 'u', 'c', 'b', 'x', 'X', 'o', 'e', 'E', 'f', 'F', 'g', 'G'] then
      some (.directive ⟨flags, width, precision, kind⟩, after)
    else
      let spelling := cs.take (cs.length - after.length)
      some (.fault (spelling ++ textOf ": invalid directive"), [])

def piece : Step Piece :=
  (do pure (.text [← escape])) <|>
  (do
    text ['%', '%']
    pure (.text ['%'])) <|>
  directive <|>
  do pure (.text [← char fun _ => true])

/-- What has been printed so far, and the arguments that are left. -/
structure Printed where
  args : List Text
  out : Text
  complaints : List Text
  status : Nat
  isCut : Bool

def Printed.complain (p : Printed) (words : Text) : Printed :=
  { p with complaints := p.complaints ++ [words], status := 1 }

/-- The value of a digit in some base. -/
def digit? (base : Nat) (c : Char) : Option Nat :=
  let n :=
    if c.isDigit then c.toNat - 0x30
    else if 'a' ≤ c ∧ c ≤ 'z' then c.toNat - 0x57
    else if 'A' ≤ c ∧ c ≤ 'Z' then c.toNat - 0x37
    else base
  if n < base then some n else none

/-- The digits at the front of a text as a number, if there are any, and the rest. -/
def natural (base : Nat) (cs : Text) : Option Nat × Text :=
  let ds := cs.takeWhile fun c => (digit? base c).isSome
  (if ds.isEmpty then none else some (ds.foldl (fun n c => n * base + (digit? base c).getD 0) 0),
    cs.drop ds.length)

/-- A number at the front of a text, of which `0x` and `0` tell the base. -/
def constant (cs : Text) : Option Nat × Text :=
  match cs with
  | '0' :: x :: rest =>
    if x = 'x' ∨ x = 'X' then
      match natural 16 rest with
      | (some n, rest) => (some n, rest)
      | (none, _) => (some 0, x :: rest)
    else natural 8 cs
  | _ => natural 10 cs

/-- A number with blanks and a sign before it. -/
def signed (cs : Text) : Option Int × Text :=
  let cs := cs.dropWhile Doctest.Text.isBlank
  match cs with
  | '-' :: rest =>
    let (n, rest) := constant rest
    (n.map fun n => -Int.ofNat n, rest)
  | '+' :: rest =>
    let (n, rest) := constant rest
    (n.map Int.ofNat, rest)
  | _ =>
    let (n, rest) := constant cs
    (n.map Int.ofNat, rest)

/-- The greatest number of 64 bits. -/
def greatest : Nat := UInt64.size / 2 - 1

/-- Takes an argument as a number. After a quotation mark a character stands for its code. -/
def takeNumber (p : Printed) : Int × Printed :=
  match p.args with
  | [] => (0, p)
  | arg :: args =>
    let p := { p with args }
    match arg with
    | '\'' :: c :: _ | '"' :: c :: _ => (Int.ofNat c.toNat, p)
    | _ =>
      if arg.isEmpty then (0, p)
      else
        match signed arg with
        | (none, _) => (0, p.complain (Call.about arg "expected numeric value"))
        | (some n, []) =>
          if n.natAbs ≤ greatest then (n, p)
          else (if n < 0 then -greatest - 1 else greatest,
            p.complain (Call.about arg "Numerical result out of range"))
        | (some n, _ :: _) => (n, p.complain (Call.about arg "not completely converted"))

/-- A number with decimals, or one in the base of sixteen. -/
def decimalAt (cs : Text) : Option (Decimal × Text) :=
  let body := match cs with
    | '-' :: rest | '+' :: rest => rest
    | _ => cs
  match body, signed cs with
  | '0' :: x :: _, (some n, rest) => if x = 'x' ∨ x = 'X' then some (⟨n, 0⟩, rest) else Decimal.front cs
  | _, _ => Decimal.front cs

/-- Takes an argument as a number with decimals. -/
def takeDecimal (p : Printed) : Decimal × Printed :=
  match p.args with
  | [] => (.ofNat 0, p)
  | arg :: args =>
    let p := { p with args }
    match arg with
    | '\'' :: c :: _ | '"' :: c :: _ => (.ofNat c.toNat, p)
    | _ =>
      match decimalAt (arg.dropWhile Doctest.Text.isBlank) with
      | some (d, []) => (d.asBinary, p)
      | some (d, _) => (d.asBinary, p.complain (Call.about arg "not completely converted"))
      | none =>
        if arg.isEmpty then (.ofNat 0, p)
        else (.ofNat 0, p.complain (Call.about arg "expected numeric value"))

def takeCount (c : Count) (p : Printed) : Nat × Printed :=
  match c with
  | .fixed n => (n, p)
  | .argument =>
    let (n, p) := takeNumber p
    (n.toNat, p)

def pad (left : Bool) (width : Nat) (cs : Text) : Text :=
  let filling := List.replicate (width - cs.length) ' '
  if left then cs ++ filling else filling ++ cs

/-- What stands before digits, zeros if they fill the field, and the digits. -/
def filled (d : Directive) (width : Nat) (withZeros : Bool) (lead ds : Text) : Text :=
  let zeros :=
    if withZeros && d.flags.contains '0' && !d.flags.contains '-' then width - lead.length - ds.length
    else 0
  pad (d.flags.contains '-') width (lead ++ List.replicate zeros '0' ++ ds)

/-- The sign of a number, as flags want it. -/
def signOf (d : Directive) (isNegative : Bool) : Text :=
  if isNegative then ['-']
  else if d.flags.contains '+' then ['+'] else if d.flags.contains ' ' then [' '] else []

/-- A number with decimals. -/
def showDecimal (d : Directive) (width : Nat) (precision : Option Nat) (n : Decimal) : Text :=
  let p := precision.getD 6
  let mark := if d.kind.isUpper then 'E' else 'e'
  let ds := match d.kind with
    | 'f' | 'F' => n.fixed p
    | 'e' | 'E' => n.scientific mark p
    | _ => n.general mark p
  filled d width true (signOf d (n.parts < 0)) ds

/-- A number with its sign or mark, and zeros between that and its digits. -/
def showNumber (d : Directive) (width : Nat) (precision : Option Nat) (n : Int) : Text :=
  let has (flag : Char) : Bool := d.flags.contains flag
  let isSigned := d.kind = 'd' ∨ d.kind = 'i'
  let magnitude := if isSigned then n.natAbs else (n % UInt64.size).toNat
  let base := if d.kind = 'o' then 8 else if d.kind = 'x' ∨ d.kind = 'X' then 16 else 10
  let ds := if precision = some 0 ∧ magnitude = 0 then [] else Nat.toDigits base magnitude
  let ds := List.replicate ((precision.getD 1) - ds.length) '0' ++ ds
  let lead : Text :=
    if isSigned then signOf d (n < 0)
    else if has '#' ∧ base = 16 ∧ magnitude ≠ 0 then ['0', 'x']
    else if has '#' ∧ base = 8 ∧ ds.head? ≠ some '0' then ['0']
    else []
  let shown := filled d width precision.isNone lead ds
  if d.kind = 'X' then shown.map Char.toUpper else shown

/-- Writes what a directive asks for. -/
def showDirective (d : Directive) (p : Printed) : Printed :=
  let (width, p) := takeCount d.width p
  let (precision, p) := match d.precision with
    | none => (none, p)
    | some c =>
      let (n, p) := takeCount c p
      (some n, p)
  let left := d.flags.contains '-'
  let cut (cs : Text) : Text := pad left width (cs.take (precision.getD cs.length))
  let arg := p.args.headD []
  let p' := { p with args := p.args.tail }
  match d.kind with
  | 's' => { p' with out := p.out ++ cut arg }
  | 'c' => { p' with out := p.out ++ pad left width (if arg.isEmpty then ['\x00'] else arg.take 1) }
  | 'b' =>
    let (cs, isCut) := unescape arg
    { p' with out := p.out ++ cut cs, isCut }
  | kind =>
    if ['d', 'i', 'u', 'x', 'X', 'o'].contains kind then
      let (n, p) := takeNumber p
      { p with out := p.out ++ showNumber d width precision n }
    else
      let (n, p) := takeDecimal p
      { p with out := p.out ++ showDecimal d width precision n }

/-- Writes the pieces once. -/
def showPieces (pieces : List Piece) (p : Printed) : Printed :=
  pieces.foldl (fun p piece =>
    if p.isCut then p
    else
      match piece with
      | .text cs => { p with out := p.out ++ cs }
      | .directive d => showDirective d p
      | .fault words => { p.complain words with status := 2, isCut := true }) p

/-- Writes the pieces for as long as there are arguments, at least once. -/
def showAll (pieces : List Piece) (p : Printed) : Printed :=
  let q := showPieces pieces p
  if q.isCut || q.args.isEmpty then q
  else if q.args.length < p.args.length then showAll pieces q
  else q
termination_by p.args.length

def printf (c : Call) : Option Reply :=
  let args := if c.args.head? = some ['-', '-'] then c.args.tail else c.args
  match args with
  | [] => some (c.fail (textOf "usage: printf format [arg ...]") 2)
  | format :: rest =>
    if format.head? = some '-' ∧ c.args.head? = some format ∧ 1 < format.length then
      some (c.fail (textOf "Illegal option " ++ format.take 2) 2)
    else
      let p := showAll (repeated piece format).1 ⟨rest, [], [], 0, false⟩
      some { c.reply p.out p.status with complaints := p.complaints }

def echo (c : Call) : Option Reply :=
  let (newline, args) := match c.args with
    | ['-', 'n'] :: rest => ([], rest)
    | _ => (['\n'], c.args)
  let (out, isCut) := unescape (Doctest.Text.joinWith ' ' args)
  some (c.reply (if isCut then out else out ++ newline) 0)

end Doctest.Shell.Printing
