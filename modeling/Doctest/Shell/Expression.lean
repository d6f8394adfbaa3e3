import Doctest.Shell.Call
import Doctest.Shell.Regex

/-! Expressions whose operators and operands are arguments of their own. -/
namespace Doctest.Shell.Expression

inductive Fault
  | unexpected (cs : Text)
  | missingAfter (cs : Text)
  | unclosed (cs : Text)
  | notInteger
  | divisionByZero
  | regex (f : Regex.Fault)
deriving DecidableEq, Repr

def Fault.words : Fault → Text
  | unexpected cs => textOf "syntax error: unexpected argument " ++ Call.quoted cs
  | missingAfter cs => textOf "syntax error: missing argument after " ++ Call.quoted cs
  | unclosed cs => textOf "syntax error: expecting ')' after " ++ Call.quoted cs
  | notInteger => textOf "non-integer argument"
  | divisionByZero => textOf "division by zero"
  | regex f => textOf f.words

/-- What has been read last, and what is left. -/
structure Reading where
  last : Text
  rest : List Text

abbrev Parse := StateT Reading (Except Fault)

def integer? : Text → Option Int
  | '-' :: ds => (natOf? ds).map fun n => -Int.ofNat n
  | ds => (natOf? ds).map Int.ofNat

def integer (cs : Text) : Parse Int :=
  match integer? cs with
  | some n => pure n
  | none => throw .notInteger

/-- Whether a value is empty or a zero. -/
def isNull (cs : Text) : Bool :=
  cs.isEmpty || integer? cs == some 0

def ofInt (n : Int) : Text :=
  (toString n).toList

def ofBool (b : Bool) : Text :=
  if b then ['1'] else ['0']

/-- The next argument, which must be there. -/
def next : Parse Text := do
  let s ← get
  match s.rest with
  | [] => throw (.missingAfter s.last)
  | cs :: rest =>
    set (Reading.mk cs rest)
    pure cs

/-- Reads one of some operators, if it comes next. -/
def operator? (names : List String) : Parse (Option String) := do
  match (← get).rest with
  | cs :: _ =>
    match names.find? fun n => n.toList == cs with
    | some n =>
      let _ ← next
      pure (some n)
    | none => pure none
  | [] => pure none

/-- What a regular expression matches at the front of a text: its group, or the number of characters. -/
def matched (cs pattern : Text) : Parse Text := do
  match Regex.parse false pattern with
  | .error f => throw (.regex f)
  | .ok r =>
    let hasGroup := r.groupCount ≠ 0
    match r.longest? ⟨none, cs, []⟩ with
    | some p => pure (if hasGroup then (p.groups.lookup 1).getD [] else digits (cs.length - p.rest.length))
    | none => pure (if hasGroup then [] else ['0'])

/-- A part of a text from a place on, counted from one. -/
def part (cs first size : Text) : Text :=
  match integer? first, integer? size with
  | some (.ofNat (n + 1)), some (.ofNat k) => (cs.drop n).take k
  | _, _ => []

def compareBy (name : String) (a b : Text) : Bool :=
  let order : Ordering := match integer? a, integer? b with
    | some m, some n => compare m n
    | _, _ => if a = b then .eq else if inOrder a b then .lt else .gt
  match name with
  | "<" => order == .lt
  | "<=" => order != .gt
  | ">" => order == .gt
  | ">=" => order != .lt
  | "!=" => order != .eq
  | _ => order == .eq

/-- The value of an operator and its two operands. -/
def apply (name : String) (a b : Text) : Parse Text := do
  match name with
  | "|" => pure (if !isNull a then a else if isNull b then ['0'] else b)
  | "&" => pure (if isNull a || isNull b then ['0'] else a)
  | ":" => matched a b
  | "+" => pure (ofInt ((← integer a) + (← integer b)))
  | "-" => pure (ofInt ((← integer a) - (← integer b)))
  | "*" => pure (ofInt ((← integer a) * (← integer b)))
  | "/" | "%" =>
    let m ← integer a
    let n ← integer b
    if n = 0 then throw .divisionByZero
    pure (ofInt (if name = "/" then m.tdiv n else m.tmod n))
  | _ => pure (ofBool (compareBy name a b))

/-- The operators from the loosest to the tightest. -/
def levels : List (List String) :=
  [["|"], ["&"], ["<", "<=", "=", "==", "!=", ">=", ">"], ["+", "-"], ["*", "/", "%"], [":"]]

/-- Operands with operators of one level between them, from the left. -/
def chain (operand : Parse Text) (names : List String) : (fuel : Nat) → Text → Parse Text
  | 0, a => pure a
  | fuel + 1, a => do
    match ← operator? names with
    | some name => chain operand names fuel (← apply name a (← operand))
    | none => pure a

def chained (operand : Parse Text) : List (List String) → Parse Text
  | [] => operand
  | names :: tighter => do
    let a ← chained operand tighter
    chain (chained operand tighter) names (← get).rest.length a

/-- An expression in parentheses, a function of texts, or a text. -/
def operand : (fuel : Nat) → Parse Text
  | 0 => do throw (.missingAfter (← get).last)
  | fuel + 1 => do
    let cs ← next
    match String.ofList cs with
    | "(" =>
      let a ← chained (operand fuel) levels
      let s ← get
      match s.rest with
      | [')'] :: rest =>
        set (Reading.mk [')'] rest)
        pure a
      | [] => throw (.unclosed s.last)
      | other :: _ => throw (.unexpected other)
    | "+" => if (← get).rest.isEmpty then throw (.missingAfter cs) else next
    | "length" => pure (digits (← operand fuel).length)
    | "match" => matched (← operand fuel) (← operand fuel)
    | "index" =>
      let a ← operand fuel
      let set ← operand fuel
      pure (digits ((a.findIdx? (set.contains ·)).map (· + 1) |>.getD 0))
    | "substr" => pure (part (← operand fuel) (← operand fuel) (← operand fuel))
    | _ => pure cs

/-- The value of all arguments. -/
def value (args : List Text) : Except Fault Text := do
  let (a, s) ← chained (operand (args.length + 1)) levels ⟨[], args⟩
  match s.rest with
  | [] => pure a
  | other :: _ => .error (.unexpected other)

/-- Prints the value of an expression, and fails if it is null. -/
def expr (c : Call) : Option Reply :=
  let args := if c.args.head? = some ['-', '-'] then c.args.tail else c.args
  if args.isEmpty then some (c.refuse (textOf "missing operand") 2)
  else
    match value args with
    | .ok a => some (c.reply (a ++ ['\n']) (if isNull a then 1 else 0))
    | .error f => some (c.fail f.words 2)

end Doctest.Shell.Expression
