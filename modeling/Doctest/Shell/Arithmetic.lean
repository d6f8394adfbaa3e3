import Doctest.Shell.Printing

/-! Arithmetic in shell scripts: integers of 64 bits, variables, and the operators of most languages. -/
namespace Doctest.Shell.Arithmetic

/-- Why an expression has no value. -/
inductive Fault
  | noPrimary
  | noEnd
  | noParenthesis
  | noColon
  | divisionByZero
  /-- A variable does not hold a number. -/
  | notNumber (value : Text)
deriving DecidableEq, Repr

/-- What is said of a faulty expression. -/
def Fault.message (expression : Text) : Fault → Text
  | notNumber value => textOf "Illegal number: " ++ value
  | f =>
    let words := match f with
      | noPrimary => "expecting primary"
      | noEnd => "expecting EOF"
      | noParenthesis => "expecting ')'"
      | noColon => "expecting ':'"
      | _ => "division by zero"
    textOf ("arithmetic expression: " ++ words ++ ": \"") ++ expression ++ ['"']

inductive Lexeme
  | number (n : Nat)
  | name (cs : Text)
  | operator (spelling : String)
deriving DecidableEq, Repr

/-- The operators, a longer one before those that it begins with. -/
def operators : List String :=
  ["<<=", ">>=", "<<", ">>", "<=", ">=", "==", "!=", "&&", "||", "*=", "/=", "%=", "+=", "-=", "&=", "^=",
    "|=", "<", ">", "=", "!", "~", "?", ":", "(", ")", "*", "/", "%", "+", "-", "&", "^", "|"]

def isNameChar (c : Char) : Bool :=
  c.isAlphanum || c = '_'

/-- The lexemes of an expression. What is none of them stands for itself. -/
def lexemes : (fuel : Nat) → Text → List Lexeme
  | 0, _ | _, [] => []
  | fuel + 1, c :: cs =>
    if Doctest.Text.isBlank c then lexemes fuel cs
    else if c.isDigit then
      let (n, rest) := Printing.constant (c :: cs)
      .number (n.getD 0) :: lexemes fuel rest
    else if isNameChar c then
      .name (c :: cs.takeWhile isNameChar) :: lexemes fuel (cs.dropWhile isNameChar)
    else
      match operators.find? fun o => o.toList.isPrefixOf (c :: cs) with
      | some o => .operator o :: lexemes fuel ((c :: cs).drop o.length)
      | none => .operator (String.singleton c) :: lexemes fuel cs

/-- An operation on two numbers. There is no result where a number is divided by zero. -/
abbrev Operation := Int → Int → Option Int

inductive Expression
  | number (n : Int)
  | name (cs : Text)
  | unary (f : Int → Int) (e : Expression)
  | binary (f : Operation) (a b : Expression)
  | both (a b : Expression)
  | either (a b : Expression)
  | choice (condition yes no : Expression)
  /-- A variable gets a value or, with an operation, a new one from its old one. -/
  | assign (cs : Text) (f : Option Operation) (e : Expression)

def ofBool (b : Bool) : Int :=
  if b then 1 else 0

/-- The number of 64 bits that an integer is taken for. -/
def wrap (n : Int) : Int :=
  n.bmod UInt64.size

/-- An operation on the bits of two numbers. -/
def bitwise (f : UInt64 → UInt64 → UInt64) : Operation := fun a b =>
  some (Int.ofNat (f (UInt64.ofInt a) (UInt64.ofInt b)).toNat)

/-- What a shift by so many bits multiplies a number with. -/
def shiftFactor (n : Int) : Nat :=
  Nat.pow 2 (n % 64).toNat

def divide (f : Int → Int → Int) : Operation := fun a b =>
  if b = 0 then none else some (f a b)

/-- The operators of two numbers from the loosest to the tightest. -/
def levels : List (List (String × Operation)) :=
  [[("|", bitwise (· ||| ·))],
    [("^", bitwise (· ^^^ ·))],
    [("&", bitwise (· &&& ·))],
    [("==", fun a b => some (ofBool (a == b))), ("!=", fun a b => some (ofBool (a != b)))],
    [("<=", fun a b => some (ofBool (a ≤ b))), (">=", fun a b => some (ofBool (b ≤ a))),
      ("<", fun a b => some (ofBool (a < b))), (">", fun a b => some (ofBool (b < a)))],
    [("<<", fun a b => some (a * shiftFactor b)), (">>", fun a b => some (a / shiftFactor b))],
    [("+", fun a b => some (a + b)), ("-", fun a b => some (a - b))],
    [("*", fun a b => some (a * b)), ("/", divide Int.tdiv), ("%", divide Int.tmod)]]

/-- An assignment's operator, with the operation that it puts before. -/
def assignment? (spelling : String) : Option (Option Operation) :=
  if spelling = "=" then some none
  else (levels.flatten.find? fun o =>
    o.1 ++ "=" = spelling ∧ o.1 ∉ ["==", "!=", "<=", ">=", "<", ">"]).map fun o => some o.2

abbrev Parse := StateT (List Lexeme) (Except Fault)

/-- Reads an operator, or finds the fault that it is not there. -/
def expect (spelling : String) (f : Fault) : Parse Unit := do
  match ← get with
  | .operator s :: rest => if s = spelling then set rest else throw f
  | _ => throw f

/-- A number, a name, or an expression in parentheses, after operators that have one operand. -/
def operand (inner : Parse Expression) : (fuel : Nat) → Parse Expression
  | 0 => throw .noPrimary
  | fuel + 1 => do
    match ← get with
    | .number n :: rest =>
      set rest
      pure (.number (min n Printing.greatest))
    | .name cs :: rest =>
      set rest
      pure (.name cs)
    | .operator s :: rest =>
      set rest
      match s with
      | "(" =>
        let e ← inner
        expect ")" .noParenthesis
        pure e
      | "-" => pure (.unary (- ·) (← operand inner fuel))
      | "+" => operand inner fuel
      | "!" => pure (.unary (fun n => ofBool (n == 0)) (← operand inner fuel))
      | "~" => pure (.unary (fun n => -n - 1) (← operand inner fuel))
      | _ => throw .noPrimary
    | [] => throw .noPrimary

/-- Operands with operators of one level between them, from the left. -/
def chain (next : Parse Expression) (join? : String → Option (Expression → Expression → Expression)) :
    (fuel : Nat) → Expression → Parse Expression
  | 0, e => pure e
  | fuel + 1, e => do
    match ← get with
    | .operator s :: rest =>
      match join? s with
      | some join =>
        set rest
        chain next join? fuel (join e (← next))
      | none => pure e
    | _ => pure e

def chained (next : Parse Expression) (join? : String → Option (Expression → Expression → Expression)) :
    Parse Expression := do
  let e ← next
  chain next join? (← get).length e

def binary (next : Parse Expression) : List (List (String × Operation)) → Parse Expression
  | [] => next
  | ops :: tighter =>
    chained (binary next tighter) fun s => (ops.lookup s).map .binary

def logical (next : Parse Expression) : Parse Expression :=
  chained (chained (binary next levels) fun s => if s = "&&" then some .both else none)
    fun s => if s = "||" then some .either else none

/-- Choices, of which the second alternative may be another one. -/
def choices (inner : Parse Expression) : (fuel : Nat) → Parse Expression
  | 0 => throw .noPrimary
  | fuel + 1 => do
    let condition ← logical (operand inner ((← get).length + 1))
    match ← get with
    | .operator "?" :: rest =>
      set rest
      let yes ← inner
      expect ":" .noColon
      pure (.choice condition yes (← choices inner fuel))
    | _ => pure condition

/-- An expression, which may be an assignment. -/
def expression : (depth : Nat) → Parse Expression
  | 0 => throw .noPrimary
  | depth + 1 => do
    match ← get with
    | .name cs :: .operator s :: rest =>
      match assignment? s with
      | some f =>
        set rest
        pure (.assign cs f (← expression depth))
      | none => choices (expression depth) (depth + 1)
    | _ => choices (expression depth) (depth + 1)

def parse (cs : Text) : Except Fault Expression := do
  let ls := lexemes cs.length cs
  let (e, rest) ← expression (ls.length + 1) ls
  match rest with
  | [] => pure e
  | _ => throw .noEnd

/-- The variables that have been given values, the last first. -/
abbrev Changes := List (Text × Text)

abbrev Eval := StateT Changes (Except Fault)

def ofOption (f : Fault) : Option Int → Eval Int
  | some n => pure (wrap n)
  | none => throw f

/-- The number that a variable holds. Without a value it counts as zero. -/
def numberOf (lookup : Text → Option Text) (name : Text) : Eval Int := do
  let value := (((← get).lookup name).or (lookup name)).getD []
  let (n, rest) := Printing.signed value
  if value.isEmpty then pure 0
  else if rest.all Doctest.Text.isBlank then ofOption (.notNumber value) n
  else throw (.notNumber value)

def eval (lookup : Text → Option Text) : Expression → Eval Int
  | .number n => pure n
  | .name cs => numberOf lookup cs
  | .unary f e => do pure (wrap (f (← eval lookup e)))
  | .binary f a b => do
    let x ← eval lookup a
    let y ← eval lookup b
    ofOption .divisionByZero (f x y)
  | .both a b => do
    if (← eval lookup a) = 0 then pure 0 else pure (ofBool ((← eval lookup b) != 0))
  | .either a b => do
    if (← eval lookup a) ≠ 0 then pure 1 else pure (ofBool ((← eval lookup b) != 0))
  | .choice condition yes no => do
    if (← eval lookup condition) ≠ 0 then eval lookup yes else eval lookup no
  | .assign cs f e => do
    let new ← eval lookup e
    let n ← match f with
      | none => pure new
      | some f => do ofOption .divisionByZero (f (← numberOf lookup cs) new)
    modify fun changes => (cs, (toString n).toList) :: changes
    pure n

/-- The value of an expression and the variables that it changes, each with its last value. -/
def value (lookup : Text → Option Text) (cs : Text) : Except Fault (Int × Changes) := do
  (eval lookup (← parse cs)) []

end Doctest.Shell.Arithmetic
