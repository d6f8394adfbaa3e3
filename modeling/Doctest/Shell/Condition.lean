import Doctest.Shell.Place
import Doctest.Shell.Printing

/-! The conditions that scripts test. -/
namespace Doctest.Shell.Condition

/-- Words about a condition that is none. -/
abbrev Fault := Text

/-- How a word may stand in a condition. -/
inductive Role
  | unary | binary | conjunction | disjunction | negation | opening | closing
deriving DecidableEq, Repr

def roles : List (String × Role) :=
  ["-r", "-w", "-x", "-e", "-f", "-d", "-c", "-b", "-p", "-u", "-g", "-k", "-s", "-t", "-z", "-n", "-h",
      "-O", "-G", "-L", "-S"].map (·, .unary) ++
    ["=", "!=", "<", ">", "-eq", "-ne", "-ge", "-gt", "-le", "-lt", "-nt", "-ot", "-ef"].map
      (·, .binary) ++
    [("!", .negation), ("-a", .conjunction), ("-o", .disjunction), ("(", .opening), (")", .closing)]

def roleOf? (w : Text) : Option Role :=
  (roles.find? fun r => r.1.toList == w).map (·.2)

/-- The role of the first of some words. An operator with nothing to work on is an operand. -/
def leading? : List Text → Option Role
  | [] => none
  | w :: rest =>
    match roleOf? w, rest with
    | some .unary, [] => none
    | some .unary, [next, _] | some .unary, next :: _ :: _ =>
      if roleOf? next = some .binary then none else some .unary
    | some .opening, [] => none
    | role, _ => role

/-- The reading of a condition: its value and the words that are left. -/
abbrev Reading := Except Fault (Bool × List Text)

def fault {α : Type} (op : Text) (words : String) : Except Fault α :=
  .error (if op.isEmpty then textOf words else Call.about op words)

def number (cs : Text) : Except Fault Int :=
  let body := cs.dropWhile Doctest.Text.isBlank
  let (sign, ds) : Int × Text := match body with
    | '-' :: ds => (-1, ds)
    | '+' :: ds => (1, ds)
    | ds => (1, ds)
  match Printing.natural 10 ds with
  | (some n, rest) =>
    if rest.all Doctest.Text.isBlank then .ok (sign * n)
    else .error (textOf "Illegal number: " ++ cs)
  | (none, _) => .error (textOf "Illegal number: " ++ cs)

def numbers (a b : Text) (compare : Int → Int → Bool) : Except Fault Bool := do
  pure (compare (← number a) (← number b))

def isExecutable (m : Machine) (path : Text) : Bool :=
  match m.entry? path with
  | some (.file _ isExecutable) => isExecutable
  | some .directory => true
  | _ => false

def isFilled (m : Machine) (path : Text) : Bool :=
  match m.entry? path with
  | some (.file contents _) => !contents.isEmpty
  | some .directory => true
  | _ => false

def isFile (m : Machine) (path : Text) : Bool :=
  match m.entry? path with
  | some (.file ..) => true
  | _ => false

def isDevice (m : Machine) (path : Text) : Bool :=
  match m.entry? path with
  | some (.device _) => true
  | _ => false

/-- A condition on one operand. No descriptor leads to a terminal. -/
def unary (m : Machine) (op operand : Text) : Except Fault Bool :=
  match String.ofList op with
  | "-n" => .ok (!operand.isEmpty)
  | "-z" => .ok operand.isEmpty
  | "-e" | "-r" | "-w" | "-O" | "-G" => .ok (m.isPresent operand)
  | "-f" => .ok (isFile m operand)
  | "-d" => .ok (m.entry? operand = some .directory)
  | "-x" => .ok (isExecutable m operand)
  | "-s" => .ok (isFilled m operand)
  | "-c" => .ok (isDevice m operand)
  | "-p" => .ok (m.isPipe operand)
  | "-h" | "-L" => .ok (m.link? operand).isSome
  | "-t" => do
    let _ ← number operand
    .ok false
  | _ => .ok false

/-- Whether two paths lead to the same file or pipe. -/
def isSameFile (m : Machine) (a b : Text) : Bool :=
  match m.place a, m.place b with
  | .pipe n _, .pipe k _ => n == k
  | .path p, .path q =>
    match m.files.resolve (pathOf p), m.files.resolve (pathOf q) with
    | .ok names, .ok others => names == others && (m.files.at? names).isSome
    | _, _ => false
  | _, _ => false

/-- A condition on two operands. -/
def binary (m : Machine) (a op b : Text) : Except Fault Bool :=
  match String.ofList op with
  | "=" => .ok (a == b)
  | "!=" => .ok (a != b)
  | "<" => .ok (a < b)
  | ">" => .ok (b < a)
  | "-eq" => numbers a b (· == ·)
  | "-ne" => numbers a b (· != ·)
  | "-lt" => numbers a b (· < ·)
  | "-le" => numbers a b (· ≤ ·)
  | "-gt" => numbers a b (· > ·)
  | "-ge" => numbers a b (· ≥ ·)
  | "-ef" => .ok (isSameFile m a b)
  | _ => .ok false

/-- A condition without `and` and `or`. The first word may have to be an operand. -/
def primary (m : Machine) (whole : List Text → Reading) (isOperand : Bool) :
    List Text → Reading
  | [] => .ok (false, [])
  | w :: rest =>
    match if isOperand then none else leading? (w :: rest) with
    | some .opening =>
      if roleOf? (rest.headD []) = some .closing then .ok (false, rest)
      else do
        let (value, rest) ← whole rest
        if roleOf? (rest.headD []) = some .closing then .ok (value, rest.tail)
        else fault [] "closing paren expected"
    | some .unary =>
      match rest with
      | [] => fault w "argument expected"
      | operand :: rest => do .ok (← unary m w operand, rest)
    | _ =>
      match leading? rest, rest with
      | some .binary, op :: b :: rest => do .ok (← binary m w op b, rest)
      | some .binary, [op] => fault op "argument expected"
      | _, rest => .ok (!w.isEmpty, rest)

def negated (m : Machine) (whole : List Text → Reading) (isOperand : Bool) :
    List Text → Reading
  | [] => primary m whole isOperand []
  | w :: rest =>
    if !isOperand ∧ leading? (w :: rest) = some .negation then do
      let (value, rest) ← negated m whole false rest
      .ok (!value, rest)
    else primary m whole isOperand (w :: rest)

/-- Conditions that must all hold. -/
def conjunction (m : Machine) (whole : List Text → Reading) :
    (fuel : Nat) → (isOperand : Bool) → List Text → Reading
  | 0, _, ws => .ok (false, ws)
  | fuel + 1, isOperand, ws => do
    let (value, rest) ← negated m whole isOperand ws
    match leading? rest, rest with
    | some .conjunction, _ :: more =>
      let (others, rest) ← conjunction m whole fuel false more
      .ok (value && others, rest)
    | _, rest => .ok (value, rest)

/-- Conditions of which one must hold. -/
def disjunction (m : Machine) : (fuel : Nat) → (isOperand : Bool) → List Text → Reading
  | 0, _, ws => .ok (false, ws)
  | fuel + 1, isOperand, ws => do
    let (value, rest) ←
      conjunction m (disjunction m fuel false) (ws.length + 1) isOperand ws
    match leading? rest, rest with
    | some .disjunction, _ :: more =>
      let (others, rest) ← disjunction m fuel false more
      .ok (value || others, rest)
    | _, rest => .ok (value, rest)

/-- The value of a condition that must not leave any words. -/
def whole (m : Machine) (isOperand : Bool) (ws : List Text) : Except Fault Bool := do
  let (value, rest) ← disjunction m (ws.length + 1) isOperand ws
  match rest with
  | [] => .ok value
  | _ => fault (ws.getD (ws.length - rest.length - 1) []) "unexpected operator"

/-- Whether a condition holds. Few words are understood by their number. -/
def holds (m : Machine) : List Text → Except Fault Bool
  | [] => .ok false
  | w :: ws =>
    let args := w :: ws
    let isFew := args.length = 3 ∨ args.length = 4
    if args.length = 3 ∧ (ws.head?.bind roleOf?) = some .binary then whole m true args
    else if isFew ∧ w = ['('] ∧ ws.getLast? = some [')'] then whole m false ws.dropLast
    else if isFew ∧ w = ['!'] then do
      .ok (!(← holds m ws))
    else whole m false args

end Doctest.Shell.Condition
