import Doctest.Shell.Call
import Doctest.Shell.Printing

/-! Programs that tell about the system, its user and the time. -/
namespace Doctest.Shell.Facts

/-- Answers with one line. -/
def line (c : Call) (cs : Text) : Option Reply :=
  some (c.reply (cs ++ ['\n']) 0)

/-- Answers if there are no operands. -/
def alone (c : Call) (operands : List Text) (answer : Option Reply) : Option Reply :=
  match operands with
  | [] => answer
  | extra :: _ => some (c.refuse (textOf "extra operand " ++ Call.quoted extra) 1)

/-- The name of the user, whose number is zero. -/
def userName : Text :=
  textOf "root"

def id (c : Call) : Option Reply :=
  c.withOptions ⟨["a", "g", "G", "n", "r", "u", "z"], [], [("user", "u"), ("group", "g"), ("name", "n")],
    false⟩ 1 fun os _ =>
    if os.has "u" || os.has "g" || os.has "G" then line c (if os.has "n" then userName else ['0'])
    else line c (textOf "uid=0(root) gid=0(root) groups=0(root)")

def whoami (c : Call) : Option Reply :=
  c.withOptions (.ofLetters "" "") 1 fun _ operands => alone c operands (line c userName)

/-- The facts about the system by the letters of their options, in the order in which they are shown. -/
def systemFacts : List (String × String) :=
  [("s", "Linux"), ("n", "localhost"), ("r", "6.1.0"), ("v", "#1 SMP"), ("m", "x86_64"),
    ("o", "GNU/Linux")]

def uname (c : Call) : Option Reply :=
  c.withOptions ⟨["a", "s", "n", "r", "v", "m", "p", "i", "o"], [],
    [("all", "a"), ("kernel-name", "s"), ("nodename", "n"), ("machine", "m")], false⟩ 1 fun os operands =>
    let shown := systemFacts.filter fun (letter, _) =>
      os.has "a" || os.has letter || (os.given.isEmpty && letter = "s")
    alone c operands (line c (Doctest.Text.joinWith ' ' (shown.map fun f => textOf f.2)))

/-- A fact that a program of no options tells. -/
def fact (cs : String) (c : Call) : Option Reply :=
  c.withOptions (.ofLetters "fis" "") 1 fun _ _ => line c (textOf cs)

/-- Tells that there is no terminal. -/
def tty (c : Call) : Option Reply :=
  c.withOptions ⟨["s"], [], [("silent", "s"), ("quiet", "s")], false⟩ 2 fun os _ =>
    some (c.reply (if os.has "s" then [] else textOf "not a tty\n") 1)

def sync (c : Call) : Option Reply :=
  some (c.reply [] 0)

/-- Prints the values of variables, or all of them. -/
def printenv (c : Call) : Option Reply :=
  c.withOptions ⟨["0"], [], [("null", "0")], false⟩ 2 fun _ operands =>
    let exported := c.machine.values.filterMap fun (name, v) =>
      if v.isExported then v.value.map fun value => (name, value) else none
    if operands.isEmpty then
      some (c.reply (unlinesOf (exported.reverse.map fun (name, value) => name ++ '=' :: value)) 0)
    else
      let found := operands.filterMap (exported.lookup ·)
      some (c.reply (unlinesOf found) (if found.length = operands.length then 0 else 1))

/-- The paths of programs: of each the first one, or all. -/
def which (c : Call) : Option Reply :=
  c.withOptions (.ofLetters "as" "") 2 fun os operands =>
    let found := operands.map fun name =>
      (if name.contains '/' then [name] else c.machine.candidates name).filter c.machine.isProgram
    let shown := if os.has "a" then found.flatten else found.flatMap (·.take 1)
    let out := if os.has "s" then [] else unlinesOf shown
    some (c.reply out (if operands.isEmpty || found.any (·.isEmpty) then 1 else 0))

/-- A day of the calendar with the time of day. -/
structure Moment where
  year : Nat
  month : Nat
  day : Nat
  /-- The days since the year began, and the day of the week from Sunday on. -/
  dayOfYear : Nat
  weekday : Nat
  hour : Nat
  minute : Nat
  second : Nat

def isLeap (year : Nat) : Bool :=
  year % 4 = 0 && (year % 100 ≠ 0 || year % 400 = 0)

def monthLengths (year : Nat) : List Nat :=
  [31, if isLeap year then 29 else 28, 31, 30, 31, 30, 31, 31, 30, 31, 30, 31]

/-- The year in which a day is and the days since it began. The days are counted from the start of a
year. -/
def yearOf : (fuel : Nat) → (year day : Nat) → Nat × Nat
  | 0, year, day => (year, day)
  | fuel + 1, year, day =>
    let length := if isLeap year then 366 else 365
    if day < length then (year, day) else yearOf fuel (year + 1) (day - length)

/-- The month in which a day of a year is, and the days since it began. -/
def monthOf (lengths : List Nat) (month day : Nat) : Nat × Nat :=
  match lengths with
  | [] => (month, day)
  | length :: rest => if day < length then (month, day) else monthOf rest (month + 1) (day - length)

/-- The moment so many seconds after 1970 began. -/
def Moment.ofSeconds (n : Nat) : Moment :=
  let days := n / 86400
  let (year, dayOfYear) := yearOf (days / 365 + 1) 1970 days
  let (month, day) := monthOf (monthLengths year) 1 dayOfYear
  { year, month, day := day + 1, dayOfYear, weekday := (days + 4) % 7
    hour := n / 3600 % 24, minute := n / 60 % 60, second := n % 60 }

def weekdays : List String :=
  ["Sunday", "Monday", "Tuesday", "Wednesday", "Thursday", "Friday", "Saturday"]

def months : List String :=
  ["January", "February", "March", "April", "May", "June", "July", "August", "September", "October",
    "November", "December"]

/-- A number with something before it up to a width. -/
def filled (c : Char) (width n : Nat) : Text :=
  List.replicate (width - (digits n).length) c ++ digits n

/-- What a letter in a form stands for. -/
def part (m : Moment) (seconds milliseconds : Nat) (letter : Char) : Text :=
  let two (n : Nat) : Text := filled '0' 2 n
  let nameIn (names : List String) (n : Nat) : Text := textOf (names[n]?.getD "")
  let twelve := if m.hour % 12 = 0 then 12 else m.hour % 12
  let day := Doctest.Text.joinWith '/' [two m.month, two m.day, two (m.year % 100)]
  let time := Doctest.Text.joinWith ':' [two m.hour, two m.minute, two m.second]
  match letter with
  | 'Y' => digits m.year
  | 'C' => two (m.year / 100)
  | 'y' => two (m.year % 100)
  | 'm' => two m.month
  | 'd' => two m.day
  | 'e' => filled ' ' 2 m.day
  | 'j' => filled '0' 3 (m.dayOfYear + 1)
  | 'H' => two m.hour
  | 'I' => two twelve
  | 'M' => two m.minute
  | 'S' => two m.second
  | 'p' => textOf (if m.hour < 12 then "AM" else "PM")
  | 's' => digits seconds
  | 'N' => filled '0' 3 milliseconds ++ List.replicate 6 '0'
  | 'a' => (nameIn weekdays m.weekday).take 3
  | 'A' => nameIn weekdays m.weekday
  | 'b' | 'h' => (nameIn months (m.month - 1)).take 3
  | 'B' => nameIn months (m.month - 1)
  | 'u' => digits (if m.weekday = 0 then 7 else m.weekday)
  | 'w' => digits m.weekday
  | 'Z' => textOf "UTC"
  | 'z' => textOf "+0000"
  | 'F' => Doctest.Text.joinWith '-' [digits m.year, two m.month, two m.day]
  | 'D' => day
  | 'T' => time
  | 'R' => time.take 5
  | 'n' => ['\n']
  | 't' => ['\t']
  | '%' => ['%']
  | other => ['%', other]

/-- A moment in a form. A digit before a letter says how many digits are wanted. -/
def shown (m : Moment) (seconds milliseconds : Nat) : Text → Text
  | '%' :: '3' :: 'N' :: rest => filled '0' 3 milliseconds ++ shown m seconds milliseconds rest
  | '%' :: '-' :: letter :: rest =>
    let cs := (part m seconds milliseconds letter).dropWhile fun c => c = '0' || c = ' '
    (if cs.isEmpty then ['0'] else cs) ++ shown m seconds milliseconds rest
  | '%' :: letter :: rest => part m seconds milliseconds letter ++ shown m seconds milliseconds rest
  | c :: rest => c :: shown m seconds milliseconds rest
  | [] => []

/-- The time at which the first process begins, in seconds since 1970 began. -/
def beginning : Nat := 1750000000

def date (c : Call) : Option Reply :=
  c.withOptions ⟨["u", "R"], ["d", "r", "I"], [("utc", "u"), ("date", "d"), ("reference", "r")], false⟩ 1
    fun os operands =>
    let now := c.machine.system.clock
    let time : Except Text (Nat × Nat) := match os.value? "d" with
      | none => .ok (beginning + now / 1000, now % 1000)
      | some ('@' :: ds) => match natOf? ds with
        | some n => .ok (n, 0)
        | none => .error ('@' :: ds)
      | some cs => if cs = textOf "now" then .ok (beginning + now / 1000, now % 1000) else .error cs
    match time, operands with
    | .error cs, _ => some (c.fail (textOf "invalid date " ++ Call.quoted cs) 1)
    | .ok (seconds, milliseconds), operands =>
      let form : Except Text Text := match operands with
        | [] => .ok (textOf "%a %b %e %H:%M:%S %Z %Y")
        | ('+' :: form) :: _ => .ok form
        | other :: _ => .error other
      match form with
      | .ok form => line c (shown (.ofSeconds seconds) seconds milliseconds form)
      | .error cs => some (c.fail (textOf "invalid date " ++ Call.quoted cs) 1)

end Doctest.Shell.Facts
