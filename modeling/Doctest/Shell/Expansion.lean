import Doctest.Shell.Arithmetic
import Doctest.Shell.Pattern
import Doctest.Shell.Place
import Doctest.Shell.Turn

/-! What the words of a command stand for. -/
namespace Doctest.Shell

/-- Where a character of an expanded word comes from. -/
inductive Origin
  | literal | expanded | quoted
deriving DecidableEq, Repr

/-- A piece of an expanded word. -/
inductive Fragment
  | char (c : Char) (origin : Origin)
  /-- A quotation begins, so that a field is there even if nothing follows. -/
  | mark
  /-- An argument ends and the next begins. -/
  | cut
  /-- A quotation of all arguments, of which there are none. -/
  | absent
deriving DecidableEq, Repr

namespace Fragment

def ofValue (isQuoted : Bool) (cs : Text) : List Fragment :=
  let origin := if isQuoted then Origin.quoted else .expanded
  (if isQuoted then [mark] else []) ++ cs.map (char · origin)

/-- All arguments, each a field of its own where they are quoted. -/
def ofArguments (isQuoted : Bool) (args : List Text) : List Fragment :=
  if args.isEmpty then (if isQuoted then [absent] else [])
  else [cut].intercalate (args.map (ofValue isQuoted))

/-- What stands in the place of a value can be split where the value could be. -/
def asExpanded (isQuoted : Bool) : Fragment → Fragment
  | char c .literal => char c (if isQuoted then .quoted else .expanded)
  | f => f

def text (fs : List Fragment) : Text :=
  fs.filterMap fun
    | char c _ => some c
    | cut => some ' '
    | mark | absent => none

/-- The text as a pattern, in which quoted characters stand for themselves. -/
def pattern (fs : List Fragment) : Text :=
  fs.flatMap fun
    | char '/' _ => ['/']
    | char c .quoted => Pattern.quote [c]
    | char c _ => [c]
    | cut => [' ']
    | mark | absent => []

end Fragment

/-- The fields that have been cut off a word, and the one that has begun, all from the end to the
start. -/
structure Splitting where
  fields : List (List Fragment)
  current : Option (List Fragment)
  /-- Whether the last field was ended by a blank. -/
  isAfterBlank : Bool

namespace Splitting

def finish (s : Splitting) : Splitting :=
  { s with fields := s.current.toList ++ s.fields, current := none }

def step (separators : Text) (s : Splitting) (f : Fragment) : Splitting :=
  let add : Splitting := { s with current := some (f :: s.current.getD []), isAfterBlank := false }
  match f with
  | .char c .expanded =>
    if !separators.contains c then add
    else if Text.isBlank c then
      { s.finish with isAfterBlank := s.current.isSome || s.isAfterBlank }
    else if s.current.isSome then { s.finish with isAfterBlank := false }
    else if s.isAfterBlank then { s with isAfterBlank := false }
    else { s with fields := [] :: s.fields }
  | .cut => { s.finish with isAfterBlank := false }
  | _ => add

/-- The fields of a word. Those that hold nothing but an absent list of arguments vanish. -/
def fieldsOf (separators : Text) (fs : List Fragment) : List (List Fragment) :=
  let s := (fs.foldl (step separators) ⟨[], none, false⟩).finish
  (s.fields.reverse.map List.reverse).filter fun field =>
    !(field.contains .absent && field.all fun f => f = .absent ∨ f = .mark)

end Splitting

def newlinesDropped (cs : Text) : Text :=
  (cs.reverse.dropWhile (· = '\n')).reverse

/-- Cuts off what the pattern matches at the start of a text, if it matches. -/
def dropStart (longest : Bool) (p : Pattern) (cs : Text) : Text :=
  let lengths := List.range (cs.length + 1)
  match (if longest then lengths.reverse else lengths).find? fun n => p.accepts (cs.take n) with
  | some n => cs.drop n
  | none => cs

def dropEnd (longest : Bool) (p : Pattern) (cs : Text) : Text :=
  let lengths := List.range (cs.length + 1)
  match (if longest then lengths else lengths.reverse).find? fun n => p.accepts (cs.drop n) with
  | some n => cs.take n
  | none => cs

/-- The paths that a field stands for, in order. A field that is no pattern, or matches nothing, stands
for itself. -/
def pathsOf (m : Machine) (field : List Fragment) : List Text :=
  let isActive := field.any fun
    | .char c o => o != .quoted && ['*', '?', '['].contains c
    | _ => false
  if !isActive then [Fragment.text field]
  else
    let parts := Doctest.Text.splitOn '/' (Fragment.pattern field)
    let found := (parts.drop 1).foldl (fun found part => found.flatMap fun path =>
      children (path ++ ['/']) part) (children [] (parts.headD []))
    if found.isEmpty then [Fragment.text field] else found.mergeSort inOrder
where
  /-- The paths that go on from a directory by a part of the pattern. -/
  children (dir part : Text) : List Text :=
    if dir.isEmpty && part.isEmpty then [[]]
    else
      match directoryAt? (dir ++ ['.']) with
      | some names =>
        let pattern := Pattern.ofText part
        let names := match pattern.literal? with
          | some [] => [[]]
          | some name => if m.isPresent (dir ++ name) then [name] else []
          | none =>
            (['.'] :: ['.', '.'] :: m.namesIn names).filter fun name =>
              (name.head? != some '.' || part.head? = some '.') && pattern.accepts name
        names.map (dir ++ ·)
      | none => []
  /-- The directory that a path leads to. -/
  directoryAt? (path : Text) : Option (List Bytes) :=
    match m.place path with
    | .path p =>
      if m.files.isDirectory (pathOf p) then (m.files.resolve (pathOf p)).toOption else none
    | _ => none

namespace Act

/-- Gives a variable a value, unless it can only be read. One of them tells where options are looked for. -/
def assign (name value : Text) : Act Unit := do
  if (← get).isReadOnly name then fail (name ++ textOf ": is read only")
  else
    modify fun m => m.setVariable name value
    if name = "OPTIND".toList then
      match natOf? value with
      | some n => modify fun m => { m with optionPlace := ⟨max n 1, none⟩ }
      | none => fail (textOf "Illegal number: " ++ value)

/-- The value of an expression, whose changes of variables are carried out. -/
def compute (expression : Text) : Act Text := do
  let m ← get
  match Arithmetic.value m.parameter? expression with
  | .ok (n, changes) =>
    for (name, value) in changes.reverse do assign name value
    pure (toString n).toList
  | .error f =>
    fail (f.message expression)
    pure []

/-- Complains about a parameter that is not set. -/
def refuseUnset (name : Text) (orEmpty : Bool) (words : Text) : Act Unit :=
  let usual := textOf ("parameter not set" ++ if orEmpty then " or null" else "")
  fail (name ++ [':', ' '] ++ if words.isEmpty then usual else words)

end Act

namespace Part

/-- All arguments as one text. -/
def joined (m : Machine) : Text :=
  match m.separators with
  | [] => m.arguments.flatten
  | c :: _ => Doctest.Text.joinWith c m.arguments

/-- The value of a parameter in place of its name. -/
def shown (m : Machine) (name : Text) (isQuoted : Bool) (value : Option Text) : List Fragment :=
  if name = ['@'] ∨ (name = ['*'] ∧ !isQuoted) then Fragment.ofArguments isQuoted m.arguments
  else if name = ['*'] then Fragment.ofValue isQuoted (joined m)
  else Fragment.ofValue isQuoted (value.getD [])

/-- The value of a parameter that has been found to be set. All arguments are a field even if there are
none. -/
def shownThere (m : Machine) (name : Text) (isQuoted : Bool) (value : Option Text) : List Fragment :=
  if isQuoted ∧ m.arguments.isEmpty then Fragment.ofValue isQuoted (value.getD [])
  else shown m name isQuoted value

/-- Whether a use of a parameter says what to do if that is not set. -/
def allowsUnset : Use → Bool
  | .orElse .. | .orAssign .. | .orFail .. | .ifSet .. => true
  | _ => false

/-- Where a tilde stands for a home directory: at the start of a word, and possibly after colons. -/
inductive Tilde
  | nowhere | atStart | afterColons
deriving DecidableEq, Repr

/-- The home directory of the user at hand or of one who is named. -/
def homeOf? (m : Machine) (name : Text) : Option Text :=
  if name.isEmpty then (m.valueOf? "HOME".toList).filter (!·.isEmpty)
  else Machine.homes.lookup (String.ofList name)

/-- Characters as they are written, where a tilde may begin the name of a home directory. The name may end
with them, or has to end before a slash. -/
def withHome (m : Machine) (mayEnd : Bool) (cs : Text) : List Fragment :=
  let literal : List Fragment := cs.map (.char · .literal)
  match cs with
  | '~' :: body =>
    let name := body.takeWhile (· != '/')
    match if mayEnd || name.length < body.length then homeOf? m name else none with
    | some home => home.map (.char · .quoted) ++ (body.drop name.length).map (.char · .literal)
    | none => literal
  | _ => literal

/-- A piece that is not quoted, at the start or the end of its word or not. -/
def unquoted (m : Machine) (t : Tilde) (isStart isEnd : Bool) (cs : Text) : List Fragment :=
  let pieces := if t = .afterColons then Doctest.Text.splitOn ':' cs else [cs]
  [Fragment.char ':' .literal].intercalate (pieces.mapIdx fun i piece =>
    if t ≠ .nowhere ∧ (isStart ∨ 0 < i) then withHome m (isEnd || i + 1 < pieces.length) piece
    else piece.map (.char · .literal))

mutual

def expand : Part → Act (List Fragment)
  | .plain cs => pure (cs.map (.char · .literal))
  | .quoted cs => pure (.mark :: cs.map (.char · .quoted))
  | .nonsense => do
    Act.fail (textOf "Bad substitution")
    pure []
  | .arithmetic expression isQuoted => do
    let cs := Fragment.text (← expandAll .nowhere true expression)
    if ← Act.goesOn then pure (Fragment.ofValue isQuoted (← Act.compute cs)) else pure []
  | .output c isQuoted => do
    pure (Fragment.ofValue isQuoted (newlinesDropped (← Act.capture c)))
  | .parameter name use isQuoted => do
    let m ← get
    let value := m.parameter? name
    let isThere (orEmpty : Bool) : Bool := value.any fun cs => !(orEmpty && cs.isEmpty)
    if value.isNone && m.has 'u' && !allowsUnset use && name != ['@'] && name != ['*'] then
      Act.refuseUnset name false []
      pure []
    else
      match use with
      | .value => pure (shown m name isQuoted value)
      | .length =>
        let n := if name = ['@'] ∨ name = ['*'] then m.arguments.length else (value.getD []).length
        pure (Fragment.ofValue isQuoted (digits n))
      | .orElse orEmpty word =>
        if isThere orEmpty then pure (shownThere m name isQuoted value)
        else pure ((← expandAll .atStart true word).map (.asExpanded isQuoted))
      | .orAssign orEmpty word =>
        if isThere orEmpty then pure (shownThere m name isQuoted value)
        else do
          let cs := Fragment.text (← expandAll .atStart true word)
          Act.assign name cs
          pure (Fragment.ofValue isQuoted cs)
      | .orFail orEmpty word =>
        if isThere orEmpty then pure (shownThere m name isQuoted value)
        else do
          let cs := Fragment.text (← expandAll .atStart true word)
          if ← Act.goesOn then Act.refuseUnset name orEmpty cs
          pure []
      | .ifSet orEmpty word =>
        if isThere orEmpty then pure ((← expandAll .atStart true word).map (.asExpanded isQuoted))
        else pure (Fragment.ofValue isQuoted [])
      | .dropStart longest word => do
        let p := Pattern.ofText (Fragment.pattern (← expandAll .atStart true word))
        pure (Fragment.ofValue isQuoted (dropStart longest p (value.getD [])))
      | .dropEnd longest word => do
        let p := Pattern.ofText (Fragment.pattern (← expandAll .atStart true word))
        pure (Fragment.ofValue isQuoted (dropEnd longest p (value.getD [])))

/-- Nothing is expanded any more once something has gone wrong. -/
def expandAll (t : Tilde) (isStart : Bool) : List Part → Act (List Fragment)
  | [] => pure []
  | part :: rest => do
    let fs ← match part with
      | .plain cs => do pure (unquoted (← get) t isStart rest.isEmpty cs)
      | part => expand part
    if ← Act.goesOn then
      let more ← expandAll t false rest
      pure (fs ++ more)
    else pure fs

end

end Part

namespace Word

/-- The arguments that a word stands for. -/
def fields (w : Word) : Act (List Text) := do
  let fs ← Part.expandAll .atStart true w
  let m ← get
  let fields := Splitting.fieldsOf m.separators fs
  pure (if m.has 'f' then fields.map Fragment.text else fields.flatMap (pathsOf m))

/-- The arguments that some words stand for. -/
def allFields : List Word → Act (List Text)
  | [] => pure []
  | w :: ws => do
    let args ← fields w
    if ← Act.goesOn then
      let more ← allFields ws
      pure (args ++ more)
    else pure args

/-- What a word stands for where it is one argument in any case. -/
def text (w : Word) : Act Text := do
  pure (Fragment.text (← Part.expandAll .atStart true w))

/-- What is assigned to a variable. -/
def value (w : Word) : Act Text := do
  pure (Fragment.text (← Part.expandAll .afterColons true w))

/-- The text of a here-document. -/
def body (w : Word) : Act Text := do
  pure (Fragment.text (← Part.expandAll .nowhere true w))

def pattern (w : Word) : Act Pattern := do
  pure (.ofText (Fragment.pattern (← Part.expandAll .atStart true w)))

end Word

end Doctest.Shell
