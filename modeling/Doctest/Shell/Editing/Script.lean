import Doctest.Shell.Regex

/-! Scripts that edit lines: which lines are chosen, and what is done to them. -/
namespace Doctest.Shell.Editing

inductive Address
  | line (n : Nat)
  /-- Every line that is so many lines, or a multiple of a number of lines, behind the first. -/
  | every (first step : Nat)
  | last
  /-- A line that matches the expression, or else the one that was used last. -/
  | matching (r : Option Regex)
deriving DecidableEq, Repr

/-- Where a range ends. -/
inductive RangeEnd
  | address (a : Address)
  | further (n : Nat)
  | multiple (n : Nat)
deriving DecidableEq, Repr

/-- The lines for which a command is. -/
structure Selection where
  first : Option Address
  last : Option RangeEnd
  isNegated : Bool
deriving DecidableEq, Repr

inductive CaseChange
  | none | upper | lower
deriving DecidableEq, Repr

/-- A part of what a match is replaced by. -/
inductive Piece
  | text (cs : Text)
  | group (n : Nat)
  | change (c : CaseChange)
  | changeNext (c : CaseChange)
deriving DecidableEq, Repr

structure Substitution where
  regex : Option Regex
  pieces : List Piece
  isGlobal : Bool
  first : Nat
  isPrinted : Bool
  file : Option Text
deriving DecidableEq, Repr

inductive Action
  /-- A block, with the number of the command behind it. -/
  | block (next : Nat)
  | close
  | label (name : Text)
  | substitute (s : Substitution)
  | translate (pairs : List (Char × Char))
  | append (cs : Text)
  | insert (cs : Text)
  | change (cs : Text)
  | branch (letter : Char) (name : Text)
  | quit (isSilent : Bool) (status : Nat)
  | readFile (path : Text)
  | writeFile (path : Text)
  /-- A command that is no more than its letter. -/
  | plain (letter : Char)
deriving DecidableEq, Repr

structure Instruction where
  selection : Selection
  action : Action
deriving DecidableEq, Repr

/-- Reading a script. What is left is known also where something is wrong with it. -/
abbrev Parse := ExceptT Text (StateM Text)

namespace Parse

def fail {α : Type} (words : String) : Parse α :=
  throw (textOf words)

def peek : Parse (Option Char) := do
  pure (← get).head?

def next? : Parse (Option Char) := do
  match ← get with
  | c :: cs =>
    set cs
    pure (some c)
  | [] => pure none

def skip (p : Char → Bool) : Parse Unit :=
  modify fun cs => cs.dropWhile p

def taken (p : Char → Bool) : Parse Text := do
  let cs ← get
  set (cs.dropWhile p)
  pure (cs.takeWhile p)

def isGap (c : Char) : Bool :=
  c = ' ' || c = '\t'

def number? : Parse (Option Nat) := do
  pure (natOf? (← taken Char.isDigit))

/-- The end of a class in square brackets, of which the first bracket has been read. -/
def classLength (cs : Text) : Nat :=
  let negated := if cs.head? = some '^' then 1 else 0
  let first := if (cs.drop negated).head? = some ']' then negated + 1 else negated
  go (cs.length + 1) first (cs.drop first)
where
  go : Nat → Nat → Text → Nat
    | 0, n, _ | _, n, [] => n
    | _, n, ']' :: _ => n + 1
    | fuel + 1, n, '[' :: mark :: rest =>
      if mark = ':' ∨ mark = '.' ∨ mark = '=' then
        let inner := rest.takeWhile (· != ']')
        go fuel (n + 3 + inner.length) (rest.drop (inner.length + 1))
      else go fuel (n + 1) (mark :: rest)
    | fuel + 1, n, _ :: rest => go fuel (n + 1) rest

/-- What stands before a delimiter, which is read too. A backslash keeps a delimiter or stands before
another character; in a regular expression a class hides delimiters. -/
def delimited (delimiter : Char) (isRegex : Bool) : (fuel : Nat) → Parse (Option Text)
  | 0 => pure none
  | fuel + 1 => do
    match ← next? with
    | none => pure none
    | some c =>
      if c = delimiter then pure (some [])
      else if c = '\\' then
        match ← next? with
        | none => pure none
        | some d =>
          let kept := if d = delimiter then [d] else if isRegex && d = 'n' then ['\n'] else ['\\', d]
          pure ((← delimited delimiter isRegex fuel).map (kept ++ ·))
      else if c = '[' && isRegex then
        let cs ← get
        let n := classLength cs
        set (cs.drop n)
        pure ((← delimited delimiter isRegex fuel).map (c :: cs.take n ++ ·))
      else pure ((← delimited delimiter isRegex fuel).map (c :: ·))

/-- Letters that stand for characters behind a backslash. -/
def escapes : List (Char × Char) :=
  [('a', '\x07'), ('f', '\x0c'), ('n', '\n'), ('r', '\r'), ('t', '\t'), ('v', '\x0b')]

/-- An expression with characters in place of the letters that stand for them. -/
def unescaped : Text → Text
  | '\\' :: c :: cs =>
    if c = 't' ∨ c = 'f' ∨ c = 'v' then (escapes.lookup c).getD c :: unescaped cs
    else '\\' :: c :: unescaped cs
  | c :: cs => c :: unescaped cs
  | [] => []

/-- Reads an expression. An empty one is the one that was used last. -/
def regex (isExtended isFolded : Bool) (cs : Text) : Parse (Option Regex) := do
  if cs.isEmpty then pure none
  else
    match Regex.parse isExtended (unescaped cs) with
    | .ok r => pure (some (if isFolded then r.foldCase else r))
    | .error f => fail f.words

/-- How an address begins: with a number, a dollar sign, or an expression. -/
def address? (isExtended : Bool) : Parse (Option Address) := do
  match ← peek with
  | some '$' =>
    let _ ← next?
    pure (some .last)
  | some c =>
    if c.isDigit then
      let n := (← number?).getD 0
      if (← peek) = some '~' then
        let _ ← next?
        pure (some (.every n ((← number?).getD 0)))
      else pure (some (.line n))
    else if c = '/' ∨ c = '\\' then
      let _ ← next?
      let delimiter ← if c = '/' then pure (some '/') else next?
      match ← delimited (delimiter.getD '/') true ((← get).length + 1) with
      | none => fail "unterminated address regex"
      | some cs =>
        let flags ← taken fun c => c = 'I' || c = 'M'
        pure (some (.matching (← regex isExtended (flags.contains 'I') cs)))
    else pure none
  | none => pure none

def rangeEnd? (isExtended : Bool) : Parse (Option RangeEnd) := do
  match ← peek with
  | some '+' =>
    let _ ← next?
    pure ((← number?).map .further)
  | some '~' =>
    let _ ← next?
    pure ((← number?).map .multiple)
  | _ => pure ((← address? isExtended).map .address)

/-- Reads for which lines a command is. -/
def selection (isExtended : Bool) : Parse Selection := do
  let first ← address? isExtended
  skip isGap
  let last ← match first, ← peek with
    | some _, some ',' =>
      let _ ← next?
      skip isGap
      match ← rangeEnd? isExtended with
      | some e => pure (some e)
      | none =>
        let _ ← next?
        fail "unexpected \x60,'"
    | _, _ => pure none
  skip isGap
  let marks ← taken fun c => c = '!' || isGap c
  pure ⟨first, last, marks.contains '!'⟩

/-- Reads the end of a command. -/
def finish : Parse Unit := do
  skip isGap
  match ← peek with
  | none | some '}' | some '#' => pure ()
  | some c =>
    let _ ← next?
    if c ≠ '\n' ∧ c ≠ ';' then fail "extra characters after command"

/-- A text in the lines behind a command. A backslash keeps the end of a line, or the blanks at the start
of the text. -/
def lines : Parse Text := do
  skip isGap
  if (← peek) = some '\\' then
    let _ ← next?
    let gap ← taken isGap
    if (← peek) = some '\n' then
      let _ ← next?
    else modify (gap ++ ·)
  let cs ← get
  let (kept, rest) := go cs.length cs
  set rest
  pure (kept ++ ['\n'])
where
  go : (fuel : Nat) → Text → Text × Text
    | 0, cs => ([], cs)
    | _, [] => ([], [])
    | _, '\n' :: cs => ([], cs)
    | fuel + 1, '\\' :: c :: cs =>
      let (kept, rest) := go fuel cs
      (c :: kept, rest)
    | fuel + 1, c :: cs =>
      let (kept, rest) := go fuel cs
      (c :: kept, rest)

/-- The parts of what a match is replaced by. -/
def pieces : (fuel : Nat) → Text → List Piece
  | 0, _ | _, [] => []
  | fuel + 1, '&' :: cs => .group 0 :: pieces fuel cs
  | fuel + 1, '\\' :: c :: cs =>
    let piece : Piece := match c with
      | 'U' => .change .upper
      | 'L' => .change .lower
      | 'E' => .change .none
      | 'u' => .changeNext .upper
      | 'l' => .changeNext .lower
      | _ =>
        if c.isDigit then .group (c.toNat - 0x30) else .text [(escapes.lookup c).getD c]
    piece :: pieces fuel cs
  | fuel + 1, c :: cs => .text [c] :: pieces fuel cs

/-- Reads what is said behind a substitution, and whether small and capital letters are the same. -/
def substitutionFlags : (fuel : Nat) → Substitution → (hasNumber isFolded : Bool) →
    Parse (Substitution × Bool)
  | 0, s, _, isFolded => pure (s, isFolded)
  | fuel + 1, s, hasNumber, isFolded => do
    let again (s : Substitution) := substitutionFlags fuel s hasNumber isFolded
    match ← peek with
    | some 'g' =>
      let _ ← next?
      if s.isGlobal then fail "multiple \x60g' options to \x60s' command"
      again { s with isGlobal := true }
    | some 'p' =>
      let _ ← next?
      if s.isPrinted then fail "multiple \x60p' options to \x60s' command"
      again { s with isPrinted := true }
    | some 'i' | some 'I' =>
      let _ ← next?
      substitutionFlags fuel s hasNumber true
    | some 'm' | some 'M' =>
      let _ ← next?
      again s
    | some 'w' =>
      let _ ← next?
      skip isGap
      let path ← taken (· != '\n')
      pure ({ s with file := some path }, isFolded)
    | some c =>
      if c.isDigit then
        let n := (← number?).getD 0
        if hasNumber then fail "multiple number options to \x60s' command"
        if n = 0 then fail "number option to \x60s' command may not be zero"
        substitutionFlags fuel { s with first := n } true isFolded
      else if isGap c then
        let _ ← next?
        again s
      else if c = '\n' ∨ c = ';' ∨ c = '}' ∨ c = '#' then pure (s, isFolded)
      else
        let _ ← next?
        fail "unknown option to \x60s'"
    | none => pure (s, isFolded)

/-- Reads the expression of a substitution that has been read to its end. -/
def checked (isExtended isFolded : Bool) (pattern : Text) (s : Substitution) : Parse Substitution := do
  let r ← regex isExtended isFolded pattern
  let groups := (r.map Regex.groupCount).getD 9
  for p in s.pieces do
    if let .group n := p then
      if groups < n then
        fail ("invalid reference \\" ++ toString n ++ " on \x60s' command's RHS")
  pure { s with regex := r }

/-- Reads a substitution with the end of it. -/
def substitution (isExtended : Bool) : Parse Substitution := do
  let fuel := (← get).length + 1
  let delimiter ← next?
  match delimiter with
  | none => fail "unterminated \x60s' command"
  | some d =>
    match ← delimited d true fuel, ← delimited d false fuel with
    | some pattern, some replacement =>
      let ps := pieces fuel replacement
      let (s, isFolded) ← substitutionFlags fuel ⟨none, ps, false, 1, false, none⟩ false false
      finish
      checked isExtended isFolded pattern s
    | _, _ => fail "unterminated \x60s' command"

/-- Characters in which a backslash stands before some. -/
def characters : Text → Text
  | '\\' :: c :: cs => ((escapes.lookup c).getD c) :: characters cs
  | c :: cs => c :: characters cs
  | [] => []

def translation : Parse (List (Char × Char)) := do
  let fuel := (← get).length + 1
  match ← next? with
  | none => fail "unterminated \x60y' command"
  | some d =>
    match ← delimited d false fuel, ← delimited d false fuel with
    | some source, some target =>
      let source := characters source
      let target := characters target
      if source.length ≠ target.length then
        fail "strings for \x60y' command are different lengths"
      pure (source.zip target)
    | _, _ => fail "unterminated \x60y' command"

/-- Letters of commands that need nothing else. -/
def plainLetters : List Char :=
  ['=', 'd', 'D', 'F', 'g', 'G', 'h', 'H', 'n', 'N', 'p', 'P', 'x', 'z']

/-- Reads a command behind its addresses. -/
def action (isExtended : Bool) (s : Selection) : Parse Action := do
  match ← next? with
  | none => fail "missing command"
  | some c =>
    match c with
    | '\x7b' => pure (.block 0)
    | '\x7d' =>
      if s.first.isSome then fail "\x7d doesn't want any addresses"
      finish
      pure .close
    | ':' =>
      if s.first.isSome then fail ": doesn't want any addresses"
      skip isGap
      let name ← taken fun c => !isGap c && c != '\n' && c != ';'
      skip fun c => c != '\n' && c != ';'
      pure (.label name)
    | 's' => pure (.substitute (← substitution isExtended))
    | 'y' =>
      let pairs ← translation
      finish
      pure (.translate pairs)
    | 'a' => pure (.append (← lines))
    | 'i' => pure (.insert (← lines))
    | 'c' => pure (.change (← lines))
    | 'b' | 't' | 'T' =>
      skip isGap
      let name ← taken fun c => !isGap c && c != '\n' && c != ';' && c != '\x7d'
      finish
      pure (.branch c name)
    | 'q' | 'Q' =>
      if s.last.isSome then fail "command only uses one address"
      skip isGap
      let status := (← number?).getD 0
      finish
      pure (.quit (c = 'Q') status)
    | 'r' | 'w' =>
      skip isGap
      let path ← taken (· != '\n')
      if path.isEmpty then fail "missing filename in r/R/w/W commands"
      pure (if c = 'r' then .readFile path else .writeFile path)
    | 'l' =>
      skip fun c => isGap c || c.isDigit
      finish
      pure (.plain c)
    | 'v' =>
      skip fun c => c != '\n' && c != ';'
      finish
      pure (.plain c)
    | _ =>
      if plainLetters.contains c then
        finish
        pure (.plain c)
      else throw (textOf "unknown command: \x60" ++ [c, '\''])

/-- Reads commands to the end. Blocks that are open are known by the numbers of their commands. -/
def instructions (isExtended : Bool) :
    (fuel : Nat) → (opened : List Nat) → Array Instruction → Parse (Array Instruction)
  | 0, _, is => pure is
  | fuel + 1, opened, is => do
    skip fun c => isGap c || c = '\n' || c = ';'
    match ← peek with
    | none => pure is
    | some '#' =>
      skip (· != '\n')
      instructions isExtended fuel opened is
    | some _ =>
      let s ← selection isExtended
      match ← action isExtended s, opened with
      | .block _, opened => instructions isExtended fuel (is.size :: opened) (is.push ⟨s, .block 0⟩)
      | .close, start :: opened =>
        let next := is.size + 1
        let is := is.modify start fun i => { i with action := .block next }
        instructions isExtended fuel opened (is.push ⟨s, .close⟩)
      | .close, [] => fail "unexpected \x60\x7d'"
      | a, opened => instructions isExtended fuel opened (is.push ⟨s, a⟩)

end Parse

/-- The label that a branch leads to, unless it is there. -/
def missingLabel? (is : Array Instruction) : Option Text :=
  is.toList.findSome? fun i => match i.action with
    | .branch _ name =>
      if name.isEmpty || is.any (fun j => j.action == .label name) then none else some name
    | _ => none

/-- Reads a script, or says what is wrong with it. -/
def parse (isExtended : Bool) (script : Text) : Except Text (Array Instruction) :=
  let (result, rest) := (Parse.instructions isExtended (script.length + 1) [] #[]).run.run script
  let at' (n : Nat) (words : Text) : Text :=
    textOf "-e expression #1, char " ++ digits n ++ textOf ": " ++ words
  match result with
  | .error words => .error (at' (script.length - rest.length) words)
  | .ok is =>
    if is.any fun i => i.action == .block 0 then .error (at' 0 (textOf "unmatched \x60\x7b'"))
    else
      match missingLabel? is with
      | some name => .error (textOf "can't find label for jump to \x60" ++ name ++ ['\''])
      | none => .ok is

end Doctest.Shell.Editing
