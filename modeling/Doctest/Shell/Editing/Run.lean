import Doctest.Shell.Editing.Script
import Doctest.Shell.Filter.Lines

/-! Editing the lines of files by a script. -/
namespace Doctest.Shell.Editing

/-- What is printed at the end of a line's turn. -/
inductive Later
  | text (cs : Text)
  | file (path : Text)

/-- A file with its name, or why it cannot be read. -/
abbrev Input := Text × Except FileError Text

/-- A line that is worked on, another one that is kept, and the lines that are to come. -/
structure Editor where
  pattern : Text
  /-- Whether the line had an end. -/
  isEnded : Bool
  hold : Text
  isHoldEnded : Bool
  number : Nat
  /-- The name of the file at hand, its lines that are to come, and whether the last of them has an end. -/
  name : Text
  rest : List Text
  isRestEnded : Bool
  coming : List Input
  isQuiet : Bool
  /-- Whether each file is edited for itself. -/
  isSeparate : Bool
  /-- What has been printed, the newest first, and whether its last line has no end yet. -/
  out : List Text
  isOpen : Bool
  later : List Later
  hasReplaced : Bool
  /-- The ranges that are open by the numbers of their commands, with their last lines, and those that are
  open before the first line. -/
  ranges : List (Nat × Option Nat)
  firstRanges : List (Nat × Option Nat)
  lastRegex : Option Regex
  files : FileTree
  /-- What was said of files, the newest first, and the status that it leads to. -/
  complaints : List Text
  status : Nat

/-- How the turn of a line ends. -/
inductive Flow
  | done
  | dropped
  /-- The turn begins anew with what is left of the line. -/
  | again
  | quit (isSilent : Bool) (status : Nat)
deriving DecidableEq, Repr

namespace Editor

/-- Begins with a file. A directory ends the work. -/
def begin (i : Input) (e : Editor) : Editor :=
  match i with
  | (name, .ok cs) =>
    let e := { e with name, rest := linesOf cs, isRestEnded := cs.getLast? = some '\n' }
    if e.isSeparate then { e with number := 0, hold := [], ranges := e.firstRanges } else e
  | (name, .error .isDirectory) =>
    let words := textOf "read error on " ++ Call.about name FileError.isDirectory.words
    { e with coming := [], complaints := words :: e.complaints, status := 4 }
  | (name, .error f) =>
    { e with complaints := (textOf "can't read " ++ Call.about name f.words) :: e.complaints, status := 2 }

/-- Begins with files that are to come until there is a line, or until one of them ends the work. -/
def fill (e : Editor) : Editor :=
  go e.coming e
where
  go : List Input → Editor → Editor
    | [], e => e
    | i :: coming, e =>
      if e.rest.isEmpty && !e.coming.isEmpty then go coming ({ e with coming }.begin i) else e

/-- Whether no line is to come, of the file at hand if each is edited for itself. -/
def isLast (e : Editor) : Bool × Editor :=
  let e := if e.isSeparate then e else e.fill
  (e.rest.isEmpty, e)

/-- Prints a text behind what has been printed. -/
def put (cs : Text) (isEnded : Bool) (e : Editor) : Editor :=
  let lead : Text := if e.isOpen then ['\n'] else []
  { e with out := (lead ++ cs ++ if isEnded then ['\n'] else []) :: e.out, isOpen := !isEnded }

/-- Prints a line, which has an end if the one that is worked on had one. -/
def putLine (cs : Text) (e : Editor) : Editor :=
  e.put cs e.isEnded

def contentsAt (e : Editor) (path : Text) : Text :=
  match e.files.read (pathOf path) with
  | .ok bytes => Octets.ofBytes bytes
  | .error _ => []

/-- Prints what was put off. -/
def flush (e : Editor) : Editor :=
  let e' := e.later.reverse.foldl (fun e l =>
    let cs := match l with
      | .text cs => cs
      | .file path => e.contentsAt path
    if cs.isEmpty then e else e.put (if cs.getLast? = some '\n' then cs.dropLast else cs)
      (cs.getLast? = some '\n')) e
  { e' with later := [] }

/-- Takes the next line, unless there is none. -/
def advance (e : Editor) : Option Text × Editor :=
  let e := e.fill
  match e.rest with
  | [] => (none, e)
  | line :: rest =>
    let isEnded := !rest.isEmpty || e.isRestEnded
    (some line, { e with rest, isEnded, number := e.number + 1, hasReplaced := false })

/-- Whether an expression, or else the one that was used last, matches the line. -/
def isMatch (r : Option Regex) (e : Editor) : Bool × Editor :=
  match r.or e.lastRegex with
  | some r => (r.matchesIn e.pattern, { e with lastRegex := some r })
  | none => (false, e)

def isAt (a : Address) (e : Editor) : Bool × Editor :=
  match a with
  | .line n => (e.number = n, e)
  | .every first step =>
    (if step = 0 then e.number = first else first ≤ e.number && (e.number - first) % step = 0, e)
  | .last => e.isLast
  | .matching r => e.isMatch r

def closeRange (i : Nat) (e : Editor) : Editor :=
  { e with ranges := e.ranges.filter (·.1 != i) }

/-- Begins a range at the line at hand, unless it ends there. -/
def openRange (i : Nat) (last : RangeEnd) (e : Editor) : Editor :=
  let untilLine (n : Nat) : Editor :=
    if n ≤ e.number then e else { e with ranges := (i, some n) :: e.ranges }
  match last with
  | .address (.line n) => untilLine n
  | .further n => untilLine (e.number + n)
  | .multiple n => untilLine (if n = 0 then 0 else (e.number + n - 1) / n * n)
  | .address _ => { e with ranges := (i, none) :: e.ranges }

/-- Whether the line is in the range of a command. -/
def isInRange (i : Nat) (first : Address) (last : RangeEnd) (e : Editor) : Bool × Editor :=
  match e.ranges.lookup i, last with
  | some (some n), _ =>
    (e.number ≤ n || (e.isAt first).1, if n ≤ e.number then e.closeRange i else e)
  | some none, .address a =>
    let (isEnd, e) := e.isAt a
    (true, if isEnd then e.closeRange i else e)
  | some none, _ => (true, e)
  | none, last =>
    let (isStart, e) := e.isAt first
    (isStart, if isStart then e.openRange i last else e)

/-- Whether a command is for the line. -/
def isSelected (i : Nat) (s : Selection) (e : Editor) : Bool × Editor :=
  let (isIn, e) := match s.first, s.last with
    | none, _ => (true, e)
    | some a, none => e.isAt a
    | some a, some last => e.isInRange i a last
  (isIn != s.isNegated, e)

/-- The text of pieces for a match. -/
def replacement (f : Regex.Found) : List Piece → (whole next : CaseChange) → Text
  | [], _, _ => []
  | piece :: rest, whole, next =>
    match piece with
    | .change c => replacement f rest c .none
    | .changeNext c => replacement f rest whole c
    | .text cs => cased cs whole next ++ replacement f rest whole (if cs.isEmpty then next else .none)
    | .group n =>
      let cs := if n = 0 then f.matched else (f.after.groups.lookup n).getD []
      cased cs whole next ++ replacement f rest whole (if cs.isEmpty then next else .none)
where
  change (c : CaseChange) (d : Char) : Char :=
    match c with
    | .none => d
    | .upper => d.toUpper
    | .lower => d.toLower
  cased (cs : Text) (whole next : CaseChange) : Text :=
    match cs, next with
    | [], _ => []
    | cs, .none => cs.map (change whole)
    | c :: cs, next => change next c :: cs.map (change whole)

def writeTo (path cs : Text) (e : Editor) : Editor :=
  if path = textOf "/dev/stdout" then e.put cs true
  else
    match e.files.write (pathOf path) true (Octets.toBytes (cs ++ ['\n'])) with
    | .ok files => { e with files }
    | .error _ => e

/-- Replaces matches from one on, or that one alone. -/
def substitute (s : Substitution) (e : Editor) : Editor :=
  match s.regex.or e.lastRegex with
  | none => e
  | some r =>
    let (found, tail) := r.all e.pattern
    let isMeant (i : Nat) : Bool := i + 1 = s.first || (s.isGlobal && s.first ≤ i)
    let e := { e with lastRegex := some r }
    if !(found.zipIdx.any fun (_, i) => isMeant i) then e
    else
      let parts := found.zipIdx.map fun (f, i) =>
        f.before ++ if isMeant i then replacement f s.pieces .none .none else f.matched
      let e := { e with pattern := parts.flatten ++ tail, hasReplaced := true }
      let e := if s.isPrinted then e.putLine e.pattern else e
      match s.file with
      | some path => e.writeTo path e.pattern
      | none => e

/-- A line with marks for what cannot be seen, in parts of which all but the last end in a backslash. -/
def unambiguous (cs : Text) : Text :=
  let shown := cs.map fun c =>
    match (Parse.escapes ++ [('b', '\x08'), ('\\', '\\')]).find? (·.2 = c) with
    | some (letter, _) => ['\\', letter]
    | none =>
      if 32 ≤ c.toNat ∧ c.toNat < 127 then [c]
      else
        let ds := Nat.toDigits 8 c.toNat
        '\\' :: (List.replicate (3 - ds.length) '0' ++ ds)
  let (done, line) := shown.foldl (fun ((done, line) : Text × Text) (item : Text) =>
    if 69 < line.length + item.length then (done ++ line ++ ['\\', '\n'], item)
    else (done, line ++ item)) ([], [])
  done ++ line ++ ['$']

/-- Carries out a command that is no more than its letter. -/
def plain (letter : Char) (e : Editor) : Editor × Option Flow :=
  match letter with
  | '=' => (e.put (digits e.number) true, none)
  | 'F' => (e.put e.name true, none)
  | 'd' => (e, some .dropped)
  | 'D' =>
    match Doctest.Text.splitFirst? '\n' e.pattern with
    | some (_, rest) => ({ e with pattern := rest }, some .again)
    | none => (e, some .dropped)
  | 'g' => ({ e with pattern := e.hold, isEnded := e.isHoldEnded }, none)
  | 'G' => ({ e with pattern := e.pattern ++ '\n' :: e.hold, isEnded := e.isHoldEnded }, none)
  | 'h' => ({ e with hold := e.pattern, isHoldEnded := e.isEnded }, none)
  | 'H' => ({ e with hold := e.hold ++ '\n' :: e.pattern, isHoldEnded := e.isEnded }, none)
  | 'x' =>
    let (hold, isHoldEnded) := (e.pattern, e.isEnded)
    ({ e with pattern := e.hold, isEnded := e.isHoldEnded, hold, isHoldEnded }, none)
  | 'z' => ({ e with pattern := [] }, none)
  | 'p' => (e.putLine e.pattern, none)
  | 'l' => (e.put (unambiguous e.pattern) true, none)
  | 'P' => (e.put (e.pattern.takeWhile (· != '\n')) true, none)
  | 'n' =>
    match e.isLast with
    | (true, e) => (e, some .done)
    | (false, e) =>
      match (if e.isQuiet then e else e.putLine e.pattern).flush.advance with
      | (some line, e) => ({ e with pattern := line }, none)
      | (none, e) => (e, some .done)
  | 'N' =>
    match e.isLast with
    | (true, e) => (e, some .done)
    | (false, e) =>
      match e.flush.advance with
      | (some line, e) => ({ e with pattern := e.pattern ++ '\n' :: line }, none)
      | (none, e) => (e, some .done)
  | _ => (e, none)

end Editor

/-- The number of the command behind a label, or behind all. -/
def target (is : Array Instruction) (name : Text) : Nat :=
  (is.findIdx? fun i => i.action == .label name).getD is.size

/-- Carries out commands from one on for the line at hand. Without fuel the turn has no end. -/
def turn (is : Array Instruction) : (fuel : Nat) → Nat → Editor → Option (Editor × Flow)
  | 0, _, _ => none
  | fuel + 1, i, e =>
    match is[i]? with
    | none => some (e, .done)
    | some instruction =>
      let (isSelected, e) := e.isSelected i instruction.selection
      match instruction.action, isSelected with
      | .block next, false => turn is fuel next e
      | _, false => turn is fuel (i + 1) e
      | a, true =>
        let goOn (e : Editor) := turn is fuel (i + 1) e
        match a with
        | .block _ | .close | .label _ => goOn e
        | .substitute s => goOn (e.substitute s)
        | .translate pairs => goOn { e with pattern := e.pattern.map fun c => (pairs.lookup c).getD c }
        | .append cs => goOn { e with later := .text cs :: e.later }
        | .insert cs => goOn (e.put cs.dropLast true)
        | .change cs =>
          let isInside := (e.ranges.lookup i).isSome && !instruction.selection.isNegated
          some (if isInside then e else e.put cs.dropLast true, .dropped)
        | .branch letter name =>
          let jumps := letter = 'b' || (letter = 't') == e.hasReplaced
          let e := if letter = 'b' then e else { e with hasReplaced := false }
          if jumps then turn is fuel (target is name) e else goOn e
        | .quit isSilent status => some (e, .quit isSilent status)
        | .readFile path => goOn { e with later := .file path :: e.later }
        | .writeFile path => goOn (e.writeTo path e.pattern)
        | .plain letter =>
          match e.plain letter with
          | (e, none) => goOn e
          | (e, some flow) => some (e, flow)

/-- A line has no turn of more commands. -/
def maxTurn : Nat := 200000

/-- Gives lines their turns until there are none, or until the script stops. Gives the status with which
it did. -/
def turns (is : Array Instruction) : (fuel : Nat) → (isNew : Bool) → Editor → Option (Editor × Option Nat)
  | 0, _, _ => none
  | fuel + 1, isNew, e =>
    match if isNew then e.advance else (some e.pattern, e) with
    | (none, e) => some (e, none)
    | (some line, e) => do
      let e := { e with pattern := line }
      let (e, flow) ← turn is maxTurn 0 e
      let printed (e : Editor) : Editor := if e.isQuiet then e else e.putLine e.pattern
      match flow with
      | .done => turns is fuel true (printed e).flush
      | .dropped => turns is fuel true e.flush
      | .again => turns is fuel false e.flush
      | .quit isSilent status => some (if isSilent then e else (printed e).flush, some status)

def start (is : Array Instruction) (files : FileTree) (isQuiet isSeparate : Bool) (coming : List Input) :
    Editor :=
  let firstRanges := is.zipIdx.toList.filterMap fun (i, n) =>
    if i.selection.first = some (.line 0) then some (n, none) else none
  { pattern := [], isEnded := true, hold := [], isHoldEnded := true, number := 0, name := []
    rest := [], isRestEnded := true, coming, isQuiet, isSeparate, out := [], isOpen := false, later := []
    hasReplaced := false, ranges := firstRanges, firstRanges, lastRegex := none, files
    complaints := [], status := 0 }

/-- Edits files, and gives the status with which the script stops, if it does. -/
def edit (is : Array Instruction) (files : FileTree) (isQuiet isSeparate : Bool) (coming : List Input) :
    Option (Editor × Option Nat) :=
  let size := total (coming.map fun (_, i) => (i.toOption.getD []).length)
  turns is (2 * size + maxTurn) true (start is files isQuiet isSeparate coming)

def table : OptionTable where
  flags := ["n", "E", "r", "s", "u", "z", "posix", "debug", "sandbox"]
  valued := ["e", "f", "l"]
  names := [("quiet", "n"), ("silent", "n"), ("expression", "e"), ("file", "f"),
    ("regexp-extended", "E"), ("separate", "s"), ("unbuffered", "u"), ("null-data", "z")]
  isPlain := false

/-- Takes out the options that say that files are changed, with what is put to the name of the old ones. -/
def inPlace (args : List Text) : Option Text × List Text :=
  let suffixOf (a : Text) : Option Text :=
    if ['-', 'i'].isPrefixOf a then some (a.drop 2)
    else if "--in-place=".toList.isPrefixOf a then some (a.drop 11)
    else if a = "--in-place".toList then some []
    else none
  (args.findSome? suffixOf, args.filter fun a => (suffixOf a).isNone)

/-- The files that a script writes to begin empty. -/
def cleared (is : Array Instruction) (files : FileTree) : FileTree :=
  let paths := is.toList.filterMap fun i => match i.action with
    | .writeFile path => some path
    | .substitute s => s.file
    | _ => none
  paths.foldl (fun files path =>
    if path = textOf "/dev/stdout" then files
    else ((files.write (pathOf path) false []).toOption).getD files) files

/-- The text of the script and the operands. -/
def scriptOf (c : Call) (os : Options) (operands : List Text) :
    Except (Text × FileError) (Option (Text × List Text)) := do
  let parts ← (os.given.filter fun o => o.1 = "e" ∨ o.1 = "f").mapM fun (name, value) =>
    if name = "e" then .ok value
    else
      match c.machine.sourceAt value with
      | .ok s => .ok (if s.text.getLast? = some '\n' then s.text.dropLast else s.text)
      | .error e => .error (value, e)
  match parts, operands with
  | [], [] => pure none
  | [], script :: rest => pure (some (script, rest))
  | parts, operands => pure (some (Doctest.Text.joinWith '\n' parts, operands))

/-- Edits each file in its place, until the script stops. -/
def editFiles (is : Array Instruction) (isQuiet : Bool) (suffix : Text) (r : Reply) :
    List Text → Option Reply
  | [] => some r
  | o :: rest =>
    match r.files.read (pathOf o) with
    | .error .isDirectory =>
      let words := textOf "couldn't edit " ++ o ++ textOf ": not a regular file"
      some { r with complaints := r.complaints ++ [words], status := 4 }
    | .error e =>
      let words := textOf "can't read " ++ Call.about o e.words
      editFiles is isQuiet suffix { r with complaints := r.complaints ++ [words], status := 2 } rest
    | .ok bytes => do
      let (e, status) ← edit is r.files isQuiet true [(o, .ok (Octets.ofBytes bytes))]
      let write (path : Text) (bytes : Bytes) (files : FileTree) : FileTree :=
        ((files.write (pathOf path) false bytes).toOption).getD files
      let files := if suffix.isEmpty then e.files else write (o ++ suffix) bytes e.files
      let r := { r with files := write o (Octets.toBytes e.out.reverse.flatten) files }
      match status with
      | none => editFiles is isQuiet suffix r rest
      | some n => some (if r.status = 0 then { r with status := n } else r)

def sed (c : Call) : Option Reply :=
  let (suffix, args) := inPlace c.args
  (c.withArgs args).withOptions table 1 fun os operands =>
    match scriptOf c os operands with
    | .error (o, e) => some (c.fail (textOf "couldn't open file " ++ Call.about o e.words) 1)
    | .ok none => some (c.refuse (textOf "no script specified") 1)
    | .ok (some (script, operands)) =>
      match parse (os.has "E" || os.has "r") script with
      | .error w => some (c.fail w 1)
      | .ok is =>
        let isQuiet := os.has "n" || (script.take 2 = ['#', 'n'] && (script[2]?).all (· = '\n'))
        let files := cleared is c.files
        match suffix with
        | some suffix => editFiles is isQuiet suffix { c.reply [] 0 with files } operands
        | none => do
          let opened := c.opened c.input (if operands.isEmpty then [['-']] else operands)
          let coming ← opened.mapM fun (o, s) => match s with
            | .ok s => s.text?.map fun cs => (o, .ok cs)
            | .error f => some (o, .error f)
          let (e, status) ← edit is files isQuiet (os.has "s") coming
          let status := if e.status = 0 then status.getD 0 else e.status
          let r := c.replyFor operands (.ofText e.out.reverse.flatten) e.complaints.reverse
          pure { r with files := e.files, status }

end Doctest.Shell.Editing
