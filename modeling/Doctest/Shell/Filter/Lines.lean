import Doctest.Shell.Call

/-! Programs that print the lines of files: all of them, the first or the last, with numbers, or in the
other direction. -/
namespace Doctest.Shell.Filter

/-- A number at the right end of its field. -/
def padded (width : Nat) (cs : Text) : Text :=
  List.replicate (width - cs.length) ' ' ++ cs

/-- The lines of a text, and whether the last of them has an end. -/
def linesAndEnd (cs : Text) : List Text × Bool :=
  (linesOf cs, cs.getLast? = some '\n')

/-- Lines with their ends, of which the last may be missing. -/
def withEnds (lines : List Text) (isEnded : Bool) : Text :=
  let cs := unlinesOf lines
  if isEnded then cs else cs.dropLast

/-- A character that can be seen in place of one that cannot. -/
def visible (c : Char) : Text :=
  let low (n : Nat) : Text :=
    if n < 32 then ['^', Char.ofNat (n + 64)] else if n = 127 then ['^', '?'] else [Char.ofNat n]
  if c.toNat < 128 then low c.toNat else 'M' :: '-' :: low (c.toNat - 128)

def catTable : OptionTable where
  flags := ["A", "b", "e", "E", "n", "s", "t", "T", "u", "v"]
  valued := []
  names := [("show-all", "A"), ("number-nonblank", "b"), ("show-ends", "E"), ("number", "n"),
    ("squeeze-blank", "s"), ("show-tabs", "T"), ("show-nonprinting", "v")]
  isPlain := false

/-- Leaves out an empty line that follows another one. -/
def squeezed : List Text → List Text
  | [] :: [] :: rest => squeezed ([] :: rest)
  | line :: rest => line :: squeezed rest
  | [] => []

/-- Puts numbers before lines that are to have one. -/
def numbered (isCounted : Text → Bool) (n : Nat) : List Text → List Text
  | [] => []
  | line :: rest =>
    if isCounted line then (padded 6 (digits n) ++ '\t' :: line) :: numbered isCounted (n + 1) rest
    else line :: numbered isCounted n rest

/-- A text as it is shown with options. -/
def shownText (os : Options) (cs : Text) : Text :=
  let has (names : List String) : Bool := names.any os.has
  let (lines, isEnded) := linesAndEnd cs
  let lines := if has ["s"] then squeezed lines else lines
  let seen (c : Char) : Text :=
    if has (if c = '\t' then ["T", "t", "A"] else ["v", "e", "t", "A"]) then visible c else [c]
  let lines := lines.map (·.flatMap seen)
  let lines :=
    if has ["b"] then numbered (!·.isEmpty) 1 lines
    else if has ["n"] then numbered (fun _ => true) 1 lines else lines
  let mark (i : Nat) (line : Text) : Text :=
    if has ["E", "e", "A"] && (isEnded || i + 1 < lines.length) then line ++ ['$'] else line
  withEnds (lines.mapIdx mark) isEnded

/-- The file that the output is written to, and the place where that is done. -/
def outputPlace? (m : Machine) : Option (List Bytes × Nat) :=
  match (m.handle? 1).map fun h => m.system.stream h.stream with
  | some (.file names position isAppending) =>
    match m.system.files.at? names with
    | some (.file contents _) => some (names, if isAppending then contents.length else position)
    | _ => none
  | _ => none

/-- Whether an operand names the file that the output is added to. It would never come to an end. -/
def isOwnOutput (c : Call) (operand : Text) : Bool :=
  match c.machine.place operand, outputPlace? c.machine with
  | .path p, some (names, position) => 0 < position && (c.files.resolve (pathOf p)).toOption = some names
  | _, _ => false

def cat (c : Call) : Option Reply :=
  c.withOptions catTable 1 fun os operands => do
    if (c.machine.handle? 1).isNone then
      return c.fail (Call.about (textOf "standard output") FileError.badDescriptor.words) 1
    let own := (operands.filter (isOwnOutput c)).map fun o => Call.about o "input file is output file"
    let (found, err) := c.sources operands
    let found := found.filter fun f => !isOwnOutput c f.1
    let err := err ++ own
    let all := (found.map (·.2)).foldl Source.append .empty
    if os.given.all (·.1 = "u") then some (c.replyFor operands all err)
    else some (c.replyFor operands (.ofText (shownText os (← all.text?))) err)

/-- What letters after a number multiply it with. -/
def units : List (String × Nat) :=
  [("", 1), ("b", 512), ("kB", 1000), ("k", 1024), ("K", 1024), ("KiB", 1024), ("MB", 1000000),
    ("M", 1048576), ("MiB", 1048576), ("G", 1073741824)]

/-- A number with a unit. -/
def sizeOf? (cs : Text) : Option Nat := do
  let ds := cs.takeWhile Char.isDigit
  pure ((← natOf? ds) * (← units.lookup (String.ofList (cs.drop ds.length))))

/-- A size after a sign, or without one. -/
def signedSize? : Text → Option (Option Char × Nat)
  | sign :: cs =>
    if sign = '-' ∨ sign = '+' then (sizeOf? cs).map fun n => (some sign, n)
    else (sizeOf? (sign :: cs)).map fun n => (none, n)
  | [] => none

/-- A number in the place of an option is short for one that counts with it. -/
def countOption (letter : Char) : Text → List Text
  | '-' :: d :: ds => if d.isDigit then [['-', letter], d :: ds] else ['-' :: d :: ds]
  | a => [a]

/-- Arguments of which the first may be a number of lines. -/
def withCount : List Text → List Text
  | a :: args => countOption 'n' a ++ args
  | [] => []

/-- Arguments of which the first may be a number of lines, or after a plus that of the first line, if there
is no more than one other argument, and that is a file. -/
def withCountAlone : List Text → List Text
  | a :: args =>
    let isAlone : Bool := match args with
      | [] | [['-']] => true
      | [file] => file.head? ≠ some '-'
      | _ => false
    let isStart := a.head? = some '+' && (a[1]?).any Char.isDigit
    if !isAlone then a :: args
    else if isStart then ['-', 'n'] :: a :: args
    else countOption 'n' a ++ args
  | [] => []

/-- The first lines of a text as they are written. -/
def firstLines (n : Nat) (cs : Text) : Text :=
  let (lines, isEnded) := linesAndEnd cs
  if lines.length ≤ n then withEnds lines isEnded else unlinesOf (lines.take n)

/-- What is behind so many lines. -/
def afterLines (n : Nat) (cs : Text) : Text :=
  let (lines, isEnded) := linesAndEnd cs
  withEnds (lines.drop n) isEnded

/-- What is said of a file that is not read line by line. -/
def notOpened (o : Text) (e : FileError) : Text :=
  match e with
  | .isDirectory => textOf "error reading '" ++ Call.about (o ++ ['\'']) e.words
  | e => textOf "cannot open '" ++ o ++ textOf ("' for reading: " ++ e.words)

/-- Texts of several files go under headings. -/
def underHeadings (texts : List (Text × Text)) : Text :=
  ['\n'].intercalate (texts.map fun (name, cs) =>
    let name := if name = ['-'] then textOf "standard input" else name
    textOf "==> " ++ name ++ textOf " <==\n" ++ cs)

/-- What programs have in common that print one end of each file. -/
def endTable : OptionTable where
  flags := ["q", "v", "z", "f", "F"]
  valued := ["n", "c", "s"]
  names := [("lines", "n"), ("bytes", "c"), ("quiet", "q"), ("silent", "q"), ("verbose", "v"),
    ("zero-terminated", "z"), ("follow", "f")]
  isPlain := false

/-- What is asked for: lines or bytes, the sign before the number, and the number. -/
structure Portion where
  isLines : Bool
  sign : Option Char
  count : Nat

/-- The portion that options ask for, which is ten lines if they say nothing else. -/
def portion (os : Options) : Except Text Portion :=
  match os.last? ["n", "c"] with
  | none => .ok ⟨true, none, 10⟩
  | some name =>
    let cs := (os.value? name).getD []
    match signedSize? cs with
    | some (sign, n) => .ok ⟨name = "n", sign, n⟩
    | none =>
      let things := if name = "n" then "lines" else "bytes"
      .error (textOf ("invalid number of " ++ things ++ ": ") ++ Call.quoted cs)

/-- Prints a part of each file that is worked out from a portion. -/
def printEnds (part : Portion → Source → Option Text) (c : Call) : Option Reply :=
  c.withOptions endTable 1 fun os operands =>
    match portion os with
    | .error w => some (c.fail w 1)
    | .ok p => do
      let (found, err) := c.sourcesOr notOpened operands
      let texts ← found.mapM fun (name, s) => (part p s).map fun cs => (name, cs)
      let isHeaded : Bool := match os.last? ["q", "v"] with
        | some name => name = "v"
        | none => 1 < operands.length
      let out := if isHeaded then underHeadings texts else (texts.map (·.2)).flatten
      pure (c.replyFor operands (.ofText out) err)

/-- The first part of a text, or all but the last one. -/
def firstPart (p : Portion) (s : Source) : Option Text :=
  match p.sign, p.isLines with
  | some '-', true => s.text?.map fun cs => firstLines ((linesOf cs).length - p.count) cs
  | some '-', false => s.text?.map fun cs => cs.take (cs.length - p.count)
  | _, true => some (firstLines p.count (s.unroll p.count))
  | _, false => some ((s.unroll p.count).take p.count)

def head (c : Call) : Option Reply :=
  printEnds firstPart (c.withArgs (withCount c.args))

/-- The last part of a text, or what begins at a place in it. -/
def lastPart (p : Portion) (s : Source) : Option Text :=
  s.text?.map fun cs => match p.sign, p.isLines with
    | some '+', true => afterLines (p.count - 1) cs
    | some '+', false => cs.drop (p.count - 1)
    | _, true => afterLines ((linesOf cs).length - p.count) cs
    | _, false => cs.drop (cs.length - p.count)

/-- Prints the last part of each file. Where that is nothing, no file is opened. -/
def tail (c : Call) : Option Reply :=
  let c := c.withArgs (withCountAlone c.args)
  match endTable.parse c.args with
  | .ok (os, _) =>
    let isNothing := (portion os).toOption.any fun p => p.count = 0 && p.sign != some '+'
    if isNothing then some (c.reply [] 0) else printEnds lastPart c
  | .error (.unknown d) =>
    if d.isDigit then some (c.fail (textOf "option used in invalid context -- " ++ [d]) 1)
    else printEnds lastPart c
  | .error _ => printEnds lastPart c

/-- How many lines of its input a program looks at, if it does not read all of it. -/
def linesWanted? (name : Text) (args : List Text) : Option Nat :=
  match endTable.parse (withCount args) with
  | .ok (os, []) =>
    match portion os with
    | .ok ⟨true, none, n⟩ => if name = "head".toList then some n else none
    | _ => none
  | _ => none

/-- Lines in the other direction. A last one without an end is joined to the one before. -/
def tac (c : Call) : Option Reply :=
  c.withOptions (.ofLetters "br" "s") 1 fun _ operands => do
    let refusal (o : Text) (e : FileError) : Text :=
      textOf "failed to open '" ++ o ++ textOf ("' for reading: " ++ e.words)
    let (found, err) ← c.textsOr refusal operands
    let backward (cs : Text) : Text :=
      let (lines, isEnded) := linesAndEnd cs
      match lines.reverse with
      | last :: rest => last ++ (if isEnded then ['\n'] else []) ++ unlinesOf rest
      | [] => []
    pure (c.replyFor operands (.ofText (found.flatMap fun f => backward f.2)) err)

/-- Each line in the other direction. -/
def rev (c : Call) : Option Reply :=
  c.withOptions (.ofLetters "" "") 1 fun _ operands => do
    let refusal (o : Text) (e : FileError) : Text :=
      textOf "cannot open " ++ Call.about o e.words
    let (found, err) ← c.textsOr refusal operands
    let shown (cs : Text) : Text :=
      let (lines, isEnded) := linesAndEnd cs
      withEnds (lines.map List.reverse) isEnded
    pure (c.replyFor operands (.ofText (found.flatMap fun f => shown f.2)) err)

/-- Numbers before the lines that are counted, and as much room before the others. -/
def withNumbers (width : Nat) (gap : Text) (isCounted : Text → Bool) (n : Nat) : List Text → List Text
  | [] => []
  | line :: rest =>
    if isCounted line then
      (padded width (digits n) ++ gap ++ line) :: withNumbers width gap isCounted (n + 1) rest
    else
      (List.replicate (width + gap.length) ' ' ++ line) :: withNumbers width gap isCounted n rest

/-- Numbers the lines, or those that are not empty. -/
def nl (c : Call) : Option Reply :=
  c.withOptions (.ofLetters "p" "bfhilnsvwd") 1 fun os operands => do
    let (found, err) ← c.texts operands
    let numberOf (name : String) (usual : Nat) : Nat := ((os.value? name).bind natOf?).getD usual
    let style := (os.value? "b").getD ['t']
    let isCounted (line : Text) : Bool := style = ['a'] || (style = ['t'] && !line.isEmpty)
    let lines := withNumbers (numberOf "w" 6) ((os.value? "s").getD ['\t']) isCounted
      (numberOf "v" 1) ((found.map (·.2)).flatMap linesOf)
    pure (c.replyFor operands (.ofText (unlinesOf lines)) err)

def teeTable : OptionTable where
  flags := ["a", "i", "p"]
  valued := []
  names := [("append", "a"), ("ignore-interrupts", "i")]
  isPlain := false

/-- Copies the input to files and to the output. -/
def tee (c : Call) : Option Reply :=
  c.withOptions teeTable 1 fun os operands => do
    let cs ← c.input.text?
    let r : Reply := { c.reply cs 0 with rest := .empty }
    let failed (r : Reply) (o : Text) (e : FileError) : Reply :=
      { r with complaints := r.complaints ++ [Call.about o e.words], status := 1 }
    pure (operands.foldl (fun r o =>
      match c.machine.place o with
      | .pipe n _ => { r with others := r.others ++ [(n, cs)] }
      | .path p =>
        match r.files.write (pathOf p) (os.has "a") (Octets.toBytes cs) with
        | .ok files => { r with files }
        | .error e => failed r o e
      | .note _ | .nowhere => failed r o .notFound) r)

end Doctest.Shell.Filter
