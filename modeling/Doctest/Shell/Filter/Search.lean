import Doctest.Shell.Filter.Lines
import Doctest.Shell.Regex

/-! Searching the lines of files for patterns. -/
namespace Doctest.Shell.Filter

def grepTable : OptionTable where
  flags := ["a", "b", "c", "E", "F", "G", "h", "H", "I", "i", "y", "l", "L", "n", "o", "P", "q", "r", "R",
    "s", "T", "U", "v", "w", "x", "z", "Z", "line-buffered", "no-ignore-case"]
  valued := ["A", "B", "C", "d", "D", "e", "f", "m", "include", "exclude", "color", "colour"]
  names := [("extended-regexp", "E"), ("fixed-strings", "F"), ("basic-regexp", "G"), ("perl-regexp", "P"),
    ("regexp", "e"), ("file", "f"), ("ignore-case", "i"), ("word-regexp", "w"), ("line-regexp", "x"),
    ("no-messages", "s"), ("invert-match", "v"), ("max-count", "m"), ("byte-offset", "b"),
    ("line-number", "n"), ("with-filename", "H"), ("no-filename", "h"), ("only-matching", "o"),
    ("quiet", "q"), ("silent", "q"), ("text", "a"), ("recursive", "r"), ("files-with-matches", "l"),
    ("files-without-match", "L"), ("count", "c"), ("after-context", "A"), ("before-context", "B"),
    ("context", "C"), ("null", "Z"), ("null-data", "z")]
  isPlain := false

/-- A line that has been looked at: its number, its place in the file, and the matches in it, each with
its place in the line. -/
structure Looked where
  number : Nat
  offset : Nat
  line : Text
  hits : List (Nat × Text)
  isSelected : Bool

/-- The pattern that some lines are, of which any may match. -/
def searched (os : Options) (lines : List Text) : Except Regex.Fault Regex := do
  let isExtended := os.has "E" || os.has "P"
  let rs ← lines.mapM fun cs => if os.has "F" then .ok (.ofText cs) else Regex.parse isExtended cs
  let r := rs.foldr .either .never
  let r := if os.has "i" || os.has "y" then r.foldCase else r
  pure (if os.has "x" then r.asWhole else if os.has "w" then r.asWord else r)

/-- The matches in a line, each with its place. -/
def hitsIn (r : Regex) (line : Text) : List (Nat × Text) :=
  ((r.all line).1.foldl (fun (hits, n) f =>
    let n := n + f.before.length
    ((n, f.matched) :: hits, n + f.matched.length)) (([], 0) : List (Nat × Text) × Nat)).1.reverse

/-- Looks at lines until so many have been selected. All matches are worked out only on demand. -/
def look (r : Regex) (isInverted withHits : Bool) :
    (limit : Nat) → (number offset : Nat) → List Text → List Looked
  | 0, number, offset, lines => unlooked number offset lines
  | _ + 1, _, _, [] => []
  | limit + 1, number, offset, line :: rest =>
    let isSelected := r.matchesIn line != isInverted
    let hits := if withHits && isSelected then hitsIn r line else []
    ⟨number, offset, line, hits, isSelected⟩ ::
      look r isInverted withHits (if isSelected then limit else limit + 1) (number + 1)
        (offset + line.length + 1) rest
where
  unlooked (number offset : Nat) : List Text → List Looked
    | [] => []
    | line :: rest =>
      ⟨number, offset, line, [], false⟩ :: unlooked (number + 1) (offset + line.length + 1) rest

/-- What stands before a line: the name of its file, its number and its place, each before a mark. -/
def lead (os : Options) (name : Option Text) (mark : Char) (l : Looked) (offset : Nat) : Text :=
  let part (isShown : Bool) (cs : Text) : Text := if isShown then cs ++ [mark] else []
  part name.isSome (name.getD []) ++ part (os.has "n") (digits l.number) ++
    part (os.has "b") (digits offset)

/-- How many lines around a selected one are shown. -/
def contextOf (os : Options) (name : String) : Nat :=
  (((os.value? name).or (os.value? "C")).bind natOf?).getD 0

/-- Whether groups of lines are asked for, between which there is a bar. -/
def hasGroups (os : Options) : Bool :=
  ["A", "B", "C"].any os.has

/-- The lines that are selected and those around them. -/
def inReach (os : Options) (ls : List Looked) : List Looked :=
  let before := contextOf os "B"
  let after := contextOf os "A"
  let selected := (ls.filter (·.isSelected)).map (·.number)
  if before + after = 0 then ls.filter (·.isSelected)
  else ls.filter fun l => selected.any fun n => l.number ≤ n + after && n ≤ l.number + before

/-- Whether a line is UTF-8. -/
def isText (line : Text) : Bool :=
  (Octets.toBytes line).toString?.isSome

/-- The lines that are printed of a file, and whether some were left out that are no text. -/
def printed (os : Options) (name : Option Text) (ls : List Looked) : List Text × Bool :=
  let near := inReach os ls
  let shown := near.filter fun l => os.has "a" || isText l.line
  let lines (l : Looked) : List Text :=
    if !os.has "o" then [lead os name (if l.isSelected then ':' else '-') l l.offset ++ l.line]
    else if os.has "v" then []
    else (l.hits.filter (!·.2.isEmpty)).map fun (n, cs) => lead os name ':' l (l.offset + n) ++ cs
  let withBar : Looked × Option Looked → List Text := fun (l, previous) =>
    if hasGroups os && previous.any (·.number + 1 != l.number) then ['-', '-'] :: lines l else lines l
  ((shown.zip (none :: shown.map some)).flatMap withBar, shown.length < near.length)

/-- The files below a directory. -/
def filesBelow (m : Machine) (operand : Text) : List Text :=
  match m.files.resolve (pathOf operand) with
  | .error _ => []
  | .ok names =>
    let below := m.files.entries.filterMap fun (path, e) => match e with
      | .file .. =>
        if names.isPrefixOf path then some ((path.drop names.length).map Octets.ofBytes) else none
      | _ => none
    let lead := if operand.getLast? = some '/' then operand else operand ++ ['/']
    (below.map fun names => lead ++ Doctest.Text.joinWith '/' names).mergeSort inOrder

/-- The files that are searched, and whether their names are shown. -/
def searchedFiles (c : Call) (os : Options) (operands : List Text) : List Text × Bool :=
  if os.has "r" || os.has "R" then
    let isDirectory (o : Text) : Bool := c.files.isDirectory (pathOf o)
    let found :=
      if operands.isEmpty then (filesBelow c.machine ['.']).map (·.drop 2)
      else operands.flatMap fun o => if isDirectory o then filesBelow c.machine o else [o]
    (found, operands.isEmpty || 1 < operands.length || operands.any isDirectory)
  else (operands, 1 < operands.length)

/-- The patterns and the operands, or the file of patterns that cannot be read. -/
def patterns (c : Call) (os : Options) (operands : List Text) :
    Except (Option (Text × FileError)) (List Text × List Text) := do
  if !os.has "e" && !os.has "f" then
    match operands with
    | [] => .error none
    | p :: rest => pure (Doctest.Text.splitOn '\n' p, rest)
  else
    let fromFiles ← (os.values "f").mapM fun o =>
      match if c.isInput o then .ok c.input else c.machine.sourceAt o with
      | .ok s => .ok (linesOf s.text)
      | .error e => .error (some (o, e))
    pure ((os.values "e").flatMap (Doctest.Text.splitOn '\n') ++ fromFiles.flatten, operands)

def grepUsage : String :=
  "Usage: grep [OPTION]... PATTERNS [FILE]..."

/-- An option that takes a value only behind its name. -/
def withoutColour (args : List Text) : List Text :=
  let names := ["--color", "--colour"]
  args.filter fun a => names.all fun name => !name.toList.isPrefixOf a

/-- What the search of an operand gives. -/
structure Finding where
  lines : List Text
  complaints : List Text
  isHit : Bool
  isRead : Bool

/-- Searches a text. One with null characters is not shown. -/
def searchText (os : Options) (r : Regex) (isNamed : Bool) (operand cs : Text) : Finding :=
  let name := if operand = ['-'] then textOf "(standard input)" else operand
  let limit := ((os.value? "m").bind natOf?).getD (cs.count '\n' + 1)
  let isBinary := cs.contains '\x00' && !os.has "a"
  let ls :=
    if isBinary && os.has "I" then [] else look r (os.has "v") (os.has "o") limit 1 0 (linesOf cs)
  let count := (ls.filter (·.isSelected)).length
  let isHit := count != 0
  let refusal := Call.about name "binary file matches"
  if os.has "q" then ⟨[], [], isHit, true⟩
  else if os.has "l" || os.has "L" then ⟨if isHit == os.has "l" then [name] else [], [], isHit, true⟩
  else if os.has "c" then ⟨[(if isNamed then name ++ [':'] else []) ++ digits count], [], isHit, true⟩
  else if isBinary then ⟨[], if isHit then [refusal] else [], isHit, true⟩
  else
    let (lines, isCut) := printed os (if isNamed then some name else none) ls
    ⟨lines, if isCut then [refusal] else [], isHit, true⟩

/-- Searches what an operand gives. In a directory nothing is found. -/
def searchOne (os : Options) (r : Regex) (isNamed : Bool) (operand : Text) :
    Except FileError Source → Option Finding
  | .ok s => s.text?.map (searchText os r isNamed operand)
  | .error e =>
    let complaints := if os.has "s" then [] else [Call.about operand e.words]
    let found := if e = .isDirectory then searchText os r isNamed operand [] else ⟨[], [], false, false⟩
    some { found with complaints, isRead := false }

/-- The findings up to the first hit. -/
def untilHit : List Finding → List Finding
  | [] => []
  | f :: rest => if f.isHit then [f] else f :: untilHit rest

def grep (c : Call) : Option Reply :=
  match grepTable.parse (withoutColour (c.args.flatMap (countOption 'C'))) with
  | .error f =>
    some (c.fail (f.words ++ textOf ("\n" ++ grepUsage ++ "\n") ++ Call.advice c.name) 2)
  | .ok (os, operands) =>
    match patterns c os operands with
    | .error none => some { c.reply [] 2 with remarks := [textOf grepUsage, Call.advice c.name] }
    | .error (some (o, e)) => some (c.fail (Call.about o e.words) 2)
    | .ok (lines, operands) =>
      match searched os lines with
      | .error f => some (c.fail (textOf f.words) 2)
      | .ok r => do
        let (operands, isNamed) := searchedFiles c os operands
        let isNamed : Bool := match os.last? ["h", "H"] with
          | some o => o = "H"
          | none => isNamed
        let opened := c.opened c.input (if operands.isEmpty then [['-']] else operands)
        let findings ← opened.mapM fun (o, s) => searchOne os r isNamed o s
        let findings := if os.has "q" then untilHit findings else findings
        let isListing := ["l", "L", "c"].any os.has
        let bar : List Text := if hasGroups os && !isListing then [['-', '-']] else []
        let out := bar.intercalate ((findings.map (·.lines)).filter (!·.isEmpty))
        let isHit := findings.any (·.isHit)
        let isFaulty := findings.any (!·.isRead) && !(os.has "q" && isHit)
        pure { c.replyFor operands (.ofText (unlinesOf out)) (findings.flatMap (·.complaints)) with
          status := if isFaulty then 2 else if isHit then 0 else 1 }

end Doctest.Shell.Filter
