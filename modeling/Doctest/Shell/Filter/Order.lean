import Doctest.Shell.Decimal
import Doctest.Shell.Filter.Lines

/-! Putting lines in order, and leaving out those that are repeated. -/
namespace Doctest.Shell.Filter

/-- A place in a line: a field and a character of it, both counted from one. -/
structure FieldPlace where
  field : Nat
  char : Nat
deriving DecidableEq, Repr

/-- A part of a line by which lines are compared, and how. A last character of zero is the last one of
the field. -/
structure SortKey where
  first : FieldPlace
  last : Option FieldPlace
  manner : Text
deriving Repr

namespace SortKey

/-- The letters that say how keys are compared. -/
def manners : List Char :=
  ['b', 'd', 'f', 'g', 'h', 'i', 'n', 'r', 'V', 'M', 'R']

def place (usualChar : Nat) (cs : Text) : Option (FieldPlace × Text × Text) := do
  let ds := cs.takeWhile Char.isDigit
  let field ← natOf? ds
  let rest := cs.drop ds.length
  let (char, rest) := match rest with
    | '.' :: more =>
      let ds := more.takeWhile Char.isDigit
      ((natOf? ds).getD usualChar, more.drop ds.length)
    | rest => (usualChar, rest)
  let letters := rest.takeWhile (manners.contains ·)
  pure (⟨field, char⟩, letters, rest.drop letters.length)

/-- Reads a key as it is written, or says what is wrong with it. -/
def ofText (cs : Text) : Except Text SortKey :=
  match place 1 cs with
  | none => .error (textOf "invalid number at field start: invalid count at start of " ++ Call.quoted cs)
  | some (first, letters, rest) =>
    if first.field = 0 then
      .error (textOf "field number is zero: invalid field specification " ++ Call.quoted cs)
    else
      match rest with
      | [] => .ok ⟨first, none, letters⟩
      | ',' :: rest =>
        match place 0 rest with
        | some (last, more, []) => .ok ⟨first, some last, letters ++ more⟩
        | some _ => .error (textOf "stray character in field spec: invalid field specification " ++
            Call.quoted cs)
        | none => .error (textOf "invalid number after ',': invalid count at start of " ++ Call.quoted rest)
      | _ => .error (textOf "stray character in field spec: invalid field specification " ++
          Call.quoted cs)

/-- The fields of a line, of which blanks begin one unless there is a separator. -/
def fields (separator : Option Char) (line : Text) : List Text :=
  match separator with
  | some c => Doctest.Text.splitOn c line
  | none =>
    (line.foldr (fun c (fields : List Text) =>
      match fields with
      | (d :: cs) :: rest =>
        if Doctest.Text.isBlank d && !Doctest.Text.isBlank c then [c] :: (d :: cs) :: rest
        else (c :: d :: cs) :: rest
      | [] :: rest => [c] :: rest
      | [] => [[c]]) [])

/-- How many characters are before a field. -/
def offset (separator : Option Char) (fields : List Text) (field : Nat) : Nat :=
  total ((fields.take (field - 1)).map fun f => f.length + (if separator.isSome then 1 else 0))

/-- The part of a line that the key names. -/
def textIn (k : SortKey) (separator : Option Char) (line : Text) : Text :=
  let fs := fields separator line
  let skipsBlanks := k.manner.contains 'b'
  let start (p : FieldPlace) : Nat :=
    let n := offset separator fs p.field
    if skipsBlanks then n + ((line.drop n).takeWhile Doctest.Text.isBlank).length else n
  let first := start k.first + (k.first.char - 1)
  let stop := match k.last with
    | none => line.length
    | some ⟨field, 0⟩ => offset separator fs field + (fs[field - 1]?.getD []).length
    | some p => start p + p.char
  (line.drop first).take (stop - first)

end SortKey

/-- A number at the front of a text as a whole number and the number of its decimals. -/
def decimal (cs : Text) : Int × Nat :=
  let (isNegative, cs) := match cs.dropWhile Doctest.Text.isBlank with
    | '-' :: rest => (true, rest)
    | cs => (false, cs)
  let whole := cs.takeWhile Char.isDigit
  let decimals := match cs.drop whole.length with
    | '.' :: rest => rest.takeWhile Char.isDigit
    | _ => []
  let n := Int.ofNat ((natOf? (whole ++ decimals)).getD 0)
  (if isNegative then -n else n, decimals.length)

def compareDecimals (a b : Int × Nat) : Ordering :=
  compare (a.1 * Nat.pow 10 b.2) (b.1 * Nat.pow 10 a.2)

/-- Compares texts by the numbers at their fronts, which may have exponents. One without a number is less
than any with one. -/
def compareNumbers (a b : Text) : Ordering :=
  let number? (cs : Text) : Option Decimal :=
    (Decimal.front (cs.dropWhile Doctest.Text.isBlank)).map (·.1)
  match number? a, number? b with
  | some m, some n => m.order n
  | some _, none => .gt
  | none, some _ => .lt
  | none, none => .eq

/-- The place of a unit among those that letters after a number stand for. There is none after zero, and
one of a negative number goes in the other direction. -/
def unitRank (cs : Text) : Int :=
  let cs := cs.dropWhile Doctest.Text.isBlank
  let isNegative := cs.head? = some '-'
  let cs := if isNegative then cs.drop 1 else cs
  let number := cs.takeWhile fun c => c.isDigit || c = '.'
  let unit := (cs.drop number.length).head?.bind fun c =>
    ['K', 'M', 'G', 'T', 'P', 'E', 'Z', 'Y'].idxOf? (if c = 'k' then 'K' else c)
  let rank := Int.ofNat ((unit.map (· + 1)).getD 0)
  if number.all fun c => c = '0' || c = '.' then 0 else if isNegative then -rank else rank

def compareTexts (a b : Text) : Ordering :=
  if a = b then .eq else if inOrder a b then .lt else .gt

/-- Compares the parts of two lines in the manner that letters say. -/
def compareBy (manner a b : Text) : Ordering :=
  let is (c : Char) : Bool := manner.contains c
  let result :=
    if is 'h' then
      (compare (unitRank a) (unitRank b)).then (compareDecimals (decimal a) (decimal b))
    else if is 'g' then compareNumbers a b
    else if is 'n' then compareDecimals (decimal a) (decimal b)
    else
      let kept (cs : Text) : Text :=
        let cs := if is 'd' then cs.filter fun c => c.isAlphanum || Doctest.Text.isBlank c else cs
        if is 'f' then cs.map Char.toUpper else cs
      compareTexts (kept a) (kept b)
  if is 'r' then result.swap else result

/-- How lines are put in order. -/
structure SortOrder where
  keys : List SortKey
  separator : Option Char
  manner : Text
  isStable : Bool
  isUnique : Bool

namespace SortOrder

/-- Compares two lines by the keys, or else by all of each. -/
def byKeys (o : SortOrder) (a b : Text) : Ordering :=
  if o.keys.isEmpty then
    let trimmed (cs : Text) : Text :=
      if o.manner.contains 'b' then cs.dropWhile Doctest.Text.isBlank else cs
    compareBy o.manner (trimmed a) (trimmed b)
  else
    o.keys.foldl (fun result k =>
      let manner := if k.manner.isEmpty then o.manner else k.manner
      let k := { k with manner }
      result.then (compareBy manner (k.textIn o.separator a) (k.textIn o.separator b))) .eq

/-- Compares two lines. Those with equal keys are compared as they are, unless that is not wanted. -/
def ordering (o : SortOrder) (a b : Text) : Ordering :=
  let last := compareTexts a b
  (o.byKeys a b).then
    (if o.isStable || o.isUnique then .eq else if o.manner.contains 'r' then last.swap else last)

/-- Leaves out the lines whose keys are equal to those of the one before. -/
def unique (o : SortOrder) : List Text → List Text
  | a :: b :: rest =>
    if o.byKeys a b = .eq then o.unique (a :: rest) else a :: o.unique (b :: rest)
  | lines => lines
termination_by lines => lines.length

/-- The number of the first line, counted from one, that is not in order behind the one before. -/
def firstDisorder? (o : SortOrder) (n : Nat) : List Text → Option (Nat × Text)
  | a :: b :: rest =>
    let result := o.ordering a b
    if result = .gt || (o.isUnique && result = .eq) then some (n + 1, b)
    else o.firstDisorder? (n + 1) (b :: rest)
  | _ => none

end SortOrder

def sortTable : OptionTable where
  flags := ["b", "c", "C", "d", "f", "g", "h", "i", "m", "M", "n", "r", "R", "s", "u", "V", "z"]
  valued := ["k", "o", "S", "t", "T", "sort", "check", "parallel"]
  names := [("ignore-leading-blanks", "b"), ("dictionary-order", "d"), ("ignore-case", "f"),
    ("general-numeric-sort", "g"), ("human-numeric-sort", "h"), ("ignore-nonprinting", "i"),
    ("merge", "m"), ("month-sort", "M"), ("numeric-sort", "n"), ("reverse", "r"), ("random-sort", "R"),
    ("stable", "s"), ("unique", "u"), ("version-sort", "V"), ("zero-terminated", "z"), ("key", "k"),
    ("output", "o"), ("field-separator", "t")]
  isPlain := false

/-- The order that options ask for, or what is wrong with them. -/
def sortOrder (os : Options) : Except Text SortOrder := do
  let keys ← (os.values "k").mapM SortKey.ofText
  let separator ← match os.value? "t" with
    | none => pure none
    | some [c] => pure (some c)
    | some ['\\', '0'] => pure (some '\x00')
    | some [] => .error (textOf "empty tab")
    | some cs => .error (textOf "multi-character tab " ++ Call.quoted cs)
  let manner := (os.given.map (·.1.toList)).flatten.filter (SortKey.manners.contains ·)
  pure ⟨keys, separator, if os.has "sort" then 'n' :: manner else manner, os.has "s", os.has "u"⟩

/-- Answers by a file or by the output. -/
def replyTo (c : Call) (r : Reply) (target : Option Text) (out : Text)
    (refusal : Text → FileError → Text) (status : Nat) : Reply :=
  match target with
  | none => { r with out := .ofText out }
  | some path =>
    match c.files.write (pathOf path) false (Octets.toBytes out) with
    | .ok files => { r with files }
    | .error e => { r with complaints := r.complaints ++ [refusal path e], status }

def sort (c : Call) : Option Reply :=
  c.withOptions sortTable 2 fun os operands => do
    match sortOrder os with
    | .error w => some (c.fail w 2)
    | .ok o =>
      let isCheck := os.has "c" || os.has "C"
      let letter := if os.has "c" then "c" else "C"
      let second := operands.drop 1
      if isCheck && os.has "o" then
        some (c.fail (textOf ("options '-" ++ letter ++ "o' are incompatible")) 2)
      else if isCheck && !second.isEmpty then
        some (c.fail (textOf "extra operand '" ++ second.headD [] ++
          textOf ("' not allowed with -" ++ letter)) 2)
      else
        let failure := if isCheck then "open failed: " else "cannot read: "
        let (found, err) ← c.textsOr (fun o e => textOf failure ++ Call.about o e.words) operands
        let r := { c.replyFor operands .empty err with status := if err.isEmpty then 0 else 2 }
        if !err.isEmpty then pure r
        else if isCheck then
          let (name, cs) := found.headD ([], [])
          match o.firstDisorder? 1 (linesOf cs) with
          | none => pure r
          | some (n, line) =>
            let words := name ++ [':'] ++ digits n ++ textOf ": disorder: " ++ line
            pure { r with complaints := if os.has "C" then [] else [words], status := 1 }
        else
          let le (a b : Text) : Bool := o.ordering a b != .gt
          let files := found.map fun f => linesOf f.2
          let lines :=
            if os.has "m" then files.foldl (fun a b => a.merge b le) [] else files.flatten.mergeSort le
          let lines := if o.isUnique then o.unique lines else lines
          pure (replyTo c r (os.value? "o") (unlinesOf lines)
            (fun path e => textOf "open failed: " ++ Call.about path e.words) 2)

def uniqTable : OptionTable where
  flags := ["c", "d", "D", "i", "u", "z"]
  valued := ["f", "s", "w"]
  names := [("count", "c"), ("repeated", "d"), ("all-repeated", "D"), ("ignore-case", "i"),
    ("unique", "u"), ("skip-fields", "f"), ("skip-chars", "s"), ("check-chars", "w")]
  isPlain := false

/-- A line behind so many fields, each with the blanks before it. -/
def behindFields : Nat → Text → Text
  | 0, cs => cs
  | n + 1, cs =>
    behindFields n ((cs.dropWhile Doctest.Text.isBlank).dropWhile (!Doctest.Text.isBlank ·))

def uniq (c : Call) : Option Reply :=
  c.withOptions uniqTable 1 fun os operands => do
    let bad := (["f", "s", "w"].zip ["fields to skip", "bytes to skip", "bytes to compare"]).find? fun o =>
      (os.value? o.1).any fun cs => (natOf? cs).isNone
    match bad, operands with
    | some (name, things), _ =>
      some (c.fail (Call.about ((os.value? name).getD []) ("invalid number of " ++ things)) 1)
    | none, _ :: _ :: third :: _ => some (c.refuse (textOf "extra operand " ++ Call.quoted third) 1)
    | none, _ =>
      if os.has "D" && os.has "c" then
        some (c.refuse (textOf "printing all duplicated lines and repeat counts is meaningless") 1)
      else
        let (found, err) ← c.texts (operands.take 1)
        let r := c.replyFor (operands.take 1) .empty err
        if !err.isEmpty then pure r
        else
          let numberOf (name : String) : Option Nat := (os.value? name).bind natOf?
          let part (line : Text) : Text :=
            let cs := (behindFields ((numberOf "f").getD 0) line).drop ((numberOf "s").getD 0)
            let cs := cs.take ((numberOf "w").getD cs.length)
            if os.has "i" then cs.map Char.toLower else cs
          let runs := ((found.map (·.2)).flatMap linesOf).splitBy fun a b => part a == part b
          let runs := runs.filter fun run =>
            (!(os.has "d" || os.has "D") || 1 < run.length) && (!os.has "u" || run.length = 1)
          let lines := runs.flatMap fun run =>
            let number : Text := if os.has "c" then padded 7 (digits run.length) ++ [' '] else []
            (if os.has "D" then run else run.take 1).map (number ++ ·)
          pure (replyTo c r operands[1]? (unlinesOf lines) (fun path e => Call.about path e.words) 1)

end Doctest.Shell.Filter
