import Doctest.Shell.Filter.Lines

/-! How many lines, words and characters there are. -/
namespace Doctest.Shell.Filter

def wcTable : OptionTable where
  flags := ["c", "l", "L", "m", "w"]
  valued := []
  names := [("bytes", "c"), ("chars", "m"), ("lines", "l"), ("words", "w"), ("max-line-length", "L")]
  isPlain := false

/-- The characters of a text whose bytes are UTF-8: those bytes that do not go on with one. -/
def charCount (cs : Text) : Nat :=
  cs.countP fun c => !(0x80 ≤ c.toNat && c.toNat < 0xc0)

/-- The width of a line, in which a tabulator leads to the next multiple of eight. -/
def lineWidth (line : Text) : Nat :=
  line.foldl (fun n c =>
    if c = '\t' then n / 8 * 8 + 8 else if c.toNat < 32 ∨ (0x80 ≤ c.toNat ∧ c.toNat < 0xc0) then n
    else n + 1) 0

/-- The counts that are asked for, in the order in which they are printed. -/
def countsOf (os : Options) (cs : Text) : List Nat :=
  let usual := os.given.isEmpty
  let counts : List (Bool × Nat) :=
    [(usual || os.has "l", cs.count '\n'), (usual || os.has "w", (Doctest.Text.words cs).length),
      (os.has "m", charCount cs), (usual || os.has "c", cs.length),
      (os.has "L", ((linesOf cs).map lineWidth).foldl max 0)]
  (counts.filter (·.1)).map (·.2)

/-- Adds counts to others. Of widths, which stand last, the greater one counts. -/
def combined (os : Options) (a b : List Nat) : List Nat :=
  let sums := List.zipWith (· + ·) a b
  if os.has "L" then sums.dropLast ++ [max (a.getLastD 0) (b.getLastD 0)] else sums

/-- The size of the file that an operand stands for. A pipe has none. -/
def sizeAt? (c : Call) (operand : Text) : Option Nat :=
  let names : Option (List Bytes) :=
    if operand = ['-'] then
      (c.machine.handle? 0).bind fun h => match c.machine.system.stream h.stream with
        | .file names .. => some names
        | .pipe .. => none
    else
      match c.machine.place operand with
      | .path p => (c.files.resolve (pathOf p)).toOption
      | _ => none
  match names.bind c.files.at? with
  | some (.file contents _) => some contents.length
  | _ => none

/-- How wide counts are printed: as wide as the size of all files, and wide enough for a pipe. -/
def countWidth (c : Call) (columns : Nat) (operands : List Text) : Nat :=
  if columns = 1 ∧ operands.length ≤ 1 then 1
  else
    let operands := if operands.isEmpty then [['-']] else operands
    let present := operands.filter fun o => o = ['-'] || (c.machine.sourceAt o).isOk
    let sizes := present.map (sizeAt? c)
    let least := if sizes.any (·.isNone) then 7 else 1
    max least (digits (total (sizes.map fun n => n.getD 0))).length

def wc (c : Call) : Option Reply :=
  c.withOptions wcTable 1 fun os operands => do
    let (found, err) ← c.texts operands
    let rows := found.map fun (name, cs) => (name, countsOf os cs)
    let columns := (countsOf os []).length
    let sums := (rows.map (·.2)).foldl (combined os) (List.replicate columns 0)
    let rows := if 1 < operands.length then rows ++ [(textOf "total", sums)] else rows
    let width := countWidth c columns operands
    let shown := rows.map fun (name, ns) =>
      let numbers := Doctest.Text.joinWith ' ' (ns.map fun n => padded width (digits n))
      if operands.isEmpty then numbers else numbers ++ ' ' :: name
    pure (c.replyFor operands (.ofText (unlinesOf shown)) err)

end Doctest.Shell.Filter
