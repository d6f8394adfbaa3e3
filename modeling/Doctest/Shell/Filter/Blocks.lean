import Doctest.Shell.FileWork
import Doctest.Shell.Filter.Lines

/-! Copying in blocks. -/
namespace Doctest.Shell.Filter

/-- The operands of a copy by their names. -/
def blockOperands : List String :=
  ["if", "of", "bs", "ibs", "obs", "count", "skip", "seek", "status", "conv", "iflag", "oflag"]

/-- A number, which may be a product. -/
def productOf? (cs : Text) : Option Nat :=
  (Doctest.Text.splitOn 'x' cs).foldlM (fun n part => (sizeOf? part).map (n * ·)) 1

/-- So many whole blocks, and whether a part of one follows. -/
def records (size length : Nat) : Text :=
  digits (length / size) ++ '+' :: (if length % size = 0 then ['0'] else ['1'])

/-- Reads operands, each of which is a name and a value, or says what is wrong with one. -/
def blockValues (args : List Text) : Except (Text × Bool) (List (String × Text)) :=
  args.mapM fun arg =>
    match Doctest.Text.splitFirst? '=' arg with
    | some (name, value) =>
      let name := String.ofList name
      if !blockOperands.contains name then
        .error (textOf "unrecognized operand " ++ FileWork.inMarks arg, true)
      else if ["bs", "ibs", "obs", "count", "skip", "seek"].contains name && (productOf? value).isNone then
        .error (textOf "invalid number: " ++ FileWork.inMarks value, false)
      else .ok (name, value)
    | none => .error (textOf "unrecognized operand " ++ FileWork.inMarks arg, true)

/-- How many bytes a copy reads, if that is limited. -/
def bytesWanted? (values : List (String × Text)) : Option Nat :=
  let numberOf (name : String) : Option Nat := (values.lookup name).bind productOf?
  let size := ((numberOf "bs").or (numberOf "ibs")).getD 512
  (numberOf "count").map (· * size)

def dd (c : Call) : Option Reply :=
  match blockValues c.args with
  | .error (w, isUsage) => some (if isUsage then c.refuse w 1 else c.fail w 1)
  | .ok values => do
    let numberOf (name : String) : Option Nat := (values.lookup name).bind productOf?
    let size := ((numberOf "bs").or (numberOf "ibs")).getD 512
    let skipped := (numberOf "skip").getD 0 * size
    let opened := match values.lookup "if" with
      | some path => (c.machine.sourceAt path).mapError fun e => (path, e)
      | none => .ok c.input
    match opened with
    | .error (path, e) =>
      some (c.fail (textOf "failed to open " ++ Call.about (FileWork.inMarks path) e.words) 1)
    | .ok s =>
      let cs ← match bytesWanted? values with
        | some n => some (((s.unroll (skipped + n)).drop skipped).take n)
        | none => s.text?.map (·.drop skipped)
      let count := digits cs.length
      let remarks :=
        if values.lookup "status" = some (textOf "none") then []
        else
          [records size cs.length ++ textOf " records in", records size cs.length ++ textOf " records out",
            count ++ textOf " bytes copied, 0.0001 s, " ++ count ++ textOf "0 kB/s"]
      let rest : Source := match values.lookup "if" with
        | some _ => c.input
        | none => ⟨s.text.drop (skipped + cs.length), s.cycle⟩
      let r : Reply := { c.reply [] 0 with remarks, rest }
      match values.lookup "of" with
      | none => pure { r with out := .ofText cs }
      | some path =>
        let old := (c.files.read (pathOf path)).toOption.getD []
        let place := (numberOf "seek").getD 0 * size
        let isKept := (values.lookup "conv").any fun v => v = textOf "notrunc"
        let head := (old ++ List.replicate place 0).take place
        let tail := if isKept then old.drop (place + cs.length) else []
        match c.files.write (pathOf path) false (head ++ Octets.toBytes cs ++ tail) with
        | .ok files => pure { r with files }
        | .error e =>
          pure (c.fail (textOf "failed to open " ++ Call.about (FileWork.inMarks path) e.words) 1)

end Doctest.Shell.Filter
