import Doctest.Shell.Filter.Lines
import Doctest.Shell.Printing

/-! Programs that print numbers in a row, or the same line for ever. -/
namespace Doctest.Shell.Filter

def seqTable : OptionTable where
  flags := ["w"]
  valued := ["f", "s"]
  names := [("equal-width", "w"), ("format", "f"), ("separator", "s")]
  isPlain := true

/-- A negative number ends the options. -/
def beforeNumbers : List Text → List Text
  | arg :: rest =>
    match arg with
    | '-' :: c :: _ =>
      if arg = ['-', '-'] then arg :: rest
      else if c.isDigit || c = '.' then ['-', '-'] :: arg :: rest
      else if arg = ['-', 's'] ∨ arg = ['-', 'f'] then arg :: rest.take 1 ++ beforeNumbers (rest.drop 1)
      else arg :: beforeNumbers rest
    | _ => arg :: rest
  | [] => []
termination_by args => args.length
decreasing_by all_goals grind

/-- How many steps lead from a number to another one without going past it. -/
def stepCount (first step last : Decimal) : Nat :=
  let places := max first.places (max step.places last.places)
  let distance := last.partsAt places - first.partsAt places
  let width := step.partsAt places
  if (0 < width ∧ distance < 0) ∨ (width < 0 ∧ 0 < distance) then 0 else (distance.tdiv width).toNat + 1

/-- A number with a sign, zeros up to a width, and so many decimals. -/
def zeroPadded (width places : Nat) (d : Decimal) : Text :=
  let sign : Text := if d.parts < 0 then ['-'] else []
  let ds := d.fixed places
  sign ++ List.replicate (width - sign.length - ds.length) '0' ++ ds

/-- A number in the form of a format with one directive. -/
def formatted (format : Text) (d : Decimal) : Text :=
  ((Step.repeated Printing.piece format).1.map fun
    | .text cs => cs
    | .directive p =>
      let count : Printing.Count → Nat
        | .fixed n => n
        | .argument => 0
      Printing.showDecimal p (count p.width) (p.precision.map count) d
    | .fault cs => cs).flatten

def seq (c : Call) : Option Reply :=
  (c.withArgs (beforeNumbers c.args)).withOptions seqTable 1 fun os operands =>
    let numbers := operands.map fun o => (o, Decimal.ofText? o)
    match operands, numbers.find? (·.2.isNone) with
    | [], _ => some (c.refuse (textOf "missing operand") 1)
    | _ :: _ :: _ :: fourth :: _, _ => some (c.refuse (textOf "extra operand " ++ Call.quoted fourth) 1)
    | _, some (o, _) =>
      some (c.refuse (textOf "invalid floating point argument: " ++ Call.quoted o) 1)
    | _, none =>
      let one := Decimal.ofNat 1
      let (first, step, last) := match numbers.filterMap (·.2) with
        | [a] => (one, one, a)
        | [a, b] => (a, one, b)
        | [a, s, b] => (a, s, b)
        | _ => (one, one, one)
      if step.parts = 0 then
        some (c.refuse (textOf "invalid Zero increment value: " ++ Call.quoted (operands[1]?.getD [])) 1)
      else
        let places := max first.places step.places
        let width :=
          if os.has "w" then
            max (zeroPadded 0 places first).length (zeroPadded 0 places last).length else 0
        let shown (d : Decimal) : Text := match os.value? "f" with
          | some format => formatted format d
          | none => zeroPadded width places d
        let lines := (List.range (stepCount first step last)).map fun i =>
          shown (first.add (step.scale i))
        let out := ((os.value? "s").getD ['\n']).intercalate lines
        some (c.reply (if lines.isEmpty then [] else out ++ ['\n']) 0)

/-- The same line for ever. -/
def yes (c : Call) : Option Reply :=
  c.withOptions ⟨[], [], [], false⟩ 1 fun _ operands =>
    let line := if operands.isEmpty then ['y'] else Doctest.Text.joinWith ' ' operands
    some { c.reply [] 0 with out := ⟨[], line ++ ['\n']⟩ }

end Doctest.Shell.Filter
