import Doctest.Shell.Filter.Lines
import Doctest.Shell.Pattern
import Doctest.Shell.Printing

/-! Programs that change or choose the characters of their input. -/
namespace Doctest.Shell.Filter

open Step

/-- A part of a set of characters. -/
inductive SetPart
  | these (cs : Text)
  | named (name : String)
  /-- A character as often as is said or, without a number, as is needed. -/
  | filling (c : Char) (n : Nat)
deriving DecidableEq, Repr

/-- All bytes as characters. -/
def bytes : Text :=
  (List.range 256).map Char.ofNat

/-- Why a text is no set of characters. -/
inductive SetFault
  | noClass (name : Text)
  | descending (a b : Char)
deriving DecidableEq, Repr

def SetFault.words : SetFault → Text
  | noClass name => textOf "invalid character class " ++ Call.quoted name
  | descending a b => textOf "range-endpoints of '" ++ [a, '-', b] ++
    textOf "' are in reverse collating sequence order"

namespace SetPart

def character : Step Char :=
  Printing.escape <|> (do text ['\\']; char fun _ => true) <|> char fun _ => true

def className : Step (Except SetFault SetPart) := do
  text ['[', ':']
  let name ← run fun c => c != ':' && c != ']'
  text [':', ']']
  let name' := String.ofList name
  pure (if (CharClass.named.lookup name').isSome then .ok (.named name') else .error (.noClass name))

def equivalents : Step (Except SetFault SetPart) := do
  text ['[', '=']
  let c ← character
  text ['=', ']']
  pure (.ok (.these [c]))

def filler : Step (Except SetFault SetPart) := do
  text ['[']
  let c ← character
  text ['*']
  let ds ← run Char.isDigit
  text [']']
  pure (.ok (.filling c ((Printing.natural (if ds.head? = some '0' then 8 else 10) ds).1.getD 0)))

def range : Step (Except SetFault SetPart) := do
  let a ← character
  text ['-']
  let b ← character
  pure (if b < a then .error (.descending a b)
    else .ok (.these ((List.range' a.toNat (b.toNat + 1 - a.toNat)).map Char.ofNat)))

/-- The parts of a set as it is written. -/
def ofText (cs : Text) : Except SetFault (List SetPart) :=
  let single : Step (Except SetFault SetPart) := do pure (.ok (.these [← character]))
  (repeated (className <|> equivalents <|> filler <|> range <|> single) cs).1.mapM id

/-- The characters of a part, where so many are needed. -/
def chars (needed : Nat) : SetPart → Text
  | these cs => cs
  | named name =>
    let ranges := (CharClass.named.lookup name).getD []
    bytes.filter (CharClass.oneOf false ranges).accepts
  | filling c 0 => List.replicate needed c
  | filling c n => List.replicate n c

/-- The characters of all parts. One that fills gives as many as the others leave. -/
def allChars (size : Nat) (parts : List SetPart) : Text :=
  let others := (parts.flatMap (chars 0)).length
  parts.flatMap (chars (size - others))

end SetPart

/-- Leaves out a character of the set that follows an equal one. -/
def squeeze (set : Text) : Text → Text
  | a :: b :: rest =>
    if a = b ∧ set.contains a then squeeze set (b :: rest) else a :: squeeze set (b :: rest)
  | cs => cs

def trTable : OptionTable where
  flags := ["c", "C", "d", "s", "t"]
  valued := []
  names := [("complement", "c"), ("delete", "d"), ("squeeze-repeats", "s"), ("truncate-set1", "t")]
  isPlain := true

/-- What is wrong with the number of sets. -/
def setsFault? (isDelete isSqueeze : Bool) (operands : List Text) : Option Text :=
  let first := Call.quoted (operands.headD [])
  match operands with
  | [] => some (textOf "missing operand")
  | [_] =>
    if isDelete == isSqueeze then
      some (textOf "missing operand after " ++ first ++ textOf ("\nTwo strings must be given when " ++
        if isDelete then "both deleting and squeezing repeats." else "translating."))
    else none
  | [_, second] =>
    if isDelete && !isSqueeze then
      some (textOf "extra operand " ++ Call.quoted second ++
        textOf "\nOnly one string may be given when deleting without squeezing repeats.")
    else none
  | _ :: _ :: third :: _ => some (textOf "extra operand " ++ Call.quoted third)

/-- Changes each character of one set to that of another which stands in the same place. -/
def translate (source target : Text) (ch : Char) : Char :=
  match source.idxOf? ch with
  | some i => (target[i]?.or target.getLast?).getD ch
  | none => ch

def tr (c : Call) : Option Reply :=
  c.withOptions trTable 1 fun os operands => do
    let isDelete := os.has "d"
    let isSqueeze := os.has "s"
    if let some w := setsFault? isDelete isSqueeze operands then some (c.refuse w 1)
    else
      match operands.mapM SetPart.ofText with
      | .error f => some (c.fail f.words 1)
      | .ok sets =>
        let done (out : Source) : Option Reply := some { c.reply [] 0 with out, rest := .empty }
        let first := SetPart.allChars 0 (sets.headD [])
        let source := if os.has "c" || os.has "C" then bytes.filter (!first.contains ·) else first
        match sets with
        | [_, second] =>
          let target := SetPart.allChars source.length second
          if isDelete then
            let left := c.input.map fun ch => if source.contains ch then none else some ch
            done (.ofText (squeeze target (← left.text?)))
          else if target.isEmpty && !os.has "t" then
            some (c.fail (textOf "when not truncating set1, string2 must be non-empty") 1)
          else
            let source := if os.has "t" then source.take target.length else source
            let changed := c.input.map fun ch => some (translate source target ch)
            if isSqueeze then done (.ofText (squeeze target (← changed.text?))) else done changed
        | _ =>
          if isDelete then done (c.input.map fun ch => if source.contains ch then none else some ch)
          else done (.ofText (squeeze source (← c.input.text?)))

def cutTable : OptionTable where
  flags := ["n", "s", "z", "complement"]
  valued := ["b", "c", "d", "f", "output-delimiter"]
  names := [("bytes", "b"), ("characters", "c"), ("delimiter", "d"), ("fields", "f"),
    ("only-delimited", "s"), ("zero-terminated", "z")]
  isPlain := false

/-- A range of places from one on, which may have no end. -/
structure PlaceRange where
  first : Nat
  last : Option Nat

/-- A place in a range. -/
def placeNumber (isField : Bool) (range ds : Text) : Except Text Nat :=
  match natOf? ds with
  | some (n + 1) => .ok (n + 1)
  | found =>
    if found = some 0 ∨ ds.isEmpty then
      .error (textOf (if isField then "fields are numbered from 1"
        else "byte/character positions are numbered from 1"))
    else
      .error (textOf (if isField then "invalid field value " else "invalid byte/character position ") ++
        Call.quoted range)

/-- One range of a list. -/
def placeRange (isField : Bool) (cs : Text) : Except Text PlaceRange := do
  match Doctest.Text.splitFirst? '-' cs with
  | none =>
    let n ← placeNumber isField cs cs
    pure ⟨n, some n⟩
  | some ([], []) => .error (textOf "invalid range with no endpoint: -")
  | some (lo, hi) =>
    let first ← if lo.isEmpty then pure 1 else placeNumber isField cs lo
    if hi.isEmpty then pure ⟨first, none⟩
    else
      let last ← placeNumber isField cs hi
      if last < first then .error (textOf "invalid decreasing range") else pure ⟨first, some last⟩

/-- The items whose places, counted from one, a range holds, or all others. -/
def choose {α : Type} (ranges : List PlaceRange) (others : Bool) (items : List α) : List α :=
  let isIn (i : Nat) : Bool := ranges.any fun r => r.first ≤ i && r.last.all (i ≤ ·)
  ((items.zipIdx 1).filter fun (_, i) => isIn i != others).map (·.1)

/-- What is wrong with the options of a program that cuts lines. -/
def cutFault? (os : Options) : Option Text :=
  let lists := ["b", "c", "f"].filter os.has
  if lists.isEmpty then some (textOf "you must specify a list of bytes, characters, or fields")
  else if 1 < (os.given.filter fun o => ["b", "c", "f"].contains o.1).length then
    some (textOf "only one list may be specified")
  else if 1 < ((os.value? "d").getD []).length then
    some (textOf "the delimiter must be a single character")
  else if lists = ["f"] then none
  else if os.has "d" then
    some (textOf "an input delimiter may be specified only when operating on fields")
  else if os.has "s" then
    some (textOf "suppressing non-delimited lines makes sense\n\tonly when operating on fields")
  else none

def cut (c : Call) : Option Reply :=
  c.withOptions cutTable 1 fun os operands => do
    if let some w := cutFault? os then some (c.refuse w 1)
    else
      let isField := os.has "f"
      let list := (((os.value? "f").or (os.value? "c")).or (os.value? "b")).getD []
      match (Doctest.Text.splitWhere (fun ch => ch = ',' || ch = ' ') list).mapM (placeRange isField) with
      | .error w => some (c.refuse w 1)
      | .ok ranges =>
        let (found, err) ← c.texts operands
        let delimiter := ((os.value? "d").getD ['\t']).headD '\x00'
        let between := (os.value? "output-delimiter").getD [delimiter]
        let cutLine (line : Text) : Option Text :=
          if !isField then some (choose ranges (os.has "complement") line)
          else if line.contains delimiter then
            some (between.intercalate
              (choose ranges (os.has "complement") (Doctest.Text.splitOn delimiter line)))
          else if os.has "s" then none
          else some line
        let lines := ((found.map (·.2)).flatMap linesOf).filterMap cutLine
        pure (c.replyFor operands (.ofText (unlinesOf lines)) err)

/-- The lines of each text, where those of the input are dealt out to all that stand for it. -/
def dealt (c : Call) (found : List (Text × Text)) : List (List Text) :=
  let isInput (f : Text × Text) : Bool := c.isInput f.1
  let inputs := (found.filter isInput).length
  let lines := linesOf (((found.find? isInput).map (·.2)).getD [])
  found.mapIdx fun i f =>
    if isInput f then
      let place := ((found.take i).filter isInput).length
      (lines.zipIdx.filter fun (_, k) => k % inputs = place).map (·.1)
    else linesOf f.2

/-- Joins lines of files that stand side by side, or all lines of each. -/
def paste (c : Call) : Option Reply :=
  let table : OptionTable := ⟨["s", "z"], ["d"], [("serial", "s"), ("delimiters", "d")], false⟩
  c.withOptions table 1 fun os operands => do
    let (found, err) ← c.texts operands
    let between := match os.value? "d" with
      | some ds => (SetPart.ofText ds).toOption.map (SetPart.allChars 0) |>.getD ds
      | none => ['\t']
    let joined (items : List Text) : Text :=
      (items.mapIdx fun i cs =>
        if i = 0 then cs else (between[(i - 1) % between.length]?).toList ++ cs).flatten
    let isSerial := os.has "s"
    let columns := if isSerial then found.map fun f => linesOf f.2 else dealt c found
    let rows :=
      if isSerial then columns
      else (List.range ((columns.map List.length).foldl max 0)).map fun i =>
        columns.map fun column => (column[i]?).getD []
    if !isSerial && !err.isEmpty then pure { c.reply [] 1 with complaints := err.take 1 }
    else
      pure (c.replyFor operands (.ofText (unlinesOf (rows.map joined))) err)

end Doctest.Shell.Filter
