import Doctest.Shell.Filter.Lines

/-! Programs that print bytes as numbers or letters, and that read them again. -/
namespace Doctest.Shell.Filter

/-- How numbers of some bytes are shown. -/
structure DumpForm where
  letter : Char
  size : Nat
deriving DecidableEq, Repr

namespace DumpForm

/-- The characters for one number, with the blank before it. -/
def width (f : DumpForm) : Nat :=
  match f.letter, f.size with
  | 'c', _ | 'a', _ => 4
  | 'x', n => 2 * n + 1
  | 'o', 1 => 4
  | 'o', 2 => 7
  | 'o', 4 => 12
  | 'o', _ => 23
  | 'u', 1 => 4
  | 'u', 2 => 6
  | 'u', 4 => 11
  | 'u', _ => 21
  | _, 1 => 5
  | _, 2 => 7
  | _, 4 => 12
  | _, _ => 21

/-- A number whose first byte is the least. -/
def number (cs : Text) : Nat :=
  cs.foldr (fun c n => n * 256 + c.toNat) 0

/-- A byte as a letter, an escape, or an octal number. -/
def character (n : Nat) : Text :=
  let octal := Nat.toDigits 8 n
  match [(0, "\\0"), (7, "\\a"), (8, "\\b"), (9, "\\t"), (10, "\\n"), (11, "\\v"), (12, "\\f"),
      (13, "\\r")].lookup n with
  | some escape => escape.toList
  | none =>
    if 32 ≤ n ∧ n < 127 then [Char.ofNat n] else List.replicate (3 - octal.length) '0' ++ octal

def item (f : DumpForm) (cs : Text) : Text :=
  let n := number cs
  let filled (base size : Nat) : Text :=
    let ds := Nat.toDigits base n
    List.replicate (size - ds.length) '0' ++ ds
  let shown := match f.letter with
    | 'c' | 'a' => character n
    | 'x' => filled 16 (f.width - 1)
    | 'o' => filled 8 (f.width - 1)
    | 'u' => digits n
    | _ => (toString (Int.bmod n (Nat.pow 256 f.size))).toList
  padded f.width shown

/-- Reads forms as they are written behind each other. -/
def ofText : (fuel : Nat) → Text → Option (List DumpForm)
  | 0, _ | _, [] => some []
  | fuel + 1, letter :: rest =>
    if ['c', 'a'].contains letter then (ofText fuel rest).map (⟨letter, 1⟩ :: ·)
    else if ['x', 'o', 'u', 'd'].contains letter then
      match rest with
      | size :: more =>
        match [('1', 1), ('2', 2), ('4', 4), ('8', 8), ('C', 1), ('S', 2), ('I', 4), ('L', 8)].lookup size with
        | some n => (ofText fuel more).map (⟨letter, n⟩ :: ·)
        | none => (ofText fuel rest).map (⟨letter, 4⟩ :: ·)
      | [] => some [⟨letter, 4⟩]
    else none

end DumpForm

/-- The items of a list in groups of so many. -/
def groupsOf {α : Type} (size : Nat) : (fuel : Nat) → List α → List (List α)
  | 0, _ | _, [] => []
  | fuel + 1, items => items.take size :: groupsOf size fuel (items.drop size)

/-- A place before a row, by its base. -/
def addressOf (base : Text) (n : Nat) : Text :=
  let filled (b size : Nat) : Text :=
    let ds := Nat.toDigits b n
    List.replicate (size - ds.length) '0' ++ ds
  match base with
  | ['n'] => []
  | ['x'] => filled 16 6
  | ['d'] => filled 10 7
  | _ => filled 8 7

def odTable : OptionTable where
  flags := ["a", "b", "c", "d", "i", "l", "o", "s", "v", "x"]
  valued := ["A", "j", "N", "t", "w"]
  names := [("address-radix", "A"), ("format", "t"), ("read-bytes", "N"), ("skip-bytes", "j"),
    ("output-duplicates", "v"), ("width", "w")]
  isPlain := false

/-- The form that an option of one letter is short for. -/
def shortForms : List (String × DumpForm) :=
  [("b", ⟨'o', 1⟩), ("c", ⟨'c', 1⟩), ("d", ⟨'u', 2⟩), ("i", ⟨'d', 4⟩), ("l", ⟨'d', 8⟩), ("o", ⟨'o', 2⟩),
    ("s", ⟨'d', 2⟩), ("x", ⟨'x', 2⟩), ("a", ⟨'a', 1⟩)]

/-- The forms that options ask for, or the letters that are none. -/
def formsOf (os : Options) : Except Text (List DumpForm) := do
  let forms ← os.given.mapM fun (name, value) =>
    if name = "t" then
      match DumpForm.ofText value.length value with
      | some fs => .ok fs
      | none => .error value
    else .ok (shortForms.lookup name).toList
  pure (if forms.flatten.isEmpty then [⟨'o', 2⟩] else forms.flatten)

/-- The rows of a dump from an address on. A row that is like the one before is told by a mark. -/
def rows (forms : List DumpForm) (base : Text) (withAll : Bool) :
    (last : Option Text) → (isMarked : Bool) → (place : Nat) → List Text → List Text
  | _, _, _, [] => []
  | last, isMarked, place, row :: rest =>
    let next := place + row.length
    if !withAll && last = some row then
      (if isMarked then [] else [['*']]) ++ rows forms base withAll last true next rest
    else
      let shown := forms.mapIdx fun i f =>
        let lead := if i = 0 then addressOf base place else List.replicate (addressOf base place).length ' '
        lead ++ ((groupsOf f.size row.length row).map f.item).flatten
      shown ++ rows forms base withAll (some row) false next rest

def od (c : Call) : Option Reply :=
  c.withOptions odTable 1 fun os operands => do
    match formsOf os with
    | .error cs =>
      some (c.fail (textOf "invalid character '" ++ cs.take 1 ++ textOf "' in type string " ++
        Call.quoted cs) 1)
    | .ok forms =>
      let numberOf (name : String) : Option Nat := (os.value? name).bind natOf?
      let (found, err) := c.sources operands
      let all := (found.map (·.2)).foldl Source.append .empty
      let skipped := (numberOf "j").getD 0
      let cs ← match numberOf "N" with
        | some n => some (((all.unroll (skipped + n)).drop skipped).take n)
        | none => all.text?.map (·.drop skipped)
      let base := (os.value? "A").getD ['o']
      let width := (numberOf "w").getD 16
      let lines := rows forms base (os.has "v") none false skipped (groupsOf width cs.length cs)
      let last := if found.isEmpty then [] else addressOf base (skipped + cs.length)
      pure (c.replyFor operands (.ofText (unlinesOf (lines ++ if last.isEmpty then [] else [last]))) err)

/-- The letters that stand for six bits. -/
def letters64 : Text :=
  "ABCDEFGHIJKLMNOPQRSTUVWXYZabcdefghijklmnopqrstuvwxyz0123456789+/".toList

/-- Three bytes as four letters, where a sign stands for what is missing. -/
def encoded64 : Text → Text
  | a :: b :: c :: rest => four (a.toNat * 65536 + b.toNat * 256 + c.toNat) ++ encoded64 rest
  | [a, b] => (four (a.toNat * 65536 + b.toNat * 256)).take 3 ++ ['=']
  | [a] => (four (a.toNat * 65536)).take 2 ++ ['=', '=']
  | [] => []
where
  four (n : Nat) : Text :=
    [n / 262144, n / 4096 % 64, n / 64 % 64, n % 64].filterMap (letters64[·]?)

/-- The bytes of letters, and whether all of them could be read. -/
def decoded64 : (fuel : Nat) → Text → Text × Bool
  | 0, _ | _, [] => ([], true)
  | fuel + 1, cs =>
    let group := cs.take 4
    let values := (group.takeWhile (· != '=')).filterMap (letters64.idxOf? ·)
    let n := (values ++ List.replicate (4 - values.length) 0).foldl (fun n v => n * 64 + v) 0
    let bytes := ([n / 65536, n / 256 % 256, n % 256].map Char.ofNat).take (values.length - 1)
    let isWhole := group.length = 4 && values.length = (group.filter (· != '=')).length && 2 ≤ values.length
    if isWhole then
      let (more, isGood) := decoded64 fuel (cs.drop 4)
      (bytes ++ more, isGood)
    else (bytes, false)

def base64 (c : Call) : Option Reply :=
  c.withOptions ⟨["d", "i"], ["w"], [("decode", "d"), ("wrap", "w"), ("ignore-garbage", "i")], false⟩ 1
    fun os operands => do
    let (found, err) ← c.texts (operands.take 1)
    let cs := (found.map (·.2)).flatten
    if os.has "d" then
      let body := cs.filter (· != '\n')
      let (out, isGood) := decoded64 body.length body
      let r := c.replyFor operands (.ofText out) err
      pure (if isGood then r else
        { r with complaints := r.complaints ++ [textOf "invalid input"], status := 1 })
    else
      let body := encoded64 cs
      let width := ((os.value? "w").bind natOf?).getD 76
      let out := if width = 0 then body else unlinesOf (groupsOf width body.length body)
      pure (c.replyFor operands (.ofText out) err)

end Doctest.Shell.Filter
