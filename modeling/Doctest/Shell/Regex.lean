import Doctest.Shell.Pattern
import Doctest.Shell.Source
import Std.Data.HashSet.Basic

/-! Regular expressions in their two notations, and where they match. -/
namespace Doctest.Shell

inductive Regex
  | empty
  | one (c : CharClass)
  | both (a b : Regex)
  | either (a b : Regex)
  | repeated (least : Nat) (most : Option Nat) (r : Regex)
  | group (n : Nat) (r : Regex)
  /-- What a group has matched. -/
  | again (n : Nat)
  | atStart
  | atEnd
  /-- A place where it is so, for one of some pairs, whether characters of words are before and after
  it. -/
  | between (allowed : List (Bool × Bool))
deriving DecidableEq, Repr

namespace Regex

/-- A place in a text, and what the groups before it have matched. -/
structure Place where
  before : Option Char
  rest : Text
  groups : List (Nat × Text)
deriving Repr

def isWordChar (c : Char) : Bool :=
  c.isAlphanum || c = '_'

namespace Place

/-- Whether characters of words are before and after the place. -/
def words (p : Place) : Bool × Bool :=
  (p.before.any isWordChar, p.rest.head?.any isWordChar)

/-- The place so many characters further on. -/
def skip (p : Place) (n : Nat) : Place :=
  { p with
    before := if n = 0 then p.before else p.rest[n - 1]?
    rest := p.rest.drop n }

/-- Of places that are equally far on, the first one. -/
def distinct (ps : List Place) : List Place :=
  match ps with
  | [] | [_] => ps
  | ps =>
    let found := ps.foldl (fun (seen, kept) p =>
      if seen.contains p.rest.length then (seen, kept) else (seen.insert p.rest.length, p :: kept))
      ((∅ : Std.HashSet Nat), ([] : List Place))
    found.2.reverse

end Place

/-- The places to which at most so many steps lead that go on, the furthest steps first. The last step
has led to some of those that are known. -/
def onward (step : Place → List Place) : (fuel : Nat) → (last known : List Place) → List Place
  | 0, _, known => known
  | fuel + 1, last, known =>
    let next := Place.distinct (last.flatMap fun p => (step p).filter (·.rest.length < p.rest.length))
    if next.isEmpty then known else onward step fuel next (next ++ known)

/-- The places to which exactly so many steps lead. -/
def stepping (step : Place → List Place) : Nat → List Place → List Place
  | 0, ps => ps
  | n + 1, ps => stepping step n (Place.distinct (ps.flatMap step))

/-- The places at which a match can end that begins at a place. -/
def ends : Regex → Place → List Place
  | empty, p => [p]
  | one c, p =>
    match p.rest with
    | d :: rest => if c.accepts d then [{ p with before := some d, rest }] else []
    | [] => []
  | both a b, p => Place.distinct ((ends a p).flatMap (ends b))
  | either a b, p => Place.distinct (ends a p ++ ends b p)
  | repeated least most r, p =>
    let first := stepping (ends r) least [p]
    let rounds := (most.map (· - least)).getD p.rest.length
    Place.distinct (onward (ends r) rounds first first)
  | group n r, p =>
    (ends r p).map fun q =>
      let taken := p.rest.take (p.rest.length - q.rest.length)
      { q with groups := (n, taken) :: q.groups.filter (·.1 != n) }
  | again n, p =>
    match p.groups.lookup n with
    | some cs => if cs.isPrefixOf p.rest then [p.skip cs.length] else []
    | none => []
  | atStart, p => if p.before.isNone then [p] else []
  | atEnd, p => if p.rest.isEmpty then [p] else []
  | between allowed, p => if allowed.contains p.words then [p] else []

/-- The end of the longest match that begins at a place. -/
def longest? (r : Regex) (p : Place) : Option Place :=
  (ends r p).foldl (fun best q =>
    match best with
    | some b => if q.rest.length < b.rest.length then some q else best
    | none => some q) none

/-- A part of a text that matches: what is before it, the part, and the place at its end. -/
structure Found where
  before : Text
  matched : Text
  after : Place

/-- The first match at a place or after it, where `passed` has been passed. -/
def find? (r : Regex) (before : Option Char) (rest : Text) (passed : Text) : Option Found :=
  match r.longest? ⟨before, rest, []⟩ with
  | some q => some ⟨passed.reverse, rest.take (rest.length - q.rest.length), q⟩
  | none =>
    match rest with
    | [] => none
    | c :: rest => find? r (some c) rest (c :: passed)
termination_by rest.length

/-- The first and longest match in a text. -/
def first? (r : Regex) (cs : Text) : Option Found :=
  find? r none cs []

def matchesIn (r : Regex) (cs : Text) : Bool :=
  (r.first? cs).isSome

/-- The matches in a text one after another, and what is left behind them. An empty match does not stand
where another one ends. -/
def allFrom (r : Regex) :
    (fuel : Nat) → Option Char → (rest passed : Text) → (isBehind : Bool) → List Found × Text
  | 0, _, rest, passed, _ => ([], passed.reverse ++ rest)
  | fuel + 1, before, rest, passed, isBehind =>
    match r.find? before rest passed with
    | none => ([], passed.reverse ++ rest)
    | some f =>
      if !f.matched.isEmpty then
        let (fs, tail) := r.allFrom fuel f.after.before f.after.rest [] true
        (f :: fs, tail)
      else if isBehind && f.before.length = passed.length then
        match rest with
        | [] => ([], passed.reverse)
        | c :: cs => r.allFrom fuel (some c) cs (c :: passed) false
      else
        match f.after.rest with
        | [] => ([f], [])
        | c :: cs =>
          let (fs, tail) := r.allFrom fuel (some c) cs [c] false
          (f :: fs, tail)

/-- All matches in a text, and what is left behind the last of them. -/
def all (r : Regex) (cs : Text) : List Found × Text :=
  r.allFrom (cs.length + 2) none cs [] false

/-- Takes letters for the same whose case alone is different. -/
def foldCase : Regex → Regex
  | one c => one c.foldCase
  | both a b => both a.foldCase b.foldCase
  | either a b => either a.foldCase b.foldCase
  | repeated least most r => repeated least most r.foldCase
  | group n r => group n r.foldCase
  | r => r

/-- A text that stands for itself. -/
def ofText : Text → Regex
  | [] => empty
  | c :: cs => both (one (.just c)) (ofText cs)

/-- The number of groups. -/
def groupCount : Regex → Nat
  | both a b | either a b => a.groupCount + b.groupCount
  | repeated _ _ r => r.groupCount
  | group _ r => r.groupCount + 1
  | _ => 0

/-- What matches nowhere. -/
def never : Regex :=
  one (.oneOf false [])

/-- Matches that stand alone as words. -/
def asWord (r : Regex) : Regex :=
  both (between [(false, false), (false, true)]) (both r (between [(false, false), (true, false)]))

/-- Matches of the whole text. -/
def asWhole (r : Regex) : Regex :=
  both atStart (both r atEnd)

/-- Why a text is no regular expression. -/
inductive Fault
  | bracket | opening | closing | brace | bound | backReference | backslash
deriving DecidableEq, Repr

def Fault.words : Fault → String
  | bracket => "Unmatched [, [^, [:, [., or [="
  | opening => "Unmatched ( or \\("
  | closing => "Unmatched ) or \\)"
  | brace => "Unmatched \\\x7b"
  | bound => "Invalid content of \\\x7b\\\x7d"
  | backReference => "Invalid back reference"
  | backslash => "Trailing backslash"

/-- What a regular expression is written with. -/
inductive Lexeme
  | opening | closing | bar
  | atom (r : Regex)
  | repeated (least : Nat) (most : Option Nat)
deriving DecidableEq, Repr

/-- What a letter after a backslash stands for, in both notations. -/
def lettered : List (Char × Regex) :=
  let words := [('0', '9'), ('A', 'Z'), ('_', '_'), ('a', 'z')]
  let blanks := (CharClass.named.lookup "space").getD []
  [('w', one (.oneOf false words)), ('W', one (.oneOf true words)),
    ('s', one (.oneOf false blanks)), ('S', one (.oneOf true blanks)),
    ('b', between [(false, true), (true, false)]), ('B', between [(false, false), (true, true)]),
    ('<', between [(false, true)]), ('>', between [(true, false)]),
    ('\x60', atStart), ('\'', atEnd), ('n', one (.just '\n'))]

open Step

/-- Bounds of a repetition, before a closing mark. -/
def bounds (closing : Text) : Step (Nat × Option Nat) := do
  let least ← run Char.isDigit
  let most ← optional (do
    text [',']
    run Char.isDigit)
  text closing
  if least.isEmpty ∧ most.isNone then failure
  let first := (natOf? least).getD 0
  pure (first, match most with
    | none => some first
    | some digits => natOf? digits)

/-- An operator of the extended notation, or of the basic one after its backslash. -/
def operator (isExtended : Bool) (c : Char) : Step Lexeme :=
  match c with
  | '(' => pure .opening
  | ')' => pure .closing
  | '|' => pure .bar
  | '+' => pure (.repeated 1 none)
  | '?' => pure (.repeated 0 (some 1))
  | '\x7b' => do
    let (least, most) ← bounds (if isExtended then ['\x7d'] else ['\\', '\x7d'])
    pure (.repeated least most)
  | _ => failure

/-- One lexeme. At the start of an expression there is nothing to repeat. -/
def lexeme (isExtended isFirst : Bool) : Step Lexeme := do
  match ← char fun _ => true with
  | '.' => pure (.atom (one .any))
  | '*' => if isFirst && !isExtended then pure (.atom (one (.just '*'))) else pure (.repeated 0 none)
  | '^' => pure (.atom (if isExtended || isFirst then atStart else one (.just '^')))
  | '$' =>
    let isLast := (fun cs => some (cs.isEmpty || closesBasic cs, cs) : Step Bool)
    pure (.atom (if isExtended || (← isLast) then atEnd else one (.just '$')))
  | '\\' =>
    let c ← char fun _ => true
    if c.isDigit ∧ c ≠ '0' then pure (.atom (again (c.toNat - 0x30)))
    else
      (if isExtended then failure else operator isExtended c) <|>
        pure (.atom ((lettered.lookup c).getD (one (.just c))))
  | c =>
    (if isExtended then operator isExtended c else failure) <|> pure (.atom (one (.just c)))
where
  closesBasic (cs : Text) : Bool :=
    [['\\', ')'], ['\\', '|']].any fun mark => mark.isPrefixOf cs

/-- The lexemes of a text. -/
def lexemes (isExtended : Bool) : (fuel : Nat) → (isFirst : Bool) → Text → Except Fault (List Lexeme)
  | 0, _, _ | _, _, [] => .ok []
  | fuel + 1, isFirst, c :: cs =>
    if c = '[' then
      match CharClass.brackets '^' false (c :: cs) with
      | some (a, rest) => do pure (.atom (one a) :: (← lexemes isExtended fuel false rest))
      | none => .error .bracket
    else if !isExtended ∧ c = '\\' ∧ cs.head? = some '\x7b' ∧ (bounds ['\\', '\x7d'] cs.tail).isNone then
      .error (if cs.contains '\x7d' then .bound else .brace)
    else
      match lexeme isExtended isFirst (c :: cs) with
      | none => .error .backslash
      | some (l, rest) =>
        let isFirst := l = .opening || l = .bar || (l = .atom atStart && isFirst)
        do pure (l :: (← lexemes isExtended fuel isFirst rest))

/-- What is read of an expression: the lexemes that are left, and how many groups there have been. -/
structure Reading where
  rest : List Lexeme
  groups : Nat

abbrev Parse := StateT Reading (Except Fault)

/-- Repeats what has been read as often as marks behind it say. -/
def repetitions : (fuel : Nat) → Regex → Parse Regex
  | 0, r => pure r
  | fuel + 1, r => do
    match (← get).rest with
    | .repeated least most :: rest =>
      modify fun s => { s with rest }
      if most.any (· < least) then throw .bound
      repetitions fuel (.repeated least most r)
    | _ => pure r

mutual

/-- Sequences with bars between them. -/
def alternatives : (fuel : Nat) → Parse Regex
  | 0 => throw .opening
  | fuel + 1 => do
    let a ← sequence fuel empty
    match (← get).rest with
    | .bar :: rest =>
      modify fun s => { s with rest }
      pure (either a (← alternatives fuel))
    | _ => pure a

/-- What follows on something that has been read. -/
def sequence : (fuel : Nat) → Regex → Parse Regex
  | 0, _ => throw .opening
  | fuel + 1, r => do
    match (← get).rest with
    | [] | .bar :: _ | .closing :: _ => pure r
    | .repeated .. :: rest =>
      modify fun s => { s with rest }
      sequence fuel r
    | .atom a :: rest =>
      if let again n := a then
        if (← get).groups < n then throw .backReference
      modify fun s => { s with rest }
      sequence fuel (both r (← repetitions rest.length a))
    | .opening :: rest =>
      let n := (← get).groups + 1
      set (Reading.mk rest n)
      let inner ← alternatives fuel
      match (← get).rest with
      | .closing :: rest =>
        modify fun s => { s with rest }
        sequence fuel (both r (← repetitions rest.length (group n inner)))
      | _ => throw .opening

end

/-- Reads on after what closes nothing, which stands for itself in the extended notation. -/
def whole (isExtended : Bool) : (fuel : Nat) → Regex → Parse Regex
  | 0, r => pure r
  | fuel + 1, r => do
    let r := both r (← alternatives (2 * (← get).rest.length + 2))
    match (← get).rest with
    | .closing :: rest =>
      if !isExtended then throw .closing
      modify fun s => { s with rest }
      whole isExtended fuel (both r (one (.just ')')))
    | _ => pure r

def parse (isExtended : Bool) (cs : Text) : Except Fault Regex := do
  let ls ← lexemes isExtended cs.length true cs
  (whole isExtended (ls.length + 1) empty).run' ⟨ls, 0⟩

end Regex

end Doctest.Shell
