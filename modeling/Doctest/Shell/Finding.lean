import Doctest.Shell.Listing
import Doctest.Shell.Pattern

/-! Searching directories for files that satisfy conditions. -/
namespace Doctest.Shell.Finding

open Listing

/-- A condition on a file, by its path and its distance from where the search began. -/
abbrev Test := Machine → (path : Text) → Kind → Bool

/-- What a search is for, and how deep it goes. -/
structure Search where
  test : Test
  least : Nat
  most : Nat
  isNull : Bool
  isRemoved : Bool

namespace Search

def nameIs (fold : Text → Text) (pattern : Text) : Test := fun _ path _ =>
  (Pattern.ofText (fold pattern)).accepts (fold (FileWork.baseName path []))

def isEmptyAt : Test := fun m _ k =>
  match k with
  | .directory names => FileWork.isEmptyDirectory m.files names
  | .file n _ => n = 0
  | _ => false

/-- A condition of one word and one argument. -/
def valued (word value : Text) : Option (Except Text Test) :=
  match String.ofList word with
  | "-name" => some (.ok (nameIs id value))
  | "-iname" => some (.ok (nameIs (·.map Char.toLower) value))
  | "-path" => some (.ok fun _ path _ => (Pattern.ofText value).accepts path)
  | "-type" => some (match value with
    | ['f'] => .ok fun _ _ k => match k with
      | .file .. => true
      | _ => false
    | ['d'] => .ok fun _ _ k => k.isDirectory
    | ['p'] => .ok fun _ _ k => match k with
      | .pipe => true
      | _ => false
    | ['c'] => .ok fun _ _ k => match k with
      | .device => true
      | _ => false
    | ['l'] | ['b'] | ['s'] => .ok fun _ _ _ => false
    | _ => .error (textOf "Unknown argument to -type: " ++ value))
  | _ => none

/-- Reads conditions, of which all that stand side by side must hold. -/
def parse : List Text → (isNegated : Bool) → Search → Except Text Search
  | [], _, s => .ok s
  | word :: rest, isNegated, s =>
    let also (t : Test) : Search :=
      let test : Test := fun m path k => s.test m path k && (t m path k != isNegated)
      { s with test }
    match String.ofList word, rest with
    | "!", rest | "-not", rest => parse rest (!isNegated) s
    | "-a", rest | "-and", rest | "-print", rest => parse rest false s
    | "-print0", rest => parse rest false { s with isNull := true }
    | "-delete", rest => parse rest false { s with isRemoved := true }
    | "-empty", rest => parse rest false (also isEmptyAt)
    | "-executable", rest => parse rest false (also fun _ _ k => match k with
        | .file _ isExecutable => isExecutable
        | k => k.isDirectory)
    | "-maxdepth", n :: rest => parse rest false { s with most := (natOf? n).getD s.most }
    | "-mindepth", n :: rest => parse rest false { s with least := (natOf? n).getD s.least }
    | "-o", rest | "-or", rest => do
      let other ← parse rest false { s with test := fun _ _ _ => true }
      pure { other with test := fun m path k => s.test m path k || other.test m path k }
    | _, value :: rest' =>
      match valued word value with
      | some (.ok t) => parse rest' false (also t)
      | some (.error w) => .error w
      | none => .error (textOf "unknown predicate \x60" ++ word ++ ['\''])
    | _, [] =>
      if (valued word []).isSome || ["-maxdepth", "-mindepth"].contains (String.ofList word) then
        .error (textOf "missing argument to \x60" ++ word ++ ['\''])
      else .error (textOf "unknown predicate \x60" ++ word ++ ['\''])

/-- The paths from one on, each with its depth. -/
def pathsFrom (m : Machine) : (fuel : Nat) → (depth : Nat) → Text → List (Nat × Text × Kind)
  | 0, _, _ => []
  | fuel + 1, depth, path =>
    match kindAt m path with
    | .error _ => []
    | .ok k =>
      (depth, path, k) :: match k with
        | .directory names =>
          (namesIn m names true).flatMap fun name => pathsFrom m fuel (depth + 1) (below path name)
        | _ => []

end Search

/-- Whether an argument begins the conditions of a search. -/
def isCondition (arg : Text) : Bool :=
  arg.head? = some '-' || arg = ['!'] || arg = ['(']

/-- The paths below some directories that satisfy conditions. -/
def find (c : Call) : Option Reply :=
  let operands := c.args.takeWhile (!isCondition ·)
  let all : Search := ⟨fun _ _ _ => true, 0, c.files.height + 1, false, false⟩
  match Search.parse (c.args.drop operands.length) false all with
  | .error w => some (c.fail w 1)
  | .ok s =>
    let operands := if operands.isEmpty then [['.']] else operands
    let missing := operands.filterMap fun o => match kindAt c.machine o with
      | .error e => some (Call.about (Call.quoted o) e.words)
      | .ok _ => none
    let found := (operands.flatMap (Search.pathsFrom c.machine (c.files.height + 1) 0)).filter
      fun (depth, path, k) => s.least ≤ depth && depth ≤ s.most && s.test c.machine path k
    let paths := found.map (·.2.1)
    let files :=
      if s.isRemoved then
        paths.foldr (fun path files =>
          match files.resolve (pathOf path) with
          | .ok names => files.remove names
          | .error _ => files) c.files
      else c.files
    let ends : Text := if s.isNull then ['\x00'] else ['\n']
    let out := if s.isRemoved then [] else paths.flatMap (· ++ ends)
    some { c.reply out (if missing.isEmpty then 0 else 1) with complaints := missing, files }

end Doctest.Shell.Finding
