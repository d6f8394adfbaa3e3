import Doctest.Shell.Source

/-! Rights to a file, and how a change of them is written. -/
namespace Doctest.Shell

/-- What the user, the group and the others may do, each a sum of 4 for reading, 2 for writing and 1 for
executing. -/
structure Mode where
  user : Nat
  group : Nat
  others : Nat
deriving DecidableEq, Repr

namespace Mode

def ofNat (n : Nat) : Mode :=
  ⟨n / 64 % 8, n / 8 % 8, n % 8⟩

def toNat (m : Mode) : Nat :=
  64 * m.user + 8 * m.group + m.others

/-- Whether anybody may execute the file. -/
def isExecutable (m : Mode) : Bool :=
  m.user % 2 = 1 || m.group % 2 = 1 || m.others % 2 = 1

/-- The rights that a letter names: one of them, or all that somebody has. -/
def bits (m : Mode) : Char → Nat
  | 'r' => 4
  | 'w' => 2
  | 'x' => 1
  | 'X' => if m.isExecutable then 1 else 0
  | 'u' => m.user
  | 'g' => m.group
  | 'o' => m.others
  | _ => 0

def isOperator (c : Char) : Bool :=
  c = '+' || c = '-' || c = '='

/-- Grants rights, takes them away, or leaves no others. -/
def adjust (operator : Char) (bits before : Nat) : Nat :=
  if operator = '+' then before ||| bits
  else if operator = '-' then before &&& (7 - bits)
  else bits

/-- Changes the rights of some by operators with letters behind them. -/
def changeFor (who : Text) : (fuel : Nat) → Mode → Text → Option Mode
  | 0, _, _ => none
  | _, m, [] => some m
  | fuel + 1, m, operator :: cs =>
    let letters := cs.takeWhile (!isOperator ·)
    if !isOperator operator || !letters.all (['r', 'w', 'x', 'X', 's', 't', 'u', 'g', 'o'].contains ·) then
      none
    else
      let bits := letters.foldl (fun n c => n ||| m.bits c) 0
      let share (c : Char) (before : Nat) : Nat :=
        if who.isEmpty || who.contains 'a' || who.contains c then adjust operator bits before else before
      changeFor who fuel ⟨share 'u' m.user, share 'g' m.group, share 'o' m.others⟩ (cs.drop letters.length)

/-- Changes rights by clauses with commas between them. -/
def change (m : Mode) (cs : Text) : Option Mode :=
  (Doctest.Text.splitOn ',' cs).foldlM (fun m clause =>
    let who := clause.takeWhile (['u', 'g', 'o', 'a'].contains ·)
    if clause.length = who.length then none
    else changeFor who (clause.length + 1) m (clause.drop who.length)) m

/-- The number that octal digits stand for. -/
def octal? (cs : Text) : Option Nat :=
  if cs.isEmpty || !cs.all fun c => '0' ≤ c && c < '8' then none
  else some (cs.foldl (fun n c => 8 * n + (c.toNat - 0x30)) 0)

/-- Rights with letters, as they are shown. -/
def shown (m : Mode) : Text :=
  let letters (n : Nat) : Text :=
    [('r', 4), ('w', 2), ('x', 1)].filterMap fun (c, bit) => if n &&& bit = bit then some c else none
  Doctest.Text.joinWith ',' ([('u', m.user), ('g', m.group), ('o', m.others)].map fun (who, n) =>
    who :: '=' :: letters n)

end Mode

end Doctest.Shell
