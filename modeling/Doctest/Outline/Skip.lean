import Doctest.Token.Basic

/-! The parts of an item that are passed over: groups in brackets, signatures, initializers, attributes
and generics. Each function gives the tokens that are left, and never more than it was given. -/
namespace Doctest.Outline

def kindOf : List Token → Token.Kind
  | [] => .eof
  | t :: _ => t.kind

/-- Passes over a group in brackets, of which `depth` are open. -/
def skipGroup (depth : Nat) : List Token → List Token
  | [] => []
  | t :: ts =>
    match t.kind with
    | .opening _ => skipGroup (depth + 1) ts
    | .closing _ => if depth ≤ 1 then ts else skipGroup (depth - 1) ts
    | .eof => t :: ts
    | _ => skipGroup depth ts

/-- Passes over a signature and the body in braces or the semicolon that ends it. -/
def skipItem (depth : Nat) : List Token → List Token
  | [] => []
  | t :: ts =>
    match t.kind, depth with
    | .opening .brace, 0 => skipGroup 1 ts
    | .symbol .semi, 0 => ts
    | .closing .brace, 0 => t :: ts
    | .eof, _ => t :: ts
    | .opening _, depth => skipItem (depth + 1) ts
    | .closing _, depth => skipItem (depth - 1) ts
    | _, depth => skipItem depth ts

/-- Passes over everything up to the semicolon that ends an item. -/
def skipToSemi (depth : Nat) : List Token → List Token
  | [] => []
  | t :: ts =>
    match t.kind, depth with
    | .symbol .semi, 0 => ts
    | .closing .brace, 0 => t :: ts
    | .eof, _ => t :: ts
    | .opening _, depth => skipToSemi (depth + 1) ts
    | .closing _, depth => skipToSemi (depth - 1) ts
    | _, depth => skipToSemi depth ts

/-- Passes over the mark and the group of an attribute, when its hash sign has been read. -/
def skipAttribute (ts : List Token) : List Token :=
  let ts := if kindOf ts = .symbol .bang then ts.drop 1 else ts
  if kindOf ts = .opening .square then skipGroup 0 ts else ts

def skipAngles (depth : Nat) : List Token → List Token
  | [] => []
  | t :: ts =>
    match t.kind with
    | .symbol .lt => skipAngles (depth + 1) ts
    | .symbol .gt => if depth ≤ 1 then ts else skipAngles (depth - 1) ts
    | .opening .brace | .symbol .semi | .eof => t :: ts
    | _ => skipAngles depth ts

/-- Passes over generics in angle brackets, if they stand here. -/
def skipGenerics (ts : List Token) : List Token :=
  if kindOf ts = .symbol .lt then skipAngles 0 ts else ts

/-- The tokens of an impl header, up to its body or where clause, and those after it. -/
def splitHeader (depth : Nat) : List Token → List Token × List Token
  | [] => ([], [])
  | t :: ts =>
    let take (depth : Nat) : List Token × List Token :=
      let (header, rest) := splitHeader depth ts
      (t :: header, rest)
    match t.kind, depth with
    | .opening .brace, 0 | .keyword .whereKw, 0 | .symbol .semi, 0 | .eof, _ => ([], t :: ts)
    | .opening _, depth => take (depth + 1)
    | .closing _, depth => take (depth - 1)
    | _, depth => take depth

/-- Passes over the rest of a trait or impl header. The flag says whether a body in braces follows,
whose brace is then passed over too. -/
def findBody (depth : Nat) : List Token → Bool × List Token
  | [] => (false, [])
  | t :: ts =>
    match t.kind, depth with
    | .opening .brace, 0 => (true, ts)
    | .symbol .semi, 0 => (false, ts)
    | .closing .brace, 0 => (false, t :: ts)
    | .eof, _ => (false, t :: ts)
    | .opening _, depth => findBody (depth + 1) ts
    | .closing _, depth => findBody (depth - 1) ts
    | _, depth => findBody depth ts

theorem length_skipGroup_le (depth : Nat) (ts : List Token) :
    (skipGroup depth ts).length ≤ ts.length := by
  fun_induction skipGroup depth ts <;> simp_all <;> omega

theorem length_skipItem_le (depth : Nat) (ts : List Token) :
    (skipItem depth ts).length ≤ ts.length := by
  fun_induction skipItem depth ts <;> simp_all
  case case2 t ts _ => have := length_skipGroup_le 1 ts; omega
  all_goals omega

theorem length_skipToSemi_le (depth : Nat) (ts : List Token) :
    (skipToSemi depth ts).length ≤ ts.length := by
  fun_induction skipToSemi depth ts <;> simp_all <;> omega

theorem length_skipAttribute_le (ts : List Token) : (skipAttribute ts).length ≤ ts.length := by
  simp only [skipAttribute]
  split <;> split
  · exact Nat.le_trans (length_skipGroup_le _ _) (by simp)
  · simp
  · exact length_skipGroup_le _ _
  · simp

theorem length_skipAngles_le (depth : Nat) (ts : List Token) :
    (skipAngles depth ts).length ≤ ts.length := by
  fun_induction skipAngles depth ts <;> simp_all <;> omega

theorem length_skipGenerics_le (ts : List Token) : (skipGenerics ts).length ≤ ts.length := by
  simp only [skipGenerics]
  split
  · exact length_skipAngles_le 0 ts
  · simp

/-- The header and the rest put together are the tokens given. -/
theorem splitHeader_append (depth : Nat) (ts : List Token) :
    (splitHeader depth ts).1 ++ (splitHeader depth ts).2 = ts := by
  induction ts generalizing depth with
  | nil => rfl
  | cons t ts ih =>
    simp only [splitHeader]
    split <;> simp [ih]

theorem length_findBody_le (depth : Nat) (ts : List Token) :
    (findBody depth ts).2.length ≤ ts.length := by
  fun_induction findBody depth ts <;> simp_all <;> omega

end Doctest.Outline
