import Doctest.Shell.Token

/-! Reading of shell scripts, one command line at a time. -/
namespace Doctest.Shell

open Read

def unexpected {α : Type} (t : Token) : Read α :=
  refuse (.unexpected t.describe none)

/-- The lines after the current one up to the delimiter, and the line that they start on. They are no
longer part of the script. -/
def hereLines (delimiter : Text) (dropTabs : Bool) : Read (Text × Nat) := do
  let r ← get
  let after := (r.rest.dropWhile (· != '\n')).drop (1 + r.bodies)
  let lines := Doctest.Text.splitOn '\n' after
  let trimmed := if dropTabs then lines.map (·.dropWhile (· = '\t')) else lines
  let count := (trimmed.takeWhile (· != delimiter)).length
  let isClosed := count < lines.length
  let taken := (lines.take (count + 1)).map (·.length + 1)
  set { r with bodies := r.bodies + min (total taken) after.length }
  let body := trimmed.take count
  pure (if isClosed then body.flatMap (· ++ ['\n']) else Doctest.Text.joinWith '\n' body,
    r.lines - after.count '\n')

/-- The delimiter of a here-document as it is written without quotation marks, and whether there were
any. -/
def delimiterOf (w : Word) : Text × Bool :=
  (w.flatMap fun
    | .plain cs | .quoted cs => cs
    | .parameter name _ _ => '$' :: name
    | _ => [],
  w.any fun
    | .quoted _ => true
    | _ => false)

/-- The body of a here-document, in which substitutions are made unless its delimiter is quoted. -/
def hereDocument (inner : Inner) (fd : Nat) (dropTabs : Bool) (delimiter : Word) : Read Redirect := do
  let (delimiter, isQuoted) := delimiterOf delimiter
  let (body, first) ← hereLines delimiter dropTabs
  if isQuoted then pure (.here fd [.quoted body])
  else
    match inner.parts .here (.start (first + body.count '\n') body) with
    | .ok (parts, _) => pure (.here fd parts)
    | .error f => throw f

/-- What follows the operator of a redirection. -/
def redirectTarget (inner : Inner) (fd : Option Nat) (operator : String) : Read Redirect := do
  match ← Token.next inner with
  | .word w =>
    match operator with
    | "<<" => hereDocument inner (fd.getD 0) false w
    | "<<-" => hereDocument inner (fd.getD 0) true w
    | "<&" => pure (.duplicate (fd.getD 0) w)
    | ">&" => pure (.duplicate (fd.getD 1) w)
    | "<" => pure (.file (fd.getD 0) .read w)
    | "<>" => pure (.file (fd.getD 0) .readOrMake w)
    | ">>" => pure (.file (fd.getD 1) .append w)
    | ">|" => pure (.file (fd.getD 1) .overwrite w)
    | _ => pure (.file (fd.getD 1) .writeNew w)
  | t => unexpected t

/-- Redirections after a compound command. -/
def redirects (inner : Inner) : (fuel : Nat) → Read (List Redirect)
  | 0 => pure []
  | fuel + 1 => do
    match ← Token.first inner false with
    | .redirection fd operator =>
      let r ← redirectTarget inner fd operator
      pure (r :: (← redirects inner fuel))
    | t =>
      keep t
      pure []

/-- An assignment is a word that begins with a name and an equals sign. -/
def assignment? : Word → Option (Text × Word)
  | .plain cs :: rest =>
    match Doctest.Text.splitFirst? '=' cs with
    | some (name, value) =>
      if isName name then some (name, if value.isEmpty then rest else .plain value :: rest) else none
    | none => none
  | _ => none

/-- Commands of the shell that no function can be named like. -/
def specialNames : List String :=
  [":", ".", "break", "continue", "eval", "exec", "exit", "export", "local", "readonly", "return", "set",
    "shift", "times", "trap", "unset"]

/-- A simple command as far as it has been read. -/
structure Simple where
  assignments : List (Text × Word)
  words : List Word
  redirects : List Redirect

/-- Either a simple command goes on, or it has ended, or its only word is the name of a function. -/
def simple (inner : Inner) (line : Nat) (definition : Text → Read Command) :
    (fuel : Nat) → Simple → Read Command
  | 0, s => pure (.simple line s.assignments s.words s.redirects)
  | fuel + 1, s => do
    match ← Token.next inner with
    | .word w =>
      match s.words, assignment? w with
      | [], some a => simple inner line definition fuel { s with assignments := s.assignments ++ [a] }
      | words, _ => simple inner line definition fuel { s with words := words ++ [w] }
    | .redirection fd operator =>
      let r ← redirectTarget inner fd operator
      simple inner line definition fuel { s with redirects := s.redirects ++ [r] }
    | .mark "(" =>
      match s with
      | ⟨[], [w], []⟩ => do
        Token.expect inner false ")"
        match Token.plain? w with
        | some name =>
          if isName name ∧ String.ofList name ∉ specialNames then definition name
          else refuse .badFunctionName
        | none => refuse .badFunctionName
      | _ => do
        keep (.mark "(")
        pure (.simple line s.assignments s.words s.redirects)
    | t =>
      keep t
      pure (.simple line s.assignments s.words s.redirects)

def block (inner : Inner) : Read Command := do
  pure (.sequence (← inner.list .some))

/-- The rest of a branch from after a condition's mark. -/
def branch (inner : Inner) : (fuel : Nat) → Read Command
  | 0 => pure (.sequence [])
  | fuel + 1 => do
    let condition ← block inner
    Token.expect inner false "then"
    let yes ← block inner
    match ← Token.first inner false with
    | .mark "elif" => pure (.branch condition yes (← branch inner fuel))
    | .mark "else" =>
      let no ← block inner
      Token.expect inner false "fi"
      pure (.branch condition yes no)
    | t =>
      keep t
      Token.expect inner false "fi"
      pure (.branch condition yes (.sequence []))

/-- The body of a loop. -/
def body (inner : Inner) (onLines : Bool) : Read Command := do
  Token.expect inner onLines "do"
  let c ← block inner
  Token.expect inner false "done"
  pure c

def wordsOf (inner : Inner) : (fuel : Nat) → Read (List Word)
  | 0 => pure []
  | fuel + 1 => do
    match ← Token.next inner with
    | .word w => pure (w :: (← wordsOf inner fuel))
    | t =>
      keep t
      pure []

def each (inner : Inner) : Read Command := do
  let place ← line
  let name ← match ← Token.next inner with
    | .word w =>
      match Token.plain? w with
      | some name => if isName name then pure name else refuse .badLoopVariable
      | none => refuse .badLoopVariable
    | _ => refuse .badLoopVariable
  match ← Token.first inner true with
  | .mark "in" =>
    let ws ← wordsOf inner ((← ahead).length + 1)
    match ← Token.next inner with
    | .newline | .mark ";" => pure (.each place name (some ws) (← body inner true))
    | t => unexpected t
  | .mark ";" => pure (.each place name none (← body inner true))
  | t =>
    keep t
    pure (.each place name none (← body inner true))

/-- The patterns of an arm up to the closing parenthesis, of which the first has been read. -/
def patterns (inner : Inner) : (fuel : Nat) → Token → Read (List Word)
  | 0, _ => pure []
  | fuel + 1, t => do
    let w : Word := match t with
      | .word w => w
      | .mark s => [.plain s.toList]
      | _ => []
    match ← Token.next inner with
    | .mark "|" => pure (w :: (← patterns inner fuel (← Token.next inner)))
    | .mark ")" => pure [w]
    | t => refuse (.unexpected t.describe (Token.mark ")").describe)

/-- The arms of a selection up to its end. -/
def arms (inner : Inner) : (fuel : Nat) → Read (List (List Word × Command))
  | 0 => pure []
  | fuel + 1 => do
    match ← Token.first inner true with
    | .mark "esac" => pure []
    | t => do
      let t ← match t with
        | .mark "(" => Token.next inner
        | t => pure t
      let ps ← patterns inner ((← ahead).length + 1) t
      let c : Command := .sequence (← inner.list .any)
      match ← Token.first inner true with
      | .mark "esac" => pure [(ps, c)]
      | .mark ";;" => pure ((ps, c) :: (← arms inner fuel))
      | t => refuse (.unexpected t.describe (Token.mark ";;").describe)

def select (inner : Inner) : Read Command := do
  let place ← line
  match ← Token.next inner with
  | .word w =>
    Token.expect inner true "in"
    pure (.select place w (← arms inner ((← ahead).length + 1)))
  | t => refuse (.unexpected t.describe "word")

/-- A command that its first token, which has been read, makes a compound one. -/
def compound? (inner : Inner) (t : Token) : Option (Read Command) :=
  let closed (c : Read Command) (spelling : String) : Read Command := do
    let c ← c
    Token.expect inner false spelling
    pure c
  match t with
  | .mark "if" => some do branch inner ((← ahead).length + 1)
  | .mark "while" => some do
    let condition ← block inner
    pure (.loop false condition (← body inner false))
  | .mark "until" => some do
    let condition ← block inner
    pure (.loop true condition (← body inner false))
  | .mark "for" => some (each inner)
  | .mark "case" => some (select inner)
  | .mark "(" => some (closed (do pure (.subshell (← line) (← block inner) [])) ")")
  | .mark "\x7b" => some (closed (block inner) "\x7d")
  | _ => none

/-- A command, and at most `depth` definitions that it is the body of. -/
def command (inner : Inner) : (depth : Nat) → (onLines : Bool) → Read Command
  | 0, _ => pure (.sequence [])
  | depth + 1, onLines => do
    let t ← Token.first inner onLines
    let place ← line
    match compound? inner t, t with
    | some c, _ =>
      let c ← c
      let rs ← redirects inner ((← ahead).length + 1)
      pure (match c, rs with
        | .subshell line c _, rs => .subshell line c rs
        | c, [] => c
        | c, rs => .redirected place c rs)
    | none, .word _ | none, .redirection .. =>
      keep t
      simple inner place (fun name => do pure (.define name (← command inner depth true)))
        ((← ahead).length + 2) ⟨[], [], []⟩
    | none, t => unexpected t

def oneCommand (inner : Inner) (onLines : Bool) : Read Command := do
  command inner ((← ahead).length + 1) onLines

/-- The stages of a pipe. -/
def stages (inner : Inner) : (fuel : Nat) → (onLines : Bool) → Read (List Command)
  | 0, _ => pure []
  | fuel + 1, onLines => do
    let c ← oneCommand inner onLines
    match ← Token.next inner with
    | .mark "|" => pure (c :: (← stages inner fuel true))
    | t =>
      keep t
      pure [c]

def pipeline (inner : Inner) (onLines : Bool) : Read Command := do
  match ← Token.first inner onLines with
  | .mark "!" => pure (.pipe true (← stages inner ((← ahead).length + 1) false))
  | t =>
    keep t
    match ← stages inner ((← ahead).length + 2) false with
    | [c] => pure c
    | cs => pure (.pipe false cs)

/-- The pipes that follow another one and depend on its success or failure. -/
def andOrFrom (inner : Inner) : (fuel : Nat) → Command → Read Command
  | 0, c => pure c
  | fuel + 1, c => do
    match ← Token.next inner with
    | .mark "&&" => andOrFrom inner fuel (.both c (← pipeline inner true))
    | .mark "||" => andOrFrom inner fuel (.either c (← pipeline inner true))
    | t =>
      keep t
      pure c

def andOr (inner : Inner) : Read Command := do
  let c ← pipeline inner false
  andOrFrom inner ((← ahead).length + 1) c

/-- Whether a list of commands can end before the token. -/
def endsList : Token → Bool
  | .mark s =>
    [")", ";;", "do", "done", "elif", "else", "esac", "fi", "then", "\x7d"].contains s
  | _ => false

/-- Commands up to the end of their list. -/
def commands (inner : Inner) (kind : ListKind) : (fuel : Nat) → (isFirst : Bool) → Read (List Command)
  | 0, _ => pure []
  | fuel + 1, isFirst => do
    match ← Token.first inner (kind != .line) with
    | .newline => pure []
    | .endOfFile =>
      keep .endOfFile
      pure []
    | t =>
      keep t
      if endsList t && (kind = .any || (kind = .some && !isFirst)) then pure []
      else
        let c ← andOr inner
        match ← Token.next inner with
        | .mark "&" => pure (.background c :: (← commands inner kind fuel false))
        | .mark ";" => pure (c :: (← commands inner kind fuel false))
        | .newline =>
          keep .newline
          pure (c :: (← commands inner kind fuel false))
        | .endOfFile =>
          keep .endOfFile
          pure [c]
        | t =>
          if kind = .line then unexpected t
          keep t
          pure [c]

mutual

/-- Commands, in which others nest at most `depth` deep. -/
def list : (depth : Nat) → ListKind → Read (List Command)
  | 0, _ => refuse .unclosedQuotes
  | depth + 1, kind => do
    commands ⟨list depth, partsAt depth⟩ kind ((← ahead).length + 2) true

def partsAt : (depth : Nat) → Quoting → Read Word
  | 0, _ => refuse .unclosedQuotes
  | depth + 1, q => do
    Part.all ⟨list depth, partsAt depth⟩ ((← ahead).length + 1) q

end

/-- Compound commands and substitutions nest less deep than this. -/
def maxNesting : Nat := 100

/-- The commands on the next line of a script with so many lines, and what is after them. -/
def commandLine (lines : Nat) (script : Text) : Except (ScriptFault × Nat) (Command × Text) := do
  let (cs, r) ← list maxNesting .line (.start lines script)
  pure (.sequence cs, r.rest)

end Doctest.Shell
