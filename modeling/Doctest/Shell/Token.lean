import Doctest.Shell.Command
import Doctest.Text.Split

/-! Reading a script token by token: words with their substitutions, operators, and reserved words. -/
namespace Doctest.Shell

/-- What stands by itself in a script. Operators and reserved words are marks. -/
inductive Token
  | endOfFile
  | newline
  | mark (spelling : String)
  | redirection (fd : Option Nat) (operator : String)
  | word (w : Word)

/-- How a message names a token. -/
def Token.describe : Token → String
  | endOfFile => "end of file"
  | newline => "newline"
  | mark spelling => "\"" ++ spelling ++ "\""
  | redirection .. => "redirection"
  | word _ => "word"

/-- Why a script cannot be read further. -/
inductive ScriptFault
  | unexpected (found : String) (expected : Option String)
  | unclosedQuotes
  | unclosedBraces
  | unclosedArithmetic
  | unclosedBackquotes
  | badLoopVariable
  | badFunctionName
  | badDescriptor
deriving DecidableEq, Repr

def ScriptFault.message : ScriptFault → String
  | unexpected found none => found ++ " unexpected"
  | unexpected found (some expected) => found ++ " unexpected (expecting " ++ expected ++ ")"
  | unclosedQuotes => "Unterminated quoted string"
  | unclosedBraces => "Missing '\x7d'"
  | unclosedArithmetic => "Missing '))'"
  | unclosedBackquotes => "EOF in backquote substitution"
  | badLoopVariable => "Bad for loop variable"
  | badFunctionName => "Bad function name"
  | badDescriptor => "Bad fd number"

/-- A script from where it is being read. -/
structure Reader where
  rest : Text
  /-- The number of lines up to the end of the script. -/
  lines : Nat
  /-- A token that was read too early. -/
  kept : Option Token
  /-- How much of the text after the current line are the bodies of its here-documents. -/
  bodies : Nat

namespace Reader

def start (lines : Nat) (cs : Text) : Reader :=
  ⟨cs, lines, none, 0⟩

/-- A text by itself, whose first line has the number one. -/
def ofText (cs : Text) : Reader :=
  start (cs.count '\n' + 1) cs

def line (r : Reader) : Nat :=
  r.lines - r.rest.count '\n'

end Reader

/-- Reads something, or finds a fault on a line. -/
abbrev Read := StateT Reader (Except (ScriptFault × Nat))

/-- What kind of text a word is read in. -/
inductive Quoting
  | bare
  | double
  /-- The word in the braces of a parameter, which may stand in double quotation marks. -/
  | braces (isQuoted : Bool)
  | here
  /-- An expression with so many open parentheses. -/
  | arithmetic (depth : Nat)
deriving DecidableEq, Repr

/-- How commands are read, where the list has an end of its kind. -/
inductive ListKind
  /-- Commands on one line. -/
  | line
  /-- At least one command before a reserved word. -/
  | some
  | any
deriving DecidableEq, Repr

/-- How the text inside substitutions and compound commands is read. -/
structure Inner where
  list : ListKind → Read (List Command)
  parts : Quoting → Read Word

namespace Read

variable {α : Type}

def refuse (f : ScriptFault) : Read α := fun r =>
  .error (f, r.line)

def line : Read Nat := do
  pure (← get).line

def ahead : Read Text := do
  pure (← get).rest

def drop (n : Nat) : Read Unit :=
  modify fun r => { r with rest := r.rest.drop n }

/-- Passes over a character. If a line ends with it, that is not counted. -/
def swallow : Read Unit :=
  modify fun r =>
    { r with rest := r.rest.drop 1, lines := if r.rest.head? = some '\n' then r.lines - 1 else r.lines }

/-- Goes on to the next line, past the bodies of here-documents. -/
def endLine : Read Unit :=
  modify fun r => { r with rest := r.rest.drop (1 + r.bodies), bodies := 0 }

/-- The longest run of characters that satisfy `p`. -/
def takeWhile (p : Char → Bool) : Read Text := do
  let cs := (← ahead).takeWhile p
  drop cs.length
  pure cs

/-- Leaves a token to be read again. -/
def keep (t : Token) : Read Unit :=
  modify fun r => { r with kept := some t }

end Read

open Read

/-- Characters that end a word. -/
def isMeta (c : Char) : Bool :=
  c ∈ [' ', '\t', '\n', ';', '&', '|', '<', '>', '(', ')']

def isNameStart (c : Char) : Bool :=
  c.isAlpha || c = '_'

def isNameChar (c : Char) : Bool :=
  c.isAlphanum || c = '_'

def isName : Text → Bool
  | [] => false
  | c :: cs => isNameStart c && cs.all isNameChar

namespace Quoting

def isQuoted : Quoting → Bool
  | bare => false
  | braces quoted => quoted
  | double | here | arithmetic _ => true

def isEnd : Quoting → Text → Bool
  | bare, c :: _ => isMeta c
  | double, c :: _ => c = '"'
  | braces _, c :: _ => c = '}'
  | arithmetic 0, ')' :: ')' :: _ => true
  | _, _ => false

/-- What is wrong where the script ends before the text. -/
def faultAtEnd : Quoting → Option ScriptFault
  | bare | here => none
  | double | braces true => some .unclosedQuotes
  | braces false => some .unclosedBraces
  | arithmetic _ => some .unclosedArithmetic

/-- Characters that begin a quotation or a substitution, or are counted. -/
def isActive : Quoting → Char → Bool
  | bare, c | braces false, c => c ∈ ['"', '\'', '\\', '$', '`']
  | braces true, c => c ∈ ['"', '\\', '$', '`']
  | double, c | here, c => c ∈ ['\\', '$', '`']
  | arithmetic _, c => c ∈ ['\\', '$', '`', '(', ')']

/-- Characters whose meaning a backslash takes away. -/
def isEscapable : Quoting → Char → Bool
  | bare, _ | braces false, _ => true
  | braces true, c => c ∈ ['"', '\\', '$', '`', '}']
  | double, c | arithmetic _, c => c ∈ ['"', '\\', '$', '`']
  | here, c => c ∈ ['\\', '$', '`']

/-- Counts a parenthesis. -/
def after (c : Char) : Quoting → Quoting
  | arithmetic depth =>
    arithmetic (if c = '(' then depth + 1 else if c = ')' then depth - 1 else depth)
  | q => q

end Quoting

namespace Part

/-- A backslash and what it does to the next character. -/
def escape (q : Quoting) : Read Word := do
  drop 1
  match ← ahead with
  | [] => pure [.quoted ['\\']]
  | '\n' :: _ =>
    drop 1
    pure []
  | c :: _ =>
    drop 1
    pure [.quoted (if q.isEscapable c then [c] else ['\\', c])]

def singleQuoted : Read Word := do
  drop 1
  let body ← takeWhile (· != '\'')
  if (← ahead).isEmpty then refuse .unclosedQuotes
  drop 1
  pure [.quoted body]

def doubleQuoted (inner : Inner) : Read Word := do
  drop 1
  let parts ← inner.parts .double
  drop 1
  pure (.quoted [] :: parts)

def unquoteBackquote (isQuoted : Bool) : Text → Text
  | '\\' :: '\n' :: rest => unquoteBackquote isQuoted rest
  | '\\' :: c :: rest =>
    if c ∈ ['`', '\\', '$'] ∨ (isQuoted ∧ c = '"') then c :: unquoteBackquote isQuoted rest
    else '\\' :: c :: unquoteBackquote isQuoted rest
  | c :: rest => c :: unquoteBackquote isQuoted rest
  | [] => []

/-- The text up to a backquote that no backslash stands before. -/
def untilBackquote : Text → Option Text
  | [] => none
  | '`' :: _ => some []
  | '\\' :: c :: rest => (untilBackquote rest).map fun t => '\\' :: c :: t
  | c :: rest => (untilBackquote rest).map (c :: ·)

/-- Commands between backquotes. -/
def backquoted (inner : Inner) (isQuoted : Bool) : Read Part := do
  drop 1
  match untilBackquote (← ahead) with
  | none =>
    modify fun r => { r with rest := [] }
    refuse .unclosedBackquotes
  | some body =>
    drop (body.length + 1)
    match inner.list .any (.ofText (unquoteBackquote isQuoted body)) with
    | .ok (cs, _) => pure (.output (.sequence cs) isQuoted)
    | .error f => throw f

/-- What follows the name of a parameter in braces, if it is a use of one. -/
def use? (inner : Inner) (isQuoted : Bool) : Read (Option Use) := do
  let word (n : Nat) : Read Word := do
    drop n
    inner.parts (.braces isQuoted)
  let pattern (n : Nat) : Read Word := do
    drop n
    inner.parts (.braces false)
  match ← ahead with
  | '}' :: _ => pure (some .value)
  | '#' :: '#' :: _ => pure (some (.dropStart true (← pattern 2)))
  | '#' :: _ => pure (some (.dropStart false (← pattern 1)))
  | '%' :: '%' :: _ => pure (some (.dropEnd true (← pattern 2)))
  | '%' :: _ => pure (some (.dropEnd false (← pattern 1)))
  | ':' :: '-' :: _ => pure (some (.orElse true (← word 2)))
  | ':' :: '=' :: _ => pure (some (.orAssign true (← word 2)))
  | ':' :: '?' :: _ => pure (some (.orFail true (← word 2)))
  | ':' :: '+' :: _ => pure (some (.ifSet true (← word 2)))
  | '-' :: _ => pure (some (.orElse false (← word 1)))
  | '=' :: _ => pure (some (.orAssign false (← word 1)))
  | '?' :: _ => pure (some (.orFail false (← word 1)))
  | '+' :: _ => pure (some (.ifSet false (← word 1)))
  | _ => pure none

def isSpecial (c : Char) : Bool :=
  c ∈ ['#', '*', '@', '?', '$', '!', '-']

/-- The name of a parameter at the front of a text. A number in braces may have many digits. -/
def parameterName (isBraced : Bool) : Text → Text
  | [] => []
  | c :: cs =>
    if isNameStart c then c :: cs.takeWhile isNameChar
    else if c.isDigit then if isBraced then c :: cs.takeWhile Char.isDigit else [c]
    else if isSpecial c then [c]
    else []

/-- A parameter in braces, or its length. -/
def braced (inner : Inner) (isQuoted : Bool) : Read Part := do
  drop 1
  let cs ← ahead
  let counted := parameterName true (cs.drop 1)
  let part? ←
    if cs.head? = some '#' ∧ counted ≠ [] ∧ (cs.drop (1 + counted.length)).head? = some '}' then do
      drop (1 + counted.length)
      pure (some (.parameter counted .length isQuoted))
    else do
      let name := parameterName true cs
      drop name.length
      if name.isEmpty then pure none
      else do
        let use ← use? inner isQuoted
        pure (use.map (.parameter name · isQuoted))
  match part? with
  | some part => if (← ahead).head? = some '}' then drop 1 else refuse .unclosedBraces
                 pure part
  | none =>
    if cs.head? ≠ some '}' then
      if (parameterName true cs).length > 0 ∧ (← ahead).head? = some ':' then drop 1
      swallow
    let _ ← inner.parts (.braces isQuoted)
    if (← ahead).head? = some '}' then drop 1 else refuse .unclosedBraces
    pure .nonsense

end Part

namespace Token

/-- Blanks, lines that are continued, and a comment. -/
def skipBlanks : (fuel : Nat) → Read Unit
  | 0 => pure ()
  | fuel + 1 => do
    match ← ahead with
    | ' ' :: _ | '\t' :: _ =>
      drop 1
      skipBlanks fuel
    | '\\' :: '\n' :: _ =>
      drop 2
      skipBlanks fuel
    | '#' :: _ =>
      let _ ← takeWhile (· != '\n')
    | _ => pure ()

/-- Operators, a longer one before those that it begins with. -/
def operators : List String :=
  ["&&", "&", "||", "|", ";;", ";", "(", ")"]

def redirections : List String :=
  ["<<-", "<<", "<&", "<>", "<", ">>", ">&", ">|", ">"]

def spelled? (spellings : List String) (cs : Text) : Option String :=
  spellings.find? fun s => s.toList.isPrefixOf cs

/-- The next token. A digit right before a redirection belongs to it. -/
def next (inner : Inner) : Read Token := do
  let r ← get
  match r.kept with
  | some t =>
    set { r with kept := none }
    pure t
  | none =>
    skipBlanks (r.rest.length + 1)
    let cs ← ahead
    let (fd, body) := match cs with
      | d :: rest =>
        if d.isDigit ∧ (spelled? redirections rest).isSome then
          (some (d.toNat - 0x30), rest)
        else (none, cs)
      | [] => (none, [])
    match cs, spelled? operators cs, spelled? redirections body with
    | [], _, _ => pure .endOfFile
    | '\n' :: _, _, _ =>
      endLine
      pure .newline
    | _, some s, _ =>
      drop s.length
      pure (.mark s)
    | _, none, some s =>
      drop (cs.length - body.length + s.length)
      pure (.redirection fd s)
    | _, none, none => pure (.word (← inner.parts .bare))

def reserved : List String :=
  ["!", "case", "do", "done", "elif", "else", "esac", "fi", "for", "if", "in", "then", "until", "while",
    "\x7b", "\x7d"]

/-- The text of a word that is not quoted in any place. -/
def plain? (w : Word) : Option Text :=
  (w.mapM fun | Part.plain cs => some cs | _ => none).map List.flatten

def isNewline : Token → Bool
  | newline => true
  | _ => false

/-- The next token that is no newline. -/
def nextOnLines (inner : Inner) : (fuel : Nat) → Read Token
  | 0 => next inner
  | fuel + 1 => do
    let t ← next inner
    if t.isNewline then nextOnLines inner fuel else pure t

/-- Makes a mark of a word that is reserved. -/
def reserve : Token → Token
  | word w =>
    match (plain? w).bind fun cs => reserved.find? fun s => s.toList == cs with
    | some s => mark s
    | none => word w
  | t => t

/-- A token where a command may begin. -/
def first (inner : Inner) (onLines : Bool) : Read Token := do
  let t ← if onLines then nextOnLines inner ((← ahead).length + 1) else next inner
  pure t.reserve

/-- Reads a mark, or complains about what is in its place. -/
def expect (inner : Inner) (onLines : Bool) (spelling : String) : Read Unit := do
  match ← first inner onLines with
  | .mark s =>
    if s = spelling then pure ()
    else refuse (.unexpected (mark s).describe (mark spelling).describe)
  | t => refuse (.unexpected t.describe (mark spelling).describe)

end Token

namespace Part

def commandOutput (inner : Inner) (isQuoted : Bool) : Read Part := do
  drop 1
  let cs ← inner.list .any
  Token.expect inner false ")"
  pure (.output (.sequence cs) isQuoted)

/-- A substitution, or a dollar sign that begins none. -/
def dollar (inner : Inner) (isQuoted : Bool) : Read Part := do
  drop 1
  let cs ← ahead
  match cs with
  | '(' :: '(' :: _ =>
    drop 2
    let expression ← inner.parts (.arithmetic 0)
    drop 2
    pure (.arithmetic expression isQuoted)
  | '(' :: _ => commandOutput inner isQuoted
  | '{' :: _ => braced inner isQuoted
  | _ =>
    let name := parameterName false cs
    drop name.length
    pure (if name.isEmpty then .quoted ['$'] else .parameter name .value isQuoted)

/-- The piece that `c` begins. -/
def piece (inner : Inner) (q : Quoting) (c : Char) : Read Word := do
  let wrap (cs : Text) : Word := [if q.isQuoted then .quoted cs else .plain cs]
  if !q.isActive c then pure (wrap (← takeWhile fun c => !q.isActive c && !q.isEnd [c]))
  else
    match c with
    | '\\' => escape q
    | '\'' => singleQuoted
    | '"' => doubleQuoted inner
    | '$' => pure [← dollar inner q.isQuoted]
    | '`' => pure [← backquoted inner q.isQuoted]
    | c =>
      drop 1
      pure (wrap [c])

/-- The pieces up to the end of a text. -/
def all (inner : Inner) : (fuel : Nat) → Quoting → Read Word
  | 0, _ => pure []
  | fuel + 1, q => do
    let cs ← ahead
    match cs, q.isEnd cs, q.faultAtEnd with
    | _, true, _ | [], _, none => pure []
    | [], _, some f => refuse f
    | c :: _, _, _ =>
      let ps ← piece inner q c
      pure (ps ++ (← all inner fuel (q.after c)))

end Part

end Doctest.Shell
