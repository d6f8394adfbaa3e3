import Doctest.Token.DocText
import Doctest.Token.Lexeme

/-! Tokens and errors of a source text. Blanks and plain comments give neither, and reading stops at
the limit of errors. -/
namespace Doctest

inductive LexError.Cause
  | unclosedComment
  | unclosedRawString
  | unexpected (c : Char)
deriving DecidableEq, Repr

structure LexError where
  cause : LexError.Cause
  span : Span
deriving DecidableEq, Repr

namespace LexError

def message (e : LexError) : String :=
  match e.cause with
  | .unclosedComment => "Unterminated block comment"
  | .unclosedRawString => "Unterminated raw string"
  | .unexpected c => "Unexpected character '" ++ String.singleton c ++ "'"

def hint? (e : LexError) : Option String :=
  match e.cause with
  | .unclosedComment => some "Add a closing '*/'"
  | .unclosedRawString => some "Close the string with '\"' and the same number of '#'"
  | .unexpected _ => none

end LexError

/-- Tokens and errors are each in the order of the source. -/
structure Lexed where
  tokens : List Token
  errors : List LexError
deriving DecidableEq, Repr

namespace Lexed

/-- What a lexeme contributes: nothing, an error or a token. -/
def meaning (x : Lexeme) : Option (Except LexError.Cause Token.Kind) :=
  match x.cls with
  | .blank => none
  | .lineComment => (DocText.ofLineComment? x.text).map .ok
  | .blockComment => (DocText.ofBlockComment? x.text).map .ok
  | .unclosedComment => some (.error .unclosedComment)
  | .literal => some (.ok .literal)
  | .unclosedString => some (.error (.unexpected '"'))
  | .unclosedRawString => some (.error .unclosedRawString)
  | .lifetime => some (.ok .lifetime)
  | .word =>
    let word := String.ofList x.text
    some (.ok ((Keyword.ofString? word).elim (.name word) .keyword))
  | .name => some (.ok (.name (String.ofList x.text)))
  | .rawName => some (.ok (.name (String.ofList (x.text.drop 2))))
  | .opening b => some (.ok (.opening b))
  | .closing b => some (.ok (.closing b))
  | .symbol s => some (.ok (.symbol s))
  | .punct => some (.ok (.punct (x.text.headD '?')))
  | .stray => some (.error (.unexpected (x.text.headD '?')))

/-- Reads lexemes that begin at `offset` until `errorsLeft` errors have been met. -/
def ofLexemes : (errorsLeft offset : Nat) → List Lexeme → Lexed
  | 0, _, _ => ⟨[], []⟩
  | _ + 1, _, [] => ⟨[], []⟩
  | errorsLeft + 1, offset, x :: xs =>
    let stop := offset + Text.byteLength x.text
    match meaning x with
    | none => ofLexemes (errorsLeft + 1) stop xs
    | some (.ok kind) =>
      let rest := ofLexemes (errorsLeft + 1) stop xs
      { rest with tokens := ⟨kind, ⟨offset, stop⟩⟩ :: rest.tokens }
    | some (.error cause) =>
      let rest := ofLexemes errorsLeft stop xs
      { rest with errors := ⟨cause, ⟨offset, stop⟩⟩ :: rest.errors }

def maxErrors : Nat := 20

/-- All tokens of the source, then the end of the file. -/
def ofString (source : String) : Lexed :=
  let body := ofLexemes maxErrors 0 (Lexeme.split source.toList)
  let size := Text.byteLength source.toList
  { body with tokens := body.tokens ++ [⟨.eof, ⟨size, size⟩⟩] }

theorem length_errors_ofLexemes_le (errorsLeft offset : Nat) (xs : List Lexeme) :
    (ofLexemes errorsLeft offset xs).errors.length ≤ errorsLeft := by
  fun_induction ofLexemes errorsLeft offset xs <;> simp_all +zetaDelta

end Lexed

end Doctest
