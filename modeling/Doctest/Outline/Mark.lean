import Doctest.Outline.Header
import Doctest.Source.LineMap

/-! A source file as a sequence of marks: elements that begin and end, comments on the element that is
open, and faults. -/
namespace Doctest.Outline

/-- An element lasts from its `enter` to the `leave` that matches it. A `doc` belongs to the innermost
element that is open, and `outside` says that the body of that element is in another file. -/
inductive Mark
  | enter (kind : Element.Kind) (name : String) (doc : Option DocRun)
  | leave
  | doc (doc : DocRun)
  | outside (span : Span)
  | fault (fault : SyntaxFault)
deriving DecidableEq, Repr

namespace Mark

/-- An item that refuses to be read stops its block when this many faults have been met. -/
def maxFaults : Nat := 20

/-- The comments that document what encloses them, from here to the first other token. -/
def innerDocs (lines : LineMap) (run : Option DocRun) : List Token → Option DocRun × List Token
  | [] => (run, [])
  | t :: ts =>
    match t.kind with
    | .innerDoc text => innerDocs lines (DocRun.extend run (lines.lineOf t.span.start) text) ts
    | _ => (run, t :: ts)

/-- The marks of an item, without its members. -/
def ofHeader (doc : Option DocRun) : Header → List Mark
  | .nothing => []
  | .leaf kind name => [enter kind name doc, leave]
  | .body kind name => [enter kind name doc]
  | .outside name span => [enter .module name doc, outside span, leave]
  | .fault f => [fault f]
  | .bareModule name f => [enter .module name doc, leave, fault f]

/-- Blocks that the file ends in. -/
def unclosed (span : Span) (depth : Nat) : List Mark :=
  (List.replicate depth [fault ⟨.unclosedBody, span⟩, leave]).flatten

theorem length_innerDocs_le (lines : LineMap) (run : Option DocRun) (ts : List Token) :
    (innerDocs lines run ts).2.length ≤ ts.length := by
  induction ts generalizing run with
  | nil => simp [innerDocs]
  | cons t ts ih =>
    unfold innerDocs
    split
    · exact Nat.le_succ_of_le (ih _)
    · simp

/-- The marks of the tokens, where `depth` blocks are open, `doc` documents the item that comes next,
and `faults` faults have been met. -/
def ofTokens (source : String) (lines : LineMap) (depth : Nat) (doc : Option DocRun)
    (faults : Nat) : List Token → List Mark
  | [] => unclosed ⟨0, 0⟩ depth
  | t :: ts =>
    if he : t.kind = .eof then unclosed t.span depth
    else if hb : t.kind = .closing .brace then
      match depth with
      | depth + 1 => leave :: ofTokens source lines depth none faults ts
      | 0 =>
        fault ⟨.unmatchedBrace, t.span⟩ ::
          if faults + 1 < maxFaults then ofTokens source lines 0 doc (faults + 1) ts else []
    else
      match t.kind with
      | .outerDoc text =>
        let doc := DocRun.extend doc (lines.lineOf t.span.start) text
        ofTokens source lines depth (some doc) faults ts
      | .innerDoc text =>
        let start := DocRun.start (lines.lineOf t.span.start) text
        let inner := innerDocs lines (some start) ts
        have := length_innerDocs_le lines (some start) ts
        inner.1.toList.map .doc ++ ofTokens source lines depth doc faults inner.2
      | .symbol .pound =>
        have := length_skipAttribute_le ts
        ofTokens source lines depth doc faults (skipAttribute ts)
      | _ =>
        let item := Header.read source (t :: ts)
        have := Header.length_read_lt source ts hb he
        ofHeader doc item.1 ++
          match item.1 with
          | .body _ _ => ofTokens source lines (depth + 1) none faults item.2
          | .fault _ | .bareModule _ _ =>
            if faults + 1 < maxFaults then
              have := length_skipItem_le 0 item.2
              ofTokens source lines depth none (faults + 1) (skipItem 0 item.2)
            else
              match depth with
              | depth + 1 => leave :: ofTokens source lines depth none (faults + 1) item.2
              | 0 => []
          | _ => ofTokens source lines depth none faults item.2
termination_by ts => ts.length
decreasing_by all_goals simp_all +zetaDelta <;> omega

end Mark

end Doctest.Outline
