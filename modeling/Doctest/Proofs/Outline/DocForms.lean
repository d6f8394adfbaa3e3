import Doctest.Proofs.Outline.ForestMarks
import Doctest.Proofs.Source.LineMap
import Doctest.Proofs.Token.DocForms
import Doctest.Snippet.Basic

/-! A function documented in either form of a doc comment. The block form has one more line at its front, and apart
from that the comments are the same. -/
namespace Doctest

namespace Snippet

/-- Blocks further down are the same blocks. -/
theorem ofLines_succ (line : Nat) (ls : List (List Char)) :
    ofLines (line + 1) ls = (ofLines line ls).map fun s => { s with line := s.line + 1 } := by
  fun_induction ofLines line ls with
  | case1 => simp [ofLines]
  | case2 line first rest hopen ih => simp [ofLines, hopen, ih]
  | case3 line first rest fence hopen body after ih =>
    have hnext : line + 1 + 1 + body.length + 1 = line + 1 + body.length + 1 + 1 := by omega
    rw [ofLines, hopen]
    dsimp only
    rw [hnext, ih, List.map_cons]

end Snippet

namespace Outline

open Text DocText

/-- Lines in comments of their own are the lines of the comment that they make. -/
theorem docLines_lineComments {source : String} {before rest : List Char} {ls : List (List Char)}
    (hsource : source.toList = before ++ (lineForm ls ++ rest)) (hnewline : ∀ l ∈ ls, '\n' ∉ l) :
    docLines (.ofString source) (before.count '\n' + 1) (Lexed.lineComments (byteLength before) ls) = ls := by
  induction ls generalizing before with
  | nil => rfl
  | cons l ls ih =>
    obtain ⟨hl, hnewlines⟩ := List.forall_mem_cons.mp hnewline
    have hline := LineMap.lineOf_byteLength hsource
    have hrest : source.toList = (before ++ lineForm [l]) ++ (lineForm ls ++ rest) := by
      rw [hsource, Lexed.lineForm_cons, List.append_assoc, List.append_assoc]
    have hcount : (before ++ lineForm [l]).count '\n' = before.count '\n' + 1 := by
      simp [lineForm, List.count_eq_zero_of_not_mem hl]
    have hdocs := ih hrest hnewlines
    rw [hcount, byteLength_append] at hdocs
    rw [Lexed.lineComments, docLines, hline, String.toList_ofList, splitOn_of_notMem hl,
      List.count_eq_zero_of_not_mem hl, Nat.sub_self]
    exact congrArg (l :: ·) hdocs

theorem docComment?_lineComments {source : String} {rest : List Char} {ls : List (List Char)} (file : Option Path)
    (hsource : source.toList = lineForm ls ++ rest) (hne : ls ≠ []) (hnewline : ∀ l ∈ ls, '\n' ∉ l) :
    docComment? (.ofString source) file (Lexed.lineComments 0 ls) =
      some ⟨String.ofList (joinWith '\n' ls), file, 1⟩ := by
  have hfront : source.toList = [] ++ (lineForm ls ++ rest) := hsource
  have hdocs : docLines (.ofString source) 1 (Lexed.lineComments 0 ls) = ls :=
    docLines_lineComments hfront hnewline
  have hline : (LineMap.ofString source).lineOf 0 = 1 := LineMap.lineOf_byteLength hfront
  cases ls with
  | nil => contradiction
  | cons l ls =>
    have hhead : (Lexed.lineComments 0 (l :: ls)).head? = some (String.ofList l, ⟨0, 0 + byteLength ("/// ".toList ++ l)⟩) := rfl
    unfold docComment?
    rw [hhead, Option.map_some]
    dsimp only
    rw [hline, hdocs]

/-- A comment at the front of a source is read as it stands. -/
theorem docComment?_front {source : String} (file : Option Path) (text : List Char) (stop : Nat) :
    docComment? (.ofString source) file [(String.ofList text, ⟨0, stop⟩)] = some ⟨String.ofList text, file, 1⟩ := by
  have hfront : source.toList = [] ++ source.toList := rfl
  have hline : (LineMap.ofString source).lineOf 0 = 1 := LineMap.lineOf_byteLength hfront
  have hjoin := joinWith_splitOn '\n' text
  simp [docComment?, docLines, hline, hjoin]

/-- The tokens of `fn f() \x7b\x7d` from an offset on. -/
def functionTokens (offset : Nat) : List Token :=
  [⟨.keyword .fnKw, ⟨offset, offset + 2⟩⟩, ⟨.name "f", ⟨offset + 3, offset + 4⟩⟩,
    ⟨.opening .paren, ⟨offset + 4, offset + 5⟩⟩, ⟨.closing .paren, ⟨offset + 5, offset + 6⟩⟩,
    ⟨.opening .brace, ⟨offset + 7, offset + 8⟩⟩, ⟨.closing .brace, ⟨offset + 8, offset + 9⟩⟩]

/-- A documented function. -/
def documented (comment : List Char) : String :=
  String.ofList (comment ++ "fn f() \x7b\x7d".toList)

/-- The outline of a crate that has only the function, with these comments. -/
def ofFunction (crateName : String) (docs : List DocComment) : Outline :=
  ⟨#[⟨0, .crate, crateName, none, [1], []⟩, ⟨1, .function, "f", some 0, [], docs⟩], [0]⟩

theorem ofLexemes_function (errorsLeft offset : Nat) :
    Lexed.ofLexemes (errorsLeft + 1) offset (Lexeme.split "fn f() \x7b\x7d".toList) =
      ⟨functionTokens offset, []⟩ := by
  have hsplit : Lexeme.split "fn f() \x7b\x7d".toList = [⟨.word, ['f', 'n']⟩, ⟨.blank, [' ']⟩, ⟨.word, ['f']⟩,
      ⟨.opening .paren, ['(']⟩, ⟨.closing .paren, [')']⟩, ⟨.blank, [' ']⟩, ⟨.opening .brace, ['\x7b']⟩,
      ⟨.closing .brace, ['\x7d']⟩] := by
    decide +kernel
  rw [hsplit]
  rfl

theorem readTokens_function (crateName : String) (file : Option Path) (source : String)
    (comments : List (String × Span)) (offset : Nat) (stop : Span) :
    (empty.addRoot .crate crateName).2.readTokens 0 file source
      (comments.map (fun d => ⟨.outerDoc d.1, d.2⟩) ++ (functionTokens offset ++ [⟨.eof, stop⟩])) =
        ⟨ofFunction crateName (docComment? (.ofString source) file comments).toList, [], []⟩ := by
  have hread : Header.read source (functionTokens offset ++ [⟨.eof, stop⟩]) =
      (.leaf .function "f", [⟨.eof, stop⟩]) := by
    have hqualifiers : Header.qualifiers (functionTokens offset ++ [⟨.eof, stop⟩]) =
        (false, functionTokens offset ++ [⟨.eof, stop⟩]) := by
      rw [Header.qualifiers.eq_def]
      rfl
    rw [Header.read, hqualifiers]
    rfl
  have hnotes : comments.map (fun d => (⟨.outerDoc d.1, d.2⟩ : Token)) =
      (comments.map fun d => Note.doc d.1 d.2).flatMap (·.tokens) := by
    rw [List.flatMap_map, List.map_eq_flatMap]
    rfl
  have hdocs : (comments.map fun d => Note.doc d.1 d.2).filterMap (·.doc?) = comments := by
    simp [List.filterMap_map, Note.doc?]
  have hmarks : Mark.ofTokens source (.ofString source) 0 none 0
      (comments.map (fun d => ⟨.outerDoc d.1, d.2⟩) ++ (functionTokens offset ++ [⟨.eof, stop⟩])) =
        [.enter .function "f" (docRun (.ofString source) none comments), .leave] := by
    have hitem := Mark.ofTokens_item source (.ofString source) 0 (docRun (.ofString source) none comments) 0 rfl hread
    have hrest : Mark.following source (.ofString source) 0 0 [⟨.eof, stop⟩] (.leaf .function "f") = [] :=
      Mark.ofTokens_eof source _ 0 stop
    rw [hrest] at hitem
    rw [hnotes, Mark.ofTokens_notes, hdocs]
    exact hitem
  rw [← docRun_none]
  unfold readTokens
  rw [hmarks]
  cases docRun (.ofString source) none comments with
  | none => rfl
  | some run => rfl

/-- A source is read by its tokens before the end of the file. -/
theorem ofSource_of_lexed {source : String} {comments : List (String × Span)} {offset : Nat}
    (h : Lexed.ofLexemes Lexed.maxErrors 0 (Lexeme.split source.toList) =
      ⟨comments.map (fun d => ⟨.outerDoc d.1, d.2⟩) ++ functionTokens offset, []⟩)
    (crateName : String) (file : Option Path) :
    ofSource crateName file source =
      ⟨ofFunction crateName (docComment? (.ofString source) file comments).toList, [], []⟩ := by
  have htokens : (Lexed.ofString source).tokens = comments.map (fun d => ⟨.outerDoc d.1, d.2⟩) ++
      (functionTokens offset ++ [⟨.eof, ⟨byteLength source.toList, byteLength source.toList⟩⟩]) := by
    rw [Lexed.ofString, h, List.append_assoc]
  have hread := readTokens_function crateName file source comments offset
    ⟨byteLength source.toList, byteLength source.toList⟩
  rw [← htokens] at hread
  exact hread

theorem ofSource_lineForm {ls : List (List Char)} (h : Writable ls) (crateName : String) (file : Option Path) :
    ofSource crateName file (documented (lineForm ls)) =
      ⟨ofFunction crateName [⟨String.ofList (joinWith '\n' ls), file, 1⟩], [], []⟩ := by
  have hsource : (documented (lineForm ls)).toList = lineForm ls ++ "fn f() \x7b\x7d".toList := String.toList_ofList
  have hlexed := Lexed.ofLexemes_lineForm h.newline h.ending 19 0 (by decide : Lexeme.isSkipped 'f' = false)
    "n f() \x7b\x7d".toList
  have hfunction := ofLexemes_function 19 (0 + byteLength (lineForm ls))
  have hdoc := docComment?_lineComments file hsource h.ne_nil h.newline
  have hwhole : Lexed.ofLexemes Lexed.maxErrors 0 (Lexeme.split (documented (lineForm ls)).toList) =
      ⟨(Lexed.lineComments 0 ls).map (fun d => ⟨.outerDoc d.1, d.2⟩) ++
        functionTokens (0 + byteLength (lineForm ls)), []⟩ := by
    rw [hsource]
    refine hlexed.trans ?_
    dsimp only
    rw [show 'f' :: "n f() \x7b\x7d".toList = "fn f() \x7b\x7d".toList from rfl, hfunction]
  rw [ofSource_of_lexed hwhole, hdoc]
  rfl

theorem ofSource_blockForm {ls : List (List Char)} (h : Writable ls) (crateName : String) (file : Option Path) :
    ofSource crateName file (documented (blockForm ls ++ ['\n'])) =
      ⟨ofFunction crateName [⟨String.ofList ('\n' :: joinWith '\n' ls), file, 1⟩], [], []⟩ := by
  have hsource : (documented (blockForm ls ++ ['\n'])).toList =
      blockForm ls ++ '\n' :: "fn f() \x7b\x7d".toList := by
    simp [documented]
  have hlexed := Lexed.ofLexemes_blockForm h 19 0 (by decide : Lexeme.isSkipped 'f' = false) "n f() \x7b\x7d".toList
  have hfunction := ofLexemes_function 19 (0 + byteLength (blockForm ls) + 1)
  have hwhole : Lexed.ofLexemes Lexed.maxErrors 0 (Lexeme.split (documented (blockForm ls ++ ['\n'])).toList) =
      ⟨[(String.ofList ('\n' :: joinWith '\n' ls), ⟨0, 0 + byteLength (blockForm ls)⟩)].map
          (fun d => ⟨.outerDoc d.1, d.2⟩) ++ functionTokens (0 + byteLength (blockForm ls) + 1), []⟩ := by
    rw [hsource]
    refine hlexed.trans ?_
    dsimp only
    rw [show 'f' :: "n f() \x7b\x7d".toList = "fn f() \x7b\x7d".toList from rfl, hfunction]
    rfl
  rw [ofSource_of_lexed hwhole, docComment?_front]
  rfl

/-- **Both forms of a doc comment make one comment.** In the block form a blank line stands before its lines, so it
has the same blocks, each a line further down. -/
theorem doc_forms_agree {ls : List (List Char)} (h : Writable ls) (crateName : String) (file : Option Path) :
    let text := joinWith '\n' ls
    let line : DocComment := ⟨String.ofList text, file, 1⟩
    let block : DocComment := ⟨String.ofList ('\n' :: text), file, 1⟩
    ofSource crateName file (documented (lineForm ls)) = ⟨ofFunction crateName [line], [], []⟩ ∧
      ofSource crateName file (documented (blockForm ls ++ ['\n'])) = ⟨ofFunction crateName [block], [], []⟩ ∧
      Snippet.ofComment block = (Snippet.ofComment line).map fun s => { s with line := s.line + 1 } := by
  intro text line block
  refine ⟨ofSource_lineForm h crateName file, ofSource_blockForm h crateName file, ?_⟩
  have hlines : lines ('\n' :: text) = [] :: lines text := lines_append_newline [] text
  have hblank : Fence.open? [] = none := rfl
  unfold Snippet.ofComment Snippet.ofText
  rw [String.toList_ofList, String.toList_ofList, hlines, Snippet.ofLines, hblank]
  exact Snippet.ofLines_succ 1 (lines text)

/-- Lines that begin with an asterisk, a slash or spaces, and a blank line inside a block. -/
theorem doc_forms_agree_marks :
    let ls := ["```test".toList, "*p = 1;".toList, [], "/ 2".toList, "  *".toList, "```".toList]
    Writable ls ∧
      ofSource "c" none "/// ```test\n/// *p = 1;\n/// \n/// / 2\n///   *\n/// ```\nfn f() \x7b\x7d" =
        ⟨ofFunction "c" [⟨"```test\n*p = 1;\n\n/ 2\n  *\n```", none, 1⟩], [], []⟩ ∧
      ofSource "c" none "/**\n * ```test\n * *p = 1;\n * \n * / 2\n *   *\n * ```\n */\nfn f() \x7b\x7d" =
        ⟨ofFunction "c" [⟨"\n```test\n*p = 1;\n\n/ 2\n  *\n```", none, 1⟩], [], []⟩ := by
  intro ls
  have hending : ∀ l ∈ ls, ∀ c ∈ l.getLast?, isBlank c = false := by
    have hall : ∀ l ∈ ls, l.getLast?.toList.all fun c => !isBlank c := by decide
    intro l hl c hc
    simpa using List.all_eq_true.mp (hall l hl) c (Option.mem_toList.mpr hc)
  have hls : Writable ls := by
    refine ⟨?_, ?_, ?_, ?_, hending, '`', ?_, ?_⟩
    all_goals decide +kernel
  obtain ⟨hline, hblock, -⟩ := doc_forms_agree hls "c" none
  have hlines : documented (lineForm ls) =
      "/// ```test\n/// *p = 1;\n/// \n/// / 2\n///   *\n/// ```\nfn f() \x7b\x7d" := by
    simp [documented, lineForm, ls]
  have hgutter : documented (blockForm ls ++ ['\n']) =
      "/**\n * ```test\n * *p = 1;\n * \n * / 2\n *   *\n * ```\n */\nfn f() \x7b\x7d" := by
    simp [documented, blockForm, guttered, ls]
  have htext : String.ofList (joinWith '\n' ls) = "```test\n*p = 1;\n\n/ 2\n  *\n```" := by
    simp [joinWith, List.intercalate, ls]
  have hbelow : String.ofList ('\n' :: joinWith '\n' ls) = "\n```test\n*p = 1;\n\n/ 2\n  *\n```" := by
    simp [joinWith, List.intercalate, ls]
  rw [hlines, htext] at hline
  rw [hgutter, hbelow] at hblock
  exact ⟨hls, hline, hblock⟩

end Outline

end Doctest
