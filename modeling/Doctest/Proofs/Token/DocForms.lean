import Mathlib.Data.List.Chain
import Doctest.Proofs.Token.Edges

/-! The two forms of a doc comment of some lines: each line in a line comment of its own, or all of them in a block
comment with a gutter of asterisks. Both are read back as the lines that they are written with. -/
namespace Doctest

namespace Lexeme

open Text

/-- A line comment ends before the newline. -/
theorem split_lineComment {cs : List Char} (h : '\n' ∉ cs) (rest : List Char) :
    split ('/' :: '/' :: (cs ++ '\n' :: rest)) = ⟨.lineComment, '/' :: '/' :: cs⟩ :: split ('\n' :: rest) := by
  have hskip : isSkipped '/' = false := by decide
  have hrun : run (· ≠ '\n') (cs ++ '\n' :: rest) = cs.length := by
    have hcs : ∀ c ∈ cs, decide (c ≠ '\n') = true := fun c hc => by
      simpa using fun heq : c = '\n' => h (heq ▸ hc)
    rw [run, List.takeWhile_append_of_pos hcs]
    simp
  have hafter : after '/' ('/' :: (cs ++ '\n' :: rest)) = (.lineComment, cs.length + 1) := by
    rw [after, if_neg (by simp [hskip]), if_pos rfl, afterSlash, hrun]
  rw [split_cons, hafter]
  simp

/-- A newline before what is no blank is a lexeme of its own. -/
theorem split_newline_cons {c : Char} (hc : isSkipped c = false) (rest : List Char) :
    split ('\n' :: c :: rest) = ⟨.blank, ['\n']⟩ :: split (c :: rest) := by
  rw [split_of_blanks (by decide)]
  simp [hc]

/-- Neither the beginning nor the end of a block comment. -/
def Apart (a b : Char) : Prop :=
  ¬(a = '/' ∧ b = '*') ∧ ¬(a = '*' ∧ b = '/')

theorem isChain_apart {cs : List Char} (hopen : ¬['/', '*'] <:+: cs) (hclose : ¬['*', '/'] <:+: cs) :
    cs.IsChain Apart := by
  refine List.isChain_iff_forall_rel_of_append_cons_cons.mpr fun a b as bs heq => ⟨?_, ?_⟩
  · rintro ⟨rfl, rfl⟩
    exact hopen ⟨as, bs, by simp [heq]⟩
  · rintro ⟨rfl, rfl⟩
    exact hclose ⟨as, bs, by simp [heq]⟩

theorem commentTail?_cons {depth : Nat} {a b : Char} (h : Apart a b) (cs : List Char) :
    commentTail? depth (a :: b :: cs) = (commentTail? depth (b :: cs)).map (· + 1) := by
  obtain ⟨hopen, hclose⟩ := h
  rw [commentTail?.eq_def]
  split <;> simp_all

/-- A block comment without others in it lasts up to the first mark that closes one. -/
theorem commentTail?_append {cs : List Char} (h : (cs ++ ['*']).IsChain Apart) (rest : List Char) :
    commentTail? 0 (cs ++ '*' :: '/' :: rest) = some (cs.length + 2) := by
  induction cs with
  | nil => simp [commentTail?]
  | cons a cs ih =>
    cases cs with
    | nil =>
      have hapart : Apart a '*' := by simpa using h
      rw [List.singleton_append, commentTail?_cons hapart]
      simp [commentTail?]
    | cons b cs =>
      obtain ⟨hapart, htail⟩ : Apart a b ∧ (b :: cs ++ ['*']).IsChain Apart := by simpa using h
      have hrest := ih htail
      rw [List.cons_append] at hrest
      rw [List.cons_append, List.cons_append, commentTail?_cons hapart, hrest]
      simp

theorem split_blockComment {cs : List Char} (h : (cs ++ ['*']).IsChain Apart) (rest : List Char) :
    split ('/' :: '*' :: (cs ++ '*' :: '/' :: rest)) =
      ⟨.blockComment, '/' :: '*' :: (cs ++ ['*', '/'])⟩ :: split rest := by
  have hskip : isSkipped '/' = false := by decide
  have hafter : after '/' ('*' :: (cs ++ '*' :: '/' :: rest)) = (.blockComment, cs.length + 3) := by
    simp [after, hskip, afterSlash, commentTail?_append h]
  have htake : cs ++ '*' :: '/' :: rest = (cs ++ ['*', '/']) ++ rest := by simp
  have hlength : cs.length + 2 = (cs ++ ['*', '/']).length := by simp
  rw [split_cons, hafter]
  dsimp only
  rw [List.take_succ_cons, List.drop_succ_cons, htake, hlength, List.take_left, List.drop_left]

end Lexeme

namespace DocText

open Text

/-- Lines that can be written in both forms. -/
structure Writable (ls : List (List Char)) : Prop where
  ne_nil : ls ≠ []
  newline : ∀ l ∈ ls, '\n' ∉ l
  opening : ∀ l ∈ ls, ¬['/', '*'] <:+: l
  closing : ∀ l ∈ ls, ¬['*', '/'] <:+: l
  ending : ∀ l ∈ ls, ∀ c ∈ l.getLast?, isBlank c = false
  last : ∃ c ∈ ls.getLast ne_nil, isBlank c = false

/-- Each line in a comment of its own. -/
def lineForm (ls : List (List Char)) : List Char :=
  ls.flatMap fun l => "/// ".toList ++ (l ++ ['\n'])

/-- Each line behind an asterisk. -/
def guttered (ls : List (List Char)) : List Char :=
  ls.flatMap fun l => " * ".toList ++ (l ++ ['\n'])

/-- All lines in one comment, between the lines of its marks. -/
def blockForm (ls : List (List Char)) : List Char :=
  "/**\n".toList ++ (guttered ls ++ " */".toList)

theorem dropEndWhile_of_getLast? {p : Char → Bool} {cs : List Char} (h : ∀ c ∈ cs.getLast?, p c = false) :
    dropEndWhile p cs = cs := by
  have hhead : cs.reverse.dropWhile p = cs.reverse := by
    cases hcs : cs.reverse with
    | nil => rfl
    | cons c rest =>
      have hc : p c = false := h c (by rw [List.getLast?_eq_head?_reverse, hcs]; rfl)
      simp [hc]
  rw [dropEndWhile, hhead, List.reverse_reverse]

/-- After a mark that ends with a space a line ends with no carriage return. -/
theorem ne_return_of_getLast? {mark l : List Char} (hmark : mark.getLast? = some ' ')
    (h : ∀ c ∈ l.getLast?, isBlank c = false) : ∀ c ∈ (mark ++ l).getLast?, c ≠ '\r' := by
  rw [List.getLast?_append, hmark]
  intro c hc
  cases hl : l.getLast? with
  | none =>
    obtain rfl : ' ' = c := by simpa [hl] using hc
    decide
  | some d =>
    obtain rfl : d = c := by simpa [hl] using hc
    rintro rfl
    exact absurd (h '\r' hl) (by decide)

theorem ofLineComment?_line {l : List Char} (h : ∀ c ∈ l.getLast?, isBlank c = false) :
    ofLineComment? ("/// ".toList ++ l) = some (.outerDoc (String.ofList l)) := by
  have hreturns : trimReturns ("/// ".toList ++ l) = '/' :: '/' :: '/' :: ' ' :: l :=
    dropEndWhile_of_getLast? fun c hc => by simpa using ne_return_of_getLast? (by decide) h c hc
  rw [ofLineComment?, hreturns]
  rfl

theorem gutterless_guttered {l : List Char} (h : ∀ c ∈ l.getLast?, isBlank c = false) :
    gutterless (" * ".toList ++ l) = l := by
  have htrim : trimStart (" * ".toList ++ l) = '*' :: ' ' :: l := by
    have hspace : isBlank ' ' = true := by decide
    have hstar : isBlank '*' = false := by decide
    simp [trimStart, hspace, hstar]
  rw [gutterless, htrim]
  exact dropEndWhile_of_getLast? h

/-- The lines of a comment with a gutter, between those of its marks. -/
theorem map_gutterless_lines {ls : List (List Char)} (hnewline : ∀ l ∈ ls, '\n' ∉ l)
    (hending : ∀ l ∈ ls, ∀ c ∈ l.getLast?, isBlank c = false) :
    (lines (guttered ls ++ [' '])).map gutterless = ls ++ [[]] := by
  induction ls with
  | nil => decide
  | cons l ls ih =>
    obtain ⟨hl, hrest⟩ := List.forall_mem_cons.mp hnewline
    obtain ⟨hend, hends⟩ := List.forall_mem_cons.mp hending
    have hline : '\n' ∉ " * ".toList ++ l := by simpa using hl
    have hreturn : dropReturn (" * ".toList ++ l) = " * ".toList ++ l := by
      refine if_neg fun hlast => ?_
      exact ne_return_of_getLast? (by decide) hend '\r' hlast rfl
    have hcons : guttered (l :: ls) ++ [' '] = (" * ".toList ++ l) ++ '\n' :: (guttered ls ++ [' ']) := by
      simp [guttered]
    rw [hcons, lines_append_newline, splitOn_of_notMem hline, List.map_append, ih hrest hends, List.map_singleton,
      hreturn, List.map_singleton, gutterless_guttered hend]
    rfl

theorem blockText_guttered {ls : List (List Char)} (h : Writable ls) :
    blockText ('\n' :: (guttered ls ++ [' '])) = '\n' :: joinWith '\n' ls := by
  have hlines : (lines ('\n' :: (guttered ls ++ [' ']))).map gutterless = [] :: (ls ++ [[]]) := by
    have hfirst := lines_append_newline [] (guttered ls ++ [' '])
    rw [List.nil_append] at hfirst
    rw [hfirst, List.map_append, map_gutterless_lines h.newline h.ending]
    rfl
  obtain ⟨c, hc, -⟩ := h.last
  have hlast : (ls.getLast h.ne_nil).isEmpty = false := by
    cases hl : ls.getLast h.ne_nil with
    | nil => simp [hl] at hc
    | cons d l => rfl
  have hkept : ([] :: (ls ++ [[]])).reverse.dropWhile (·.isEmpty) = ([] :: ls).reverse := by
    conv_lhs => rw [← List.dropLast_append_getLast h.ne_nil]
    conv_rhs => rw [← List.dropLast_append_getLast h.ne_nil]
    simp [hlast]
  rw [blockText, hlines, hkept, List.reverse_reverse, joinWith_cons, List.nil_append]
  obtain ⟨l, rest, rfl⟩ := List.exists_cons_of_ne_nil h.ne_nil
  rw [joinWith_cons, List.flatMap_cons]
  rfl

/-- The lines do not end the comment that they stand in. -/
theorem isChain_guttered {ls : List (List Char)} (hopening : ∀ l ∈ ls, ¬['/', '*'] <:+: l)
    (hclosing : ∀ l ∈ ls, ¬['*', '/'] <:+: l) : ('\n' :: (guttered ls ++ [' ', '*'])).IsChain Lexeme.Apart := by
  have left {a b : Char} (ha : a = '\n' ∨ a = ' ') : Lexeme.Apart a b := by
    rcases ha with rfl | rfl <;> simp [Lexeme.Apart]
  have right {a b : Char} (hb : b = '\n' ∨ b = ' ') : Lexeme.Apart a b := by
    rcases hb with rfl | rfl <;> simp [Lexeme.Apart]
  induction ls with
  | nil => simp [guttered, left]
  | cons l ls ih =>
    obtain ⟨hopen, hopens⟩ := List.forall_mem_cons.mp hopening
    obtain ⟨hclose, hcloses⟩ := List.forall_mem_cons.mp hclosing
    have hcons : guttered (l :: ls) ++ [' ', '*'] =
        ' ' :: '*' :: ' ' :: (l ++ '\n' :: (guttered ls ++ [' ', '*'])) := by
      simp [guttered]
    have hline : (l ++ '\n' :: (guttered ls ++ [' ', '*'])).IsChain Lexeme.Apart := by
      refine (Lexeme.isChain_apart hopen hclose).append (ih hopens hcloses) fun a _ b hb => right (.inl ?_)
      simpa using hb.symm
    rw [hcons]
    refine .cons_cons (left (.inl rfl)) (.cons_cons (left (.inr rfl)) (.cons_cons (right (.inr rfl)) ?_))
    exact hline.cons fun b _ => left (.inr rfl)

theorem ofBlockComment?_blockForm {ls : List (List Char)} (h : Writable ls) :
    ofBlockComment? (blockForm ls) = some (.outerDoc (String.ofList ('\n' :: joinWith '\n' ls))) := by
  have hinner : ((blockForm ls).drop 3).dropLast.dropLast = '\n' :: (guttered ls ++ [' ']) := by
    have hends : (blockForm ls).drop 3 = ('\n' :: (guttered ls ++ [' ']) ++ ['*']) ++ ['/'] := by simp [blockForm]
    rw [hends, List.dropLast_concat, List.dropLast_concat]
  rw [ofBlockComment?.eq_def, hinner, blockText_guttered h]
  rfl

end DocText

namespace Lexed

open Text DocText

/-- The texts and the places of the comments that hold a line each, from an offset on. -/
def lineComments : (offset : Nat) → List (List Char) → List (String × Span)
  | _, [] => []
  | offset, l :: ls =>
    (String.ofList l, ⟨offset, offset + byteLength ("/// ".toList ++ l)⟩) ::
      lineComments (offset + byteLength (lineForm [l])) ls

theorem lineForm_cons (l : List Char) (ls : List (List Char)) : lineForm (l :: ls) = lineForm [l] ++ lineForm ls := by
  simp [lineForm]

theorem exists_cons_lineForm (ls : List (List Char)) {c : Char} (hc : Lexeme.isSkipped c = false) (cs : List Char) :
    ∃ d ds, lineForm ls ++ c :: cs = d :: ds ∧ Lexeme.isSkipped d = false := by
  cases ls with
  | nil => exact ⟨c, cs, rfl, hc⟩
  | cons l ls => exact ⟨'/', _, rfl, by decide⟩

/-- The tokens of lines in comments of their own, before some source that begins with no blank. -/
theorem ofLexemes_lineForm {ls : List (List Char)} (hnewline : ∀ l ∈ ls, '\n' ∉ l)
    (hending : ∀ l ∈ ls, ∀ c ∈ l.getLast?, isBlank c = false) (errorsLeft offset : Nat) {c : Char}
    (hc : Lexeme.isSkipped c = false) (cs : List Char) :
    ofLexemes (errorsLeft + 1) offset (Lexeme.split (lineForm ls ++ c :: cs)) =
      let rest := ofLexemes (errorsLeft + 1) (offset + byteLength (lineForm ls)) (Lexeme.split (c :: cs))
      { rest with tokens := (lineComments offset ls).map (fun d => ⟨.outerDoc d.1, d.2⟩) ++ rest.tokens } := by
  induction ls generalizing offset with
  | nil => rfl
  | cons l ls ih =>
    obtain ⟨hl, hnewlines⟩ := List.forall_mem_cons.mp hnewline
    obtain ⟨hend, hends⟩ := List.forall_mem_cons.mp hending
    obtain ⟨d, ds, hds, hd⟩ := exists_cons_lineForm ls hc cs
    have hcons : lineForm (l :: ls) ++ c :: cs =
        '/' :: '/' :: ('/' :: ' ' :: l ++ '\n' :: (lineForm ls ++ c :: cs)) := by
      simp [lineForm]
    have hmeaning : meaning ⟨.lineComment, "/// ".toList ++ l⟩ = some (.ok (.outerDoc (String.ofList l))) :=
      congrArg (Option.map Except.ok) (ofLineComment?_line hend)
    have hnext : offset + byteLength ("/// ".toList ++ l) + byteLength ['\n'] =
        offset + byteLength (lineForm [l]) := by
      simp [lineForm, Nat.add_assoc]
    have hrest := ih hnewlines hends (offset + byteLength (lineForm [l]))
    rw [Nat.add_assoc, ← byteLength_append, ← lineForm_cons] at hrest
    rw [hcons, Lexeme.split_lineComment (by simpa using hl), hds, Lexeme.split_newline_cons hd, ← hds]
    change ofLexemes (errorsLeft + 1) offset (⟨.lineComment, "/// ".toList ++ l⟩ :: _) = _
    rw [ofLexemes, hmeaning]
    dsimp only
    rw [ofLexemes, show meaning ⟨.blank, ['\n']⟩ = none from rfl]
    dsimp only
    rw [hnext, hrest]
    rfl

theorem ofLexemes_blockForm {ls : List (List Char)} (h : Writable ls) (errorsLeft offset : Nat) {c : Char}
    (hc : Lexeme.isSkipped c = false) (cs : List Char) :
    ofLexemes (errorsLeft + 1) offset (Lexeme.split (blockForm ls ++ '\n' :: c :: cs)) =
      let stop := offset + byteLength (blockForm ls)
      let rest := ofLexemes (errorsLeft + 1) (stop + 1) (Lexeme.split (c :: cs))
      { rest with tokens := ⟨.outerDoc (String.ofList ('\n' :: joinWith '\n' ls)), ⟨offset, stop⟩⟩ :: rest.tokens } := by
  have hchain : ('*' :: '\n' :: (guttered ls ++ [' ']) ++ ['*']).IsChain Lexeme.Apart := by
    have htail := isChain_guttered h.opening h.closing
    rw [List.cons_append, List.cons_append, List.append_assoc]
    exact htail.cons fun b hb => by
      obtain rfl : '\n' = b := by simpa using hb
      simp [Lexeme.Apart]
  have hcons : blockForm ls ++ '\n' :: c :: cs =
      '/' :: '*' :: ('*' :: '\n' :: (guttered ls ++ [' ']) ++ '*' :: '/' :: '\n' :: c :: cs) := by
    simp [blockForm]
  have htext : '/' :: '*' :: ('*' :: '\n' :: (guttered ls ++ [' ']) ++ ['*', '/']) = blockForm ls := by
    simp [blockForm]
  have hmeaning : meaning ⟨.blockComment, blockForm ls⟩ =
      some (.ok (.outerDoc (String.ofList ('\n' :: joinWith '\n' ls)))) :=
    congrArg (Option.map Except.ok) (ofBlockComment?_blockForm h)
  rw [hcons, Lexeme.split_blockComment hchain, htext, Lexeme.split_newline_cons hc, ofLexemes, hmeaning]
  dsimp only
  rw [ofLexemes, show meaning ⟨.blank, ['\n']⟩ = none from rfl]
  rfl

end Lexed

end Doctest
