import Doctest.Proofs.Source.LineMap
import Doctest.Token.Lexer

/-! Places of tokens in a source: every token stands where its span says, the tokens follow each other,
and a line comment is the end of its line. -/
namespace Doctest

namespace Text

/-- Of two cuts of a text, the one with fewer bytes before it comes first. -/
theorem exists_append_of_byteLength_le {as bs cs ds : List Char} (h : as ++ bs = cs ++ ds)
    (hle : byteLength as ≤ byteLength cs) : ∃ mid, cs = as ++ mid ∧ bs = mid ++ ds := by
  rcases List.append_eq_append_iff.mp h with ⟨mid, hcs, hbs⟩ | ⟨mid, has, hds⟩
  · exact ⟨mid, hcs, hbs⟩
  · obtain rfl : mid = [] := by
      cases mid with
      | nil => rfl
      | cons c mid =>
        have hsize := c.utf8Size_pos
        rw [has, byteLength_append, byteLength_cons] at hle
        omega
    exact ⟨[], by simpa using has.symm, by simpa using hds.symm⟩

end Text

namespace Lexeme

/-- A lexeme of a text is what its first character begins, and the lexemes after it make up the rest of
the text. -/
theorem exists_after_of_split {cs : List Char} {before rest : List Lexeme} {x : Lexeme}
    (h : split cs = before ++ x :: rest) : ∃ c ds, x = ⟨(after c ds).1, c :: ds.take (after c ds).2⟩ ∧
      rest.flatMap text = ds.drop (after c ds).2 := by
  fun_induction split cs generalizing before with
  | case1 => simp at h
  | case2 c cs cls n hafter ih =>
    cases before with
    | nil =>
      obtain ⟨rfl, hrest⟩ := List.cons.inj h
      refine ⟨c, cs, by rw [hafter], ?_⟩
      rw [hafter, ← hrest, flatMap_text_split]
    | cons y before => exact ih (List.cons.inj h).2

/-- What a lexeme is depends on its first character. -/
theorem after_cases {motive : (List Char → Class × Nat) → Prop} (c : Char)
    (blank : isSkipped c → motive fun cs => (.blank, run isSkipped cs)) (slash : c = '/' → motive afterSlash)
    (quote : c = '\'' → motive afterQuote) (doubleQuote : c = '"' → motive afterDoubleQuote)
    (digit : isDigit c → motive fun cs => (.literal, run isWordChar cs))
    (letter : Text.isNameStart c → motive (afterLetter c)) (mark : motive (afterMark c)) : motive (after c) := by
  by_cases hskip : isSkipped c
  · have heq : after c = fun cs => (.blank, run isSkipped cs) := funext fun cs => by rw [after, if_pos hskip]
    rw [heq]
    exact blank hskip
  by_cases hslash : c = '/'
  · have heq : after c = afterSlash := funext fun cs => by rw [after, if_neg hskip, if_pos hslash]
    rw [heq]
    exact slash hslash
  by_cases hquote : c = '\''
  · have heq : after c = afterQuote := funext fun cs => by
      rw [after, if_neg hskip, if_neg hslash, if_pos hquote]
    rw [heq]
    exact quote hquote
  by_cases hdouble : c = '"'
  · have heq : after c = afterDoubleQuote := funext fun cs => by
      rw [after, if_neg hskip, if_neg hslash, if_neg hquote, if_pos hdouble]
    rw [heq]
    exact doubleQuote hdouble
  by_cases hdigit : isDigit c
  · have heq : after c = fun cs => (.literal, run isWordChar cs) := funext fun cs => by
      rw [after, if_neg hskip, if_neg hslash, if_neg hquote, if_neg hdouble, if_pos hdigit]
    rw [heq]
    exact digit hdigit
  by_cases hletter : Text.isNameStart c
  · have heq : after c = afterLetter c := funext fun cs => by
      rw [after, if_neg hskip, if_neg hslash, if_neg hquote, if_neg hdouble, if_neg hdigit, if_pos hletter]
    rw [heq]
    exact letter hletter
  · have heq : after c = afterMark c := funext fun cs => by
      rw [after, if_neg hskip, if_neg hslash, if_neg hquote, if_neg hdouble, if_neg hdigit, if_neg hletter]
    rw [heq]
    exact mark

/-- A character that begins nothing longer is a mark. -/
theorem after_of_mark {c : Char} (h : isSkipped c = false ∧ c ∉ ['/', '\'', '"'] ∧ isDigit c = false ∧
    Text.isNameStart c = false) : after c = afterMark c := by
  obtain ⟨hskip, hquotes, hdigit, hstart⟩ := h
  simp only [List.mem_cons, List.not_mem_nil, or_false, not_or] at hquotes
  funext cs
  simp [after, hskip, hquotes, hdigit, hstart]

theorem take_run (p : Char → Bool) (cs : List Char) : cs.take (run p cs) = cs.takeWhile p := by
  have h : (cs.takeWhile p ++ cs.dropWhile p).take (run p cs) = cs.takeWhile p := List.take_left
  rwa [List.takeWhile_append_dropWhile] at h

theorem drop_run (p : Char → Bool) (cs : List Char) : cs.drop (run p cs) = cs.dropWhile p := by
  have h : (cs.takeWhile p ++ cs.dropWhile p).drop (run p cs) = cs.dropWhile p := List.drop_left
  rwa [List.takeWhile_append_dropWhile] at h

theorem afterSlash_cls (cs : List Char) :
    (afterSlash cs).1 ∈ [.lineComment, .blockComment, .unclosedComment, .punct] := by
  unfold afterSlash
  split
  · simp
  · split <;> simp
  · simp

theorem afterQuote_cls (cs : List Char) : (afterQuote cs).1 ∈ [.literal, .lifetime, .punct] := by
  unfold afterQuote
  split
  · simp
  · split
    · split <;> simp
    · simp

theorem afterDoubleQuote_cls (cs : List Char) :
    (afterDoubleQuote cs).1 ∈ [.literal, .unclosedString, .punct] := by
  unfold afterDoubleQuote
  split
  · simp
  · split <;> simp

theorem word_cls (cs : List Char) : (word cs).1 ∈ [.word, .name] := by
  unfold word
  dsimp only
  split <;> simp

theorem rawString?_cls {enough : Nat} {cs : List Char} {found : Class × Nat}
    (h : rawString? enough cs = some found) : found.1 ∈ [.literal, .unclosedRawString] := by
  unfold rawString? at h
  dsimp only at h
  split at h
  · split at h <;> obtain rfl := Option.some.inj h <;> simp
  · split at h
    · obtain rfl := Option.some.inj h
      simp
    · simp at h

theorem afterLetter_cls (c : Char) (cs : List Char) :
    (afterLetter c cs).1 ∈ [.word, .name, .rawName, .literal, .unclosedRawString] := by
  have hword (cs : List Char) :
      (word cs).1 ∈ [.word, .name, .rawName, .literal, .unclosedRawString] :=
    List.mem_append_left [Class.rawName, .literal, .unclosedRawString] (word_cls cs)
  have hraw {enough : Nat} {cs : List Char} {found : Class × Nat}
      (h : rawString? enough cs = some found) :
      found.1 ∈ [.word, .name, .rawName, .literal, .unclosedRawString] :=
    List.mem_append_right [Class.word, .name, .rawName] (rawString?_cls h)
  unfold afterLetter
  split
  · split
    · next cls n heq =>
      have hcls := hraw heq
      exact hcls
    · exact hword _
  · split
    · next heq => exact hraw heq
    · split
      · split
        · simp
        · exact hword _
      · exact hword _
  · exact hword _

theorem afterMark_cls (c : Char) (cs : List Char) :
    (afterMark c cs).1 ∉ [.blank, .lineComment, .word, .name, .rawName] := by
  unfold afterMark
  split <;> try simp
  split <;> simp

/-- Only two slashes begin a line comment, and it lasts up to the end of the line. -/
theorem after_eq_lineComment {c : Char} {cs : List Char} (h : (after c cs).1 = .lineComment) :
    c = '/' ∧ ∃ ds, cs = '/' :: ds ∧ (after c cs).2 = run (· ≠ '\n') ds + 1 := by
  revert h
  refine after_cases (motive := fun f => (f cs).1 = .lineComment →
    c = '/' ∧ ∃ ds, cs = '/' :: ds ∧ (f cs).2 = run (· ≠ '\n') ds + 1) c
    ?blank ?slash ?quote ?doubleQuote ?digit ?letter ?mark
  case slash =>
    intro hc h
    refine ⟨hc, ?_⟩
    unfold afterSlash at h ⊢
    split at h
    · next ds => exact ⟨ds, rfl, rfl⟩
    · split at h <;> simp at h
    · simp at h
  case quote => exact fun _ h => by simpa [h] using afterQuote_cls cs
  case doubleQuote => exact fun _ h => by simpa [h] using afterDoubleQuote_cls cs
  case letter => exact fun _ h => by simpa [h] using afterLetter_cls c cs
  case mark => exact fun h => by simpa [h] using afterMark_cls c cs
  all_goals simp

/-- Blanks that follow each other are one lexeme. -/
theorem after_eq_blank {c : Char} {cs : List Char} (h : (after c cs).1 = .blank) :
    isSkipped c ∧ (after c cs).2 = run isSkipped cs := by
  revert h
  refine after_cases (motive := fun f => (f cs).1 = .blank → isSkipped c ∧ (f cs).2 = run isSkipped cs) c
    ?blank ?slash ?quote ?doubleQuote ?digit ?letter ?mark
  case blank => exact fun hc _ => ⟨hc, rfl⟩
  case slash => exact fun _ h => by simpa [h] using afterSlash_cls cs
  case quote => exact fun _ h => by simpa [h] using afterQuote_cls cs
  case doubleQuote => exact fun _ h => by simpa [h] using afterDoubleQuote_cls cs
  case digit => simp
  case letter => exact fun _ h => by simpa [h] using afterLetter_cls c cs
  case mark => exact fun h => by simpa [h] using afterMark_cls c cs

/-- A line comment holds no newline, and the source ends after it or goes on with one. -/
theorem lineComment_of_split {cs : List Char} {before rest : List Lexeme} {x : Lexeme}
    (h : split cs = before ++ x :: rest) (hx : x.cls = .lineComment) :
    '\n' ∉ x.text ∧ (rest.flatMap text = [] ∨ ∃ bs, rest.flatMap text = '\n' :: bs) := by
  obtain ⟨c, cs, rfl, hrest⟩ := exists_after_of_split h
  obtain ⟨rfl, ds, rfl, hn⟩ := after_eq_lineComment hx
  have htake : ds.take (run (· ≠ '\n') ds) = ds.takeWhile (· ≠ '\n') := take_run _ ds
  have hdrop : ds.drop (run (· ≠ '\n') ds) = ds.dropWhile (· ≠ '\n') := drop_run _ ds
  rw [hrest, hn, List.take_succ_cons, List.drop_succ_cons, htake, hdrop]
  constructor
  · have hline : '\n' ∉ ds.takeWhile (· ≠ '\n') := fun hmem => by
      simpa using List.mem_takeWhile_imp hmem
    simpa using hline
  · cases hafter : ds.dropWhile (· ≠ '\n') with
    | nil => exact .inl rfl
    | cons d bs =>
      have hnot := List.head?_dropWhile_not (· ≠ '\n') ds
      rw [hafter] at hnot
      obtain rfl : d = '\n' := by simpa using hnot
      exact .inr ⟨bs, rfl⟩

end Lexeme

namespace Lexed

open Lexeme

/-- A token was read from one lexeme, and its span is the place of that lexeme. -/
theorem exists_lexeme_of_mem_tokens {errorsLeft offset : Nat} {xs : List Lexeme} {t : Token}
    (h : t ∈ (ofLexemes errorsLeft offset xs).tokens) : ∃ before x after, xs = before ++ x :: after ∧
      meaning x = some (.ok t.kind) ∧
      t.span = ⟨offset + Text.byteLength (before.flatMap text),
        offset + Text.byteLength (before.flatMap text) + Text.byteLength x.text⟩ := by
  -- What holds after a lexeme holds with that lexeme in front.
  have later {offset : Nat} {x : Lexeme} {xs : List Lexeme}
      (h : ∃ before y after, xs = before ++ y :: after ∧ meaning y = some (.ok t.kind) ∧
        t.span = ⟨offset + Text.byteLength x.text + Text.byteLength (before.flatMap text),
          offset + Text.byteLength x.text + Text.byteLength (before.flatMap text) +
            Text.byteLength y.text⟩) :
      ∃ before y after, x :: xs = before ++ y :: after ∧ meaning y = some (.ok t.kind) ∧
        t.span = ⟨offset + Text.byteLength (before.flatMap text),
          offset + Text.byteLength (before.flatMap text) + Text.byteLength y.text⟩ := by
    obtain ⟨before, y, after, rfl, hy, hspan⟩ := h
    exact ⟨x :: before, y, after, rfl, hy, by simp [hspan, Nat.add_assoc]⟩
  fun_induction ofLexemes errorsLeft offset xs with
  | case1 => simp at h
  | case2 => simp at h
  | case3 _ _ _ _ _ _ ih => exact later (ih h)
  | case4 _ _ x xs _ _ hx _ ih =>
    rcases List.mem_cons.mp h with rfl | h
    · exact ⟨[], x, xs, rfl, hx, rfl⟩
    · exact later (ih h)
  | case5 _ _ _ _ _ _ _ _ ih => exact later (ih h)

/-- A token of a source, the end of the file apart, is one lexeme of the source. -/
theorem exists_lexeme_of_mem_ofString {source : String} {t : Token} (ht : t ∈ (ofString source).tokens)
    (heof : t.kind ≠ .eof) : ∃ before x after, split source.toList = before ++ x :: after ∧
      meaning x = some (.ok t.kind) ∧
      t.span = ⟨Text.byteLength (before.flatMap text),
        Text.byteLength (before.flatMap text) + Text.byteLength x.text⟩ ∧
      source.toList = before.flatMap text ++ (x.text ++ after.flatMap text) := by
  have hbody : t ∈ (ofLexemes maxErrors 0 (split source.toList)).tokens := by
    rcases List.mem_append.mp ht with ht | ht
    · exact ht
    · obtain rfl := List.mem_singleton.mp ht
      exact absurd rfl heof
  obtain ⟨before, x, after, hsplit, hx, hplace⟩ := exists_lexeme_of_mem_tokens hbody
  rw [Nat.zero_add] at hplace
  have hsource : source.toList = before.flatMap text ++ (x.text ++ after.flatMap text) := by
    have hflat := flatMap_text_split source.toList
    rw [hsplit] at hflat
    simpa using hflat.symm
  exact ⟨before, x, after, hsplit, hx, hplace, hsource⟩

/-- No token begins before the end of those before it. -/
theorem pairwise_tokens (errorsLeft offset : Nat) (xs : List Lexeme) :
    (ofLexemes errorsLeft offset xs).tokens.Pairwise (·.span.stop ≤ ·.span.start) := by
  fun_induction ofLexemes errorsLeft offset xs with
  | case1 => exact .nil
  | case2 => exact .nil
  | case3 _ _ _ _ _ _ ih => exact ih
  | case4 _ _ _ _ _ _ _ _ ih =>
    refine List.pairwise_cons.mpr ⟨fun t ht => ?_, ih⟩
    obtain ⟨before, x, after, -, -, hspan⟩ := exists_lexeme_of_mem_tokens ht
    rw [hspan]
    exact Nat.le_add_right _ _
  | case5 _ _ _ _ _ _ _ _ ih => exact ih

end Lexed

open Text

/-- A comment of this text that ends a line, with what stands before and after it in the source. -/
structure EndsLine (source text : String) (span : Span) (before comment after : List Char) : Prop where
  source_eq : source.toList = before ++ (comment ++ after)
  start_eq : span.start = byteLength before
  stop_eq : span.stop = byteLength before + byteLength comment
  oneLine : '\n' ∉ comment
  ends : after = [] ∨ ∃ bs, after = '\n' :: bs
  begins : comment.head? = some '/'
  suffix : text.toList <:+ trimReturns comment

namespace EndsLine

variable {source text : String} {span : Span} {before comment after : List Char}

theorem lineOf_start (h : EndsLine source text span before comment after) :
    (LineMap.ofString source).lineOf span.start = before.count '\n' + 1 := by
  rw [h.start_eq, LineMap.lineOf_byteLength h.source_eq]

/-- The line of the comment ends with the comment's text. -/
theorem exists_lineText? (h : EndsLine source text span before comment after) : ∃ line,
    (LineMap.ofString source).lineText? source ((LineMap.ofString source).lineOf span.start) =
      some line ∧ text.toList <:+ line.toList := by
  obtain ⟨front, hpart⟩ := exists_part_append before h.oneLine h.ends
  rw [← h.source_eq] at hpart
  have hline := LineMap.lineText?_of_getElem?_splitOn hpart
  have hne : trimReturns comment ≠ [] := by
    obtain ⟨cs, hcs⟩ := List.head?_eq_some_iff.mp h.begins
    rw [hcs, trimReturns, ne_eq, dropEndWhile_eq_nil_iff]
    exact fun hall => absurd (hall '/' List.mem_cons_self) (by decide)
  refine ⟨_, by rw [h.lineOf_start, hline], ?_⟩
  rw [String.toList_ofList, trimReturns_append hne]
  exact h.suffix.trans (List.suffix_append _ _)

/-- Another comment that comes later is on a later line. -/
theorem lineOf_lt {text' : String} {span' : Span} {before' comment' after' : List Char}
    (h : EndsLine source text span before comment after)
    (h' : EndsLine source text' span' before' comment' after') (hle : span.stop ≤ span'.start) :
    (LineMap.ofString source).lineOf span.start < (LineMap.ofString source).lineOf span'.start := by
  have heq : (before ++ comment) ++ after = before' ++ (comment' ++ after') := by
    rw [List.append_assoc, ← h.source_eq, h'.source_eq]
  rw [h.stop_eq, h'.start_eq, ← byteLength_append] at hle
  obtain ⟨mid, hmid, hafter⟩ := exists_append_of_byteLength_le heq hle
  obtain ⟨cs, hcs⟩ := List.head?_eq_some_iff.mp h'.begins
  -- Between the two comments the first line ends.
  have hnewline : '\n' ∈ mid := by
    rcases h.ends with rfl | ⟨bs, rfl⟩
    · simp [hcs] at hafter
    · cases mid with
      | nil => simp [hcs] at hafter
      | cons c mid =>
        obtain ⟨rfl, -⟩ := List.cons.inj hafter
        exact List.mem_cons_self
  have hcount := List.count_pos_iff.mpr hnewline
  rw [h.lineOf_start, h'.lineOf_start, hmid, List.count_append, List.count_append]
  omega

end EndsLine

/-- The text and the place of a doc comment. -/
def Token.comment? (t : Token) : Option (String × Span) :=
  match t.kind with
  | .outerDoc text | .innerDoc text => some (text, t.span)
  | _ => none

/-- Three slashes begin a doc comment that is a line comment and documents what follows. -/
def Span.IsLineDoc (source : String) (span : Span) : Prop :=
  ∃ comment, span.text? source = some comment ∧ "///".toList <+: comment.toList

theorem DocText.suffix_of_ofLineComment? {comment : List Char} {kind : Token.Kind} {text : String}
    (h : ofLineComment? comment = some kind) (hkind : kind = .outerDoc text ∨ kind = .innerDoc text) :
    text.toList <:+ trimReturns comment := by
  have hdrop (cs : List Char) : dropSpace cs <:+ cs := by
    unfold dropSpace
    split
    · exact List.suffix_cons _ _
    · exact List.suffix_refl _
  have hmarks {a b c : Char} {cs : List Char} (heq : trimReturns comment = a :: b :: c :: cs) :
      (String.ofList (dropSpace cs)).toList <:+ trimReturns comment := by
    rw [heq, String.toList_ofList]
    exact (hdrop cs).trans (List.suffix_append [a, b, c] cs)
  unfold ofLineComment? at h
  split at h
  · simp at h
  · next heq =>
    obtain rfl := Option.some.inj h
    rcases hkind with hkind | hkind
    · obtain rfl := Token.Kind.outerDoc.inj hkind
      exact hmarks heq
    · simp at hkind
  · next heq =>
    obtain rfl := Option.some.inj h
    rcases hkind with hkind | hkind
    · simp at hkind
    · obtain rfl := Token.Kind.innerDoc.inj hkind
      exact hmarks heq
  · simp at h

theorem DocText.of_ofBlockComment? {comment : List Char} {kind : Token.Kind}
    (h : ofBlockComment? comment = some kind) : ∃ cs, comment = '/' :: '*' :: cs := by
  unfold ofBlockComment? at h
  dsimp only at h
  split at h
  · simp at h
  · simp at h
  · exact ⟨_, rfl⟩
  · exact ⟨_, rfl⟩
  · simp at h

/-- Doc comments are read from comments. -/
theorem Lexed.meaning_eq_doc {x : Lexeme} {kind : Token.Kind} {text : String}
    (h : meaning x = some (.ok kind)) (hkind : kind = .outerDoc text ∨ kind = .innerDoc text) :
    (x.cls = .lineComment ∧ DocText.ofLineComment? x.text = some kind) ∨
      x.cls = .blockComment ∧ DocText.ofBlockComment? x.text = some kind := by
  unfold meaning at h
  split at h
  case h_2 hcls => exact .inl ⟨hcls, by simpa using h⟩
  case h_3 hcls => exact .inr ⟨hcls, by simpa using h⟩
  case h_9 =>
    exfalso
    have h := Except.ok.inj (Option.some.inj h)
    cases hword : Keyword.ofString? (String.ofList x.text) <;> rw [hword] at h <;>
      rcases hkind with rfl | rfl <;> simp at h
  all_goals rcases hkind with rfl | rfl <;> simp at h

theorem DocText.ofLineComment?_ne_innerDoc (cs : List Char) (text : String) :
    ofLineComment? ('/' :: '/' :: '/' :: cs) ≠ some (.innerDoc text) := by
  have hfront := isPrefix_trimReturns ('/' :: '/' :: '/' :: cs)
  unfold ofLineComment?
  split
  · simp
  · simp
  · next heq =>
    rw [heq] at hfront
    obtain ⟨ds, hds⟩ := hfront
    simp at hds
  · simp

/-- A doc comment is one lexeme of the source. -/
theorem Token.exists_lexeme_of_comment? {source : String} {t : Token} (ht : t ∈ (Lexed.ofString source).tokens)
    {text : String} {span : Span} (hcomment : t.comment? = some (text, span)) :
    (t.kind = .outerDoc text ∨ t.kind = .innerDoc text) ∧ ∃ before x after,
      Lexeme.split source.toList = before ++ x :: after ∧ Lexed.meaning x = some (.ok t.kind) ∧
      source.toList = before.flatMap Lexeme.text ++ (x.text ++ after.flatMap Lexeme.text) ∧
      span.start = byteLength (before.flatMap Lexeme.text) ∧
      span.stop = byteLength (before.flatMap Lexeme.text) + byteLength x.text ∧
      span.text? source = some (String.ofList x.text) := by
  obtain ⟨rfl, hkind⟩ : span = t.span ∧ (t.kind = .outerDoc text ∨ t.kind = .innerDoc text) := by
    unfold comment? at hcomment
    split at hcomment <;> simp_all
  have heof : t.kind ≠ .eof := by rcases hkind with hkind | hkind <;> simp [hkind]
  obtain ⟨before, x, after, hsplit, hx, hplace, hsource⟩ := Lexed.exists_lexeme_of_mem_ofString ht heof
  have hat := Span.text?_append (before.flatMap Lexeme.text) x.text (after.flatMap Lexeme.text)
  rw [← hsource, String.ofList_toList, ← hplace] at hat
  exact ⟨hkind, before, x, after, hsplit, hx, hsource, by rw [hplace], by rw [hplace], hat⟩

/-- A doc comment that begins with three slashes in the source documents what follows, and it ends its
line. -/
theorem Token.exists_endsLine {source : String} {t : Token} (ht : t ∈ (Lexed.ofString source).tokens)
    {text : String} {span : Span} (hcomment : t.comment? = some (text, span))
    (hspan : span.IsLineDoc source) : t.kind = .outerDoc text ∧
      ∃ before comment after, EndsLine source text span before comment after := by
  obtain ⟨hkind, before, x, after, hsplit, hx, hsource, hstart, hstop, hat⟩ :=
    t.exists_lexeme_of_comment? ht hcomment
  obtain ⟨comment, htext, cs, hcs⟩ := hspan
  rw [htext] at hat
  obtain rfl := Option.some.inj hat
  have hslashes : x.text = '/' :: '/' :: '/' :: cs := by simpa using hcs.symm
  rcases Lexed.meaning_eq_doc hx hkind with ⟨hcls, hline⟩ | ⟨-, hblock⟩
  · obtain ⟨honeLine, hends⟩ := Lexeme.lineComment_of_split hsplit hcls
    have houter : t.kind = .outerDoc text := by
      refine hkind.resolve_right fun hinner => ?_
      rw [hslashes, hinner] at hline
      exact DocText.ofLineComment?_ne_innerDoc cs text hline
    exact ⟨houter, _, x.text, _, hsource, hstart, hstop, honeLine, hends, by rw [hslashes]; rfl,
      DocText.suffix_of_ofLineComment? hline hkind⟩
  · obtain ⟨ds, hds⟩ := DocText.of_ofBlockComment? hblock
    simp [hslashes] at hds

/-- The tokens of a source follow each other. -/
theorem Lexed.pairwise_tokens_ofString (source : String) :
    (ofString source).tokens.Pairwise (·.span.stop ≤ ·.span.start) := by
  refine List.pairwise_append.mpr ⟨pairwise_tokens _ _ _, List.pairwise_singleton _ _, ?_⟩
  intro t ht eof heof
  obtain ⟨before, x, after, hsplit, -, hplace⟩ := exists_lexeme_of_mem_tokens ht
  obtain rfl := List.mem_singleton.mp heof
  have hflat := Lexeme.flatMap_text_split source.toList
  rw [hsplit] at hflat
  rw [hplace, ← hflat]
  simp

end Doctest
