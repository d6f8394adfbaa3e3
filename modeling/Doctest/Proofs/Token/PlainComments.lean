import Doctest.Proofs.Token.Breaks
import Doctest.Proofs.Token.Coverage
import Doctest.Proofs.Token.DocForms
import Doctest.Proofs.Token.Openers

/-! Comments that document nothing. One that is put in right after a token, on a line of its own, leaves every token
of the source as it is, and brings none. -/
namespace Doctest

namespace Lexeme

open Text

/-- A block comment is read up to its end. -/
theorem Closes.commentTail?_append {depth : Nat} {cs : List Char} (h : Closes depth cs) (rest : List Char) :
    commentTail? depth (cs ++ rest) = some cs.length := by
  induction h with
  | stop => simp [commentTail?]
  | opening _ ih => simp [commentTail?, ih]
  | closing _ ih => simp [commentTail?, ih]
  | @char depth c cs hopen hclose hcs ih =>
    obtain ⟨d, ds, rfl⟩ : ∃ d ds, cs = d :: ds := by
      cases hcs with
      | stop => exact ⟨_, _, rfl⟩
      | opening => exact ⟨_, _, rfl⟩
      | closing => exact ⟨_, _, rfl⟩
      | char => exact ⟨_, _, rfl⟩
    have hapart : Apart c d := by
      constructor
      · rintro ⟨rfl, rfl⟩
        exact hopen ⟨ds, rfl⟩
      · rintro ⟨rfl, rfl⟩
        exact hclose ⟨ds, rfl⟩
    rw [List.cons_append, List.cons_append, commentTail?_cons hapart, ← List.cons_append, ih]
    rfl

/-- No blank goes on after the lexeme that it is. -/
theorem not_isSkipped_after_blank {cs : List Char} {before rest : List Lexeme} {x : Lexeme}
    (h : split cs = before ++ x :: rest) (hx : x.cls = .blank) : ∀ c ∈ (rest.flatMap text).head?, ¬isSkipped c := by
  obtain ⟨c, ds, rfl, hrest⟩ := exists_after_of_split h
  obtain ⟨-, hn⟩ := after_eq_blank hx
  have hnot := List.head?_dropWhile_not isSkipped ds
  rw [hrest, hn, drop_run]
  intro d hd
  rw [Option.mem_def.mp hd] at hnot
  simpa using hnot

end Lexeme

namespace DocText

open Text Lexed

theorem ofLineComment?_eq_none {cs : List Char} (hbang : ¬['!'] <+: cs) (hslash : ['/'] <+: cs → ['/', '/'] <+: cs) :
    ofLineComment? ('/' :: '/' :: cs) = none := by
  have hne : '/' ≠ '\r' := by decide
  have hfront := isPrefix_trimReturns cs
  rw [ofLineComment?, trimReturns_cons hne, trimReturns_cons hne]
  by_cases hfirst : ['/'] <+: cs
  · obtain ⟨ds, rfl⟩ := hslash hfirst
    rw [List.cons_append, List.singleton_append, trimReturns_cons hne, trimReturns_cons hne]
    rfl
  · split
    · rfl
    · next heq =>
      obtain ⟨ds, hds⟩ := hfront
      exact absurd ⟨_, by rw [← hds, (List.cons.inj (List.cons.inj heq).2).2]; rfl⟩ hfirst
    · next heq =>
      obtain ⟨ds, hds⟩ := hfront
      exact absurd ⟨_, by rw [← hds, (List.cons.inj (List.cons.inj heq).2).2]; rfl⟩ hbang
    · rfl

theorem ofBlockComment?_eq_none {cs : List Char} (hbang : ¬['!'] <+: cs)
    (hstar : ['*'] <+: cs → ['*', '*'] <+: cs ∨ cs = ['*', '/']) : ofBlockComment? ('/' :: '*' :: cs) = none := by
  unfold ofBlockComment?
  dsimp only
  split
  · rfl
  · rfl
  · next ds hone htwo heq =>
    obtain rfl : cs = '*' :: ds := (List.cons.inj (List.cons.inj heq).2).2
    rcases hstar ⟨ds, rfl⟩ with ⟨es, hes⟩ | hend
    · exact (htwo es (List.cons.inj hes).2.symm).elim
    · exact (hone (List.cons.inj hend).2).elim
  · next ds heq => exact absurd ⟨ds, (List.cons.inj (List.cons.inj heq).2).2.symm⟩ hbang
  · rfl

end DocText

namespace Lexed

open Text Lexeme

/-- What lexemes contribute, without the places. -/
def meanings (xs : List Lexeme) : List (Except LexError.Cause Token.Kind) :=
  xs.filterMap meaning

@[simp]
theorem meanings_append (xs ys : List Lexeme) : meanings (xs ++ ys) = meanings xs ++ meanings ys :=
  List.filterMap_append

/-- Lexemes without errors have the tokens of their meanings. -/
theorem exists_spells_iff (offset : Nat) {xs : List Lexeme} {kinds : List Token.Kind} :
    (∃ ts, Spells offset xs ts ∧ ts.map Token.kind = kinds) ↔ meanings xs = kinds.map .ok := by
  induction xs generalizing offset kinds with
  | nil =>
    constructor
    · rintro ⟨ts, hts, rfl⟩
      cases hts
      rfl
    · intro h
      obtain rfl : kinds = [] := List.map_eq_nil_iff.mp h.symm
      exact ⟨[], .nil, rfl⟩
  | cons x xs ih =>
    constructor
    · rintro ⟨ts, hts, rfl⟩
      cases hts with
      | gap hx hts =>
        have hrest := (ih _).mp ⟨_, hts, rfl⟩
        simpa [meanings, hx] using hrest
      | token hx hts =>
        have hrest := (ih _).mp ⟨_, hts, rfl⟩
        simpa [meanings, hx] using hrest
    · intro h
      cases hx : meaning x with
      | none =>
        obtain ⟨ts, hts, hkinds⟩ := (ih _).mpr (by simpa [meanings, hx] using h)
        exact ⟨ts, .gap hx hts, hkinds⟩
      | some m =>
        cases kinds with
        | nil => simp [meanings, hx] at h
        | cons kind kinds =>
          obtain ⟨rfl, hrest⟩ : m = .ok kind ∧ meanings xs = kinds.map .ok := by simpa [meanings, hx] using h
          obtain ⟨ts, hts, rfl⟩ := (ih _).mpr hrest
          exact ⟨_, .token hx hts, rfl⟩

theorem ofString_kinds_iff {source : String} {kinds : List Token.Kind} :
    ((ofString source).errors = [] ∧ (ofString source).tokens.map Token.kind = kinds ++ [.eof]) ↔
      meanings (split source.toList) = kinds.map .ok := by
  rw [← exists_spells_iff 0]
  constructor
  · rintro ⟨herrors, hkinds⟩
    obtain ⟨ts, htokens, hts⟩ := Spells.of_ofString herrors
    rw [htokens, List.map_append] at hkinds
    exact ⟨ts, hts, List.append_cancel_right hkinds⟩
  · rintro ⟨ts, hts, rfl⟩
    have hread : ofLexemes maxErrors 0 (split source.toList) = ⟨ts, []⟩ := (Spells.iff_ofLexemes 19).mp hts
    simp [ofString, hread]

/-- Blanks in front of a text change nothing. -/
theorem meanings_split_blank {c : Char} (hc : isSkipped c) (cs : List Char) :
    meanings (split (c :: cs)) = meanings (split cs) := by
  have hdrop : meanings (split (cs.dropWhile isSkipped)) = meanings (split cs) := by
    cases cs with
    | nil => rfl
    | cons d ds =>
      by_cases hd : isSkipped d
      · rw [split_of_blanks hd, List.dropWhile_cons_of_pos hd]
        rfl
      · rw [List.dropWhile_cons_of_neg hd]
  rw [split_of_blanks hc, ← hdrop]
  rfl

theorem meanings_split_blanks {bs : List Char} (hbs : ∀ c ∈ bs, isSkipped c) (cs : List Char) :
    meanings (split (bs ++ cs)) = meanings (split cs) := by
  induction bs with
  | nil => rfl
  | cons b bs ih =>
    rw [List.cons_append, meanings_split_blank (hbs b List.mem_cons_self)]
    exact ih fun c hc => hbs c (List.mem_cons_of_mem b hc)

/-- What is silent before some text stays silent whatever the text goes on with. -/
theorem meanings_split_silent {comment : List Char} {c : Char} (h : Silent comment [c]) (rest : List Char) :
    meanings (split (comment ++ c :: rest)) = meanings (split (c :: rest)) := by
  cases h with
  | blank hblank =>
    exact meanings_split_blanks (fun d hd => by simpa [isSkipped, or_assoc] using hblank d hd) _
  | @lineComment cs _ hline hnext hbang hslash =>
    obtain rfl : c = '\n' := by simpa using hnext
    have hplain : meaning ⟨.lineComment, '/' :: '/' :: cs⟩ = none := by
      simp [meaning, DocText.ofLineComment?_eq_none hbang hslash]
    rw [List.cons_append, List.cons_append, split_lineComment hline]
    simp [meanings, hplain]
  | @blockComment cs _ hcs hbang hstar =>
    have hplain : meaning ⟨.blockComment, '/' :: '*' :: cs⟩ = none := by
      simp [meaning, DocText.ofBlockComment?_eq_none hbang hstar]
    have hsplit := Opener.split_append .comment (cs ++ c :: rest)
    simp only [Opener.tail?, hcs.commentTail?_append] at hsplit
    rw [List.take_left, List.drop_left] at hsplit
    have htext : '/' :: '*' :: cs ++ c :: rest = Opener.comment.text ++ (cs ++ c :: rest) := rfl
    rw [htext, hsplit]
    exact List.filterMap_cons_none hplain

/-- No name of these lexemes is spelled as a keyword is, and no quote of them stands alone. -/
structure Plain (xs : List Lexeme) : Prop where
  name : ∀ x ∈ xs, x.cls = .name → ∀ k : Keyword, x.text ≠ k.spelling.toList
  quote : ∀ x ∈ xs, x.cls = .punct → x.text ≠ ['\''] ∧ x.text ≠ ['"']

theorem Plain.mono {xs ys : List Lexeme} (h : Plain xs) (hys : ∀ y ∈ ys, y ∈ xs) : Plain ys :=
  ⟨fun y hy => h.name y (hys y hy), fun y hy => h.quote y (hys y hy)⟩

/-- A name that is read as a word has the same meaning unless it is spelled as a keyword. -/
theorem Plain.meanings_eq {xs ys : List Lexeme} (h : Plain xs) (hys : List.Forall₂ Rereads xs ys) :
    meanings ys = meanings xs := by
  induction hys with
  | nil => rfl
  | @cons x y xs ys hxy _ ih =>
    have hrest := ih (h.mono fun z hz => List.mem_cons_of_mem x hz)
    have hmeaning : meaning y = meaning x := by
      rcases hxy with rfl | ⟨hcls, rfl⟩
      · rfl
      · have hword : Keyword.ofString? (String.ofList x.text) = none := by
          refine List.find?_eq_none.mpr fun k _ hk => h.name x List.mem_cons_self hcls k ?_
          rw [eq_of_beq hk, String.toList_ofList]
        simp [meaning, hcls, hword]
    simp only [meanings, List.filterMap_cons, hmeaning] at hrest ⊢
    rw [hrest]

/-- A comment that is put in before a text, after a newline of its own. -/
theorem meanings_split_insert {us v : List Char} {xs : List Lexeme} (hsplit : split (us ++ v) = xs ++ split v)
    (hcls : ∀ x ∈ xs, x.cls ∉ unfinished) (hplain : Plain xs) (hlast : ∀ x ∈ xs.getLast?, x.cls ≠ .blank)
    {comment : List Char} {c : Char} (hc : isSkipped c) (hcomment : Silent comment [c]) :
    meanings (split (us ++ '\n' :: (comment ++ c :: v))) = meanings (split (us ++ v)) := by
  obtain ⟨ys, hys, hreads⟩ :=
    exists_split_append_of_break (.newline v (comment ++ c :: v)) hsplit hcls hplain.quote hlast
  rw [hys, hsplit, meanings_append, meanings_append, hplain.meanings_eq hreads,
    meanings_split_blank (by decide), meanings_split_silent hcomment, meanings_split_blank hc]

/-- The same at the end of a text, where blanks may stand before the comment. -/
theorem meanings_split_insert_end {cs : List Char} (hcls : ∀ x ∈ split cs, x.cls ∉ unfinished)
    (hplain : Plain (split cs)) {comment : List Char} {c : Char} (hc : isSkipped c) (hcomment : Silent comment [c]) :
    meanings (split (cs ++ '\n' :: (comment ++ [c]))) = meanings (split cs) := by
  have hinsert : meanings (split ('\n' :: (comment ++ [c]))) = [] := by
    rw [meanings_split_blank (by decide), meanings_split_silent hcomment, meanings_split_blank hc, split_nil]
    rfl
  by_cases hblank : ∃ x ∈ (split cs).getLast?, x.cls = .blank
  · obtain ⟨x, hx, hxcls⟩ := hblank
    obtain ⟨xs, hxs, hcs, hrest, hbs⟩ := exists_of_last_blank hx hxcls
    obtain ⟨b, bs, htext⟩ := List.exists_cons_of_ne_nil (text_ne_nil_of_mem_split (List.mem_of_mem_getLast? hx))
    have hb : isSkipped b := hbs b (by simp [htext])
    have hmem : ∀ y ∈ xs, y ∈ split cs := fun y hy => by
      rw [hxs]
      exact List.mem_append_left _ hy
    have hbreak : Break x.text (x.text ++ '\n' :: (comment ++ [c])) := by
      rw [htext]
      exact .blank hb _ _
    have hlast : ∀ y ∈ xs.getLast?, y.cls ≠ .blank := by
      intro y hy hycls
      obtain ⟨ws, rfl⟩ := List.getLast?_eq_some_iff.mp hy
      rw [List.append_assoc, List.singleton_append] at hxs
      exact not_isSkipped_after_blank hxs hycls b (by simp [htext]) hb
    have hsplit : split (xs.flatMap text ++ x.text) = xs ++ split x.text := by rw [← hcs, hxs, hrest]
    obtain ⟨ys, hys, hreads⟩ := exists_split_append_of_break hbreak hsplit (fun y hy => hcls y (hmem y hy))
      (hplain.mono hmem).quote hlast
    have hxmeaning : meaning x = none := by simp [meaning, hxcls]
    rw [← List.append_assoc, ← hcs] at hys
    rw [hys, hxs, meanings_append, meanings_append, (hplain.mono hmem).meanings_eq hreads, meanings_split_blanks hbs,
      hinsert]
    simp [meanings, hxmeaning]
  · have hwhole : split (cs ++ []) = split cs ++ split [] := by simp [split_nil]
    have hread := meanings_split_insert hwhole hcls hplain (fun x hx hxcls => hblank ⟨x, hx, hxcls⟩) hc hcomment
    simpa using hread

/-- What a lexeme contributes to a source without errors stands in the source as the lexeme does. -/
theorem exists_token_of_meaning {source : String} (herrors : (ofString source).errors = [])
    {before after : List Lexeme} {x : Lexeme} (hsplit : split source.toList = before ++ x :: after)
    {kind : Token.Kind} (hx : meaning x = some (.ok kind)) :
    ∃ t ∈ (ofString source).tokens, t.kind = kind ∧ t.span.text? source = some (String.ofList x.text) := by
  obtain ⟨ts, htokens, hts⟩ := Spells.of_ofString herrors
  rw [hsplit] at hts
  obtain ⟨as, bs, rfl, -, hbs⟩ := hts.exists_of_lexemes_append
  have hsource : source = String.ofList (before.flatMap text ++ (x.text ++ after.flatMap text)) := by
    have htext := flatMap_text_split source.toList
    rw [hsplit] at htext
    rw [← String.ofList_toList (s := source), ← htext]
    simp
  cases hbs with
  | gap hgap => simp [hx] at hgap
  | @token _ _ _ own _ hown _ =>
    obtain rfl : kind = own := Except.ok.inj (Option.some.inj (hx.symm.trans hown))
    refine ⟨_, htokens ▸ List.mem_append_left _ (List.mem_append_right as List.mem_cons_self), rfl, ?_⟩
    rw [hsource, Nat.zero_add]
    exact Span.text?_append _ _ _

theorem plain_of_tokens {source : String} (herrors : (ofString source).errors = [])
    (hquote : ∀ t ∈ (ofString source).tokens, t.kind ≠ .punct '\'' ∧ t.kind ≠ .punct '"')
    (hkeyword : ∀ t ∈ (ofString source).tokens, ∀ k : Keyword, t.span.text? source = some k.spelling →
      t.kind = .keyword k) : Plain (split source.toList) := by
  constructor
  · intro x hx hcls k htext
    obtain ⟨before, after, hsplit⟩ := List.append_of_mem hx
    have hmeaning : meaning x = some (.ok (.name (String.ofList x.text))) := by simp [meaning, hcls]
    obtain ⟨t, ht, hkind, hspan⟩ := exists_token_of_meaning herrors hsplit hmeaning
    rw [htext, String.ofList_toList] at hspan
    have hread := hkeyword t ht k hspan
    simp [hkind] at hread
  · intro x hx hcls
    obtain ⟨before, after, hsplit⟩ := List.append_of_mem hx
    have hmeaning : meaning x = some (.ok (.punct (x.text.headD '?'))) := by simp [meaning, hcls]
    obtain ⟨t, ht, hkind, -⟩ := exists_token_of_meaning herrors hsplit hmeaning
    obtain ⟨hsingle, hdouble⟩ := hquote t ht
    constructor
    · intro htext
      exact hsingle (by simp [hkind, htext])
    · intro htext
      exact hdouble (by simp [hkind, htext])

/-- **A comment that documents nothing changes no token.** It may stand right after any token of a source, the end
of the file included, on a new line and with a blank behind it. In the source no quote stands alone, and no keyword
was read as a name for the character after it. -/
theorem ofString_insert_comment {source : String} (herrors : (ofString source).errors = [])
    (hquote : ∀ t ∈ (ofString source).tokens, t.kind ≠ .punct '\'' ∧ t.kind ≠ .punct '"')
    (hkeyword : ∀ t ∈ (ofString source).tokens, ∀ k : Keyword, t.span.text? source = some k.spelling →
      t.kind = .keyword k) {t : Token} (ht : t ∈ (ofString source).tokens) {comment : List Char} {c : Char}
    (hc : isSkipped c) (hcomment : Silent comment [c]) :
    ∃ before after, source.toList = before ++ after ∧ byteLength before = t.span.stop ∧
      let other := String.ofList (before ++ '\n' :: (comment ++ c :: after))
      (ofString other).errors = [] ∧
        (ofString other).tokens.map Token.kind = (ofString source).tokens.map Token.kind := by
  have hplain := plain_of_tokens herrors hquote hkeyword
  obtain ⟨ts, htokens, hts⟩ := Spells.of_ofString herrors
  have hcls : ∀ x ∈ split source.toList, x.cls ∉ unfinished := fun x hx => hts.notMem_unfinished hx
  have hkinds : (ofString source).tokens.map Token.kind = ts.map Token.kind ++ [.eof] := by simp [htokens]
  have hmeanings := ofString_kinds_iff.mp ⟨herrors, hkinds⟩
  have hsame {before after : List Char} (hcut : source.toList = before ++ after)
      (hread : meanings (split (before ++ '\n' :: (comment ++ c :: after))) = meanings (split (before ++ after))) :
      let other := String.ofList (before ++ '\n' :: (comment ++ c :: after))
      (ofString other).errors = [] ∧
        (ofString other).tokens.map Token.kind = (ofString source).tokens.map Token.kind := by
    intro other
    rw [hkinds]
    refine ofString_kinds_iff.mpr ?_
    rw [String.toList_ofList, hread, ← hcut, hmeanings]
  rw [htokens] at ht
  rcases List.mem_append.mp ht with ht | ht
  · obtain ⟨front, back, rfl⟩ := List.append_of_mem ht
    obtain ⟨as, rest, hrest, -, hspells, -⟩ := hts.exists_of_append
    obtain ⟨gaps, x, bs, rfl, -, hx, hstart, hstop, -⟩ := hspells.exists_of_cons
    have hsplit : split source.toList = (as ++ gaps ++ [x]) ++ bs := by simp [hrest]
    have hbs : bs = split (bs.flatMap text) := eq_split_of_split_eq_append hsplit
    have hcut : source.toList = (as ++ gaps ++ [x]).flatMap text ++ bs.flatMap text := by
      rw [← List.flatMap_append, ← hsplit, flatMap_text_split]
    refine ⟨(as ++ gaps ++ [x]).flatMap text, bs.flatMap text, hcut, ?_, hsame hcut ?_⟩
    · rw [hstop, hstart]
      simp [Nat.add_assoc]
    · have hcutSplit : split ((as ++ gaps ++ [x]).flatMap text ++ bs.flatMap text) =
          (as ++ gaps ++ [x]) ++ split (bs.flatMap text) := by
        rw [← hcut, hsplit, ← hbs]
      have hmem : ∀ y ∈ as ++ gaps ++ [x], y ∈ split source.toList := fun y hy => by
        rw [hsplit]
        exact List.mem_append_left bs hy
      have hlast : ∀ y ∈ (as ++ gaps ++ [x]).getLast?, y.cls ≠ .blank := by
        intro y hy hblank
        obtain rfl : x = y := by simpa using hy
        simp [meaning, hblank] at hx
      exact meanings_split_insert hcutSplit (fun y hy => hcls y (hmem y hy)) (hplain.mono hmem) hlast hc hcomment
  · obtain rfl := List.mem_singleton.mp ht
    refine ⟨source.toList, [], by simp, rfl, hsame (by simp) ?_⟩
    rw [List.append_nil]
    exact meanings_split_insert_end hcls hplain hc hcomment

/-- A comment after a sign that begins a comment itself before another one. -/
theorem ofString_insert_comment_slash :
    let source := "fn/é"
    let comment := "/*/*'\x7b*/*/".toList
    let t : Token := ⟨.punct '/', ⟨2, 3⟩⟩
    ((ofString source).errors = [] ∧
      (∀ t ∈ (ofString source).tokens, t.kind ≠ .punct '\'' ∧ t.kind ≠ .punct '"') ∧
      (∀ t ∈ (ofString source).tokens, ∀ k : Keyword, t.span.text? source = some k.spelling → t.kind = .keyword k) ∧
      t ∈ (ofString source).tokens ∧ isSkipped ' ' ∧ Silent comment [' ']) ∧
    ∃ before after, source.toList = before ++ after ∧ byteLength before = 3 ∧
      let other := String.ofList (before ++ '\n' :: (comment ++ ' ' :: after))
      (ofString other).errors = [] ∧
        (ofString other).tokens.map Token.kind = (ofString source).tokens.map Token.kind := by
  intro source comment t
  have herrors : (ofString source).errors = [] := by decide +kernel
  have hquote : ∀ t ∈ (ofString source).tokens, t.kind ≠ .punct '\'' ∧ t.kind ≠ .punct '"' := by decide +kernel
  have hkeywords : ∀ t ∈ (ofString source).tokens, ∀ k ∈ Keyword.all, t.span.text? source = some k.spelling →
      t.kind = .keyword k := by decide +kernel
  have hkeyword : ∀ t ∈ (ofString source).tokens, ∀ k : Keyword, t.span.text? source = some k.spelling →
      t.kind = .keyword k := fun t ht k => hkeywords t ht k k.mem_all
  have ht : t ∈ (ofString source).tokens := by decide +kernel
  have hcloses : Closes 0 "/*'\x7b*/*/".toList := by
    have htail : commentTail? 0 "/*'\x7b*/*/".toList = some 8 := by decide
    exact closes_of_commentTail? htail
  have hcomment : Silent comment [' '] := .blockComment hcloses (by decide) (by decide)
  exact ⟨⟨herrors, hquote, hkeyword, ht, by decide, hcomment⟩,
    ofString_insert_comment herrors hquote hkeyword ht (by decide) hcomment⟩

end Lexed

end Doctest
