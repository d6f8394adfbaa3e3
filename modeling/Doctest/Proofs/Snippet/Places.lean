import Doctest.Proofs.Outline.Comments
import Doctest.Proofs.Snippet.Blocks

/-! Places of snippets in a source: where the comments on an element are line comments, every line of a
snippet stands on the line of the source that has its number. -/
namespace Doctest

open Text

/-- Line comments on an element, which end their lines and go further and further down. -/
structure LineComments (source : String) (docs : Outline.Comments) : Prop where
  endsLine : ∀ d ∈ docs, ∃ before comment after, EndsLine source d.1 d.2 before comment after
  down : docs.Pairwise fun d e =>
    (LineMap.ofString source).lineOf d.2.start < (LineMap.ofString source).lineOf e.2.start

namespace LineComments

variable {source : String} {docs : Outline.Comments}

theorem of_sublist (hsub : docs.Sublist ((Lexed.ofString source).tokens.filterMap (·.comment?)))
    (hline : ∀ d ∈ docs, d.2.IsLineDoc source) : LineComments source docs := by
  have hends : ∀ d ∈ docs, ∃ before comment after, EndsLine source d.1 d.2 before comment after := by
    intro d hd
    obtain ⟨t, ht, hcomment⟩ := List.mem_filterMap.mp (hsub.subset hd)
    exact (Token.exists_endsLine ht hcomment (hline d hd)).2
  refine ⟨hends, ?_⟩
  have hplaces : ((Lexed.ofString source).tokens.filterMap (·.comment?)).Pairwise
      (·.2.stop ≤ ·.2.start) := by
    refine List.Pairwise.filterMap _ (fun t u hle d hd e he => ?_)
      (Lexed.pairwise_tokens_ofString source)
    have hspan {t : Token} {d : String × Span} (h : t.comment? = some d) : d.2 = t.span := by
      unfold Token.comment? at h
      split at h <;> simp_all [eq_comm]
    rw [hspan hd, hspan he]
    exact hle
  refine (hplaces.sublist hsub).imp_of_mem fun {d e} hd he hle => ?_
  obtain ⟨_, _, _, hd⟩ := hends d hd
  obtain ⟨_, _, _, he⟩ := hends e he
  exact hd.lineOf_lt he hle

/-- There is a line of every number up to that of a comment. -/
theorem exists_lineText?_of_le (h : LineComments source docs) {d : String × Span} (hd : d ∈ docs)
    {line : Nat} (hpos : 1 ≤ line) (hle : line ≤ (LineMap.ofString source).lineOf d.2.start) :
    ∃ text, (LineMap.ofString source).lineText? source line = some text := by
  obtain ⟨before, comment, after, hends⟩ := h.endsLine d hd
  rw [hends.lineOf_start] at hle
  obtain ⟨k, rfl⟩ := Nat.exists_eq_add_of_le' hpos
  have hlt : k < (splitOn '\n' source.toList).length := by
    rw [length_splitOn, hends.source_eq, List.count_append]
    omega
  exact ⟨_, LineMap.lineText?_of_getElem?_splitOn (List.getElem?_eq_getElem hlt)⟩

/-- Each line of the comment that the comments make stands on the line of the source that has its
number. -/
theorem exists_lineText? (h : LineComments source docs) {file : Option Path} {doc : DocComment}
    (hdoc : Outline.docComment? (.ofString source) file docs = some doc) {i : Nat} {line : List Char}
    (hi : (lines doc.text.toList)[i]? = some line) : ∃ text,
      (LineMap.ofString source).lineText? source (doc.line + i) = some text ∧ line <:+: text.toList := by
  cases docs with
  | nil => simp [Outline.docComment?] at hdoc
  | cons d docs =>
    obtain rfl := Option.some.inj hdoc
    have hone : ∀ e ∈ d :: docs, '\n' ∉ e.1.toList := by
      intro e he
      obtain ⟨_, comment, _, hends⟩ := h.endsLine e he
      exact fun hmem => hends.oneLine ((isPrefix_trimReturns comment).subset (hends.suffix.subset hmem))
    have hfirst : ∀ e ∈ d :: docs, (LineMap.ofString source).lineOf d.2.start ≤
        (LineMap.ofString source).lineOf e.2.start := by
      intro e he
      rcases List.mem_cons.mp he with rfl | he
      · exact Nat.le_refl _
      · exact Nat.le_of_lt ((List.pairwise_cons.mp h.down).1 e he)
    obtain ⟨part, hpart, hline⟩ := exists_part_of_getElem?_lines hi
    rw [String.toList_ofList, splitOn_joinWith (Outline.docLines_ne_nil _ _ (by simp))
      Outline.newline_notMem_docLines] at hpart
    obtain ⟨e, he, hbelow, hat⟩ := Outline.getElem?_docLines hone h.down hfirst hpart
    have hinfix := infix_of_dropReturn hline
    by_cases hempty : part = []
    · obtain ⟨text, htext⟩ := h.exists_lineText?_of_le he
        (Nat.le_trans (Nat.le_max_left 1 _) (Nat.le_add_right _ i)) hbelow
      rw [hempty] at hinfix
      obtain rfl := List.infix_nil.mp hinfix
      exact ⟨text, htext, List.nil_infix⟩
    · obtain ⟨hnumber, rfl⟩ := hat hempty
      obtain ⟨_, _, _, hends⟩ := h.endsLine e he
      obtain ⟨text, htext, hsuffix⟩ := hends.exists_lineText?
      exact ⟨text, by rw [hnumber, htext], hinfix.trans hsuffix.isInfix⟩

end LineComments

namespace Snippet

/-- **Snippets stand on their lines.** Where all comments on an element are line comments, the line of a
snippet holds its opening fence, and the lines after it hold the lines of its body. -/
theorem lineText?_holds_snippet {crateName : String} {file : Option Path} {source : String} {id : Nat}
    {e : Element} (he : (Outline.ofSource crateName file source).outline.get? id = some e)
    (hline : ∀ comment ∈ Outline.commentsOf crateName file source id, comment.2.IsLineDoc source)
    {doc : DocComment} (hdoc : doc ∈ e.docs) {s : Snippet} (hs : s ∈ ofComment doc) :
    (∃ (fence : Fence) (opening : List Char) (text : String),
      (lines doc.text.toList)[s.line - doc.line]? = some opening ∧ fence.Opens opening ∧
      s.attributes = Attribute.parse fence.info ∧
      (LineMap.ofString source).lineText? source s.line = some text ∧ opening <:+: text.toList) ∧
    ∀ k line, (lines s.body.toList)[k]? = some line → ∃ text,
      (LineMap.ofString source).lineText? source (s.bodyLine + k) = some text ∧
        line <:+: text.toList := by
  obtain ⟨hdocs, hsub⟩ := Outline.docs_eq_docComment? he hline
  have hcomments := LineComments.of_sublist hsub hline
  have hmade : Outline.docComment? (.ofString source) file
      (Outline.commentsOf crateName file source id) = some doc := by
    rw [hdocs] at hdoc
    exact Option.mem_toList.mp hdoc
  obtain ⟨before, fence, opening, inside, after, htext, hopen, rfl⟩ := exists_block_of_mem_ofText hs
  constructor
  · have hopening : (lines doc.text.toList)[before.length]? = some opening := by
      rw [htext, List.getElem?_append_right (Nat.le_refl _), Nat.sub_self, List.getElem?_cons_zero]
    obtain ⟨text, hat, hinfix⟩ := hcomments.exists_lineText? hmade hopening
    refine ⟨fence, opening, text, ?_, hopen, rfl, hat, hinfix⟩
    rw [Nat.add_sub_cancel_left]
    exact hopening
  · intro k line hk
    have honeLine : ∀ l ∈ inside, '\n' ∉ l := fun l hl =>
      newline_notMem_of_mem_lines (by rw [htext]; simp [hl])
    have hlt := (List.getElem?_eq_some_iff.mp hk).1
    rw [String.toList_ofList] at hk hlt
    obtain ⟨original, horiginal, hpart⟩ := Fence.exists_of_lt_length_lines honeLine hlt
    obtain ⟨part, hpart', hline⟩ := exists_part_of_getElem?_lines hk
    obtain rfl := Option.some.inj (hpart'.symm.trans hpart)
    have hat : (lines doc.text.toList)[before.length + (1 + k)]? = some original := by
      have hinside := (List.getElem?_eq_some_iff.mp horiginal).1
      rw [htext, List.getElem?_append_right (Nat.le_add_right _ _), Nat.add_sub_cancel_left,
        Nat.add_comm 1, List.getElem?_cons_succ, List.getElem?_append_left hinside, horiginal]
    obtain ⟨text, htext, hinfix⟩ := hcomments.exists_lineText? hmade hat
    refine ⟨text, ?_, ((infix_of_dropReturn hline).trans ?_).trans hinfix⟩
    · rw [bodyLine, Nat.add_assoc, Nat.add_assoc, htext]
    · exact (List.drop_suffix _ original).isInfix

/-- An attribute, a plain comment and a blank line stand between the comments, and a line ends with a
carriage return. -/
theorem lineText?_holds_snippet_apart :
    let source := "/// ```test\n#[a]\n// b\n\n  ///   x\r\n/// ```\nfn f() \x7b\x7d"
    let doc : DocComment := ⟨"```test\n\n\n\n  x\n```", none, 1⟩
    let s : Snippet := ⟨"\n\n\n  x", [⟨"test", none⟩], 1⟩
    (Outline.ofSource "c" none source).outline.get? 1 =
        some ⟨1, .function, "f", some 0, [], [doc]⟩ ∧
      (∀ comment ∈ Outline.commentsOf "c" none source 1, comment.2.IsLineDoc source) ∧
      s ∈ ofComment doc ∧ (lines s.body.toList)[3]? = some [' ', ' ', 'x'] ∧
      ∃ text, (LineMap.ofString source).lineText? source 5 = some text ∧
        [' ', ' ', 'x'] <:+: text.toList := by
  intro source doc s
  have he : (Outline.ofSource "c" none source).outline.get? 1 =
      some ⟨1, .function, "f", some 0, [], [doc]⟩ := by
    decide +kernel
  have hcomments : Outline.commentsOf "c" none source 1 =
      [("```test", ⟨0, 11⟩), ("  x", ⟨25, 33⟩), ("```", ⟨34, 41⟩)] := by
    decide +kernel
  have hline : ∀ comment ∈ Outline.commentsOf "c" none source 1, comment.2.IsLineDoc source := by
    rw [hcomments]
    simp only [List.forall_mem_cons]
    refine ⟨⟨"/// ```test", ?_, ?_⟩, ⟨"///   x\r", ?_, ?_⟩, ⟨"/// ```", ?_, ?_⟩, by simp⟩
    all_goals decide +kernel
  have hs : s ∈ ofComment doc := by
    decide +kernel
  have hbody : (lines s.body.toList)[3]? = some [' ', ' ', 'x'] := by
    decide +kernel
  exact ⟨he, hline, hs, hbody, (lineText?_holds_snippet he hline List.mem_cons_self hs).2 3 _ hbody⟩

end Snippet

end Doctest
