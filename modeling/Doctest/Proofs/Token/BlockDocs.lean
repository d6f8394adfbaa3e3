import Doctest.Proofs.Snippet.Blocks
import Doctest.Proofs.Token.Coverage

/-! Doc comments that are block comments. The text has a line for each line of the comment up to the last that is
not empty, and a line that begins with an asterisk loses it, whether or not the other lines begin with one. -/
namespace Doctest

namespace Text

theorem count_dropWhile {p : Char → Bool} {c : Char} (hc : p c = false) (cs : List Char) :
    (cs.dropWhile p).count c = cs.count c := by
  have happend := List.takeWhile_append_dropWhile (p := p) (l := cs)
  have hnone : c ∉ cs.takeWhile p := fun h => by simpa [hc] using List.mem_takeWhile_imp h
  have hcount := congrArg (List.count c) happend
  rw [List.count_append, List.count_eq_zero_of_not_mem hnone, Nat.zero_add] at hcount
  exact hcount

/-- Lines that end with no carriage return, the last of which is not empty, are the lines of the text that joins
them. -/
theorem lines_joinWith {ls : List (List Char)} (hnewline : ∀ l ∈ ls, '\n' ∉ l)
    (hreturn : ∀ l ∈ ls, l.getLast? ≠ some '\r') (hlast : ∀ l ∈ ls.getLast?, l ≠ []) :
    lines (joinWith '\n' ls) = ls := by
  by_cases hne : ls = []
  · subst hne
    rfl
  · obtain ⟨front, last, rfl⟩ : ∃ front last, ls = front ++ [last] :=
      ⟨_, _, (List.dropLast_append_getLast hne).symm⟩
    have hfront : front.map dropReturn = front := by
      have hsame : ∀ l ∈ front, dropReturn l = id l := fun l hl =>
        if_neg (hreturn l (List.mem_append_left _ hl))
      rw [List.map_congr_left hsame, List.map_id]
    have hfilled : last.isEmpty = false := by
      have hnil : last ≠ [] := hlast last (by simp)
      simpa using hnil
    rw [lines, splitOn_joinWith hne hnewline, List.dropLast_concat, List.getLast?_concat, hfront]
    simp [hfilled]

end Text

namespace DocText

open Text

/-- The lines of a block comment without its marks. -/
def innerLines (comment : List Char) : List (List Char) :=
  lines ((comment.drop 3).dropLast.dropLast)

/-- A line without the blanks at its end and one space at its front. -/
def plain (line : List Char) : List Char :=
  trimEnd (dropSpace line)

/-- After the blanks at its front the line begins with an asterisk. -/
def Starred (line : List Char) : Prop :=
  ['*'] <+: trimStart line

instance (line : List Char) : Decidable (Starred line) :=
  inferInstanceAs (Decidable (_ <+: _))

theorem gutterless_of_not_starred {line : List Char} (h : ¬Starred line) : gutterless line = plain line := by
  unfold gutterless
  split
  · next text heq => exact absurd ⟨text, heq.symm⟩ h
  · rfl

theorem count_plain (line : List Char) : (plain line).count '*' = line.count '*' := by
  have hspace : (dropSpace line).count '*' = line.count '*' := by
    unfold dropSpace
    split
    · simp
    · rfl
  exact (count_dropEndWhile (by decide) (dropSpace line)).trans hspace

/-- An asterisk at the front of a line is lost. -/
theorem count_gutterless {line : List Char} (h : Starred line) :
    (gutterless line).count '*' + 1 = line.count '*' := by
  obtain ⟨text, htext⟩ := h
  have hstart : (trimStart line).count '*' = line.count '*' := count_dropWhile (by decide) line
  have hgutterless : gutterless line = plain text := by
    rw [gutterless, ← htext]
    rfl
  rw [hgutterless, count_plain, ← hstart, ← htext]
  simp

/-- A line of a comment is kept if nothing of it is lost but the blanks at its end and one space at its front. -/
def Keeps (line text : List Char) : Prop :=
  text = trimEnd line ∨ text = plain line

instance (line text : List Char) : Decidable (Keeps line text) :=
  inferInstanceAs (Decidable (_ ∨ _))

theorem keeps_gutterless_iff (line : List Char) : Keeps line (gutterless line) ↔ ¬Starred line := by
  constructor
  · intro hkeeps hstarred
    have hlost := count_gutterless hstarred
    have hkept : (gutterless line).count '*' = line.count '*' := by
      rcases hkeeps with heq | heq
      · rw [heq]
        exact count_dropEndWhile (by decide) line
      · rw [heq]
        exact count_plain line
    omega
  · intro hstarred
    exact .inr (gutterless_of_not_starred hstarred)

theorem isInfix_plain (line : List Char) : plain line <:+: line := by
  have hspace : dropSpace line <:+ line := by
    unfold dropSpace
    split
    · exact List.suffix_cons _ _
    · exact List.suffix_refl _
  exact (isPrefix_dropEndWhile isBlank (dropSpace line)).isInfix.trans hspace.isInfix

theorem isInfix_gutterless (line : List Char) : gutterless line <:+: line := by
  unfold gutterless
  split
  · next text heq =>
    have htext : text <:+ line := ⟨line.takeWhile isBlank ++ ['*'], by
      have happend := List.takeWhile_append_dropWhile (p := isBlank) (l := line)
      rw [← trimStart, heq] at happend
      simpa using happend⟩
    exact (isInfix_plain text).trans htext.isInfix
  · exact isInfix_plain line

/-- The text of a block comment has its lines without their gutter, up to the last that is not empty then. -/
theorem exists_dropped (inner : List Char) : ∃ dropped,
    (lines inner).map gutterless = lines (blockText inner) ++ dropped ∧ ∀ l ∈ dropped, l = [] := by
  let parts := (lines inner).map gutterless
  let kept := (parts.reverse.dropWhile (·.isEmpty)).reverse
  let dropped := (parts.reverse.takeWhile (·.isEmpty)).reverse
  have hparts : parts = kept ++ dropped := by
    have happend := List.takeWhile_append_dropWhile (p := fun l : List Char => l.isEmpty) (l := parts.reverse)
    rw [← List.reverse_inj, List.reverse_append, List.reverse_reverse] at happend
    exact happend.symm
  have hmem {l : List Char} (hl : l ∈ kept) : ∃ line ∈ lines inner, gutterless line = l := by
    have hpart : l ∈ parts := hparts ▸ List.mem_append_left _ hl
    exact List.mem_map.mp hpart
  have hnewline : ∀ l ∈ kept, '\n' ∉ l := by
    intro l hl hnewline
    obtain ⟨line, hline, rfl⟩ := hmem hl
    exact newline_notMem_of_mem_lines hline ((isInfix_gutterless line).subset hnewline)
  have hreturn : ∀ l ∈ kept, l.getLast? ≠ some '\r' := by
    intro l hl heq
    obtain ⟨line, -, rfl⟩ := hmem hl
    exact absurd (getLast?_dropEndWhile '\r' heq) (by decide)
  have hlast : ∀ l ∈ kept.getLast?, l ≠ [] := by
    rintro l hl rfl
    have hhead := List.head?_dropWhile_not (fun l : List Char => l.isEmpty) parts.reverse
    rw [List.getLast?_reverse] at hl
    rw [Option.mem_def.mp hl] at hhead
    simp at hhead
  refine ⟨dropped, ?_, fun l hl => ?_⟩
  · have hlines : lines (blockText inner) = kept := lines_joinWith hnewline hreturn hlast
    rw [hlines]
    exact hparts
  · have hempty := List.mem_takeWhile_imp (List.mem_reverse.mp hl)
    simpa using hempty

end DocText

namespace Lexeme

theorem Closes.exists_append {depth : Nat} {cs : List Char} (h : Closes depth cs) : ∃ ds, cs = ds ++ ['*', '/'] := by
  induction h with
  | stop => exact ⟨[], rfl⟩
  | opening _ ih =>
    obtain ⟨ds, rfl⟩ := ih
    exact ⟨'/' :: '*' :: ds, rfl⟩
  | closing _ ih =>
    obtain ⟨ds, rfl⟩ := ih
    exact ⟨'*' :: '/' :: ds, rfl⟩
  | char _ _ _ ih =>
    obtain ⟨ds, rfl⟩ := ih
    exact ⟨_ :: ds, rfl⟩

/-- A block comment stands between its marks. -/
theorem exists_of_blockComment {cs : List Char} {before rest : List Lexeme} {x : Lexeme}
    (h : split cs = before ++ x :: rest) (hx : x.cls = .blockComment) :
    ∃ ds, x.text = '/' :: '*' :: (ds ++ ['*', '/']) := by
  obtain ⟨c, es, rfl, -⟩ := exists_after_of_split h
  obtain ⟨rfl, fs, n, rfl, hn, hafter⟩ := after_eq_blockComment hx
  obtain ⟨ds, hds⟩ := (closes_of_commentTail? hn).exists_append
  refine ⟨ds, ?_⟩
  dsimp only
  rw [hafter, List.take_succ_cons, hds]

end Lexeme

namespace DocText

open Text

/-- A block comment that documents something has one more mark, and its text is made of the lines between the
marks. -/
theorem exists_of_ofBlockComment? {ds : List Char} {kind : Token.Kind} {text : String}
    (h : ofBlockComment? ('/' :: '*' :: (ds ++ ['*', '/'])) = some kind)
    (hkind : kind = .outerDoc text ∨ kind = .innerDoc text) :
    ∃ mark inner, ds = mark :: inner ∧ (mark = '*' ∨ mark = '!') ∧ text = String.ofList (blockText inner) := by
  cases ds with
  | nil => simp [ofBlockComment?] at h
  | cons mark inner =>
    have hinner : ((('/' :: '*' :: (mark :: inner ++ ['*', '/'])).drop 3).dropLast).dropLast = inner := by
      simp [List.dropLast_append_of_ne_nil]
    unfold ofBlockComment? at h
    dsimp only at h
    rw [hinner] at h
    refine ⟨mark, inner, rfl, ?_⟩
    split at h
    · simp at h
    · simp at h
    · next heq =>
      have hmark : mark = '*' := by simpa using (List.cons.inj (List.cons.inj (List.cons.inj heq).2).2).1
      obtain rfl := Option.some.inj h
      exact ⟨.inl hmark, by simpa [eq_comm] using hkind⟩
    · next heq =>
      have hmark : mark = '!' := by simpa using (List.cons.inj (List.cons.inj (List.cons.inj heq).2).2).1
      obtain rfl := Option.some.inj h
      exact ⟨.inr hmark, by simpa [eq_comm] using hkind⟩
    · simp at h

end DocText

/-- **Where a block comment that documents something stands**, and what its text is made of. -/
theorem Token.exists_block {source : String} {t : Token} (ht : t ∈ (Lexed.ofString source).tokens) {text : String}
    {span : Span} (hcomment : t.comment? = some (text, span)) {comment : String}
    (hspan : span.text? source = some comment) (hblock : "/*".toList <+: comment.toList) :
    ∃ before mark inner after, source.toList = before ++ (comment.toList ++ after) ∧
      span.start = Text.byteLength before ∧ comment.toList = '/' :: '*' :: mark :: (inner ++ ['*', '/']) ∧
      (mark = '*' ∨ mark = '!') ∧ text = String.ofList (DocText.blockText inner) := by
  obtain ⟨hkind, before, x, after, hsplit, hx, hsource, hstart, -, hat⟩ := t.exists_lexeme_of_comment? ht hcomment
  rw [hspan] at hat
  obtain rfl := Option.some.inj hat
  rw [String.toList_ofList] at hblock ⊢
  rcases Lexed.meaning_eq_doc hx hkind with ⟨hcls, -⟩ | ⟨hcls, hdoc⟩
  · -- A line comment begins with two slashes.
    obtain ⟨c, cs, rfl, -⟩ := Lexeme.exists_after_of_split hsplit
    obtain ⟨rfl, ds, rfl, hn⟩ := Lexeme.after_eq_lineComment hcls
    rw [hn, List.take_succ_cons] at hblock
    simp at hblock
  · obtain ⟨ds, hds⟩ := Lexeme.exists_of_blockComment hsplit hcls
    rw [hds] at hdoc
    obtain ⟨mark, inner, rfl, hmark, htext⟩ := DocText.exists_of_ofBlockComment? hdoc hkind
    exact ⟨_, mark, inner, _, hsource, hstart, hds, hmark, htext⟩

end Doctest
