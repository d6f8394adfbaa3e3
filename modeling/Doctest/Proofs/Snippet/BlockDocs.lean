import Doctest.Outline.Reading
import Doctest.Proofs.Token.BlockDocs
import Mathlib.Algebra.Order.BigOperators.Group.List
import Mathlib.Algebra.Order.Ring.Nat

/-! Snippets of block comments. A line of the comment is kept if it begins with no asterisk, and a body is what was
written between the fences, up to its indentation, if none of its lines begins with one. -/
namespace Doctest

namespace Text

/-- A text that does not end with what is dropped stays where it stands. -/
theorem infix_dropEndWhile {p : Char → Bool} {l cs : List Char} (h : l <:+: cs)
    (hl : ∀ c ∈ l.getLast?, p c = false) : l <:+: dropEndWhile p cs := by
  by_cases hne : l = []
  · subst hne
    exact List.nil_infix
  · obtain ⟨front, c, rfl⟩ : ∃ front c, l = front ++ [c] := ⟨_, _, (List.dropLast_append_getLast hne).symm⟩
    obtain ⟨as, bs, rfl⟩ := h
    have hc : p c = false := hl c (by simp)
    have hkept : dropEndWhile p (c :: bs) ≠ [] := fun hnil => by
      simpa [hc] using dropEndWhile_eq_nil_iff.mp hnil c List.mem_cons_self
    obtain ⟨d, ds, hds⟩ := List.exists_cons_of_ne_nil hkept
    obtain rfl : d = c := by
      have hprefix := isPrefix_dropEndWhile p (c :: bs)
      rw [hds] at hprefix
      exact (List.cons_prefix_cons.mp hprefix).1
    have hdrop := dropEndWhile_append hkept (as ++ front)
    refine ⟨as, ds, ?_⟩
    rw [show as ++ (front ++ [d]) ++ bs = as ++ front ++ d :: bs by simp, hdrop, hds]
    simp

/-- A text without the separator stands in one part. -/
theorem exists_part_of_append {sep : Char} (before : List Char) {mid : List Char} (hmid : sep ∉ mid)
    (after : List Char) : ∃ front back,
      (splitOn sep (before ++ (mid ++ after)))[before.count sep]? = some (front ++ (mid ++ back)) := by
  obtain ⟨back, parts, hparts⟩ : ∃ back parts, splitOn sep (mid ++ after) = (mid ++ back) :: parts := by
    induction mid with
    | nil => exact exists_splitOn_eq_cons sep after
    | cons c mid ih =>
      obtain ⟨back, parts, hparts⟩ := ih fun h => hmid (List.mem_cons_of_mem c h)
      have hc : c ≠ sep := fun heq => hmid (heq ▸ List.mem_cons_self)
      exact ⟨back, parts, splitOn_cons_of_ne hc hparts⟩
  obtain ⟨front, hfront⟩ := getElem?_splitOn_append before hparts
  exact ⟨front, back, hfront⟩

theorem count_joinWith {sep c : Char} (h : c ≠ sep) (ls : List (List Char)) :
    (joinWith sep ls).count c = (ls.map (·.count c)).sum := by
  cases ls with
  | nil => rfl
  | cons l ls =>
    rw [joinWith_cons, List.count_append, List.map_cons, List.sum_cons, List.count_flatMap]
    congr 2
    refine List.map_congr_left fun part _ => ?_
    exact List.count_cons_of_ne h.symm

end Text

open Text

/-- The lines of a piece of the source stand on consecutive lines of the source. -/
theorem LineMap.exists_lineText?_of_getElem?_lines {source : String} {front piece back : List Char}
    (h : source.toList = front ++ (piece ++ back)) {k : Nat} {line : List Char}
    (hk : (lines piece)[k]? = some line) : ∃ text,
      (ofString source).lineText? source (front.count '\n' + 1 + k) = some text ∧ trimEnd line <:+: text.toList := by
  obtain ⟨part, hpart, hline⟩ := exists_part_of_getElem?_lines hk
  have honeLine : '\n' ∉ part := notMem_of_mem_splitOn (List.mem_of_getElem? hpart)
  obtain ⟨as, bs, hpiece, hcount, -, -⟩ := exists_of_getElem?_splitOn hpart
  obtain ⟨before, after, hat⟩ := exists_part_of_append (front ++ as) honeLine (bs ++ back)
  have hsource : source.toList = (front ++ as) ++ (part ++ (bs ++ back)) := by
    rw [h, hpiece]
    simp
  rw [← hsource, List.count_append, hcount] at hat
  have htext := lineText?_of_getElem?_splitOn hat
  have hinfix : trimEnd line <:+: before ++ (part ++ after) := by
    have hpart : part <:+: before ++ (part ++ after) := ⟨before, after, List.append_assoc _ _ _⟩
    exact ((isPrefix_dropEndWhile isBlank line).isInfix.trans (infix_of_dropReturn hline)).trans hpart
  have hreturn : ∀ c ∈ (trimEnd line).getLast?, decide (c = '\r') = false := by
    intro c hc
    have hblank := getLast?_dropEndWhile c hc
    refine decide_eq_false fun heq => ?_
    rw [heq] at hblank
    exact absurd hblank (by decide)
  refine ⟨String.ofList (trimReturns (before ++ (part ++ after))), ?_, ?_⟩
  · rw [Nat.add_right_comm]
    exact htext
  · rw [String.toList_ofList]
    exact infix_dropEndWhile hinfix hreturn

/-- A fence takes spaces from the front of a line, and at most its own indentation. -/
theorem Fence.exists_unindent (f : Fence) (line : List Char) :
    ∃ i ≤ f.indent, line = List.replicate i ' ' ++ f.unindent line := by
  let spaces := (line.takeWhile (· = ' ')).length
  have hspaces : line.takeWhile (· = ' ') = List.replicate spaces ' ' :=
    List.eq_replicate_iff.mpr ⟨rfl, fun c hc => by simpa using List.mem_takeWhile_imp hc⟩
  have htake : line.take (min f.indent spaces) = List.replicate (min f.indent spaces) ' ' := by
    have hprefix := List.takeWhile_prefix (· = ' ') (l := line)
    rw [hspaces] at hprefix
    obtain ⟨rest, hrest⟩ := hprefix
    have hle : min f.indent spaces ≤ (List.replicate spaces ' ').length := by
      rw [List.length_replicate]
      exact Nat.min_le_right _ _
    rw [← hrest, List.take_append_of_le_length hle, List.take_replicate]
    congr 1
    omega
  refine ⟨min f.indent spaces, Nat.min_le_left _ _, ?_⟩
  rw [← htake]
  exact (List.take_append_drop _ line).symm

namespace DocText

theorem exists_plain (line : List Char) : ∃ i ≤ 1, trimEnd line = List.replicate i ' ' ++ plain line := by
  unfold plain dropSpace
  split
  · next cs =>
    by_cases hnil : trimEnd cs = []
    · have hblank : trimEnd (' ' :: cs) = [] := by
        refine dropEndWhile_eq_nil_iff.mpr fun c hc => ?_
        rcases List.mem_cons.mp hc with rfl | hc
        · decide
        · exact dropEndWhile_eq_nil_iff.mp hnil c hc
      exact ⟨0, by omega, by rw [hblank, hnil]; rfl⟩
    · exact ⟨1, le_rfl, dropEndWhile_append hnil [' ']⟩
  · exact ⟨0, by omega, rfl⟩

theorem count_gutterless_le (line : List Char) : (gutterless line).count '*' ≤ line.count '*' :=
  (isInfix_gutterless line).sublist.count_le '*'

end DocText

namespace Snippet

open DocText

/-- A block of a comment with the lines as they are written. After the lines inside of it comes its closing line, or
nothing is read up to the end of the comment. -/
structure WrittenBlock (firstLine : Nat) (written : List (List Char)) (s : Snippet) where
  fence : Fence
  before : List (List Char)
  opening : List Char
  inside : List (List Char)
  after : List (List Char)
  written_eq : written = before ++ opening :: (inside ++ after)
  opens : fence.Opens (gutterless opening)
  notClosed : ∀ line ∈ inside, ¬fence.Closes (gutterless line)
  ends : (∃ closing rest, after = closing :: rest ∧ fence.Closes (gutterless closing)) ∨
    ∀ line ∈ after, gutterless line = []
  attributes_eq : s.attributes = Attribute.parse fence.info
  line_eq : s.line = firstLine + before.length
  body_eq : s.body = String.ofList (joinWith '\n' (inside.map fun line => fence.unindent (gutterless line)))

/-- A body has these lines, up to the blanks at their ends and to at most `indent` spaces at their fronts. -/
def Holds (indent : Nat) (inside : List (List Char)) (body : String) : Prop :=
  ∃ ls, body = String.ofList (joinWith '\n' ls) ∧
    List.Forall₂ (fun line l => ∃ i ≤ indent, trimEnd line = List.replicate i ' ' ++ l) inside ls

/-- A body that has these lines has all of their asterisks. -/
theorem Holds.count_eq {indent : Nat} {inside : List (List Char)} {body : String} (h : Holds indent inside body) :
    body.toList.count '*' = (inside.map (·.count '*')).sum := by
  obtain ⟨ls, rfl, hls⟩ := h
  rw [String.toList_ofList, count_joinWith (by decide)]
  induction hls with
  | nil => rfl
  | @cons line l _ _ hline _ ih =>
    obtain ⟨i, -, heq⟩ := hline
    have hcount : l.count '*' = line.count '*' := by
      have htrim : (trimEnd line).count '*' = line.count '*' := count_dropEndWhile (by decide) line
      rw [← htrim, heq, List.count_append, List.count_replicate]
      simp
    rw [List.map_cons, List.sum_cons, List.map_cons, List.sum_cons, hcount, ih]

namespace WrittenBlock

variable {firstLine : Nat} {written : List (List Char)} {s : Snippet}

/-- **A body is kept** if and only if none of its lines begins with an asterisk. -/
theorem holds_iff (b : WrittenBlock firstLine written s) :
    Holds (b.fence.indent + 1) b.inside s.body ↔ ∀ line ∈ b.inside, ¬Starred line := by
  constructor
  · intro hholds line hline hstarred
    have hcount := hholds.count_eq
    rw [b.body_eq, String.toList_ofList, count_joinWith (by decide), List.map_map] at hcount
    have hsame (line : List Char) :
        (b.fence.unindent (gutterless line)).count '*' = (gutterless line).count '*' := by
      obtain ⟨i, -, heq⟩ := b.fence.exists_unindent (gutterless line)
      conv_rhs => rw [heq, List.count_append, List.count_replicate]
      simp
    -- Every line has at most the asterisks that it was written with, and this one has lost its first.
    have hlt : (b.inside.map fun line => (b.fence.unindent (gutterless line)).count '*').sum <
        (b.inside.map (·.count '*')).sum := by
      refine List.sum_lt_sum _ _ (fun l _ => ?_) ⟨line, hline, ?_⟩
      · rw [hsame]
        exact count_gutterless_le l
      · have hlost := count_gutterless hstarred
        rw [hsame]
        omega
    exact absurd hcount (Nat.ne_of_lt hlt)
  · intro hplain
    refine ⟨_, b.body_eq, ?_⟩
    rw [List.forall₂_map_right_iff, List.forall₂_same]
    intro line hline
    obtain ⟨i, hi, hline'⟩ := exists_plain line
    obtain ⟨j, hj, hunindent⟩ := b.fence.exists_unindent (plain line)
    refine ⟨i + j, by omega, ?_⟩
    rw [gutterless_of_not_starred (hplain line hline), List.replicate_add, List.append_assoc, ← hunindent]
    exact hline'

end WrittenBlock

/-- A snippet of a block comment is a block of the lines of the comment. -/
theorem exists_writtenBlock {inner : List Char} {firstLine : Nat} {s : Snippet}
    (hs : s ∈ ofText (String.ofList (blockText inner)) firstLine) :
    Nonempty (WrittenBlock firstLine (lines inner) s) := by
  obtain ⟨before', fence, opening', inside', after', htext, hopens, hin, hafter, rfl⟩ :=
    exists_ends_of_mem_ofText hs
  obtain ⟨dropped, hdropped, hempty⟩ := exists_dropped inner
  rw [String.toList_ofList] at htext
  rw [htext, List.append_assoc, List.cons_append, List.append_assoc] at hdropped
  obtain ⟨before, rest, hwritten, rfl, hrest⟩ := List.map_eq_append_iff.mp hdropped
  obtain ⟨opening, rest, rfl, rfl, hlines⟩ := List.map_eq_cons_iff.mp hrest
  obtain ⟨inside, after, rfl, rfl, hend⟩ := List.map_eq_append_iff.mp hlines
  have hends : (∃ closing rest, after = closing :: rest ∧ fence.Closes (gutterless closing)) ∨
      ∀ line ∈ after, gutterless line = [] := by
    cases after' with
    | nil =>
      refine .inr fun line hline => hempty _ ?_
      rw [List.nil_append] at hend
      exact hend ▸ List.mem_map_of_mem hline
    | cons closing' after' =>
      obtain ⟨closing, rest, rfl, rfl, -⟩ := List.map_eq_cons_iff.mp hend
      exact .inl ⟨closing, rest, rfl, hafter _ rfl⟩
  exact ⟨{
    fence, before, opening, inside, after
    written_eq := hwritten
    opens := hopens
    notClosed := fun line hline => hin _ (List.mem_map_of_mem hline)
    ends := hends
    attributes_eq := rfl
    line_eq := by rw [List.length_map]
    body_eq := by rw [List.map_map]; rfl }⟩

end Snippet

namespace Token

open DocText

/-- **Block comments lose asterisks.** The lines of a block comment that documents something stand on the lines of the
source from its own on. The text has each of them, up to lines at the end of which nothing would be left, and it
keeps them if and only if none begins with an asterisk. A snippet of the text is a block of these lines, and its body
is what is written inside of the block, up to the indentation, if and only if no line there begins with an
asterisk. -/
theorem keeps_blockDoc_iff {source : String} {t : Token} (ht : t ∈ (Lexed.ofString source).tokens) {text : String}
    {span : Span} (hcomment : t.comment? = some (text, span)) {comment : String}
    (hspan : span.text? source = some comment) (hblock : "/*".toList <+: comment.toList) :
    (∀ k line, (innerLines comment.toList)[k]? = some line → ∃ sourceLine,
      (LineMap.ofString source).lineText? source ((LineMap.ofString source).lineOf span.start + k) = some sourceLine ∧
        trimEnd line <:+: sourceLine.toList) ∧
    (∃ kept dropped, innerLines comment.toList = kept ++ dropped ∧ kept.length = (lines text.toList).length ∧
      (∀ line ∈ dropped, gutterless line = []) ∧
      (List.Forall₂ Keeps kept (lines text.toList) ↔ ∀ line ∈ kept, ¬Starred line)) ∧
    ∀ firstLine, ∀ s ∈ Snippet.ofText text firstLine,
      ∃ b : Snippet.WrittenBlock firstLine (innerLines comment.toList) s,
        Snippet.Holds (b.fence.indent + 1) b.inside s.body ↔ ∀ line ∈ b.inside, ¬Starred line := by
  obtain ⟨before, mark, inner, after, hsource, hstart, hmarks, hmark, rfl⟩ := exists_block ht hcomment hspan hblock
  have hinner : innerLines comment.toList = lines inner := by
    rw [innerLines, hmarks]
    simp [List.dropLast_append_of_ne_nil]
  rw [hinner]
  refine ⟨fun k line hk => ?_, ?_, fun firstLine s hs => ?_⟩
  · have hfront : source.toList = (before ++ ['/', '*', mark]) ++ (inner ++ (['*', '/'] ++ after)) := by
      rw [hsource, hmarks]
      simp
    have hcount : (before ++ ['/', '*', mark]).count '\n' = before.count '\n' := by
      rcases hmark with rfl | rfl <;> simp
    have hline := LineMap.exists_lineText?_of_getElem?_lines hfront hk
    rw [hstart, LineMap.lineOf_byteLength hsource, ← hcount]
    exact hline
  · obtain ⟨dropped', hdropped, hempty⟩ := exists_dropped inner
    obtain ⟨kept, dropped, hlines, hkept, rfl⟩ := List.map_eq_append_iff.mp hdropped
    refine ⟨kept, dropped, hlines, ?_, ?_, ?_⟩
    · rw [String.toList_ofList, ← hkept, List.length_map]
    · intro line hline
      exact hempty _ (List.mem_map_of_mem hline)
    · rw [String.toList_ofList, ← hkept, List.forall₂_map_right_iff, List.forall₂_same]
      exact forall₂_congr fun line _ => keeps_gutterless_iff line
  · obtain ⟨b⟩ := Snippet.exists_writtenBlock hs
    exact ⟨b, b.holds_iff⟩

/-- The comment of a module, whose lines are indented, hold an asterisk further on and end with blanks. -/
theorem keeps_blockDoc_module :
    let source := "mod m \x7b\n/*!\n  ```test\n   a * b;  \n\n  c\n  ```\n*/\x7d"
    let comment := "/*!\n  ```test\n   a * b;  \n\n  c\n  ```\n*/"
    let text := "\n ```test\n  a * b;\n\n c\n ```"
    let s : Snippet := ⟨" a * b;\n\nc", [⟨"test", none⟩], 3⟩
    (⟨.innerDoc text, ⟨8, 47⟩⟩ : Token) ∈ (Lexed.ofString source).tokens ∧
      (⟨8, 47⟩ : Span).text? source = some comment ∧ "/*".toList <+: comment.toList ∧
      (∃ sourceLine, (LineMap.ofString source).lineText? source 4 = some sourceLine ∧
        "   a * b;".toList <:+: sourceLine.toList) ∧
      (∃ kept dropped, innerLines comment.toList = kept ++ dropped ∧ List.Forall₂ Keeps kept (lines text.toList)) ∧
      s ∈ Snippet.ofText text 2 ∧
      ∃ b : Snippet.WrittenBlock 2 (innerLines comment.toList) s,
        Snippet.Holds (b.fence.indent + 1) b.inside s.body := by
  intro source comment text s
  let t : Token := ⟨.innerDoc text, ⟨8, 47⟩⟩
  have ht : t ∈ (Lexed.ofString source).tokens := by decide +kernel
  have hspan : (⟨8, 47⟩ : Span).text? source = some comment := by decide +kernel
  have hblock : "/*".toList <+: comment.toList := by decide +kernel
  have hplain : ∀ line ∈ innerLines comment.toList, ¬Starred line := by decide +kernel
  have hs : s ∈ Snippet.ofText text 2 := by decide +kernel
  obtain ⟨hplaces, ⟨kept, dropped, hwritten, -, -, hkept⟩, hsnippets⟩ := keeps_blockDoc_iff ht rfl hspan hblock
  obtain ⟨sourceLine, hline, hinfix⟩ := hplaces 2 "   a * b;  ".toList (by decide +kernel)
  have hlineOf : (LineMap.ofString source).lineOf 8 + 2 = 4 := by decide +kernel
  have htrim : trimEnd "   a * b;  ".toList = "   a * b;".toList := by decide +kernel
  rw [hlineOf] at hline
  rw [htrim] at hinfix
  obtain ⟨b, hbody⟩ := hsnippets 2 s hs
  refine ⟨ht, hspan, hblock, ⟨sourceLine, hline, hinfix⟩, ⟨kept, dropped, hwritten, hkept.mpr ?_⟩, hs, b, hbody.mpr ?_⟩
  · intro line hline
    exact hplain line (hwritten ▸ List.mem_append_left _ hline)
  · intro line hline
    refine hplain line ?_
    rw [b.written_eq]
    exact List.mem_append_right _ (List.mem_cons_of_mem _ (List.mem_append_left _ hline))

end Token

/-- Lines that begin with no asterisk show that the comment has no gutter, and yet its code loses an asterisk. -/
theorem Outline.ofSource_doc_without_gutter :
    let source := "/**\n```test\n*p = 1;\n```\n*/ fn f() \x7b\x7d"
    let written := DocText.innerLines "/**\n```test\n*p = 1;\n```\n*/".toList
    let text := "\n```test\np = 1;\n```"
    (∃ line ∈ written.drop 1, trim line ≠ [] ∧ ¬DocText.Starred line) ∧
      (ofSource "c" none source).outline.get? 1 = some ⟨1, .function, "f", some 0, [], [⟨text, none, 1⟩]⟩ ∧
      written[2]? = some "*p = 1;".toList ∧ (lines text.toList)[2]? = some "p = 1;".toList ∧
      ¬DocText.Keeps "*p = 1;".toList "p = 1;".toList ∧
      (Snippet.ofText text 1).map (·.body) = ["p = 1;"] ∧
      ∀ indent, ¬Snippet.Holds indent ["*p = 1;".toList] "p = 1;" := by
  intro source written text
  have hlost : ∀ indent, ¬Snippet.Holds indent ["*p = 1;".toList] "p = 1;" := fun indent hholds =>
    absurd hholds.count_eq (by decide +kernel)
  refine ⟨⟨"```test".toList, ?_, ?_⟩, ?_, ?_, ?_, ?_, ?_, hlost⟩
  all_goals decide +kernel

end Doctest
