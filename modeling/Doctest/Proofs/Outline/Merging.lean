import Doctest.Outline.Reading
import Doctest.Proofs.Source.LineMap
import Doctest.Proofs.Text.Lines

/-! Two comments of one file put together. Every line of both keeps its line of the file, unless the earlier
comment ends with a blank line, of which the gap between the two takes no account. -/
namespace Doctest

namespace Text

/-- What stands after a run of newlines is some lines further down, and these are empty. -/
theorem splitOn_append_replicate (as bs : List Char) (n : Nat) :
    splitOn '\n' (as ++ (List.replicate (n + 1) '\n' ++ bs)) =
      splitOn '\n' as ++ (List.replicate n [] ++ splitOn '\n' bs) := by
  induction n generalizing as with
  | zero => exact splitOn_append_cons '\n' as bs
  | succ n ih =>
    have hmore := ih []
    rw [List.nil_append] at hmore
    rw [List.replicate_succ, List.cons_append, splitOn_append_cons, hmore]
    rfl

/-- The text after the last newline is a line of its own only if there is any. -/
theorem length_lines (cs : List Char) :
    (lines cs).length = cs.count '\n' + if cs = [] ∨ cs.getLast? = some '\n' then 0 else 1 := by
  induction hn : cs.length using Nat.strong_induction_on generalizing cs with
  | _ n ih =>
    by_cases hmem : '\n' ∈ cs
    · obtain ⟨as, bs, rfl, has⟩ := List.eq_append_cons_of_mem hmem
      have hbs := ih bs.length (by simp at hn; omega) bs rfl
      have hcount : (as ++ '\n' :: bs).count '\n' = bs.count '\n' + 1 := by
        simp [List.count_eq_zero_of_not_mem has]
      have hlast : (as ++ '\n' :: bs = [] ∨ (as ++ '\n' :: bs).getLast? = some '\n') ↔
          (bs = [] ∨ bs.getLast? = some '\n') := by
        cases bs <;> simp
      rw [lines_append_newline, splitOn_of_notMem has, List.length_append, hbs, hcount]
      simp only [hlast, List.map_singleton, List.length_singleton]
      omega
    · have hlast : cs.getLast? ≠ some '\n' := fun h => hmem (List.mem_of_getLast? h)
      rw [lines_of_notMem hmem, List.count_eq_zero_of_not_mem hmem]
      cases cs <;> simp [hlast]

/-- A text of blank lines has nothing but newlines in it. -/
theorem forall_mem_splitOn_eq_nil_iff (cs : List Char) :
    (∀ line ∈ splitOn '\n' cs, line = []) ↔ ∀ c ∈ cs, c = '\n' := by
  induction cs with
  | nil => simp [splitOn, splitWhere]
  | cons c cs ih =>
    by_cases hc : c = '\n'
    · subst hc
      rw [splitOn_cons_self, List.forall_mem_cons, List.forall_mem_cons, ih]
      simp
    · obtain ⟨part, parts, hs⟩ := exists_splitOn_eq_cons '\n' cs
      rw [splitOn_cons_of_ne hc hs, List.forall_mem_cons, List.forall_mem_cons]
      simp [hc]

end Text

namespace DocComment

/-- The lines of the text, of which the last one may be empty. -/
def textLines (d : DocComment) : List (List Char) :=
  Text.splitOn '\n' d.text.toList

/-- In `m` the lines of `d` and of `e` are on the lines of the file where they are in `d` and in `e`, and
between them there are blank lines only. -/
structure KeepsLines (d e m : DocComment) : Prop where
  file : m.file = d.file
  line : m.line = d.line
  earlier : d.textLines <+: m.textLines
  later : ∀ k < e.textLines.length, m.textLines[e.line - d.line + k]? = e.textLines[k]?
  between : ∀ k, d.textLines.length ≤ k → k < e.line - d.line → m.textLines[k]? = some []

theorem textLines_merge (d e : DocComment) : (d.merge e).textLines =
    d.textLines ++ (List.replicate (e.line - (d.line + d.height)) [] ++ e.textLines) := by
  simp only [textLines, merge, newlines, String.toList_append, String.toList_ofList, Nat.add_comm 1,
    List.append_assoc]
  exact Text.splitOn_append_replicate _ _ _

/-- A blank line at the end of a text is not counted. -/
theorem height_of_getLast? {d : DocComment} (h : d.text.toList.getLast? = some '\n') :
    d.height + 1 = d.textLines.length := by
  have hpos : 0 < d.text.toList.count '\n' := List.count_pos_iff.mpr (List.mem_of_getLast? h)
  rw [height, Text.length_lines, if_pos (.inr h), textLines, Text.length_splitOn]
  omega

theorem height_eq_length {d : DocComment} (h : d.text.toList.getLast? ≠ some '\n') :
    d.height = d.textLines.length := by
  rw [height, Text.length_lines, textLines, Text.length_splitOn]
  by_cases hempty : d.text.toList = []
  · simp [hempty]
  · rw [if_neg (by simp [hempty, h])]
    omega

/-- The lines of `e` are found behind those of `d` and the blank ones. -/
theorem getElem?_textLines_merge (d e : DocComment) (k : Nat) :
    (d.merge e).textLines[d.textLines.length + (e.line - (d.line + d.height)) + k]? =
      e.textLines[k]? := by
  have hlength : (d.textLines ++ List.replicate (e.line - (d.line + d.height)) []).length =
      d.textLines.length + (e.line - (d.line + d.height)) := by simp
  rw [textLines_merge, ← List.append_assoc, ← hlength]
  rw [List.getElem?_append_right (Nat.le_add_right _ k), Nat.add_sub_cancel_left]

theorem getElem?_textLines_merge_between {d e : DocComment} {k : Nat} (hlo : d.textLines.length ≤ k)
    (hhi : k < d.textLines.length + (e.line - (d.line + d.height))) :
    (d.merge e).textLines[k]? = some [] := by
  rw [textLines_merge, List.getElem?_append_right hlo,
    List.getElem?_append_left (by rw [List.length_replicate]; omega)]
  exact List.getElem?_replicate_of_lt (by omega)

theorem length_textLines (d : DocComment) : d.textLines.length = d.text.toList.count '\n' + 1 :=
  Text.length_splitOn _ _

/-- Where the earlier text does not end with a blank line, the later one begins on its own line. -/
theorem keepsLines_merge {d e : DocComment} (hbelow : d.line + d.textLines.length ≤ e.line)
    (hlast : d.text.toList.getLast? ≠ some '\n') : KeepsLines d e (d.merge e) := by
  have hheight := height_eq_length hlast
  have hstart : d.textLines.length + (e.line - (d.line + d.height)) = e.line - d.line := by omega
  refine ⟨rfl, rfl, ?_, fun k _ => ?_, fun k hlo hhi => ?_⟩
  · rw [textLines_merge]
    exact List.prefix_append _ _
  · rw [← hstart, getElem?_textLines_merge]
  · exact getElem?_textLines_merge_between hlo (by omega)

/-- Where it ends with one, the later text begins one line too far down, which is the same only for blank
lines. -/
theorem keepsLines_merge_iff_blank {d e : DocComment} (hbelow : d.line + d.textLines.length ≤ e.line)
    (hlast : d.text.toList.getLast? = some '\n') :
    KeepsLines d e (d.merge e) ↔ ∀ line ∈ e.textLines, line = [] := by
  have hheight := height_of_getLast? hlast
  have hstart : d.textLines.length + (e.line - (d.line + d.height)) = e.line - d.line + 1 := by omega
  have hfirst : (d.merge e).textLines[e.line - d.line]? = some [] :=
    getElem?_textLines_merge_between (by omega) (by omega)
  have hnext (k : Nat) : (d.merge e).textLines[e.line - d.line + (k + 1)]? = e.textLines[k]? := by
    rw [← getElem?_textLines_merge d e k, hstart, Nat.add_right_comm, Nat.add_assoc]
  constructor
  · intro hkeeps
    -- Each line of `e` is found where the line before it is, and the first one is found in the gap.
    have hblank (k : Nat) (hk : k < e.textLines.length) : e.textLines[k]? = some [] := by
      induction k with
      | zero =>
        rw [← hkeeps.later 0 hk]
        exact hfirst
      | succ k ih => rw [← hkeeps.later (k + 1) hk, hnext, ih (by omega)]
    intro line hline
    obtain ⟨k, hk, rfl⟩ := List.getElem_of_mem hline
    exact Option.some.inj ((List.getElem?_eq_getElem hk).symm.trans (hblank k hk))
  · intro hblank
    have hsome (k : Nat) (hk : k < e.textLines.length) : e.textLines[k]? = some [] := by
      rw [List.getElem?_eq_getElem hk, hblank _ (List.getElem_mem hk)]
    refine ⟨rfl, rfl, ?_, fun k hk => ?_, fun k hlo hhi => ?_⟩
    · rw [textLines_merge]
      exact List.prefix_append _ _
    · cases k with
      | zero => rw [hsome 0 hk, Nat.add_zero, hfirst]
      | succ k => rw [hnext, hsome k (by omega), hsome (k + 1) hk]
    · exact getElem?_textLines_merge_between hlo (by omega)

/-- A merged comment keeps the lines of both, unless the earlier one ends with a blank line and the later
one has text. -/
theorem keepsLines_merge_iff {d e : DocComment} (hbelow : d.line + d.textLines.length ≤ e.line) :
    KeepsLines d e (d.merge e) ↔
      d.text.toList.getLast? ≠ some '\n' ∨ ∀ c ∈ e.text.toList, c = '\n' := by
  by_cases hlast : d.text.toList.getLast? = some '\n'
  · rw [keepsLines_merge_iff_blank hbelow hlast, textLines, Text.forall_mem_splitOn_eq_nil_iff]
    simp [hlast]
  · exact ⟨fun _ => .inl hlast, fun _ => keepsLines_merge hbelow hlast⟩

theorem attach_concat {docs : List DocComment} {d e : DocComment} (hfile : d.sameFile e)
    (hline : d.line ≤ e.line) : attach (docs ++ [d]) e = docs ++ [d.merge e] := by
  simp [attach, hfile, hline]

end DocComment

namespace Outline

/-- **A comment that is merged with one further up stays on its lines.** This is so exactly if the earlier
comment does not end with a blank line, or the later one consists of blank lines. -/
theorem attachDoc_keepsLines_iff {t : Outline} {id : Nat} {a : Element} {docs : List DocComment}
    {d e : DocComment} (ha : t.get? id = some a) (hdocs : a.docs = docs ++ [d]) (hfile : d.sameFile e)
    (hbelow : d.line + 1 + d.text.toList.count '\n' ≤ e.line) :
    ∃ m, (t.attachDoc id e).get? id = some { a with docs := docs ++ [m] } ∧
      (d.KeepsLines e m ↔ d.text.toList.getLast? ≠ some '\n' ∨ ∀ c ∈ e.text.toList, c = '\n') := by
  have hlength := d.length_textLines
  have hattach : DocComment.attach a.docs e = docs ++ [d.merge e] := by
    rw [hdocs]
    exact DocComment.attach_concat hfile (by omega)
  refine ⟨d.merge e, ?_, DocComment.keepsLines_merge_iff (by omega)⟩
  rw [attachDoc, get?_modify, if_pos rfl, ha, Option.map_some, hattach]

/-- Two blank lines between the comments, and one in the earlier comment. -/
theorem attachDoc_keepsLines_gap :
    let d : DocComment := ⟨"a\n\nb", none, 2⟩
    let e : DocComment := ⟨"c\nd", none, 7⟩
    let t : Outline := ⟨#[⟨0, .crate, "c", none, [], [d]⟩], [0]⟩
    ∃ m, (t.attachDoc 0 e).get? 0 = some ⟨0, .crate, "c", none, [], [m]⟩ ∧ d.KeepsLines e m := by
  intro d e t
  have ha : t.get? 0 = some ⟨0, .crate, "c", none, [], [d]⟩ := rfl
  have hdocs : [d] = [] ++ [d] := rfl
  have hfile : d.sameFile e := by decide
  obtain ⟨m, hm, hkeeps⟩ := attachDoc_keepsLines_iff ha hdocs hfile (by decide)
  exact ⟨m, hm, hkeeps.mpr (.inl (by decide))⟩

/-- The last line of the comments is the fourth of the source, and it becomes the fifth of the text. -/
theorem ofSource_doc_after_attribute :
    let source := "//! a\n//!\n#![x]\n//! b"
    (ofSource "c" none source).outline.elements = #[⟨0, .crate, "c", none, [], [⟨"a\n\n\n\nb", none, 1⟩]⟩] ∧
      ¬ DocComment.KeepsLines ⟨"a\n", none, 1⟩ ⟨"b", none, 4⟩ ⟨"a\n\n\n\nb", none, 1⟩ := by
  refine ⟨by decide +kernel, fun h => ?_⟩
  have hlater := h.later 0 (by decide)
  revert hlater
  decide

end Outline

end Doctest
