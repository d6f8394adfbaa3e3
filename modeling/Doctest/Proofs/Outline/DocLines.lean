import Doctest.Outline.Doc
import Doctest.Source.LineMap
import Doctest.Proofs.Text.Lines

/-! The comment that an element gets from the doc comments before it: every line of it is a line of the
source, and so are the empty ones. -/
namespace Doctest

namespace Outline

/-- The lines of the comments that follow each other in a source, from the line `next` on: each comment
begins on the line where it stands, and the lines between two comments are empty. -/
def docLines (lines : LineMap) : (next : Nat) → List (String × Span) → List (List Char)
  | _, [] => []
  | next, (text, span) :: docs =>
    let line := lines.lineOf span.start
    List.replicate (line - next) [] ++
      (Text.splitOn '\n' text.toList ++ docLines lines (line + text.toList.count '\n' + 1) docs)

theorem docLines_ne_nil (lines : LineMap) (next : Nat) {docs : List (String × Span)} (h : docs ≠ []) :
    docLines lines next docs ≠ [] := by
  obtain ⟨⟨text, span⟩, docs, rfl⟩ := List.exists_cons_of_ne_nil h
  obtain ⟨part, parts, hs⟩ := Text.exists_splitOn_eq_cons '\n' text.toList
  simp [docLines, hs]

theorem newline_notMem_docLines {lines : LineMap} {next : Nat} {docs : List (String × Span)} :
    ∀ line ∈ docLines lines next docs, '\n' ∉ line := by
  induction docs generalizing next with
  | nil => simp [docLines]
  | cons d docs ih =>
    obtain ⟨text, span⟩ := d
    intro line hline
    simp only [docLines, List.mem_append] at hline
    rcases hline with hline | hline | hline
    · rw [List.eq_of_mem_replicate hline]
      exact List.not_mem_nil
    · exact Text.notMem_of_mem_splitOn hline
    · exact ih line hline

/-- Comments of one line each, on lines further and further down, are found again on their lines, and the
lines between them are empty. -/
theorem getElem?_docLines {lines : LineMap} {next : Nat} {docs : List (String × Span)}
    (hone : ∀ d ∈ docs, '\n' ∉ d.1.toList)
    (hdown : docs.Pairwise fun d e => lines.lineOf d.2.start < lines.lineOf e.2.start)
    (hnext : ∀ d ∈ docs, next ≤ lines.lineOf d.2.start) {i : Nat} {line : List Char}
    (h : (docLines lines next docs)[i]? = some line) : ∃ d ∈ docs,
      next + i ≤ lines.lineOf d.2.start ∧
      (line ≠ [] → next + i = lines.lineOf d.2.start ∧ line = d.1.toList) := by
  induction docs generalizing next i with
  | nil => simp [docLines] at h
  | cons d docs ih =>
    obtain ⟨text, span⟩ := d
    have htext := hone (text, span) List.mem_cons_self
    have hle : next ≤ lines.lineOf span.start := hnext (text, span) List.mem_cons_self
    obtain ⟨hlater, hrest⟩ := List.pairwise_cons.mp hdown
    simp only [docLines, Text.splitOn_of_notMem htext, List.count_eq_zero_of_not_mem htext,
      Nat.add_zero] at h
    by_cases hbefore : i < lines.lineOf span.start - next
    · rw [List.getElem?_append_left (by simpa using hbefore),
        List.getElem?_replicate_of_lt hbefore] at h
      obtain rfl := Option.some.inj h
      have hbelow : next + i ≤ lines.lineOf span.start := by omega
      exact ⟨(text, span), List.mem_cons_self, hbelow, fun hne => absurd rfl hne⟩
    · obtain ⟨j, rfl⟩ := Nat.exists_eq_add_of_le (Nat.not_lt.mp hbefore)
      rw [List.getElem?_append_right (by simp), List.length_replicate, Nat.add_sub_cancel_left] at h
      cases j with
      | zero =>
        obtain rfl : text.toList = line := by simpa using h
        have hat : next + (lines.lineOf span.start - next + 0) = lines.lineOf span.start := by omega
        exact ⟨(text, span), List.mem_cons_self, Nat.le_of_eq hat, fun _ => ⟨hat, rfl⟩⟩
      | succ j =>
        obtain ⟨d, hd, hbelow, heq⟩ := ih (fun d hd => hone d (List.mem_cons_of_mem _ hd)) hrest
          hlater (by simpa using h)
        have hindex : lines.lineOf span.start + 1 + j =
            next + (lines.lineOf span.start - next + (j + 1)) := by omega
        rw [hindex] at hbelow heq
        exact ⟨d, List.mem_cons_of_mem _ hd, hbelow, heq⟩

/-- The one comment that the comments before an item make. -/
def docComment? (lines : LineMap) (file : Option Path) (docs : List (String × Span)) :
    Option DocComment :=
  docs.head?.map fun (_, span) =>
    let line := lines.lineOf span.start
    ⟨String.ofList (Text.joinWith '\n' (docLines lines line docs)), file, line⟩

/-- The run of comments that is open after these comments. -/
def docRun (lines : LineMap) (run : Option DocRun) (docs : List (String × Span)) : Option DocRun :=
  docs.foldl (fun run (text, span) => some (DocRun.extend run (lines.lineOf span.start) text)) run

theorem flatMap_splitOn (text : List Char) :
    (Text.splitOn '\n' text).flatMap ('\n' :: ·) = '\n' :: text := by
  have h := Text.joinWith_splitOn '\n' text
  cases hs : Text.splitOn '\n' text with
  | nil => exact absurd hs (Text.splitWhere_ne_nil _ text)
  | cons p ps =>
    rw [hs, Text.joinWith_cons] at h
    rw [List.flatMap_cons, List.cons_append, h]

theorem joinWith_splitOn_append (text : List Char) (ps : List (List Char)) :
    Text.joinWith '\n' (Text.splitOn '\n' text ++ ps) = text ++ ps.flatMap ('\n' :: ·) := by
  have h := Text.joinWith_splitOn '\n' text
  cases hs : Text.splitOn '\n' text with
  | nil => exact absurd hs (Text.splitWhere_ne_nil _ text)
  | cons q qs =>
    rw [hs, Text.joinWith_cons] at h
    rw [List.cons_append, Text.joinWith_cons, List.flatMap_append, ← List.append_assoc, h]

/-- A run goes on with the lines of the comments that are pushed to it. -/
theorem docRun_some (lines : LineMap) (r : DocRun) (docs : List (String × Span)) :
    ∃ next, docRun lines (some r) docs = some ⟨r.line, next,
      String.ofList (r.text.toList ++ (docLines lines r.next docs).flatMap ('\n' :: ·))⟩ := by
  induction docs generalizing r with
  | nil => exact ⟨r.next, by simp [docRun, docLines]⟩
  | cons d docs ih =>
    obtain ⟨text, span⟩ := d
    obtain ⟨next, h⟩ := ih (r.push (lines.lineOf span.start) text)
    have hstep : docRun lines (some r) ((text, span) :: docs) =
        docRun lines (some (r.push (lines.lineOf span.start) text)) docs := rfl
    refine ⟨next, ?_⟩
    rw [hstep, h]
    simp [docLines, DocRun.push, flatMap_splitOn, DocComment.newlines, Nat.add_comm 1,
      List.replicate_succ', List.flatMap_replicate]

theorem docRun_none (lines : LineMap) (file : Option Path) (docs : List (String × Span)) :
    (docRun lines none docs).map (·.toComment file) = docComment? lines file docs := by
  cases docs with
  | nil => rfl
  | cons d docs =>
    obtain ⟨text, span⟩ := d
    obtain ⟨next, h⟩ := docRun_some lines (DocRun.start (lines.lineOf span.start) text) docs
    have hstep : docRun lines none ((text, span) :: docs) =
        docRun lines (some (DocRun.start (lines.lineOf span.start) text)) docs := rfl
    rw [hstep, h]
    simp [docComment?, docLines, DocRun.start, DocRun.toComment, joinWith_splitOn_append]

end Outline

end Doctest
