import Mathlib.Data.Nat.Log
import Doctest.Diagnostic.Layout
import Doctest.Proofs.Diagnostic.Style
import Doctest.Proofs.Text.Lines

/-! Diagnostics on a terminal, row by row. Colours change nothing else, and all rows with a bar have it in one
column, right of the last line number. -/
namespace Doctest

namespace Diagnostic

open Segment (padLeft)

/-! The width of the margin. -/

theorem length_toDigits (n : Nat) : (Nat.toDigits 10 n).length = Nat.log 10 n + 1 := by
  induction n using Nat.strongRecOn with
  | ind n ih =>
    by_cases hn : n < 10
    · rw [Nat.toDigits_of_lt_base hn, Nat.log_of_lt hn]
      rfl
    · have hle : 10 ≤ n := by omega
      rw [Nat.toDigits_of_base_le (by decide) hle, List.length_append, ih (n / 10) (by omega),
        Nat.log_of_one_lt_of_le (by decide) hle]
      rfl

/-- A number has no more digits than a greater one. -/
theorem length_toString_mono {m n : Nat} (h : m ≤ n) : (toString m).length ≤ (toString n).length := by
  have hlength : ∀ k : Nat, (toString k).length = Nat.log 10 k + 1 := by
    intro k
    rw [← length_toDigits, ← String.length_toList, Nat.toString_eq_ofList_toDigits, String.toList_ofList]
  rw [hlength, hlength]
  have hlog := Nat.log_mono_right (b := 10) h
  omega

theorem length_number_le_gutter {d : Diagnostic} {e : Excerpt} (he : d.excerpt = some e) {i : Nat}
    (hi : i < e.lines.length) : (toString (e.firstLine + i)).length ≤ d.gutter := by
  have hlast := length_toString_mono (show e.firstLine + i ≤ e.firstLine + (e.lines.length - 1) by omega)
  unfold gutter
  rw [he, Option.map_some, Option.getD_some]
  exact hlast.trans (Nat.le_max_right 2 _)

/-! Rows without colours. -/

/-- A label at the right end of the margin, the bar, and a text behind it. -/
def barRow (margin : Nat) (label text : List Char) : List Char :=
  padLeft margin label ++ ' ' :: '|' :: text

/-- The first bar of the row is in this column. -/
def BarAt (column : Nat) (row : List Char) : Prop :=
  ∃ front back, row = front ++ '|' :: back ∧ front.length = column ∧ '|' ∉ front

theorem barAt_barRow {margin : Nat} {label : List Char} (hlabel : label.length ≤ margin) (hbar : '|' ∉ label)
    (text : List Char) : BarAt (margin + 1) (barRow margin label text) := by
  refine ⟨padLeft margin label ++ [' '], text, ?_, ?_, ?_⟩
  · simp [barRow]
  · rw [List.length_append, padLeft, List.length_append, List.length_replicate, List.length_singleton]
    omega
  · rw [List.mem_append, not_or]
    exact ⟨Segment.notMem_padLeft (by decide) hbar margin, by decide⟩

theorem notMem_toString {c : Char} (hc : ¬ c.isDigit) (n : Nat) : c ∉ (toString n).toList := by
  intro h
  rw [Nat.toString_eq_ofList_toDigits, String.toList_ofList] at h
  exact hc (Nat.isDigit_of_mem_toDigits (by decide) (by decide) h)

def plainLine (line : List Segment) : List Char :=
  line.flatMap (·.render false)

def headRow (d : Diagnostic) : List Char :=
  d.severity.display.toList ++ (d.code.map fun code => '[' :: code.toList ++ [']']).getD [] ++
    ": ".toList ++ d.message.toList

def remarkRow (margin : Nat) (label text : String) : List Char :=
  List.replicate (margin - 1) ' ' ++ " = ".toList ++ label.toList ++ ": ".toList ++ text.toList

/-- The rows above the excerpt. -/
def headRows (margin : Nat) (d : Diagnostic) : List (List Char) :=
  d.headRow :: (d.location.map fun l => "  --> ".toList ++ l.display.toList).toList ++
    (d.element.map fun e => remarkRow margin "element" (e.kind.tag ++ " " ++ e.path)).toList

/-- The rows between the excerpt and the output. -/
def remarkRows (margin : Nat) (d : Diagnostic) : List (List Char) :=
  d.notes.map (remarkRow margin "note") ++ (d.help.map (remarkRow margin "help")).toList

/-- Between two rows without a number, each line stands behind its own number. -/
def ExcerptRows (margin : Nat) (e : Excerpt) (rows : List (List Char)) : Prop :=
  ∃ numbered, rows = barRow margin [] [] :: numbered ++ [barRow margin [] []] ∧
    numbered.length = e.lines.length ∧
    ∀ i line, e.lines[i]? = some line →
      (toString (e.firstLine + i)).length ≤ margin ∧
      numbered[i]? = some (barRow margin (toString (e.firstLine + i)).toList (' ' :: line.toList))

/-- What is said of output lines that are not shown. -/
def moreText (k : Nat) : List Char :=
  ' ' :: ("... " ++ toString k ++ " more lines").toList

/-- As many lines of the output as the limit allows, then one row if there are more. -/
def OutputRows (margin : Nat) (limit : Option Nat) (lines rows : List (List Char)) : Prop :=
  ∃ shown more, shown <+: lines ∧ shown.length = min (limit.getD lines.length) lines.length ∧
    more = lines.length - limit.getD lines.length ∧
    rows = shown.map (fun line => barRow margin [] (' ' :: line)) ++
      if 0 < more then [barRow margin [] (moreText more)] else []

@[simp]
theorem plainLine_nil : plainLine [] = [] := rfl

@[simp]
theorem plainLine_cons (segment : Segment) (line : List Segment) :
    plainLine (segment :: line) = segment.render false ++ plainLine line := rfl

theorem plainLine_header (d : Diagnostic) : plainLine d.header = d.headRow := by
  unfold header headRow
  cases d.code <;> simp [Segment.render, Segment.boldColored, Segment.bold]

theorem plainLine_remark (margin : Nat) (label text : String) :
    plainLine (remark margin label text) = remarkRow margin label text := by
  simp [remark, remarkRow, blanks, Segment.render, Segment.boldColored, Segment.colored]

theorem plainLine_emptyGutter (margin : Nat) : plainLine (emptyGutter margin) = barRow margin [] [] := by
  simp [emptyGutter, barRow, blanks, Segment.render, Segment.colored, padLeft]

theorem plainLine_excerptLine (margin number : Nat) (line : String) :
    plainLine (excerptLine margin number line) = barRow margin (toString number).toList (' ' :: line.toList) := by
  simp [excerptLine, barRow, Segment.render, Segment.colored]

theorem plainLine_outputLine (margin : Nat) (text : Segment) :
    plainLine (outputLine margin text) = barRow margin [] (' ' :: text.render false) := by
  simp [outputLine, barRow, blanks, Segment.render, Segment.dimmed, padLeft]

theorem render_moreText (k : Nat) :
    ' ' :: (Segment.dimmed ("... " ++ toString k ++ " more lines")).render false = moreText k := by
  show ' ' :: padLeft 0 ("... " ++ toString k ++ " more lines").toList = moreText k
  rw [Segment.padLeft_zero, moreText]

theorem excerptRows_excerptLines {margin : Nat} {e : Excerpt}
    (hfit : ∀ i < e.lines.length, (toString (e.firstLine + i)).length ≤ margin) :
    ExcerptRows margin e ((excerptLines margin e).map plainLine) := by
  refine ⟨(e.lines.mapIdx fun i line => excerptLine margin (e.firstLine + i) line).map plainLine, ?_, ?_, ?_⟩
  · rw [excerptLines, List.map_append, List.map_cons, List.map_singleton, plainLine_emptyGutter]
  · rw [List.length_map, List.length_mapIdx]
  · intro i line hline
    obtain ⟨hi, -⟩ := List.getElem?_eq_some_iff.mp hline
    refine ⟨hfit i hi, ?_⟩
    rw [List.getElem?_map, List.getElem?_mapIdx, hline, Option.map_some, Option.map_some, plainLine_excerptLine]

theorem outputRows_outputLines (margin : Nat) (limit : Option Nat) (output : String) :
    OutputRows margin limit (Text.lines output.toList) ((outputLines margin limit output).map plainLine) := by
  have hlines : ((Text.lines output.toList).map String.ofList).length = (Text.lines output.toList).length :=
    List.length_map _
  refine ⟨(Text.lines output.toList).take (min (limit.getD (Text.lines output.toList).length)
    (Text.lines output.toList).length), _, List.take_prefix _ _, ?_, rfl, ?_⟩
  · rw [List.length_take]
    omega
  · unfold outputLines
    dsimp only
    rw [hlines]
    generalize Text.lines output.toList = lines
    generalize limit.getD lines.length = bound
    rw [List.map_append, List.map_map, ← List.map_take, List.map_map]
    congr 1
    · refine List.map_congr_left fun line hline => ?_
      show plainLine (outputLine margin (.plain (String.ofList line))) = barRow margin [] (' ' :: line)
      rw [plainLine_outputLine, Segment.render, String.toList_ofList]
    · by_cases hmore : bound < lines.length
      · have hmin : min bound lines.length = bound := by omega
        rw [if_pos (by omega), if_pos (by omega), hmin, List.map_singleton, plainLine_outputLine, render_moreText]
      · rw [if_neg (by omega), if_neg (by omega), List.map_nil]

/-! Rows of which no text has an escape character. -/

/-- No text of the diagnostic has an escape character. -/
structure NoEscape (d : Diagnostic) : Prop where
  message : '\x1b' ∉ d.message.toList
  code : ∀ code ∈ d.code, '\x1b' ∉ code.toList
  file : ∀ location ∈ d.location, ∀ file ∈ location.file, '\x1b' ∉ file.display.toList
  element : ∀ element ∈ d.element, '\x1b' ∉ element.path.toList
  excerpt : ∀ excerpt ∈ d.excerpt, ∀ line ∈ excerpt.lines, '\x1b' ∉ line.toList
  notes : ∀ note ∈ d.notes, '\x1b' ∉ note.toList
  help : ∀ help ∈ d.help, '\x1b' ∉ help.toList
  output : ∀ output ∈ d.output, '\x1b' ∉ output.toList

theorem noEscape_blanks (n : Nat) : (blanks n).NoEscape := by
  show '\x1b' ∉ (String.ofList (List.replicate n ' ')).toList
  rw [String.toList_ofList, List.mem_replicate]
  exact fun h => absurd h.2 (by decide)

theorem notMem_append {c : Char} {s t : String} (hs : c ∉ s.toList) (ht : c ∉ t.toList) :
    c ∉ (s ++ t).toList := by
  rw [String.toList_append, List.mem_append, not_or]
  exact ⟨hs, ht⟩

theorem noEscape_header {d : Diagnostic} (h : d.NoEscape) : ∀ segment ∈ d.header, segment.NoEscape := by
  have hseverity : (Segment.boldColored (severityColor d.severity) d.severity.display).NoEscape := by
    cases d.severity <;> decide
  unfold header
  refine List.forall_mem_cons.mpr ⟨hseverity, ?_⟩
  split
  · next code hcode =>
    simp only [List.forall_mem_cons, List.not_mem_nil, false_imp_iff, implies_true, and_true]
    exact ⟨by decide, h.code code hcode, by decide, h.message⟩
  · simp only [List.forall_mem_cons, List.not_mem_nil, false_imp_iff, implies_true, and_true]
    exact ⟨by decide, h.message⟩

theorem noEscape_remark (margin : Nat) {label text : String} (hlabel : '\x1b' ∉ label.toList)
    (htext : '\x1b' ∉ text.toList) : ∀ segment ∈ remark margin label text, segment.NoEscape := by
  simp only [remark, List.forall_mem_cons, List.not_mem_nil, false_imp_iff, implies_true, and_true]
  exact ⟨noEscape_blanks _, by decide, by decide, by decide, hlabel, notMem_append (by decide) htext⟩

theorem noEscape_emptyGutter (margin : Nat) : ∀ segment ∈ emptyGutter margin, segment.NoEscape := by
  simp only [emptyGutter, List.forall_mem_cons, List.not_mem_nil, false_imp_iff, implies_true, and_true]
  exact ⟨noEscape_blanks margin, by decide, by decide⟩

theorem noEscape_excerptLine (margin number : Nat) {line : String} (h : '\x1b' ∉ line.toList) :
    ∀ segment ∈ excerptLine margin number line, segment.NoEscape := by
  simp only [excerptLine, List.forall_mem_cons, List.not_mem_nil, false_imp_iff, implies_true, and_true]
  exact ⟨notMem_toString (by decide) number, by decide, by decide, notMem_append (by decide) h⟩

theorem noEscape_excerptLines (margin : Nat) {e : Excerpt} (h : ∀ line ∈ e.lines, '\x1b' ∉ line.toList) :
    ∀ line ∈ excerptLines margin e, ∀ segment ∈ line, segment.NoEscape := by
  intro row hrow
  rw [excerptLines, List.mem_append, List.mem_cons, List.mem_singleton] at hrow
  obtain (rfl | hrow) | rfl := hrow
  · exact noEscape_emptyGutter margin
  · obtain ⟨i, hi, rfl⟩ := List.mem_mapIdx.mp hrow
    exact noEscape_excerptLine margin _ (h _ (List.getElem_mem hi))
  · exact noEscape_emptyGutter margin

theorem noEscape_outputLine (margin : Nat) {text : Segment} (h : text.NoEscape) :
    ∀ segment ∈ outputLine margin text, segment.NoEscape := by
  simp only [outputLine, List.forall_mem_cons, List.not_mem_nil, false_imp_iff, implies_true, and_true]
  exact ⟨noEscape_blanks margin, by decide, by decide, by decide, h⟩

theorem noEscape_outputLines (margin : Nat) (limit : Option Nat) {output : String} (h : '\x1b' ∉ output.toList) :
    ∀ line ∈ outputLines margin limit output, ∀ segment ∈ line, segment.NoEscape := by
  intro row hrow
  rw [outputLines, List.mem_append] at hrow
  obtain hrow | hrow := hrow
  · obtain ⟨line, hline, rfl⟩ := List.mem_map.mp hrow
    obtain ⟨cs, hcs, rfl⟩ := List.mem_map.mp (List.mem_of_mem_take hline)
    refine noEscape_outputLine margin ?_
    show '\x1b' ∉ (String.ofList cs).toList
    rw [String.toList_ofList]
    exact Text.notMem_of_mem_lines h hcs
  · split at hrow
    · obtain rfl := List.mem_singleton.mp hrow
      refine noEscape_outputLine margin ?_
      exact notMem_append (notMem_append (by decide) (notMem_toString (by decide) _)) (by decide)
    · contradiction

theorem notMem_display {l : Location} (h : ∀ file ∈ l.file, '\x1b' ∉ file.display.toList) :
    '\x1b' ∉ l.display.toList := by
  unfold Location.display
  split
  · next file hfile =>
    exact notMem_append (notMem_append (h file hfile) (by decide)) (notMem_toString (by decide) _)
  · exact notMem_append (by decide) (notMem_toString (by decide) _)

theorem noEscape_layout {d : Diagnostic} (h : d.NoEscape) (limit : Option Nat) :
    ∀ line ∈ d.layout limit, ∀ segment ∈ line, segment.NoEscape := by
  intro row hrow
  unfold layout at hrow
  simp only [List.mem_append, List.mem_cons, Option.mem_toList, List.mem_map, Option.map_eq_some_iff] at hrow
  obtain ((((((rfl | hrow) | hrow) | hrow) | hrow) | hrow) | hrow) := hrow
  · exact noEscape_header h
  · obtain ⟨l, hl, rfl⟩ := hrow
    simp only [List.forall_mem_cons, List.not_mem_nil, false_imp_iff, implies_true, and_true]
    exact ⟨by decide, by decide, notMem_append (by decide) (notMem_display (h.file l hl))⟩
  · obtain ⟨e, he, rfl⟩ := hrow
    have htag : '\x1b' ∉ e.kind.tag.toList := by
      cases e.kind <;> decide
    exact noEscape_remark _ (by decide) (notMem_append (notMem_append htag (by decide)) (h.element e he))
  · cases he : d.excerpt with
    | none =>
      rw [he] at hrow
      contradiction
    | some e =>
      rw [he] at hrow
      exact noEscape_excerptLines _ (h.excerpt e he) row hrow
  · obtain ⟨note, hnote, rfl⟩ := hrow
    exact noEscape_remark _ (by decide) (h.notes note hnote)
  · obtain ⟨help, hhelp, rfl⟩ := hrow
    exact noEscape_remark _ (by decide) (h.help help hhelp)
  · cases ho : d.output with
    | none =>
      rw [ho] at hrow
      contradiction
    | some output =>
      rw [ho] at hrow
      exact noEscape_outputLines _ limit (h.output output ho) row hrow

theorem renderLines_eq (lines : List (List Segment)) :
    (renderLines false lines).toList = (lines.map plainLine).flatMap (· ++ ['\n']) := by
  rw [renderLines, String.toList_ofList, List.flatMap_map]
  rfl

theorem map_plainLine_layout (limit : Option Nat) (d : Diagnostic) :
    (d.layout limit).map plainLine =
      d.headRows d.gutter ++ ((d.excerpt.map (excerptLines d.gutter)).getD []).map plainLine ++
        d.remarkRows d.gutter ++ ((d.output.map (outputLines d.gutter limit)).getD []).map plainLine := by
  have hremark : ∀ label, plainLine ∘ remark d.gutter label = remarkRow d.gutter label := by
    intro label
    funext text
    exact plainLine_remark d.gutter label text
  have hlocation : (d.location.map fun l =>
        [Segment.plain "  ", .colored .blue "-->", .plain (" " ++ l.display)]).toList.map plainLine =
      (d.location.map fun l => "  --> ".toList ++ l.display.toList).toList := by
    cases d.location with
    | none => rfl
    | some l => simp [Segment.render, Segment.colored]
  have helement : (d.element.map fun e =>
        remark d.gutter "element" (e.kind.tag ++ " " ++ e.path)).toList.map plainLine =
      (d.element.map fun e => remarkRow d.gutter "element" (e.kind.tag ++ " " ++ e.path)).toList := by
    cases d.element with
    | none => rfl
    | some e => simp [plainLine_remark]
  have hhelp : (d.help.map (remark d.gutter "help")).toList.map plainLine =
      (d.help.map (remarkRow d.gutter "help")).toList := by
    cases d.help with
    | none => rfl
    | some help => simp [plainLine_remark]
  unfold layout headRows remarkRows
  simp only [List.map_append, List.map_cons, List.map_map, plainLine_header, hlocation, helement, hhelp, hremark,
    List.append_assoc, List.cons_append]

theorem barAt_of_excerptRows {margin : Nat} {e : Excerpt} {rows : List (List Char)}
    (h : ExcerptRows margin e rows) : ∀ row ∈ rows, BarAt (margin + 1) row := by
  obtain ⟨numbered, rfl, hlength, hnumbered⟩ := h
  have hempty : BarAt (margin + 1) (barRow margin [] []) :=
    barAt_barRow (Nat.zero_le margin) List.not_mem_nil []
  intro row hrow
  rw [List.mem_append, List.mem_cons, List.mem_singleton] at hrow
  obtain (rfl | hrow) | rfl := hrow
  · exact hempty
  · obtain ⟨i, hi, rfl⟩ := List.mem_iff_getElem.mp hrow
    obtain ⟨hfit, hrow⟩ := hnumbered i _ (List.getElem?_eq_getElem (hlength ▸ hi))
    rw [List.getElem?_eq_getElem hi] at hrow
    rw [Option.some.inj hrow]
    exact barAt_barRow hfit (notMem_toString (by decide) _) _
  · exact hempty

theorem barAt_of_outputRows {margin : Nat} {limit : Option Nat} {lines rows : List (List Char)}
    (h : OutputRows margin limit lines rows) : ∀ row ∈ rows, BarAt (margin + 1) row := by
  obtain ⟨shown, more, -, -, -, rfl⟩ := h
  have hbar : ∀ text, BarAt (margin + 1) (barRow margin [] text) :=
    barAt_barRow (Nat.zero_le margin) List.not_mem_nil
  intro row hrow
  obtain hrow | hrow := List.mem_append.mp hrow
  · obtain ⟨line, -, rfl⟩ := List.mem_map.mp hrow
    exact hbar _
  · split at hrow
    · obtain rfl := List.mem_singleton.mp hrow
      exact hbar _
    · contradiction

/-- An absent part of a diagnostic has no rows. -/
inductive RowsOf {α : Type} (rowsOf : α → List (List Char) → Prop) : Option α → List (List Char) → Prop
  | absent : RowsOf rowsOf none []
  | present {a : α} {rows : List (List Char)} : rowsOf a rows → RowsOf rowsOf (some a) rows

theorem RowsOf.forall_mem {α : Type} {rowsOf : α → List (List Char) → Prop} {P : List Char → Prop}
    (hrows : ∀ a rows, rowsOf a rows → ∀ row ∈ rows, P row) {part : Option α} {rows : List (List Char)}
    (h : RowsOf rowsOf part rows) : ∀ row ∈ rows, P row := by
  cases h with
  | absent => exact fun row hrow => absurd hrow List.not_mem_nil
  | present h => exact hrows _ _ h

/-- Colours are nothing but style sequences around the text without colours. That text has all its bars in one
column, right of all line numbers, and as much of the output as the limit allows. -/
theorem erase_format {d : Diagnostic} (h : d.NoEscape) (limit : Option Nat) :
    Style.erase (d.format true limit).toList = (d.format false limit).toList ∧
      ∃ margin excerpt output, (d.format false limit).toList =
          (d.headRows margin ++ excerpt ++ d.remarkRows margin ++ output).flatMap (· ++ ['\n']) ∧
        RowsOf (ExcerptRows margin) d.excerpt excerpt ∧
        RowsOf (fun text => OutputRows margin limit (Text.lines text.toList)) d.output output ∧
        ∀ row ∈ excerpt ++ output, BarAt (margin + 1) row := by
  have hexcerpt : RowsOf (ExcerptRows d.gutter) d.excerpt
      (((d.excerpt.map (excerptLines d.gutter)).getD []).map plainLine) := by
    cases he : d.excerpt with
    | none => exact .absent
    | some e => exact .present (excerptRows_excerptLines fun i hi => length_number_le_gutter he hi)
  have houtput : RowsOf (fun text => OutputRows d.gutter limit (Text.lines text.toList)) d.output
      (((d.output.map (outputLines d.gutter limit)).getD []).map plainLine) := by
    cases d.output with
    | none => exact .absent
    | some output => exact .present (outputRows_outputLines d.gutter limit output)
  refine ⟨erase_renderLines (noEscape_layout h limit), d.gutter, _, _, ?_, hexcerpt, houtput, ?_⟩
  · rw [format, renderLines_eq, map_plainLine_layout]
  · rw [List.forall_mem_append]
    exact ⟨hexcerpt.forall_mem fun _ _ => barAt_of_excerptRows,
      houtput.forall_mem fun _ _ => barAt_of_outputRows⟩

theorem erase_format_hundredth_line :
    let d : Diagnostic := (((Diagnostic.bare .error "it failed").withExcerpt 99 "let a = 1;\nf(a);").withNote
      "exit status: 101").withOutput "first\nsecond\nthird"
    Style.erase (d.format true (some 1)).toList =
      ("error: it failed\n    |\n 99 | let a = 1;\n100 | f(a);\n    |\n   = note: exit status: 101\n" ++
        "    | first\n    | ... 2 more lines\n").toList := by
  intro d
  have hescape : d.NoEscape := by
    constructor <;> decide
  obtain ⟨herase, -⟩ := erase_format hescape (some 1)
  rw [herase]
  refine String.toList_inj.mpr ?_
  decide +kernel

end Diagnostic

end Doctest
