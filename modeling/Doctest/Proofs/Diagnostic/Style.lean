import Doctest.Diagnostic.Style

/-! Text with its style sequences taken out. Where the texts themselves have no escape character, what is
left of coloured text is the text without colours, with all its padding. -/
namespace Doctest

namespace Style

/-- The characters between the opening of a style sequence and its end. -/
def isParameter (c : Char) : Bool :=
  c.isDigit || c == ';'

/-- The text after a style sequence that it starts with. -/
def afterSequence? : List Char → Option (List Char)
  | '\x1b' :: '[' :: rest =>
    match rest.dropWhile isParameter with
    | 'm' :: rest => some rest
    | _ => none
  | _ => none

theorem length_lt_of_afterSequence? {cs rest : List Char} (h : afterSequence? cs = some rest) :
    rest.length < cs.length := by
  unfold afterSequence? at h
  split at h
  · next body =>
    split at h
    · next after hafter =>
      obtain rfl := Option.some.inj h
      have hlength := (List.dropWhile_suffix isParameter (l := body)).length_le
      rw [hafter] at hlength
      simp only [List.length_cons] at hlength ⊢
      omega
    · contradiction
  · contradiction

/-- The text without its style sequences. -/
def erase (cs : List Char) : List Char :=
  match _h : afterSequence? cs with
  | some rest => erase rest
  | none =>
    match cs with
    | [] => []
    | c :: cs => c :: erase cs
termination_by cs.length
decreasing_by
  · exact length_lt_of_afterSequence? _h
  · exact Nat.lt_succ_self _

theorem erase_nil : erase [] = [] := by
  rw [erase]
  rfl

theorem erase_cons {c : Char} (hc : c ≠ '\x1b') (cs : List Char) : erase (c :: cs) = c :: erase cs := by
  have hnone : afterSequence? (c :: cs) = none := by
    unfold afterSequence?
    split
    · next h => exact absurd (List.cons.inj h).1 hc
    · rfl
  rw [erase]
  split
  · next h =>
    rw [hnone] at h
    contradiction
  · rfl

theorem erase_append {text : List Char} (h : '\x1b' ∉ text) (cs : List Char) :
    erase (text ++ cs) = text ++ erase cs := by
  induction text with
  | nil => rfl
  | cons c text ih =>
    rw [List.mem_cons, not_or] at h
    obtain ⟨hc, htext⟩ := h
    rw [List.cons_append, erase_cons (Ne.symm hc), ih htext, List.cons_append]

theorem erase_parameters {ps : List Char} (h : ∀ c ∈ ps, isParameter c) (cs : List Char) :
    erase ('\x1b' :: '[' :: ps ++ 'm' :: cs) = erase cs := by
  have hdrop : (ps ++ 'm' :: cs).dropWhile isParameter = 'm' :: cs := by
    rw [List.dropWhile_append_of_pos h]
    rfl
  have hsome : afterSequence? ('\x1b' :: '[' :: ps ++ 'm' :: cs) = some cs := by
    show (match (ps ++ 'm' :: cs).dropWhile isParameter with
      | 'm' :: rest => some rest
      | _ => none) = some cs
    rw [hdrop]
    rfl
  rw [erase]
  split
  · next h =>
    rw [hsome] at h
    rw [Option.some.inj h]
  · next h =>
    rw [hsome] at h
    contradiction

theorem isParameter_sequence (s : Style) :
    ∀ c ∈ (";".intercalate (s.weight.codes ++ (s.color.map Color.code).toList)).toList, isParameter c := by
  obtain ⟨weight, color⟩ := s
  rcases weight with _ | _ | _ <;> rcases color with _ | (_ | _ | _ | _ | _) <;>
    exact List.all_eq_true.mp (by decide)

theorem erase_sequence (s : Style) (cs : List Char) : erase (s.sequence ++ cs) = erase cs := by
  have h := erase_parameters (isParameter_sequence s) cs
  have hopen : "\x1b[".toList = ['\x1b', '['] := by decide
  simpa [sequence, hopen] using h

theorem erase_reset (cs : List Char) : erase (reset ++ cs) = erase cs :=
  @erase_parameters ['0'] (List.all_eq_true.mp (by decide)) cs

theorem reopen_of_notMem (s : Style) {cs : List Char} (h : '\x1b' ∉ cs) : s.reopen cs = cs := by
  induction cs with
  | nil => rfl
  | cons c cs ih =>
    rw [List.mem_cons, not_or] at h
    obtain ⟨hc, hcs⟩ := h
    unfold reopen
    split
    · next h => exact absurd (List.cons.inj h).1.symm hc
    · next h =>
      obtain ⟨rfl, rfl⟩ := List.cons.inj h
      rw [ih hcs]
    · contradiction

end Style

namespace Segment

open Style (erase erase_append erase_sequence erase_reset reopen_of_notMem)

def text : Segment → String
  | plain text => text
  | styled _ _ text => text

def NoEscape (segment : Segment) : Prop :=
  '\x1b' ∉ segment.text.toList

instance : DecidablePred NoEscape :=
  fun segment => inferInstanceAs (Decidable ('\x1b' ∉ segment.text.toList))

@[simp]
theorem padLeft_zero (cs : List Char) : padLeft 0 cs = cs := by
  rw [padLeft, Nat.zero_sub]
  rfl

theorem notMem_padLeft {c : Char} (hc : c ≠ ' ') {cs : List Char} (h : c ∉ cs) (width : Nat) :
    c ∉ padLeft width cs := by
  unfold padLeft
  rw [List.mem_append, List.mem_replicate]
  rintro (⟨-, rfl⟩ | hmem)
  · exact hc rfl
  · exact h hmem

theorem erase_render {segment : Segment} (h : segment.NoEscape) (cs : List Char) :
    erase (segment.render true ++ cs) = segment.render false ++ erase cs := by
  cases segment with
  | plain text => exact erase_append h cs
  | styled style width text =>
    have hpadded : '\x1b' ∉ padLeft width text.toList := notMem_padLeft (by decide) h width
    have hreopen : style.reopen text.toList = text.toList := reopen_of_notMem style h
    show erase (style.sequence ++ padLeft width (style.reopen text.toList) ++ Style.reset ++ cs) =
      padLeft width text.toList ++ erase cs
    rw [List.append_assoc, List.append_assoc, erase_sequence, hreopen, erase_append hpadded, erase_reset]

end Segment

open Style (erase)

theorem erase_flatMap_render {line : List Segment} (h : ∀ segment ∈ line, segment.NoEscape)
    (cs : List Char) :
    erase (line.flatMap (·.render true) ++ cs) = line.flatMap (·.render false) ++ erase cs := by
  induction line with
  | nil => rfl
  | cons segment line ih =>
    obtain ⟨hsegment, hline⟩ := List.forall_mem_cons.mp h
    rw [List.flatMap_cons, List.append_assoc, Segment.erase_render hsegment, ih hline, List.flatMap_cons,
      List.append_assoc]

/-- Erasing the style sequences of coloured lines leaves the lines without colours. -/
theorem erase_renderLines {lines : List (List Segment)}
    (h : ∀ line ∈ lines, ∀ segment ∈ line, segment.NoEscape) :
    erase (renderLines true lines).toList = (renderLines false lines).toList := by
  rw [renderLines, renderLines, String.toList_ofList, String.toList_ofList]
  induction lines with
  | nil => exact Style.erase_nil
  | cons line lines ih =>
    obtain ⟨hline, hlines⟩ := List.forall_mem_cons.mp h
    have hnewline : '\n' ≠ '\x1b' := by decide
    rw [List.flatMap_cons, List.flatMap_cons, renderLine, renderLine, List.append_assoc, List.append_assoc,
      erase_flatMap_render hline, List.singleton_append, List.singleton_append, Style.erase_cons hnewline,
      ih hlines]

end Doctest
