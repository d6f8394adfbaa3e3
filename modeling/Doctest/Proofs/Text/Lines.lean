import Mathlib.Data.List.Basic
import Mathlib.Data.List.TakeWhile
import Doctest.Text.Lines

/-! Lines of a text that is put together from others: a newline between two texts ends the lines of the
one, and the lines of the other follow. -/
namespace Doctest.Text

variable {α : Type}

theorem joinWith_cons (sep : α) (p : List α) (ps : List (List α)) :
    joinWith sep (p :: ps) = p ++ ps.flatMap (sep :: ·) := by
  unfold joinWith
  induction ps generalizing p with
  | nil => simp
  | cons q qs ih =>
    rw [List.intercalate_cons_cons, ih]
    simp

theorem splitOn_cons_self [DecidableEq α] (sep : α) (cs : List α) :
    splitOn sep (sep :: cs) = [] :: splitOn sep cs := by
  simp [splitOn, splitWhere]

theorem splitOn_cons_of_ne [DecidableEq α] {sep c : α} (h : c ≠ sep) {cs part : List α}
    {parts : List (List α)} (hs : splitOn sep cs = part :: parts) :
    splitOn sep (c :: cs) = (c :: part) :: parts := by
  rw [splitOn] at hs ⊢
  simp [splitWhere, h, hs]

theorem exists_splitOn_eq_cons [DecidableEq α] (sep : α) (cs : List α) :
    ∃ part parts, splitOn sep cs = part :: parts :=
  List.exists_cons_of_ne_nil (splitWhere_ne_nil _ cs)

theorem splitOn_append_cons [DecidableEq α] (sep : α) (as bs : List α) :
    splitOn sep (as ++ sep :: bs) = splitOn sep as ++ splitOn sep bs := by
  induction as with
  | nil => exact splitOn_cons_self sep bs
  | cons a as ih =>
    obtain ⟨part, parts, hs⟩ := exists_splitOn_eq_cons sep as
    rw [hs] at ih
    by_cases h : a = sep
    · subst h
      rw [List.cons_append, splitOn_cons_self, splitOn_cons_self, ih, hs]
      rfl
    · rw [List.cons_append, splitOn_cons_of_ne h ih, splitOn_cons_of_ne h hs]
      rfl

theorem splitOn_of_notMem [DecidableEq α] {sep : α} {cs : List α} (h : sep ∉ cs) :
    splitOn sep cs = [cs] := by
  induction cs with
  | nil => rfl
  | cons c cs ih =>
    obtain ⟨hc, hcs⟩ : sep ≠ c ∧ sep ∉ cs := by simpa using h
    exact splitOn_cons_of_ne (Ne.symm hc) (ih hcs)

theorem notMem_of_mem_splitOn [DecidableEq α] {sep : α} {cs part : List α}
    (h : part ∈ splitOn sep cs) : sep ∉ part := by
  induction cs generalizing part with
  | nil =>
    obtain rfl : part = [] := by simpa [splitOn, splitWhere] using h
    simp
  | cons c cs ih =>
    obtain ⟨first, parts, hs⟩ := exists_splitOn_eq_cons sep cs
    rw [hs] at ih
    by_cases hc : c = sep
    · subst hc
      rw [splitOn_cons_self, hs] at h
      rcases List.mem_cons.mp h with rfl | h
      · simp
      · exact ih h
    · rw [splitOn_cons_of_ne hc hs] at h
      rcases List.mem_cons.mp h with rfl | h
      · simpa [Ne.symm hc] using ih List.mem_cons_self
      · exact ih (List.mem_cons_of_mem _ h)

/-- Parts that lack the separator are found again in the text that joins them. -/
theorem splitOn_joinWith [DecidableEq α] {sep : α} {parts : List (List α)} (hne : parts ≠ [])
    (h : ∀ part ∈ parts, sep ∉ part) : splitOn sep (joinWith sep parts) = parts := by
  induction parts with
  | nil => contradiction
  | cons p ps ih =>
    have hp := splitOn_of_notMem (h p List.mem_cons_self)
    cases ps with
    | nil => simpa [joinWith] using hp
    | cons q qs =>
      have hrest := ih (by simp) fun part hpart => h part (List.mem_cons_of_mem _ hpart)
      have hjoin : joinWith sep (p :: q :: qs) = p ++ sep :: joinWith sep (q :: qs) := by
        simp [joinWith_cons]
      rw [hjoin, splitOn_append_cons, hp, hrest]
      rfl

theorem lines_nil : lines [] = [] := rfl

/-- A newline ends all lines of the text before it, and the text after it has lines of its own. -/
theorem lines_append_newline (as bs : List Char) :
    lines (as ++ '\n' :: bs) = (splitOn '\n' as).map dropReturn ++ lines bs := by
  have hne := splitWhere_ne_nil (· = '\n') bs
  rw [← splitOn] at hne
  simp only [lines, splitOn_append_cons, List.dropLast_append_of_ne_nil hne,
    List.getLast?_append_of_ne_nil _ hne, List.map_append, List.append_assoc]

/-- A text without a newline is one line, unless it is empty. -/
theorem lines_of_notMem {cs : List Char} (h : '\n' ∉ cs) :
    lines cs = if cs.isEmpty then [] else [cs] := by
  rw [lines, splitOn_of_notMem h]
  cases cs <;> rfl

theorem notMem_dropReturn {c : Char} {cs : List Char} (h : c ∉ cs) : c ∉ dropReturn cs := by
  unfold dropReturn
  split
  · exact fun hc => h (List.dropLast_subset _ hc)
  · exact h

theorem dropReturn_append (front : List Char) {cs : List Char} (h : cs ≠ []) :
    dropReturn (front ++ cs) = front ++ dropReturn cs := by
  unfold dropReturn
  rw [List.getLast?_append_of_ne_nil _ h, List.dropLast_append_of_ne_nil h]
  split <;> rfl

theorem newline_notMem_of_mem_lines {cs line : List Char} (h : line ∈ lines cs) : '\n' ∉ line := by
  simp only [lines, List.mem_append, List.mem_map, List.mem_filter, Option.mem_toList] at h
  rcases h with ⟨part, hpart, rfl⟩ | ⟨hlast, -⟩
  · exact notMem_dropReturn (notMem_of_mem_splitOn (List.dropLast_subset _ hpart))
  · exact notMem_of_mem_splitOn (List.mem_of_getLast? hlast)

theorem mem_of_mem_splitOn [DecidableEq α] {sep : α} {cs part : List α} (h : part ∈ splitOn sep cs)
    {c : α} (hc : c ∈ part) : c ∈ cs := by
  rw [← joinWith_splitOn sep cs]
  obtain ⟨first, parts, hs⟩ := exists_splitOn_eq_cons sep cs
  rw [hs, joinWith_cons, List.mem_append, List.mem_flatMap]
  rw [hs] at h
  rcases List.mem_cons.mp h with rfl | h
  · exact .inl hc
  · exact .inr ⟨part, h, List.mem_cons_of_mem _ hc⟩

theorem notMem_of_mem_lines {c : Char} {cs line : List Char} (h : c ∉ cs) (hline : line ∈ lines cs) :
    c ∉ line := by
  simp only [lines, List.mem_append, List.mem_map, List.mem_filter, Option.mem_toList] at hline
  obtain ⟨part, hpart, rfl⟩ | ⟨hlast, -⟩ := hline
  · exact notMem_dropReturn fun hc => h (mem_of_mem_splitOn (List.dropLast_subset _ hpart) hc)
  · exact fun hc => h (mem_of_mem_splitOn (List.mem_of_getLast? hlast) hc)

theorem length_lines_le_length_splitOn (cs : List Char) :
    (lines cs).length ≤ (splitOn '\n' cs).length := by
  have h := length_lines_le cs
  have hs := length_splitWhere (· = '\n') cs
  rw [← splitOn] at hs
  have hc : cs.countP (· = '\n') = cs.count '\n' := rfl
  omega

/-- A line is a part between newlines, of which it may lack a carriage return. -/
theorem exists_part_of_getElem?_lines {cs line : List Char} {k : Nat}
    (h : (lines cs)[k]? = some line) : ∃ part, (splitOn '\n' cs)[k]? = some part ∧
      (line = part ∨ line = dropReturn part) := by
  obtain ⟨front, last, hs⟩ : ∃ front last, splitOn '\n' cs = front ++ [last] :=
    ⟨_, _, (List.dropLast_append_getLast (splitWhere_ne_nil _ cs)).symm⟩
  simp only [lines, hs, List.dropLast_concat, List.getLast?_concat, Option.toList_some] at h
  by_cases hk : k < front.length
  · rw [List.getElem?_append_left (by simpa using hk), List.getElem?_map] at h
    obtain ⟨part, hpart, rfl⟩ := Option.map_eq_some_iff.mp h
    exact ⟨part, by rw [hs, List.getElem?_append_left hk, hpart], .inr rfl⟩
  · rw [List.getElem?_append_right (by simpa using hk), List.length_map] at h
    have hmem := List.mem_of_getElem? h
    obtain ⟨hlast, -⟩ := List.mem_filter.mp hmem
    obtain rfl : line = last := by simpa using hlast
    have hzero : k - front.length = 0 := by
      have hlt := (List.getElem?_eq_some_iff.mp h).1
      have hle := List.length_filter_le (fun l : List Char => !l.isEmpty) [line]
      rw [List.length_singleton] at hle
      omega
    refine ⟨line, ?_, .inl rfl⟩
    rw [hs, List.getElem?_append_right (Nat.not_lt.mp hk), hzero]
    rfl

theorem infix_of_dropReturn {line part : List Char} (h : line = part ∨ line = dropReturn part) :
    line <:+: part := by
  rcases h with rfl | rfl
  · exact List.infix_refl _
  · unfold dropReturn
    split
    · exact (List.dropLast_prefix part).isInfix
    · exact List.infix_refl _

theorem dropEndWhile_eq_nil_iff {p : Char → Bool} {cs : List Char} :
    dropEndWhile p cs = [] ↔ ∀ c ∈ cs, p c := by
  rw [dropEndWhile, List.reverse_eq_nil_iff, List.dropWhile_eq_nil_iff]
  simp

/-- Text that does not drop away keeps what stands before it. -/
theorem dropEndWhile_append {p : Char → Bool} {cs : List Char} (h : dropEndWhile p cs ≠ []) (front : List Char) :
    dropEndWhile p (front ++ cs) = front ++ dropEndWhile p cs := by
  have hne : (cs.reverse.dropWhile p).isEmpty = false := by
    simpa [dropEndWhile] using h
  simp only [dropEndWhile, List.reverse_append, List.dropWhile_append, hne]
  simp

theorem isPrefix_dropEndWhile (p : Char → Bool) (cs : List Char) : dropEndWhile p cs <+: cs :=
  ⟨_, dropEndWhile_append_takeWhile p cs⟩

/-- What is left of a text does not end with what was dropped. -/
theorem getLast?_dropEndWhile {p : Char → Bool} {cs : List Char} :
    ∀ c ∈ (dropEndWhile p cs).getLast?, p c = false := by
  intro c hc
  rw [dropEndWhile, List.getLast?_reverse] at hc
  have hhead := List.head?_dropWhile_not p cs.reverse
  rw [Option.mem_def.mp hc] at hhead
  simpa using hhead

theorem count_dropEndWhile {p : Char → Bool} {c : Char} (hc : p c = false) (cs : List Char) :
    (dropEndWhile p cs).count c = cs.count c := by
  have happend := dropEndWhile_append_takeWhile p cs
  have hnone : c ∉ (cs.reverse.takeWhile p).reverse := fun h => by
    simpa [hc] using List.mem_takeWhile_imp (List.mem_reverse.mp h)
  have hcount := congrArg (List.count c) happend
  rw [List.count_append, List.count_eq_zero_of_not_mem hnone, Nat.add_zero] at hcount
  exact hcount

theorem trimReturns_append {cs : List Char} (h : trimReturns cs ≠ []) (front : List Char) :
    trimReturns (front ++ cs) = front ++ trimReturns cs :=
  dropEndWhile_append h front

theorem isPrefix_trimReturns (cs : List Char) : trimReturns cs <+: cs :=
  isPrefix_dropEndWhile _ cs

/-- Lines that are ended one by one are found again, but for carriage returns before their newlines. -/
theorem lines_flatMap_newline {ls : List (List Char)} (h : ∀ line ∈ ls, '\n' ∉ line) :
    lines (ls.flatMap (· ++ ['\n'])) = ls.map dropReturn := by
  induction ls with
  | nil => rfl
  | cons line ls ih =>
    obtain ⟨hline, hls⟩ := List.forall_mem_cons.mp h
    rw [List.flatMap_cons, List.append_assoc, List.singleton_append, lines_append_newline, splitOn_of_notMem hline,
      ih hls]
    rfl

/-- What must stand after a line so that the line, with all its carriage returns, is read again. -/
def lineEnd (line : List Char) : List Char :=
  if line.getLast? = some '\r' then ['\r', '\n'] else ['\n']

/-- Lines with their ends. -/
def unlines (ls : List (List Char)) : List Char :=
  ls.flatMap fun line => line ++ lineEnd line

end Doctest.Text
