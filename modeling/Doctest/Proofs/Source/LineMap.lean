import Doctest.Source.LineMap
import Doctest.Proofs.Text.Lines

/-! Lines of a source text by their numbers: the line of a place is told by the newlines before it, and
its text is the part of the source between two newlines. -/
namespace Doctest

namespace Text

variable {α : Type} [DecidableEq α]

theorem length_splitOn (sep : α) (cs : List α) : (splitOn sep cs).length = cs.count sep + 1 := by
  have h := length_splitWhere (· = sep) cs
  have hc : cs.countP (· = sep) = cs.count sep := by
    rw [List.count_eq_countP]
    exact List.countP_congr fun c _ => by simp
  rw [splitOn, h, hc]

/-- What stands around a part: the separators before it are counted, and one stands right before it and
right after it unless the text begins or ends there. -/
theorem exists_of_getElem?_splitOn {sep : α} {cs part : List α} {k : Nat}
    (h : (splitOn sep cs)[k]? = some part) : ∃ before after, cs = before ++ (part ++ after) ∧
      before.count sep = k ∧ (before = [] ∨ ∃ as, before = as ++ [sep]) ∧
      (after = [] ∨ ∃ bs, after = sep :: bs) := by
  induction cs generalizing k part with
  | nil =>
    obtain ⟨rfl, rfl⟩ : k = 0 ∧ part = [] := by
      cases k <;> simp_all [splitOn, splitWhere]
    exact ⟨[], [], rfl, rfl, .inl rfl, .inl rfl⟩
  | cons c cs ih =>
    by_cases hc : c = sep
    · subst hc
      rw [splitOn_cons_self] at h
      cases k with
      | zero =>
        obtain rfl : [] = part := by simpa using h
        exact ⟨[], c :: cs, rfl, rfl, .inl rfl, .inr ⟨cs, rfl⟩⟩
      | succ k =>
        obtain ⟨before, after, rfl, hcount, hbefore, hafter⟩ := ih (by simpa using h)
        refine ⟨c :: before, after, rfl, by simp [hcount], .inr ?_, hafter⟩
        rcases hbefore with rfl | ⟨as, rfl⟩
        · exact ⟨[], rfl⟩
        · exact ⟨c :: as, rfl⟩
    · obtain ⟨first, parts, hs⟩ := exists_splitOn_eq_cons sep cs
      rw [splitOn_cons_of_ne hc hs] at h
      cases k with
      | zero =>
        obtain rfl : c :: first = part := by simpa using h
        obtain ⟨before, after, rfl, hcount, hbefore, hafter⟩ :=
          ih (show (splitOn sep cs)[0]? = some first by simp [hs])
        have hnil : before = [] := by
          rcases hbefore with rfl | ⟨as, rfl⟩
          · rfl
          · simp at hcount
        subst hnil
        exact ⟨[], after, rfl, rfl, .inl rfl, hafter⟩
      | succ k =>
        obtain ⟨before, after, rfl, hcount, hbefore, hafter⟩ :=
          ih (show (splitOn sep cs)[k + 1]? = some part by simpa [hs] using h)
        refine ⟨c :: before, after, rfl, by simp [hcount, hc], .inr ?_, hafter⟩
        rcases hbefore with rfl | ⟨as, rfl⟩
        · simp at hcount
        · exact ⟨c :: as, rfl⟩

theorem getElem?_splitOn_append {sep : α} (before : List α) {cs part : List α} {parts : List (List α)}
    (hs : splitOn sep cs = part :: parts) :
    ∃ front, (splitOn sep (before ++ cs))[before.count sep]? = some (front ++ part) := by
  induction before with
  | nil => exact ⟨[], by simp [hs]⟩
  | cons c before ih =>
    obtain ⟨front, hfront⟩ := ih
    by_cases hc : c = sep
    · subst hc
      exact ⟨front, by simpa [splitOn_cons_self] using hfront⟩
    · obtain ⟨first, rest, hrest⟩ := exists_splitOn_eq_cons sep (before ++ cs)
      rw [List.cons_append, splitOn_cons_of_ne hc hrest, List.count_cons_of_ne hc]
      rw [hrest] at hfront
      cases hn : before.count sep with
      | zero =>
        obtain rfl : first = front ++ part := by simpa [hn] using hfront
        exact ⟨c :: front, rfl⟩
      | succ n => exact ⟨front, by simpa [hn] using hfront⟩

/-- A text without the separator, up to the end or the next separator, ends a part. -/
theorem exists_part_append {sep : α} (before : List α) {mid after : List α} (hmid : sep ∉ mid)
    (hafter : after = [] ∨ ∃ bs, after = sep :: bs) : ∃ front,
      (splitOn sep (before ++ (mid ++ after)))[before.count sep]? = some (front ++ mid) := by
  rcases hafter with rfl | ⟨bs, rfl⟩
  · rw [List.append_nil]
    exact getElem?_splitOn_append before (splitOn_of_notMem hmid)
  · refine getElem?_splitOn_append before (?_ : _ = mid :: splitOn sep bs)
    rw [splitOn_append_cons, splitOn_of_notMem hmid]
    rfl

end Text

namespace LineMap

open Text

theorem startsAfter_append (offset : Nat) (as bs : List Char) :
    startsAfter offset (as ++ bs) =
      startsAfter offset as ++ startsAfter (offset + byteLength as) bs := by
  induction as generalizing offset with
  | nil => rfl
  | cons c as ih =>
    have hoffset : offset + c.utf8Size + byteLength as = offset + byteLength (c :: as) := by
      rw [byteLength_cons, Nat.add_assoc]
    simp only [List.cons_append, startsAfter, ih, hoffset]
    split <;> rfl

theorem le_of_mem_startsAfter {offset start : Nat} {cs : List Char}
    (h : start ∈ startsAfter offset cs) : offset < start ∧ start ≤ offset + byteLength cs := by
  induction cs generalizing offset with
  | nil => simp [startsAfter] at h
  | cons c cs ih =>
    have hsize := c.utf8Size_pos
    have hrest : start ∈ startsAfter (offset + c.utf8Size) cs →
        offset < start ∧ start ≤ offset + byteLength (c :: cs) := by
      intro hmem
      obtain ⟨hlt, hle⟩ := ih hmem
      rw [byteLength_cons]
      omega
    unfold startsAfter at h
    split at h
    · rcases List.mem_cons.mp h with rfl | h
      · rw [byteLength_cons]
        omega
      · exact hrest h
    · exact hrest h

/-- The line of a place is one more than the newlines before it. -/
theorem lineOf_byteLength {source : String} {as bs : List Char} (h : source.toList = as ++ bs) :
    (ofString source).lineOf (byteLength as) = as.count '\n' + 1 := by
  have hbefore : (startsAfter 0 as).countP (· ≤ byteLength as) = as.count '\n' := by
    rw [List.countP_eq_length.mpr, length_startsAfter]
    intro start hstart
    simpa using (le_of_mem_startsAfter hstart).2
  have hafter : (startsAfter (0 + byteLength as) bs).countP (· ≤ byteLength as) = 0 := by
    refine List.countP_eq_zero.mpr fun start hstart => ?_
    have hlt := (le_of_mem_startsAfter hstart).1
    simp
    omega
  rw [lineOf, ofString, h, startsAfter_append, List.countP_cons_of_pos (by simp),
    List.countP_append, hbefore, hafter]
  omega

theorem getElem?_starts {source : String} {as bs : List Char} (h : source.toList = as ++ bs)
    (has : as = [] ∨ ∃ cs, as = cs ++ ['\n']) :
    (ofString source).starts[as.count '\n']? = some (byteLength as) := by
  rcases has with rfl | ⟨cs, rfl⟩
  · rfl
  · have hcount : (cs ++ ['\n']).count '\n' = cs.count '\n' + 1 := by simp
    have hsize : '\n'.utf8Size = 1 := by decide
    have hstarts : startsAfter 0 source.toList = startsAfter 0 cs ++
        (byteLength (cs ++ ['\n']) :: startsAfter (byteLength cs + 1) bs) := by
      rw [h, List.append_assoc, startsAfter_append]
      simp [startsAfter, hsize]
    rw [ofString, hstarts, hcount, List.getElem?_cons_succ,
      List.getElem?_append_right (by simp [length_startsAfter]), length_startsAfter, Nat.sub_self]
    rfl

theorem getElem?_starts_eq_none {source : String} {k : Nat} (h : source.toList.count '\n' < k) :
    (ofString source).starts[k]? = none := by
  refine List.getElem?_eq_none ?_
  rw [ofString, List.length_cons, length_startsAfter]
  exact h

/-- The text of a line is the part between two newlines, without carriage returns at its end. -/
theorem lineText?_of_getElem?_splitOn {source : String} {k : Nat} {part : List Char}
    (h : (splitOn '\n' source.toList)[k]? = some part) :
    (ofString source).lineText? source (k + 1) = some (String.ofList (trimReturns part)) := by
  obtain ⟨before, after, htext, hcount, hbefore, hafter⟩ := exists_of_getElem?_splitOn h
  have hstart := getElem?_starts htext hbefore
  have hpart : '\n' ∉ part := notMem_of_mem_splitOn (List.mem_of_getElem? h)
  have hspan := Span.text?_append before part after
  rw [← htext, String.ofList_toList] at hspan
  rw [hcount] at hstart
  rw [lineText?, if_neg (Nat.succ_ne_zero k), Nat.add_sub_cancel, hstart]
  -- The line ends with the text, or before the start of the next line.
  rcases hafter with rfl | ⟨bs, rfl⟩
  · have hlast : source.toList.count '\n' < k + 1 := by
      rw [htext, List.append_nil, List.count_append, List.count_eq_zero_of_not_mem hpart, hcount]
      omega
    have hsize : byteLength source.toList = byteLength before + byteLength part := by
      rw [htext, List.append_nil, byteLength_append]
    rw [getElem?_starts_eq_none hlast, hsize]
    simp [hspan]
  · have hnext := getElem?_starts (show source.toList = (before ++ (part ++ ['\n'])) ++ bs by simpa using htext)
      (.inr ⟨before ++ part, by simp⟩)
    have hlines : (before ++ (part ++ ['\n'])).count '\n' = k + 1 := by
      simp [List.count_append, List.count_eq_zero_of_not_mem hpart, hcount]
    have hsize : byteLength (before ++ (part ++ ['\n'])) = byteLength before + byteLength part + 1 := by
      have hnewline : '\n'.utf8Size = 1 := by decide
      simp [hnewline, Nat.add_assoc]
    rw [hlines, hsize] at hnext
    simp [hnext, hspan]

end LineMap

end Doctest
