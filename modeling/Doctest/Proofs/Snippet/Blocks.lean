import Doctest.Proofs.Text.Lines
import Doctest.Snippet.Basic

/-! Fenced blocks of a text. The lines of a text can be cut in exactly one way into prose and fenced
blocks, the blocks are what is read, and a text that is written of prose and blocks is read as these. -/
namespace Doctest

namespace Text

theorem trimStart_append {as : List Char} (h : ∀ c ∈ as, isBlank c) (cs : List Char) :
    trimStart (as ++ cs) = trimStart cs :=
  List.dropWhile_append_of_pos h

theorem trimEnd_append {bs : List Char} (h : ∀ c ∈ bs, isBlank c) (cs : List Char) :
    trimEnd (cs ++ bs) = trimEnd cs := by
  have hbs : ∀ c ∈ bs.reverse, isBlank c := fun c hc => h c (List.mem_reverse.mp hc)
  simp only [trimEnd, dropEndWhile, List.reverse_append, List.dropWhile_append_of_pos hbs]

/-- What is trimmed away is blank. -/
theorem exists_append_trim (cs : List Char) : ∃ as bs, cs = as ++ (trim cs ++ bs) ∧
    (∀ c ∈ as, isBlank c) ∧ ∀ c ∈ bs, isBlank c := by
  refine ⟨cs.takeWhile isBlank, ((trimStart cs).reverse.takeWhile isBlank).reverse, ?_, ?_, ?_⟩
  · rw [trim, trimEnd, dropEndWhile_append_takeWhile, trimStart, List.takeWhile_append_dropWhile]
  · exact fun c hc => List.mem_takeWhile_imp hc
  · exact fun c hc => List.mem_takeWhile_imp (List.mem_reverse.mp hc)

theorem mem_trim_iff {c : Char} (hc : isBlank c = false) (cs : List Char) :
    c ∈ trim cs ↔ c ∈ cs := by
  obtain ⟨as, bs, heq, has, hbs⟩ := exists_append_trim cs
  have hna : c ∉ as := fun h => by simpa [hc] using has c h
  have hnb : c ∉ bs := fun h => by simpa [hc] using hbs c h
  have hmem : c ∈ as ++ (trim cs ++ bs) ↔ c ∈ trim cs := by simp [hna, hnb]
  rw [← hmem, ← heq]

theorem trimStart_replicate {c : Char} (hc : isBlank c = false) {n : Nat} (hn : n ≠ 0)
    (cs : List Char) : trimStart (List.replicate n c ++ cs) = List.replicate n c ++ cs := by
  obtain ⟨m, rfl⟩ := Nat.exists_eq_succ_of_ne_zero hn
  rw [trimStart, List.replicate_succ, List.cons_append, List.dropWhile_cons_of_neg (by simp [hc])]

theorem trimEnd_replicate {c : Char} (hc : isBlank c = false) (n : Nat) :
    trimEnd (List.replicate n c) = List.replicate n c := by
  by_cases hn : n = 0
  · subst hn
    rfl
  · have hstart := trimStart_replicate hc hn []
    rw [List.append_nil] at hstart
    rw [trimEnd, dropEndWhile, List.reverse_replicate, ← trimStart, hstart, List.reverse_replicate]

/-- Characters that are not blank remain of what has blanks around it. -/
theorem trim_append_replicate {c : Char} (hc : isBlank c = false) {as bs : List Char}
    (has : ∀ a ∈ as, isBlank a) (hbs : ∀ b ∈ bs, isBlank b) (n : Nat) :
    trim (as ++ (List.replicate n c ++ bs)) = List.replicate n c := by
  by_cases hn : n = 0
  · subst hn
    have hbs' : trimStart bs = [] := List.dropWhile_eq_nil_iff.mpr hbs
    rw [trim, trimStart_append has, List.replicate_zero, List.nil_append, hbs']
    rfl
  · rw [trim, trimStart_append has, trimStart_replicate hc hn, trimEnd_append hbs,
      trimEnd_replicate hc]

end Text

namespace Fence

open Text

/-- A line opens a block if it is blanks, then a maximal run of at least three equal fence characters,
then an info string, in which no backtick stands after backticks. -/
def Opens (f : Fence) (line : List Char) : Prop :=
  ∃ blanks rest, line = blanks ++ (List.replicate f.length f.char ++ rest) ∧
    (∀ c ∈ blanks, isBlank c) ∧ (f.char = '`' ∨ f.char = '~') ∧ 3 ≤ f.length ∧
    rest.head? ≠ some f.char ∧ (f.char = '`' → '`' ∉ rest) ∧
    f.indent = byteLength blanks ∧ f.info = trim rest

/-- A line closes the block if between blanks it is the fence character alone, at least as often as in
the opening fence. -/
def Closes (f : Fence) (line : List Char) : Prop :=
  ∃ blanks n rest, line = blanks ++ (List.replicate n f.char ++ rest) ∧
    (∀ c ∈ blanks, isBlank c) ∧ (∀ c ∈ rest, isBlank c) ∧ f.length ≤ n

theorem isBlank_char {c : Char} (h : c = '`' ∨ c = '~') : isBlank c = false := by
  rcases h with rfl | rfl <;> decide

theorem Opens.isBlank_char {f : Fence} {line : List Char} (h : f.Opens line) :
    isBlank f.char = false := by
  obtain ⟨_, _, _, _, hchar, _⟩ := h
  exact Fence.isBlank_char hchar

theorem takeWhile_replicate_append {c : Char} (n : Nat) {rest : List Char}
    (h : rest.head? ≠ some c) :
    (List.replicate n c ++ rest).takeWhile (· = c) = List.replicate n c := by
  have hrest : rest.takeWhile (· = c) = [] := by
    cases rest with
    | nil => rfl
    | cons a as =>
      have ha : a ≠ c := by simpa using h
      simp [ha]
  rw [List.takeWhile_append_of_pos (by simp), hrest, List.append_nil]

theorem Opens.open?_eq {f : Fence} {line : List Char} (h : f.Opens line) : open? line = some f := by
  obtain ⟨blanks, rest, rfl, hblanks, hchar, hlength, hhead, hinfo, hindent, htrim⟩ := h
  obtain ⟨n, hn⟩ : ∃ n, f.length = n + 1 := ⟨f.length - 1, by omega⟩
  have hstart : trimStart (blanks ++ (List.replicate f.length f.char ++ rest)) =
      List.replicate f.length f.char ++ rest := by
    rw [trimStart_append hblanks, trimStart_replicate (Fence.isBlank_char hchar) (by omega)]
  have hrun : ((List.replicate f.length f.char ++ rest).takeWhile (· = f.char)).length = f.length := by
    rw [takeWhile_replicate_append _ hhead, List.length_replicate]
  have hdrop : (List.replicate f.length f.char ++ rest).drop f.length = rest :=
    List.drop_left' List.length_replicate
  have hok : ¬ (f.length < 3 ∨ (f.char = '`' ∧ '`' ∈ trim rest)) := by
    rw [mem_trim_iff (by decide)]
    rintro (hlt | ⟨hc, hmem⟩)
    · omega
    · exact hinfo hc hmem
  have hbytes : byteLength (blanks ++ (List.replicate f.length f.char ++ rest)) -
      byteLength (List.replicate f.length f.char ++ rest) = f.indent := by
    rw [byteLength_append, Nat.add_sub_cancel, hindent]
  have hcons : List.replicate f.length f.char ++ rest =
      f.char :: (List.replicate n f.char ++ rest) := by
    rw [hn, List.replicate_succ, List.cons_append]
  unfold open?
  dsimp only
  rw [hstart]
  split
  · next heq => simp [hcons] at heq
  · next c cs heq =>
    obtain ⟨rfl, -⟩ : f.char = c ∧ _ := by simpa [hcons] using heq
    rw [if_pos hchar, hrun, hdrop, if_neg hok, hbytes, ← htrim]

theorem opens_of_open?_eq {f : Fence} {line : List Char} (h : open? line = some f) :
    f.Opens line := by
  unfold open? at h
  dsimp only at h
  split at h
  · simp at h
  · next c cs hstart =>
    have hrun : (trimStart line).takeWhile (· = c) =
        List.replicate ((trimStart line).takeWhile (· = c)).length c :=
      List.eq_replicate_iff.mpr ⟨rfl, fun x hx => by simpa using List.mem_takeWhile_imp hx⟩
    have hrest : ((trimStart line).takeWhile (· = c) ++ (trimStart line).dropWhile (· = c)).drop
        ((trimStart line).takeWhile (· = c)).length = (trimStart line).dropWhile (· = c) :=
      List.drop_left
    rw [List.takeWhile_append_dropWhile] at hrest
    split at h
    · next hchar =>
      split at h
      · simp at h
      · next hok =>
        obtain rfl := Option.some.inj h
        obtain ⟨hlength, hinfo⟩ := not_or.mp hok
        refine ⟨line.takeWhile isBlank, (trimStart line).dropWhile (· = c), ?_,
          fun x hx => List.mem_takeWhile_imp hx, hchar, Nat.not_lt.mp hlength, ?_, ?_, ?_, ?_⟩
        · rw [← hrun, List.takeWhile_append_dropWhile, trimStart, List.takeWhile_append_dropWhile]
        · intro hhead
          simpa [hhead] using List.head?_dropWhile_not (· = c) (trimStart line)
        · rw [hrest, mem_trim_iff (by decide)] at hinfo
          exact fun hc hmem => hinfo ⟨hc, hmem⟩
        · have hbytes := byteLength_append (line.takeWhile isBlank) (trimStart line)
          rw [trimStart, List.takeWhile_append_dropWhile, ← trimStart] at hbytes
          exact Nat.sub_eq_of_eq_add hbytes
        · rw [hrest]
    · simp at h

theorem open?_eq_some_iff {f : Fence} {line : List Char} : open? line = some f ↔ f.Opens line :=
  ⟨opens_of_open?_eq, Opens.open?_eq⟩

theorem closes_iff {f : Fence} (hf : isBlank f.char = false) (line : List Char) :
    f.closes line ↔ f.Closes line := by
  simp only [closes, Bool.and_eq_true, decide_eq_true_eq, List.all_eq_true]
  constructor
  · rintro ⟨hlength, hall⟩
    obtain ⟨as, bs, heq, has, hbs⟩ := exists_append_trim line
    have hrun : trim line = List.replicate (trim line).length f.char :=
      List.eq_replicate_iff.mpr ⟨rfl, hall⟩
    refine ⟨as, (trim line).length, bs, ?_, has, hbs, hlength⟩
    rw [← hrun]
    exact heq
  · rintro ⟨blanks, n, rest, rfl, hblanks, hrest, hlength⟩
    rw [trim_append_replicate hf hblanks hrest, List.length_replicate]
    exact ⟨hlength, fun x hx => List.eq_of_mem_replicate hx⟩

/-- The parts of a body between newlines are its lines without the fence's indentation. -/
theorem exists_of_lt_length_lines {f : Fence} {inside : List (List Char)}
    (h : ∀ line ∈ inside, '\n' ∉ line) {k : Nat}
    (hk : k < (lines (joinWith '\n' (inside.map f.unindent))).length) : ∃ original,
      inside[k]? = some original ∧
      (splitOn '\n' (joinWith '\n' (inside.map f.unindent)))[k]? = some (f.unindent original) := by
  have hne : inside.map f.unindent ≠ [] := by
    intro hnil
    rw [hnil] at hk
    simp [joinWith, lines_nil] at hk
  have hparts : ∀ part ∈ inside.map f.unindent, '\n' ∉ part := by
    intro part hpart
    obtain ⟨line, hline, rfl⟩ := List.mem_map.mp hpart
    exact fun hmem => h line hline (List.mem_of_mem_drop hmem)
  have hlength := length_lines_le_length_splitOn (joinWith '\n' (inside.map f.unindent))
  rw [splitOn_joinWith hne hparts] at hlength ⊢
  have hlt : k < inside.length := by
    rw [List.length_map] at hlength
    omega
  exact ⟨inside[k], List.getElem?_eq_getElem hlt, by simp [hlt]⟩

theorem Opens.unique {f g : Fence} {line : List Char} (hf : f.Opens line) (hg : g.Opens line) :
    f = g :=
  Option.some.inj (hf.open?_eq.symm.trans hg.open?_eq)

end Fence

namespace Snippet

open Text

/-- A part of a text: a line of prose, or a block with its opening line, the lines inside of it and its
closing line, which is missing where the text ends first. -/
inductive Part
  | prose (line : List Char)
  | block (fence : Fence) (opening : List Char) (inside : List (List Char))
    (closing : Option (List Char))

namespace Part

/-- How the parts of a text make up its lines. Prose opens no block, and a block lasts up to the first
line that closes it, or to the end of the text. -/
inductive Cut : List (List Char) → List Part → Prop
  | nil : Cut [] []
  | prose {line : List Char} {ls : List (List Char)} {ps : List Part} :
    (∀ f : Fence, ¬ f.Opens line) → Cut ls ps → Cut (line :: ls) (prose line :: ps)
  | closed {f : Fence} {opening closing : List Char} {inside ls : List (List Char)}
    {ps : List Part} :
    f.Opens opening → (∀ line ∈ inside, ¬ f.Closes line) → f.Closes closing → Cut ls ps →
      Cut (opening :: (inside ++ closing :: ls)) (block f opening inside (some closing) :: ps)
  | unclosed {f : Fence} {opening : List Char} {inside : List (List Char)} :
    f.Opens opening → (∀ line ∈ inside, ¬ f.Closes line) →
      Cut (opening :: inside) [block f opening inside none]

/-- The blocks among the parts of a text whose first line has the number `line`. Each line inside of a
block loses as many of its leading spaces as the fence is indented, if it has so many. -/
def snippets : (line : Nat) → List Part → List Snippet
  | _, [] => []
  | line, prose _ :: ps => snippets (line + 1) ps
  | line, block f _ inside closing :: ps =>
    let body := inside.map fun l => l.drop (min f.indent (l.takeWhile (· = ' ')).length)
    ⟨String.ofList (joinWith '\n' body), Attribute.parse f.info, line⟩ ::
      snippets (line + (1 + inside.length + closing.toList.length)) ps

/-- The lines inside of a block are those up to its closing line. -/
theorem takeWhile_closed {f : Fence} {opening closing : List Char} {inside : List (List Char)}
    (hf : f.Opens opening) (hin : ∀ line ∈ inside, ¬ f.Closes line) (hc : f.Closes closing)
    (ls : List (List Char)) : (inside ++ closing :: ls).takeWhile (!f.closes ·) = inside := by
  have hinside : ∀ line ∈ inside, (!f.closes line) = true := fun line hline => by
    simpa using (Fence.closes_iff hf.isBlank_char line).not.mpr (hin line hline)
  have hclosing : f.closes closing = true := (Fence.closes_iff hf.isBlank_char closing).mpr hc
  rw [List.takeWhile_append_of_pos hinside, List.takeWhile_cons_of_neg (by simp [hclosing]),
    List.append_nil]

theorem takeWhile_unclosed {f : Fence} {opening : List Char} {inside : List (List Char)}
    (hf : f.Opens opening) (hin : ∀ line ∈ inside, ¬ f.Closes line) :
    inside.takeWhile (!f.closes ·) = inside := by
  refine List.takeWhile_eq_self_iff.mpr fun line hline => ?_
  simpa using (Fence.closes_iff hf.isBlank_char line).not.mpr (hin line hline)

/-- The blocks of a cut are what is read from the lines. -/
theorem Cut.ofLines_eq {ls : List (List Char)} {ps : List Part} (h : Cut ls ps) (line : Nat) :
    ofLines line ls = snippets line ps := by
  induction h generalizing line with
  | nil => simp [ofLines, snippets]
  | @prose l ls ps hprose _ ih =>
    have hopen : Fence.open? l = none :=
      Option.eq_none_iff_forall_ne_some.mpr fun f hf => hprose f (Fence.opens_of_open?_eq hf)
    simp only [ofLines, hopen, snippets, ih]
  | @closed f opening closing inside ls ps hf hin hc _ ih =>
    have hbody := takeWhile_closed hf hin hc ls
    have hafter : (inside ++ closing :: ls).drop (inside.length + 1) = ls := by simp
    have hnext : line + 1 + inside.length + 1 = line + (1 + inside.length + 1) := by omega
    simp only [ofLines, hf.open?_eq, hbody, hafter, hnext, ih, snippets]
    rfl
  | @unclosed f opening inside hf hin =>
    have hbody := takeWhile_unclosed hf hin
    have hafter : inside.drop (inside.length + 1) = [] := by simp
    simp only [ofLines, hf.open?_eq, hbody, hafter, snippets]
    rfl

/-- A block that was read stands among the lines, at the line that it has, and lasts up to the first line
that closes it. -/
theorem Cut.exists_of_mem_snippets {ls : List (List Char)} {ps : List Part} (h : Cut ls ps)
    {line : Nat} {s : Snippet} (hs : s ∈ snippets line ps) :
    ∃ before f opening inside after, ls = before ++ opening :: (inside ++ after) ∧
      Fence.Opens f opening ∧ (∀ l ∈ inside, ¬ f.Closes l) ∧ (∀ l ∈ after.head?, f.Closes l) ∧
      s = ⟨String.ofList (joinWith '\n' (inside.map f.unindent)),
        Attribute.parse f.info, line + before.length⟩ := by
  induction h generalizing line with
  | nil => simp [snippets] at hs
  | @prose l ls ps _ _ ih =>
    obtain ⟨before, f, opening, inside, after, rfl, hf, hin, hafter, rfl⟩ := ih hs
    exact ⟨l :: before, f, opening, inside, after, rfl, hf, hin, hafter,
      by simp [Nat.add_assoc, Nat.add_comm 1]⟩
  | @closed f opening closing inside ls ps hf hin hc _ ih =>
    rcases List.mem_cons.mp hs with rfl | hs
    · exact ⟨[], f, opening, inside, closing :: ls, rfl, hf, hin, by simpa using hc, rfl⟩
    · obtain ⟨before, g, opening', inside', after, rfl, hg, hin', hafter, rfl⟩ := ih hs
      refine ⟨opening :: (inside ++ closing :: before), g, opening', inside', after, by simp, hg, hin',
        hafter, ?_⟩
      simp
      omega
  | @unclosed f opening inside hf hin =>
    rcases List.mem_cons.mp hs with rfl | hs
    · exact ⟨[], f, opening, inside, [], by simp, hf, hin, by simp, rfl⟩
    · simp [snippets] at hs

theorem exists_cut (ls : List (List Char)) : ∃ ps, Cut ls ps := by
  induction hn : ls.length using Nat.strong_induction_on generalizing ls with
  | _ n ih =>
    cases ls with
    | nil => exact ⟨[], .nil⟩
    | cons first rest =>
      cases hopen : Fence.open? first with
      | none =>
        obtain ⟨ps, hps⟩ := ih rest.length (by simp [← hn]) rest rfl
        have hprose : ∀ f : Fence, ¬ f.Opens first := fun f hf => by simp [hf.open?_eq] at hopen
        exact ⟨_, .prose hprose hps⟩
      | some f =>
        have hf := Fence.opens_of_open?_eq hopen
        have hin : ∀ line ∈ rest.takeWhile (!f.closes ·), ¬ f.Closes line := fun line hline => by
          have hnot := List.mem_takeWhile_imp hline
          exact (Fence.closes_iff hf.isBlank_char line).not.mp (by simpa using hnot)
        have hrest := List.takeWhile_append_dropWhile (p := (!f.closes ·)) (l := rest)
        cases hdrop : rest.dropWhile (!f.closes ·) with
        | nil =>
          rw [hdrop, List.append_nil] at hrest
          exact ⟨_, .unclosed hf (hrest ▸ hin)⟩
        | cons closing after =>
          have hclosing : f.Closes closing := by
            have hnot := List.head?_dropWhile_not (!f.closes ·) rest
            rw [hdrop] at hnot
            exact (Fence.closes_iff hf.isBlank_char closing).mp (by simpa using hnot)
          have hlength : after.length < n := by
            have := congrArg List.length hrest
            rw [hdrop] at this
            simp at this hn
            omega
          obtain ⟨ps, hps⟩ := ih after.length hlength after rfl
          rw [hdrop] at hrest
          rw [← hrest]
          exact ⟨_, .closed hf hin hclosing hps⟩

theorem Cut.unique {ls : List (List Char)} {ps qs : List Part} (hp : Cut ls ps) (hq : Cut ls qs) :
    ps = qs := by
  induction hp generalizing qs with
  | nil =>
    cases hq
    rfl
  | prose hprose _ ih =>
    cases hq with
    | prose _ hq => rw [ih hq]
    | closed hf => exact absurd hf (hprose _)
    | unclosed hf => exact absurd hf (hprose _)
  | @closed f opening closing inside ls ps hf hin hc _ ih =>
    have hbody := takeWhile_closed hf hin hc ls
    generalize htail : inside ++ closing :: ls = tail at hq hbody
    cases hq with
    | prose hprose => exact absurd hf (hprose _)
    | @closed g _ closing' inside' ls' qs hg hin' hc' hq =>
      obtain rfl := hf.unique hg
      obtain rfl : inside' = inside := (takeWhile_closed hg hin' hc' ls').symm.trans hbody
      obtain ⟨rfl, rfl⟩ : closing = closing' ∧ ls = ls' := by simpa using htail
      rw [ih hq]
    | @unclosed g _ inside' hg hin' =>
      obtain rfl := hf.unique hg
      exact absurd hc (hin' closing (by simp [← htail]))
  | @unclosed f opening inside hf hin =>
    generalize htail : inside = tail at hq
    cases hq with
    | prose hprose => exact absurd hf (hprose _)
    | @closed g _ closing' inside' ls' qs hg hin' hc' hq =>
      obtain rfl := hf.unique hg
      exact absurd hc' (hin closing' (by simp [htail]))
    | @unclosed g _ inside' hg hin' =>
      obtain rfl := hf.unique hg
      rfl

end Part

/-- A closed block that is to be written, with its lines as they are read. -/
structure Draft where
  fence : Fence
  opening : List Char
  body : List (List Char)
  closing : List Char
  opens : fence.Opens opening
  notClosed : ∀ line ∈ body, ¬ fence.Closes line
  closes : fence.Closes closing
  oneLine : ∀ line ∈ opening :: closing :: body, '\n' ∉ line

/-- A line of prose that opens no block, or a block. -/
inductive Passage
  | prose (line : List Char) (opens : ∀ f : Fence, ¬ f.Opens line) (oneLine : '\n' ∉ line)
  | block (b : Draft)

namespace Passage

/-- The lines of a block are indented like its fence. -/
def lines : Passage → List (List Char)
  | prose line _ _ => [line]
  | block b => b.opening :: (b.body.map (List.replicate b.fence.indent ' ' ++ ·) ++ [b.closing])

def write (ps : List Passage) : String :=
  String.ofList (unlines (ps.flatMap lines))

/-- The blocks of a text whose first line has the number `line`. -/
def snippets : (line : Nat) → List Passage → List Snippet
  | _, [] => []
  | line, prose _ _ _ :: ps => snippets (line + 1) ps
  | line, block b :: ps =>
    ⟨String.ofList (joinWith '\n' b.body), Attribute.parse b.fence.info, line⟩ ::
      snippets (line + b.body.length + 2) ps

def part : Passage → Part
  | prose line _ _ => .prose line
  | block b =>
    .block b.fence b.opening (b.body.map (List.replicate b.fence.indent ' ' ++ ·)) (some b.closing)

end Passage

theorem exists_ends_of_mem_ofText {text : String} {firstLine : Nat} {s : Snippet}
    (hs : s ∈ ofText text firstLine) :
    ∃ before f opening inside after,
      lines text.toList = before ++ opening :: (inside ++ after) ∧ Fence.Opens f opening ∧
        (∀ l ∈ inside, ¬ f.Closes l) ∧ (∀ l ∈ after.head?, f.Closes l) ∧
        s = ⟨String.ofList (joinWith '\n' (inside.map f.unindent)), Attribute.parse f.info,
          firstLine + before.length⟩ := by
  obtain ⟨ps, hps⟩ := Part.exists_cut (lines text.toList)
  rw [ofText, hps.ofLines_eq] at hs
  exact hps.exists_of_mem_snippets hs

theorem exists_block_of_mem_ofText {text : String} {firstLine : Nat} {s : Snippet}
    (hs : s ∈ ofText text firstLine) :
    ∃ before f opening inside after,
      lines text.toList = before ++ opening :: (inside ++ after) ∧ Fence.Opens f opening ∧
        s = ⟨String.ofList (joinWith '\n' (inside.map f.unindent)), Attribute.parse f.info,
          firstLine + before.length⟩ := by
  obtain ⟨before, f, opening, inside, after, heq, hf, -, -, hs⟩ := exists_ends_of_mem_ofText hs
  exact ⟨before, f, opening, inside, after, heq, hf, hs⟩

end Snippet

end Doctest
