import Doctest.Proofs.Token.Edges

/-! Text that is put in between two lexemes. If it begins with a newline, or with the blank that stood there, the
lexemes before it end where they did. A word that was read as a name because of the character after it may then be
read as a keyword, and nothing else about them changes. -/
namespace Doctest.Lexeme

open Text

/-- A text and another one to stand in its place. -/
inductive Break : List Char → List Char → Prop
  | newline (v w : List Char) : Break v ('\n' :: w)
  | blank {c : Char} (hc : isSkipped c) (v w : List Char) : Break (c :: v) (c :: w)

/-- A lexeme is read as before, or what was a name is a word. -/
def Recast (a b : Class × Nat) : Prop :=
  b = a ∨ a.1 = .name ∧ b = (.word, a.2)

/-- Punctuation is one character. -/
theorem after_eq_punct {c : Char} {cs : List Char} (h : (after c cs).1 = .punct) : (after c cs).2 = 0 := by
  revert h
  refine after_cases (motive := fun f => (f cs).1 = .punct → (f cs).2 = 0) c
    ?blank ?slash ?quote ?doubleQuote ?digit ?letter ?mark
  case blank => simp
  case slash =>
    intro _ h
    unfold afterSlash at h ⊢
    split at h
    · simp at h
    · split at h <;> simp at h
    · rfl
  case quote =>
    intro _ h
    unfold afterQuote at h ⊢
    split at h
    · simp at h
    · split at h
      · split at h
        · simp at h
        · next hletter => simp [hletter]
      · rfl
  case doubleQuote =>
    intro _ h
    unfold afterDoubleQuote at h ⊢
    split at h
    · simp at h
    · split at h
      · simp
      · simp at h
  case digit => simp
  case letter =>
    intro _ h
    have hcls := afterLetter_cls c cs
    simp [h] at hcls
  case mark =>
    intro h
    unfold afterMark at h ⊢
    split at h <;> try simp at h
    split <;> rfl

namespace Break

variable {v w us : List Char}

theorem exists_head (h : Break v w) : ∃ c ds, w = c :: ds ∧ c ∈ seamChars ∧ isSkipped c := by
  cases h with
  | newline v w => exact ⟨'\n', w, rfl, by decide, by decide⟩
  | blank hc v w => exact ⟨_, w, rfl, mem_seamChars_of_isSkipped hc, hc⟩

theorem mem_seamChars (h : Break v w) {c : Char} (hc : c ∈ w.head?) : c ∈ seamChars := by
  obtain ⟨d, ds, rfl, hd, -⟩ := h.exists_head
  obtain rfl : d = c := by simpa using hc
  exact hd

theorem run_eq (h : Break v w) {p : Char → Bool} (hp : ∀ c ∈ seamChars, p c = false)
    (hle : run p (us ++ v) ≤ us.length) : run p (us ++ w) = run p (us ++ v) := by
  refine run_append_of_le hle fun _ => ?_
  obtain ⟨c, ds, rfl, hc, -⟩ := h.exists_head
  simp [run, hp c hc]

theorem run_line (h : Break v w) (hv : run (· ≠ '\n') v = 0) : run (· ≠ '\n') w = 0 := by
  cases h with
  | newline v w => simp [run]
  | blank hc v w =>
    simp only [run, List.takeWhile_cons] at hv ⊢
    split at hv
    · simp at hv
    · next hline => simp [hline]

theorem afterSlash_eq (h : Break v w) (hle : (afterSlash (us ++ v)).2 ≤ us.length)
    (hcls : (afterSlash (us ++ v)).1 ≠ .unclosedComment) : afterSlash (us ++ w) = afterSlash (us ++ v) := by
  cases us with
  | cons u us => exact afterSlash_append_of_le h.run_line hle hcls
  | nil =>
    obtain ⟨c, ds, rfl, hc, -⟩ := h.exists_head
    have hmarks : ∀ c ∈ seamChars, c ≠ '/' ∧ c ≠ '*' := List.all_iff_forall_prop.mp (by decide)
    have hw : afterSlash (c :: ds) = (.punct, 0) := by
      have hne := hmarks c hc
      unfold afterSlash
      split <;> simp_all
    have hv : afterSlash v = (.punct, 0) := by
      rw [List.nil_append] at hle
      cases v with
      | nil => rfl
      | cons d v =>
        by_cases hslash : d = '/'
        · simp [hslash, afterSlash] at hle
        by_cases hstar : d = '*'
        · cases hn : commentTail? 0 v <;> simp [hstar, afterSlash, hn] at hle
        · simp [afterSlash, hslash, hstar]
    rw [List.nil_append, List.nil_append, hw, hv]

theorem charTail?_eq_none_iff {c : Char} (hc : c ≠ '\\' ∧ c ≠ '\'' ∧ c ≠ '\n') (cs : List Char) :
    charTail? (c :: cs) = none ↔ '\'' ∉ cs.head? := by
  unfold charTail?
  split <;> simp_all
  intro hhead
  obtain ⟨ds, rfl⟩ := List.head?_eq_some_iff.mp hhead
  simp_all

theorem notMem_head? (h : Break v w) {c : Char} (hc : c ∉ seamChars) (hus : us = [] ∨ c ∉ (us ++ v).head?) :
    c ∉ (us ++ w).head? := by
  cases us with
  | nil => exact fun hmem => hc (h.mem_seamChars hmem)
  | cons u us => simpa using hus

/-- A quote that begins a lifetime or a literal. -/
theorem afterQuote_eq (h : Break v w) (hle : (afterQuote (us ++ v)).2 ≤ us.length)
    (hcls : (afterQuote (us ++ v)).1 ≠ .punct) : afterQuote (us ++ w) = afterQuote (us ++ v) := by
  unfold afterQuote at hle hcls ⊢
  cases hn : charTail? (us ++ v) with
  | some n =>
    rw [hn] at hle
    rw [charTail?_append_of_le hn hle w]
  | none =>
    rw [hn] at hle hcls
    cases us with
    | nil =>
      rw [List.nil_append] at hn hle hcls
      cases v with
      | nil => simp at hcls
      | cons d v =>
        by_cases hletter : (isLetter d || decide (d = '_')) = true
        · simp [hletter] at hle
        · simp [hletter] at hcls
    | cons u us =>
      rw [List.cons_append] at hn hle hcls
      rw [List.cons_append, List.cons_append]
      dsimp only at hle hcls
      by_cases hletter : (isLetter u || decide (u = '_')) = true
      · rw [if_pos hletter] at hle
        have hplain : u ≠ '\\' ∧ u ≠ '\'' ∧ u ≠ '\n' := by
          refine ⟨?_, ?_, ?_⟩ <;> (rintro rfl; exact absurd hletter (by decide))
        have hquote := (charTail?_eq_none_iff hplain _).mp hn
        have hnone := (charTail?_eq_none_iff hplain _).mpr (h.notMem_head? (by decide) (.inr hquote))
        have hrun : run isWordChar (us ++ w) = run isWordChar (us ++ v) :=
          h.run_eq (List.all_iff_forall_prop.mp (by decide)) (Nat.le_of_succ_le_succ hle)
        rw [hnone]
        dsimp only
        rw [hrun]
      · simp [hletter] at hcls

theorem word_recast (h : Break v w) (hle : (word (us ++ v)).2 ≤ us.length) :
    Recast (word (us ++ v)) (word (us ++ w)) := by
  have hrun : run isNameChar (us ++ w) = run isNameChar (us ++ v) :=
    h.run_eq (fun _ => isNameChar_of_mem_seamChars) hle
  unfold word at hle ⊢
  dsimp only at hle ⊢
  rw [hrun]
  rcases Nat.lt_or_eq_of_le hle with hlt | heq
  · left
    rw [List.getElem?_append_left hlt, List.getElem?_append_left hlt]
  · obtain ⟨c, ds, rfl, hc, -⟩ := h.exists_head
    have hw : (us ++ c :: ds)[run isNameChar (us ++ v)]?.any hasNameByte = false := by
      simp [heq, hasNameByte_of_mem_seamChars hc]
    rw [hw]
    by_cases hv : (us ++ v)[run isNameChar (us ++ v)]?.any hasNameByte = true
    · right
      simp [hv]
    · left
      simp [hv]

theorem rawString?_eq (h : Break v w) {enough : Nat} (hus : enough ≤ us.length + 1)
    (hle : ∀ found ∈ rawString? enough (us ++ v), found.2 ≤ us.length ∧ found.1 ≠ .unclosedRawString) :
    rawString? enough (us ++ w) = rawString? enough (us ++ v) := by
  have hk : run (· = '#') (us ++ v) ≤ us.length := by
    by_contra hlong
    unfold rawString? at hle
    dsimp only at hle
    split at hle
    · cases hn : rawTail? (run (· = '#') (us ++ v)) ((us ++ v).drop (run (· = '#') (us ++ v) + 1)) with
      | none =>
        rw [hn] at hle
        exact (hle _ rfl).2 rfl
      | some n =>
        rw [hn] at hle
        have hbound := (hle _ rfl).1
        dsimp only at hbound
        omega
    · rw [if_pos (by omega)] at hle
      exact (hle _ rfl).2 rfl
  have hrun : run (· = '#') (us ++ w) = run (· = '#') (us ++ v) :=
    h.run_eq (List.all_iff_forall_prop.mp (by decide)) hk
  refine rawString?_append_of_le hrun (fun hw => ?_) hle
  rcases Nat.lt_or_eq_of_le hk with hlt | heq
  · rwa [List.getElem?_append_left hlt] at hw ⊢
  · obtain ⟨c, ds, rfl, hc, -⟩ := h.exists_head
    have hquote : c ≠ '"' := (List.all_iff_forall_prop.mp (by decide) : ∀ c ∈ seamChars, c ≠ '"') c hc
    simp [heq, hquote] at hw

/-- A raw string takes up at least its quote or the hash signs that are enough to open it. -/
theorem rawString?_pos {enough : Nat} {cs : List Char} {found : Class × Nat} (hpos : 0 < enough)
    (h : rawString? enough cs = some found) : 0 < found.2 := by
  unfold rawString? at h
  dsimp only at h
  split at h
  · next hquote =>
    obtain ⟨hlt, -⟩ := List.getElem?_eq_some_iff.mp hquote
    split at h
    · obtain rfl := Option.some.inj h
      exact Nat.lt_of_lt_of_le (Nat.succ_pos _) (Nat.le_add_right _ _)
    · obtain rfl := Option.some.inj h
      exact Nat.zero_lt_of_lt hlt
  · split at h
    · next henough =>
      obtain rfl := Option.some.inj h
      exact Nat.lt_of_lt_of_le hpos henough
    · simp at h

theorem afterLetter_r_recast (h : Break v w) (hle : (afterLetter 'r' (us ++ v)).2 ≤ us.length)
    (hcls : (afterLetter 'r' (us ++ v)).1 ≠ .unclosedRawString) :
    Recast (afterLetter 'r' (us ++ v)) (afterLetter 'r' (us ++ w)) := by
  have hfound (found : Class × Nat) (hfound : found ∈ rawString? 2 (us ++ v)) :
      found.2 ≤ us.length ∧ found.1 ≠ .unclosedRawString := by
    rw [Option.mem_def] at hfound
    unfold afterLetter at hle hcls
    simp only [hfound] at hle hcls
    exact ⟨hle, hcls⟩
  have hname {first : Char} {rest : List Char} (hnone : rawString? 2 (us ++ v) = none)
      (heq : us ++ v = '#' :: first :: rest) (hus : us.length ≤ 1) : isNameStart first = false := by
    by_contra hstart
    rw [heq] at hnone hle
    simp [afterLetter, hnone, hstart] at hle
    omega
  have hstops : ∀ c ∈ seamChars, c ≠ '#' ∧ c ≠ '"' := List.all_iff_forall_prop.mp (by decide)
  cases us with
  | nil =>
    have hnone : rawString? 2 ([] ++ v) = none := by
      by_contra hsome
      obtain ⟨found, hfound'⟩ := Option.ne_none_iff_exists'.mp hsome
      have hpos := rawString?_pos (by decide) hfound'
      have hzero := (hfound found hfound').1
      exact absurd hpos (Nat.not_lt.mpr hzero)
    have hv := afterLetter_r_eq_word hnone fun heq => hname hnone heq (Nat.zero_le _)
    have hw : afterLetter 'r' ([] ++ w) = word ([] ++ w) := by
      obtain ⟨c, ds, rfl, hc, -⟩ := h.exists_head
      obtain ⟨hhash, hquote⟩ := hstops c hc
      refine afterLetter_r_eq_word ?_ fun heq => absurd (List.cons.inj heq).1 hhash
      simp [rawString?, run, hhash, hquote]
    rw [hv] at hle ⊢
    rw [hw]
    exact h.word_recast hle
  | cons u us =>
    have hraw : rawString? 2 (u :: us ++ w) = rawString? 2 (u :: us ++ v) := h.rawString?_eq (by simp) hfound
    cases hv : rawString? 2 (u :: us ++ v) with
    | some found =>
      left
      unfold afterLetter
      simp only [hraw, hv]
    | none =>
      rw [hv] at hraw
      cases us with
      | nil =>
        have hleft := afterLetter_r_eq_word hv fun heq => hname hv heq (Nat.le_refl _)
        have hright : afterLetter 'r' ([u] ++ w) = word ([u] ++ w) := by
          refine afterLetter_r_eq_word hraw fun heq => ?_
          obtain ⟨c, ds, rfl, hc, -⟩ := h.exists_head
          obtain ⟨rfl, -⟩ := List.cons.inj (List.cons.inj heq).2
          exact isNameStart_of_mem_seamChars hc
        rw [hleft] at hle ⊢
        rw [hright]
        exact h.word_recast hle
      | cons b us =>
        by_cases hrawName : u = '#' ∧ isNameStart b = true
        · obtain ⟨rfl, hb⟩ := hrawName
          left
          unfold afterLetter at hle ⊢
          simp only [List.cons_append] at hv hraw hle ⊢
          simp only [hv, hraw, hb, if_true] at hle ⊢
          rw [h.run_eq (fun _ => isNameChar_of_mem_seamChars)
            (Nat.le_of_succ_le_succ (Nat.le_of_succ_le_succ hle))]
        · have hplain {first : Char} {rest cs : List Char} (heq : u :: b :: us ++ cs = '#' :: first :: rest) :
              isNameStart first = false := by
            obtain ⟨rfl, htail⟩ := List.cons.inj heq
            obtain ⟨rfl, -⟩ := List.cons.inj htail
            by_contra hstart
            exact hrawName ⟨rfl, Bool.of_not_eq_false hstart⟩
          rw [afterLetter_r_eq_word hv hplain] at hle ⊢
          rw [afterLetter_r_eq_word hraw hplain]
          exact h.word_recast hle

theorem afterLetter_recast (h : Break v w) (c : Char) (hle : (afterLetter c (us ++ v)).2 ≤ us.length)
    (hcls : (afterLetter c (us ++ v)).1 ≠ .unclosedRawString) :
    Recast (afterLetter c (us ++ v)) (afterLetter c (us ++ w)) := by
  by_cases hr : c = 'r'
  · subst hr
    exact h.afterLetter_r_recast hle hcls
  · by_cases hb : c = 'b' ∧ 'r' ∈ (us ++ v).head?
    · obtain ⟨rfl, hmem⟩ := hb
      cases us with
      | nil =>
        obtain ⟨rest, rfl⟩ := List.head?_eq_some_iff.mp hmem
        have hname : isNameChar 'r' = true := by decide +kernel
        cases hn : rawString? 1 rest <;> simp [afterLetter, hn, word, run, hname] at hle
      | cons u us =>
        obtain rfl : u = 'r' := by simpa using hmem
        rw [List.cons_append] at hle hcls
        have hraw : rawString? 1 (us ++ w) = rawString? 1 (us ++ v) :=
            h.rawString?_eq (by simp) fun found hfound => by
          rw [Option.mem_def] at hfound
          rw [afterLetter, hfound] at hle hcls
          exact ⟨Nat.le_of_succ_le_succ hle, hcls⟩
        cases hn : rawString? 1 (us ++ v) with
        | some found =>
          left
          simp only [List.cons_append, afterLetter, hraw, hn]
        | none =>
          rw [hn] at hraw
          have hword (cs : List Char) (hcs : rawString? 1 cs = none) :
              afterLetter 'b' ('r' :: cs) = word ('r' :: cs) := by
            simp only [afterLetter, hcs]
          rw [List.cons_append, List.cons_append, hword _ hn, hword _ hraw]
          rw [hword _ hn] at hle
          have hwhole : (word ('r' :: us ++ v)).2 ≤ ('r' :: us).length := hle
          exact h.word_recast hwhole
    · have hnot : c = 'b' → 'r' ∉ (us ++ w).head? := fun hc =>
        h.notMem_head? (by decide) (.inr fun hmem => hb ⟨hc, hmem⟩)
      rw [afterLetter_eq_word hr fun hc hmem => hb ⟨hc, hmem⟩] at hle ⊢
      rw [afterLetter_eq_word hr hnot]
      exact h.word_recast hle

theorem afterMark_eq (h : Break v w) (c : Char) (hle : (afterMark c (us ++ v)).2 ≤ us.length) :
    afterMark c (us ++ w) = afterMark c (us ++ v) := by
  cases us with
  | cons u us =>
    unfold afterMark
    split <;> simp_all
  | nil =>
    have hstops : ∀ c ∈ seamChars, c ≠ ':' ∧ c ≠ '>' := List.all_iff_forall_prop.mp (by decide)
    obtain ⟨d, ds, rfl, hd, -⟩ := h.exists_head
    have hne := hstops d hd
    have hw : afterMark c ([] ++ d :: ds) = afterMark c [] := by
      unfold afterMark
      split <;> simp_all
    have hv : afterMark c ([] ++ v) = afterMark c [] := by
      unfold afterMark at hle ⊢
      split <;> simp_all
    rw [hw, hv]

/-- A lexeme that ends before the place of the text is read as before. A last blank would go on, and a quote that
stands alone could begin a literal. -/
theorem after_recast (h : Break v w) {c : Char} (hle : (after c (us ++ v)).2 ≤ us.length)
    (hcls : (after c (us ++ v)).1 ∉ unfinished)
    (hblank : isSkipped c → ∃ d ∈ us, ¬isSkipped d)
    (hquote : c = '\'' ∨ c = '"' → (after c (us ++ v)).1 ≠ .punct) :
    Recast (after c (us ++ v)) (after c (us ++ w)) := by
  revert hle hcls hquote
  refine after_cases (motive := fun f => (f (us ++ v)).2 ≤ us.length → (f (us ++ v)).1 ∉ unfinished →
    (c = '\'' ∨ c = '"' → (f (us ++ v)).1 ≠ .punct) → Recast (f (us ++ v)) (f (us ++ w))) c
    ?blank ?slash ?quote ?doubleQuote ?digit ?letter ?mark
  case blank =>
    intro hskip _ _ _
    left
    dsimp only
    rw [run_append_of_exists (hblank hskip) v w]
  case slash =>
    intro _ hle hcls _
    exact .inl (h.afterSlash_eq hle fun hcomment => hcls (by simp [hcomment, unfinished]))
  case quote =>
    intro hc hle _ hquote
    exact .inl (h.afterQuote_eq hle (hquote (.inl hc)))
  case doubleQuote =>
    intro hc hle hcls hquote
    have hliteral : (afterDoubleQuote (us ++ v)).1 = .literal := by
      have hmem := afterDoubleQuote_cls (us ++ v)
      have hpunct := hquote (.inr hc)
      simp_all [unfinished]
    exact .inl (afterDoubleQuote_append_of_le hle hliteral w)
  case digit =>
    intro _ hle _ _
    left
    dsimp only
    rw [h.run_eq (List.all_iff_forall_prop.mp (by decide)) hle]
  case letter =>
    intro _ hle hcls _
    exact h.afterLetter_recast c hle fun hraw => hcls (by simp [hraw, unfinished])
  case mark =>
    intro hle _ _
    exact .inl (h.afterMark_eq c hle)

end Break

/-- The same lexeme, or what was a name as a word. -/
def Rereads (x y : Lexeme) : Prop :=
  y = x ∨ x.cls = .name ∧ y = ⟨.word, x.text⟩

/-- The lexemes before a break are read as before. The last of them is no blank, and no quote stands alone. -/
theorem exists_split_append_of_break {us v w : List Char} (h : Break v w) {xs : List Lexeme}
    (hsplit : split (us ++ v) = xs ++ split v) (hcls : ∀ x ∈ xs, x.cls ∉ unfinished)
    (hquote : ∀ x ∈ xs, x.cls = .punct → x.text ≠ ['\''] ∧ x.text ≠ ['"'])
    (hlast : ∀ x ∈ xs.getLast?, x.cls ≠ .blank) :
    ∃ ys, split (us ++ w) = ys ++ split w ∧ List.Forall₂ Rereads xs ys := by
  induction xs generalizing us with
  | nil =>
    obtain rfl : [] = us := flatMap_text_of_split_append hsplit
    exact ⟨[], rfl, .nil⟩
  | cons x xs ih =>
    obtain ⟨c, us, rfl, hle, hx, hxs⟩ := exists_of_split_append hsplit
    have hrecast : Recast (after c (us ++ v)) (after c (us ++ w)) := by
      refine h.after_recast hle ?_ (fun hc => ?_) (fun hc hpunct => ?_)
      · have hx' := hcls x List.mem_cons_self
        rwa [hx] at hx'
      · by_contra hnone
        have hskipped : ∀ d ∈ us, isSkipped d := by simpa using hnone
        have hafter : after c (us ++ v) = (.blank, run isSkipped (us ++ v)) := by rw [after, if_pos hc]
        have hlong : us.length ≤ run isSkipped (us ++ v) := by
          rw [run, List.takeWhile_append_of_pos hskipped, List.length_append]
          exact Nat.le_add_right _ _
        have hnil : xs = [] := by
          rw [hafter, List.drop_of_length_le hlong, List.nil_append] at hxs
          exact List.self_eq_append_left.mp hxs
        refine hlast x (by simp [hnil]) ?_
        rw [hx, hafter]
      · have hx' := hquote x List.mem_cons_self
        rw [hx, after_eq_punct hpunct, List.take_zero] at hx'
        rcases hc with rfl | rfl
        · exact (hx' hpunct).1 rfl
        · exact (hx' hpunct).2 rfl
    have hcount : (after c (us ++ w)).2 = (after c (us ++ v)).2 := by
      rcases hrecast with heq | ⟨-, heq⟩ <;> rw [heq]
    obtain ⟨ys, hys, hreads⟩ : ∃ ys, split (us.drop (after c (us ++ v)).2 ++ w) = ys ++ split w ∧
        List.Forall₂ Rereads xs ys :=
      ih hxs (fun y hy => hcls y (List.mem_cons_of_mem _ hy)) (fun y hy => hquote y (List.mem_cons_of_mem _ hy))
        fun y hy => hlast y (List.mem_getLast?_cons hy)
    refine ⟨⟨(after c (us ++ w)).1, c :: us.take (after c (us ++ v)).2⟩ :: ys, ?_, .cons ?_ hreads⟩
    · rw [List.cons_append, split_cons, hcount, List.drop_append_of_le_length hle,
        List.take_append_of_le_length hle, hys]
      rfl
    · rw [hx]
      rcases hrecast with heq | ⟨hname, heq⟩
      · exact .inl (by rw [heq])
      · exact .inr ⟨hname, by rw [heq]⟩

end Doctest.Lexeme
