import Mathlib.Data.Bool.AllAny
import Doctest.Proofs.Token.Places

/-! Lexemes at the seam of two texts. What a lexeme is does not change when the text after it is replaced,
as long as the characters that come next belong to no lexeme before them. -/
namespace Doctest.Lexeme

open Text

/-- Two texts that may follow the same lexemes: a semicolon in place of an opening brace and a newline,
and the end of a text in place of a newline and a closing brace. -/
inductive Seam : List Char → List Char → Prop
  | semi (bs cs : List Char) : Seam (';' :: bs) ('{' :: '\n' :: cs)
  | stop {bs : List Char} (hblank : ∀ c ∈ bs, isSkipped c) (cs : List Char) :
    Seam bs (bs ++ '\n' :: '}' :: cs)

/-- What the texts of a seam begin with. -/
def seamChars : List Char :=
  [';', '{', ' ', '\t', '\r', '\n', '\x0c']

theorem mem_seamChars_of_isSkipped {c : Char} (h : isSkipped c) : c ∈ seamChars := by
  simp only [isSkipped, Bool.or_eq_true, decide_eq_true_eq] at h
  simp only [seamChars, List.mem_cons]
  tauto

theorem isNameChar_of_mem_seamChars {c : Char} (hc : c ∈ seamChars) : isNameChar c = false := by
  have hall : ∀ c ∈ seamChars, isNameChar c = false := List.all_iff_forall_prop.mp (by decide +kernel)
  exact hall c hc

theorem isNameStart_of_mem_seamChars {c : Char} (hc : c ∈ seamChars) : isNameStart c = false := by
  by_contra hstart
  have hname := isNameChar_of_isNameStart (Bool.of_not_eq_false hstart)
  simp [isNameChar_of_mem_seamChars hc] at hname

theorem hasNameByte_of_mem_seamChars {c : Char} (hc : c ∈ seamChars) : hasNameByte c = false := by
  have hall : ∀ c ∈ seamChars, hasNameByte c = false := List.all_iff_forall_prop.mp (by decide +kernel)
  exact hall c hc

theorem not_isSkipped_of_isNameStart {c : Char} (h : isNameStart c) : isSkipped c = false := by
  by_contra hskip
  have hnone := isNameStart_of_mem_seamChars (mem_seamChars_of_isSkipped (by simpa using hskip))
  simp [h] at hnone

theorem not_isDigit_of_isNameStart {c : Char} (h : isNameStart c) : isDigit c = false := by
  by_contra hdigit
  have hrange : '0' ≤ c ∧ c ≤ '9' := by simpa [isDigit] using hdigit
  have hle : c.toNat ≤ 0x39 := hrange.2
  have hbounds : ∀ r ∈ nameStartRanges, 0x41 ≤ r.1 := by decide +kernel
  simp only [isNameStart, Bool.or_eq_true, decide_eq_true_eq, inRanges, List.any_eq_true, Bool.and_eq_true] at h
  rcases h with rfl | ⟨r, hr, hlow, -⟩
  · exact absurd hle (by decide)
  · have := hbounds r hr
    omega

/-- A letter begins a word. -/
theorem after_of_isNameStart {c : Char} (h : isNameStart c) (cs : List Char) : after c cs = afterLetter c cs := by
  have hskip := not_isSkipped_of_isNameStart h
  have hmarks : c ≠ '/' ∧ c ≠ '\'' ∧ c ≠ '"' := by
    refine ⟨?_, ?_, ?_⟩ <;> (rintro rfl; exact absurd h (by decide +kernel))
  obtain ⟨hslash, hquote, hdouble⟩ := hmarks
  have hdigit := not_isDigit_of_isNameStart h
  simp [after, hskip, hslash, hquote, hdouble, hdigit, h]

namespace Seam

variable {v w : List Char}

theorem head_left (h : Seam v w) {c : Char} (hc : c ∈ v.head?) : c ∈ seamChars := by
  cases h with
  | semi bs cs =>
    obtain rfl : ';' = c := by simpa using hc
    decide
  | stop hblank cs => exact mem_seamChars_of_isSkipped (hblank c (List.mem_of_mem_head? hc))

theorem head_right (h : Seam v w) {c : Char} (hc : c ∈ w.head?) : c ∈ seamChars := by
  cases h with
  | semi bs cs =>
    obtain rfl : '{' = c := by simpa using hc
    decide
  | stop hblank cs =>
    cases v with
    | nil =>
      obtain rfl : '\n' = c := by simpa using hc
      decide
    | cons b v => exact mem_seamChars_of_isSkipped (hblank c (by simp_all))

end Seam

theorem run_le_length (p : Char → Bool) (cs : List Char) : run p cs ≤ cs.length :=
  (List.takeWhile_prefix p).length_le

/-- A run of characters ends at a text that begins with another one. -/
theorem run_append_of_head {p : Char → Bool} (us : List Char) {vs : List Char}
    (h : ∀ c ∈ vs.head?, p c = false) : run p (us ++ vs) = run p us := by
  unfold run
  induction us with
  | nil =>
    cases vs with
    | nil => rfl
    | cons v vs => simp [h v (by simp)]
  | cons u us ih =>
    rw [List.cons_append]
    by_cases hu : p u = true
    · simp [hu, ih]
    · simp [hu]

/-- A run that ends inside a text ends there whatever follows the text. -/
theorem run_append_of_exists {p : Char → Bool} {us : List Char} (h : ∃ c ∈ us, ¬p c) (vs ws : List Char) :
    run p (us ++ vs) = run p (us ++ ws) := by
  obtain ⟨c, hc, hnot⟩ := h
  obtain ⟨as, bs, rfl⟩ := List.append_of_mem hc
  have hrun (cs : List Char) : run p (as ++ c :: bs ++ cs) = run p as := by
    rw [List.append_assoc]
    exact run_append_of_head as (by simpa using hnot)
  rw [hrun, hrun]

/-- A run that ends before `vs` also ends there before a text that the run does not go into. -/
theorem run_append_of_le {p : Char → Bool} {us vs ws : List Char}
    (hle : run p (us ++ vs) ≤ us.length) (hws : run p vs = 0 → run p ws = 0) :
    run p (us ++ ws) = run p (us ++ vs) := by
  induction us with
  | nil =>
    have hvs : run p vs = 0 := Nat.le_zero.mp hle
    rw [List.nil_append, List.nil_append, hws hvs, hvs]
  | cons u us ih =>
    by_cases hu : p u = true
    · have hcons (cs : List Char) : run p (u :: us ++ cs) = run p (us ++ cs) + 1 := by simp [run, hu]
      rw [hcons, List.length_cons] at hle
      rw [hcons, hcons, ih (by omega)]
    · simp [run, hu]

theorem Seam.run_eq {v w : List Char} (h : Seam v w) {p : Char → Bool}
    (hp : ∀ c ∈ seamChars, p c = false) (us : List Char) : run p (us ++ w) = run p (us ++ v) := by
  rw [run_append_of_head us fun c hc => hp c (h.head_right hc),
    run_append_of_head us fun c hc => hp c (h.head_left hc)]

theorem Seam.run_le {v w : List Char} (h : Seam v w) {p : Char → Bool}
    (hp : ∀ c ∈ seamChars, p c = false) (us : List Char) : run p (us ++ v) ≤ us.length := by
  rw [run_append_of_head us fun c hc => hp c (h.head_left hc)]
  exact run_le_length p us

/-- A character that is read alone in a comment begins no mark. -/
theorem not_marks_of_patterns {depth : Nat} {c : Char} {cs : List Char}
    (hopen : ∀ ds, c = '/' → cs = '*' :: ds → False) (hclose : ∀ ds, depth = 0 → c = '*' → cs = '/' :: ds → False)
    (hdeep : ∀ k ds, depth = k + 1 → c = '*' → cs = '/' :: ds → False) :
    ¬['/', '*'] <+: c :: cs ∧ ¬['*', '/'] <+: c :: cs := by
  constructor
  · rintro ⟨ds, hds⟩
    obtain ⟨rfl, rfl⟩ := List.cons.inj hds
    exact hopen ds rfl rfl
  · rintro ⟨ds, hds⟩
    obtain ⟨rfl, rfl⟩ := List.cons.inj hds
    cases depth with
    | zero => exact hclose ds rfl rfl rfl
    | succ k => exact hdeep k ds rfl rfl rfl

/-- What closes a comment is found from the characters up to it. -/
theorem commentTail?_take {depth : Nat} {cs : List Char} {n : Nat}
    (h : commentTail? depth cs = some n) :
    2 ≤ n ∧ n ≤ cs.length ∧ ∀ ws, commentTail? depth (cs.take n ++ ws) = some n := by
  fun_induction commentTail? depth cs generalizing n with
  | case1 => simp at h
  | case2 depth cs ih =>
    obtain ⟨m, hm, rfl⟩ := Option.map_eq_some_iff.mp h
    obtain ⟨h2, hle, hws⟩ := ih hm
    refine ⟨by omega, by simpa using hle, fun ws => ?_⟩
    simp [commentTail?, hws]
  | case3 cs =>
    obtain rfl := Option.some.inj h
    exact ⟨Nat.le_refl _, by simp, fun ws => by simp [commentTail?]⟩
  | case4 depth cs ih =>
    obtain ⟨m, hm, rfl⟩ := Option.map_eq_some_iff.mp h
    obtain ⟨h2, hle, hws⟩ := ih hm
    refine ⟨by omega, by simpa using hle, fun ws => ?_⟩
    simp [commentTail?, hws]
  | case5 depth c cs hopen hclose hdeep ih =>
    obtain ⟨m, hm, rfl⟩ := Option.map_eq_some_iff.mp h
    obtain ⟨h2, hle, hws⟩ := ih hm
    refine ⟨by omega, by simpa using hle, fun ws => ?_⟩
    -- The character after `c` is the same, so the two begin or end no comment.
    obtain ⟨k, rfl⟩ : ∃ k, m = k + 1 := ⟨m - 1, by omega⟩
    cases cs with
    | nil => simp at hle
    | cons d ds =>
      have hws := hws ws
      rw [List.take_succ_cons, List.cons_append] at hws ⊢
      rw [List.take_succ_cons, List.cons_append]
      rw [commentTail?.eq_def]
      split <;> simp_all

theorem stringTail?_take {cs : List Char} {n : Nat} (h : stringTail? cs = some n) :
    n ≤ cs.length ∧ ∀ ws, stringTail? (cs.take n ++ ws) = some n := by
  fun_induction stringTail? cs generalizing n with
  | case1 => simp at h
  | case2 cs =>
    obtain rfl := Option.some.inj h
    exact ⟨by simp, fun ws => by simp [stringTail?]⟩
  | case3 => simp at h
  | case4 c cs ih =>
    obtain ⟨m, hm, rfl⟩ := Option.map_eq_some_iff.mp h
    obtain ⟨hle, hws⟩ := ih hm
    exact ⟨by simpa using hle, fun ws => by simp [stringTail?, hws]⟩
  | case5 c cs hquote hslash hescape ih =>
    obtain ⟨m, hm, rfl⟩ := Option.map_eq_some_iff.mp h
    obtain ⟨hle, hws⟩ := ih hm
    refine ⟨by simpa using hle, fun ws => ?_⟩
    have hc : c ≠ '\\' := by
      rintro rfl
      cases cs <;> simp_all
    rw [List.take_succ_cons, List.cons_append, stringTail?.eq_def]
    split
    · simp_all
    · next heq => exact absurd (List.cons.inj heq).1 hquote
    · next heq => exact absurd (List.cons.inj heq).1 hc
    · next heq => exact absurd (List.cons.inj heq).1 hc
    · next heq =>
      rw [← (List.cons.inj heq).2, hws]
      rfl

theorem rawTail?_take {hashes : Nat} {cs : List Char} {n : Nat} (h : rawTail? hashes cs = some n) :
    hashes < n ∧ n ≤ cs.length ∧ ∀ ws, rawTail? hashes (cs.take n ++ ws) = some n := by
  induction cs generalizing n with
  | nil => simp [rawTail?] at h
  | cons c cs ih =>
    unfold rawTail? at h
    split at h
    · next hquote =>
      obtain rfl := Option.some.inj h
      obtain ⟨rfl, hhashes⟩ := hquote
      obtain ⟨ds, rfl⟩ := List.isPrefixOf_iff_prefix.mp hhashes
      refine ⟨by simp, by simp, fun ws => ?_⟩
      simp [rawTail?]
    · next hquote =>
      obtain ⟨m, hm, rfl⟩ := Option.map_eq_some_iff.mp h
      obtain ⟨hlt, hle, hws⟩ := ih hm
      refine ⟨by omega, by simpa using hle, fun ws => ?_⟩
      -- The hash signs that follow `c` are the same.
      have hnot : ¬(c = '"' ∧ (List.replicate hashes '#').isPrefixOf (cs.take m ++ ws)) := by
        rintro ⟨rfl, hfront⟩
        have hfront := List.prefix_of_prefix_length_le (List.isPrefixOf_iff_prefix.mp hfront)
          (List.prefix_append (cs.take m) ws) (by rw [List.length_replicate, List.length_take]; omega)
        exact hquote ⟨rfl, List.isPrefixOf_iff_prefix.mpr (hfront.trans (List.take_prefix m cs))⟩
      rw [List.take_succ_cons, List.cons_append, rawTail?, if_neg hnot, hws]
      rfl

/-- A character literal stands on one line and ends with a quote, whatever comes after it. -/
theorem exists_body_of_charTail? {cs : List Char} {n : Nat} (h : charTail? cs = some n) :
    ∃ body es, cs = body ++ '\'' :: es ∧ n = body.length + 1 ∧ '\n' ∉ body ∧
      ∀ ws, charTail? (body ++ '\'' :: ws) = some n := by
  unfold charTail? at h
  split at h
  · next ds =>
    dsimp only at h
    split at h
    · next hdigits =>
      obtain rfl := Option.some.inj h
      obtain ⟨hpos, hsix, hclose⟩ := hdigits
      obtain ⟨es, hes⟩ := List.isPrefixOf_iff_prefix.mp hclose
      have hds : ds.take (run isHexDigit ds) ++ '}' :: '\'' :: es = ds := by
        have happend := List.take_append_drop (run isHexDigit ds) ds
        rwa [← hes] at happend
      have hhex : ∀ c ∈ ds.take (run isHexDigit ds), isHexDigit c := fun c hc => by
        rw [take_run] at hc
        exact List.mem_takeWhile_imp hc
      have hlen := List.length_take_of_le (run_le_length isHexDigit ds)
      generalize run isHexDigit ds = k at *
      have hrun (ws : List Char) : run isHexDigit (ds.take k ++ '}' :: ws) = k := by
        rw [run_append_of_head _ (by simp [isHexDigit, isDigit]), run,
          List.takeWhile_eq_self_iff.mpr hhex, hlen]
      refine ⟨'\\' :: 'u' :: '{' :: (ds.take k ++ ['}']), es, by simp [hds], by simp [hlen], ?_,
        fun ws => by simp [charTail?, hrun, hpos, hsix, hlen]⟩
      have hline : '\n' ∉ ds.take k := fun hmem => absurd (hhex _ hmem) (by decide)
      simpa using hline
    · simp at h
  · next c ds =>
    split at h
    · simp at h
    · next hc =>
      obtain rfl := Option.some.inj h
      exact ⟨['\\', c], ds, rfl, rfl, by simpa [eq_comm] using hc, fun ws => by simp [charTail?, hc]⟩
  · next c ds _ =>
    split at h
    · simp at h
    · next hc =>
      obtain rfl := Option.some.inj h
      have hslash : c ≠ '\\' := fun heq => hc (.inr (.inl heq))
      refine ⟨[c], ds, rfl, rfl, by simp_all [eq_comm], fun ws => ?_⟩
      change charTail? (c :: '\'' :: ws) = some 2
      unfold charTail?
      split
      · next heq => exact absurd (List.cons.inj heq).1 hslash
      · next heq => exact absurd (List.cons.inj heq).1 hslash
      · next heq => rw [← (List.cons.inj heq).1, if_neg hc]
      · next hno => exact absurd rfl (hno c ws)
  · simp at h

/-- What is found inside the first part of a text is found there whatever follows it. -/
theorem commentTail?_append_of_le {depth : Nat} {us v : List Char} {n : Nat}
    (h : commentTail? depth (us ++ v) = some n) (hle : n ≤ us.length) (w : List Char) :
    commentTail? depth (us ++ w) = some n := by
  have htake := (commentTail?_take h).2.2 (us.drop n ++ w)
  rwa [List.take_append_of_le_length hle, ← List.append_assoc, List.take_append_drop] at htake

theorem stringTail?_append_of_le {us v : List Char} {n : Nat} (h : stringTail? (us ++ v) = some n)
    (hle : n ≤ us.length) (w : List Char) : stringTail? (us ++ w) = some n := by
  have htake := (stringTail?_take h).2 (us.drop n ++ w)
  rwa [List.take_append_of_le_length hle, ← List.append_assoc, List.take_append_drop] at htake

theorem rawTail?_append_of_le {hashes : Nat} {us v : List Char} {n : Nat}
    (h : rawTail? hashes (us ++ v) = some n) (hle : n ≤ us.length) (w : List Char) :
    rawTail? hashes (us ++ w) = some n := by
  have htake := (rawTail?_take h).2.2 (us.drop n ++ w)
  rwa [List.take_append_of_le_length hle, ← List.append_assoc, List.take_append_drop] at htake

theorem charTail?_append_of_le {us v : List Char} {n : Nat} (h : charTail? (us ++ v) = some n)
    (hle : n ≤ us.length) (w : List Char) : charTail? (us ++ w) = some n := by
  obtain ⟨body, es, heq, rfl, -, hws⟩ := exists_body_of_charTail? h
  have hfront : body ++ ['\''] <+: us := by
    refine List.prefix_of_prefix_length_le ⟨es, ?_⟩ (List.prefix_append us v) (by simpa using hle)
    simp [heq]
  obtain ⟨rest, rfl⟩ := hfront
  simpa using hws (rest ++ w)

/-- A comment that begins inside the first part of a text and ends there, or a line that does. -/
theorem afterSlash_append_of_le {u : Char} {us v w : List Char} (hline : run (· ≠ '\n') v = 0 → run (· ≠ '\n') w = 0)
    (hle : (afterSlash (u :: (us ++ v))).2 ≤ us.length + 1)
    (hcls : (afterSlash (u :: (us ++ v))).1 ≠ .unclosedComment) :
    afterSlash (u :: (us ++ w)) = afterSlash (u :: (us ++ v)) := by
  by_cases hslash : u = '/'
  · subst hslash
    have hrun : run (· ≠ '\n') (us ++ v) ≤ us.length := by simpa [afterSlash] using hle
    simp only [afterSlash, run_append_of_le hrun hline]
  · by_cases hblock : u = '*'
    · subst hblock
      cases hn : commentTail? 0 (us ++ v) with
      | some n =>
        have hlen : n ≤ us.length := by simpa [afterSlash, hn] using hle
        simp [afterSlash, hn, commentTail?_append_of_le hn hlen w]
      | none => simp [afterSlash, hn] at hcls
    · simp [afterSlash, hslash, hblock]

theorem afterDoubleQuote_append_of_le {us v : List Char} (hle : (afterDoubleQuote (us ++ v)).2 ≤ us.length)
    (hcls : (afterDoubleQuote (us ++ v)).1 = .literal) (w : List Char) :
    afterDoubleQuote (us ++ w) = afterDoubleQuote (us ++ v) := by
  unfold afterDoubleQuote at hle hcls
  split at hcls
  · next n hn =>
    rw [hn] at hle
    simp [afterDoubleQuote, hn, stringTail?_append_of_le hn hle w]
  · split at hcls <;> simp at hcls

/-- A raw string that begins inside the first part of a text and ends there. -/
theorem rawString?_append_of_le {enough : Nat} {us v w : List Char}
    (hrun : run (· = '#') (us ++ w) = run (· = '#') (us ++ v))
    (hquote : (us ++ w)[run (· = '#') (us ++ v)]? = some '"' → (us ++ v)[run (· = '#') (us ++ v)]? = some '"')
    (hle : ∀ found ∈ rawString? enough (us ++ v), found.2 ≤ us.length ∧ found.1 ≠ .unclosedRawString) :
    rawString? enough (us ++ w) = rawString? enough (us ++ v) := by
  unfold rawString? at hle ⊢
  dsimp only at hle ⊢
  rw [hrun]
  generalize run (· = '#') (us ++ v) = k at *
  by_cases hv : (us ++ v)[k]? = some '"'
  · rw [if_pos hv] at hle
    rw [if_pos hv]
    cases hn : rawTail? k ((us ++ v).drop (k + 1)) with
    | none =>
      rw [hn] at hle
      exact absurd rfl (hle _ rfl).2
    | some n =>
      rw [hn] at hle
      have hbound : k + 1 + n ≤ us.length := (hle _ rfl).1
      have hlt : k < us.length := by omega
      have hdrop (cs : List Char) : (us ++ cs).drop (k + 1) = us.drop (k + 1) ++ cs :=
        List.drop_append_of_le_length hlt
      have hlen : n ≤ (us.drop (k + 1)).length := by
        rw [List.length_drop]
        omega
      rw [hdrop] at hn
      have hw : (us ++ w)[k]? = some '"' := by
        rw [List.getElem?_append_left hlt] at hv ⊢
        exact hv
      rw [if_pos hw, hdrop, rawTail?_append_of_le hn hlen w]
  · rw [if_neg hv, if_neg fun hw => hv (hquote hw)]

theorem length_commentTail?_le {cs : List Char} : (afterSlash cs).2 ≤ cs.length := by
  unfold afterSlash
  split
  · simpa using run_le_length _ _
  · split
    · next heq =>
      have := (commentTail?_take heq).2.1
      simpa using this
    · simp
  · simp

theorem unclosedString_le_length (cs : List Char) : unclosedString cs ≤ cs.length := by
  fun_induction unclosedString cs <;> simp_all

theorem eq_of_unclosedString_eq_zero {cs : List Char} (h : unclosedString cs = 0) :
    cs = [] ∨ cs = ['\\'] := by
  fun_induction unclosedString cs <;> simp_all

theorem length_word_le (cs : List Char) : (word cs).2 ≤ cs.length :=
  run_le_length isNameChar cs

theorem length_rawString?_le {enough : Nat} {cs : List Char} {found : Class × Nat}
    (h : rawString? enough cs = some found) : found.2 ≤ cs.length := by
  have hrun := run_le_length (· = '#') cs
  unfold rawString? at h
  dsimp only at h
  split at h
  · next hquote =>
    obtain ⟨hlt, -⟩ := List.getElem?_eq_some_iff.mp hquote
    split at h
    · next hn =>
      obtain rfl := Option.some.inj h
      have hle := (rawTail?_take hn).2.1
      rw [List.length_drop] at hle
      dsimp only
      omega
    · obtain rfl := Option.some.inj h
      exact Nat.le_refl _
  · split at h
    · obtain rfl := Option.some.inj h
      exact hrun
    · simp at h

theorem afterLetter_eq_word {c : Char} {cs : List Char} (hr : c ≠ 'r')
    (hb : c = 'b' → 'r' ∉ cs.head?) : afterLetter c cs = word cs := by
  unfold afterLetter
  split <;> simp_all

theorem afterLetter_r_eq_word {cs : List Char} (hraw : rawString? 2 cs = none)
    (hname : ∀ {first rest}, cs = '#' :: first :: rest → isNameStart first = false) :
    afterLetter 'r' cs = word cs := by
  unfold afterLetter
  simp only [hraw]
  split
  · next first rest => simp [hname rfl]
  · rfl

theorem length_afterLetter_le (c : Char) (cs : List Char) : (afterLetter c cs).2 ≤ cs.length := by
  unfold afterLetter
  split
  · split
    · next heq =>
      have := length_rawString?_le heq
      simpa using this
    · exact length_word_le _
  · split
    · next heq => exact length_rawString?_le heq
    · split
      · split
        · simpa using run_le_length _ _
        · exact length_word_le _
      · exact length_word_le _
  · exact length_word_le _

theorem length_after_le (c : Char) (cs : List Char) : (after c cs).2 ≤ cs.length := by
  refine after_cases (motive := fun f => (f cs).2 ≤ cs.length) c
    ?blank ?slash ?quote ?doubleQuote ?digit ?letter ?mark
  case blank => exact fun _ => run_le_length _ _
  case slash => exact fun _ => length_commentTail?_le
  case quote =>
    intro _
    unfold afterQuote
    split
    · next heq =>
      obtain ⟨body, es, rfl, rfl, -⟩ := exists_body_of_charTail? heq
      simp
    · split
      · split
        · simpa using run_le_length _ _
        · simp
      · simp
  case doubleQuote =>
    intro _
    unfold afterDoubleQuote
    split
    · next heq => exact (stringTail?_take heq).1
    · have := unclosedString_le_length cs
      split
      · simp
      · exact this
  case digit => exact fun _ => run_le_length _ _
  case letter => exact fun _ => length_afterLetter_le c cs
  case mark =>
    unfold afterMark
    split <;> try simp
    split <;> simp

namespace Seam

variable {v w : List Char}

/-- Up to the next newline the second text has only characters that end what stands before them. -/
theorem exists_newline (h : Seam v w) :
    ∃ as bs, w = as ++ '\n' :: bs ∧ ∀ c ∈ as, c ∈ seamChars := by
  cases h with
  | semi bs cs => exact ⟨['{'], cs, rfl, by simp [seamChars]⟩
  | stop hblank cs => exact ⟨v, _, rfl, fun c hc => mem_seamChars_of_isSkipped (hblank c hc)⟩

/-- No literal of a character goes over the seam. -/
theorem charTail?_eq (h : Seam v w) (us : List Char)
    (hle : ∀ n ∈ charTail? (us ++ v), n ≤ us.length) : charTail? (us ++ w) = charTail? (us ++ v) := by
  cases hv : charTail? (us ++ v) with
  | some n => exact charTail?_append_of_le hv (hle n hv) w
  | none =>
    cases hw : charTail? (us ++ w) with
    | none => rfl
    | some n =>
      exfalso
      by_cases hn : n ≤ us.length
      · rw [charTail?_append_of_le hw hn v] at hv
        simp at hv
      · obtain ⟨body, es, heq, rfl, hline, -⟩ := exists_body_of_charTail? hw
        have hfront : us <+: body := by
          refine List.prefix_of_prefix_length_le (List.prefix_append us w) ⟨'\'' :: es, heq.symm⟩ ?_
          omega
        obtain ⟨mid, rfl⟩ := hfront
        -- What the literal has of the second text ends before the newline, and with a quote.
        obtain ⟨as, bs, rfl, has⟩ := h.exists_newline
        rw [List.append_assoc, List.append_cancel_left_eq] at heq
        rcases List.append_eq_append_iff.mp heq with ⟨more, rfl, hmore⟩ | ⟨more, rfl, hmore⟩
        · cases more <;> simp_all
        · have hquote : '\'' ∉ more := fun hmem =>
            absurd (has '\'' (List.mem_append_right _ hmem)) (by decide)
          cases more <;> simp_all

/-- A line that ends at the seam ends there with the second text too. -/
theorem run_line (h : Seam v w) (hv : run (· ≠ '\n') v = 0) : run (· ≠ '\n') w = 0 := by
  cases h with
  | semi bs cs => simp [run] at hv
  | stop hblank cs =>
    cases v with
    | nil => rfl
    | cons c v =>
      by_cases hc : c = '\n'
      · simp [run, hc]
      · simp [run, hc] at hv

/-- Blanks that end before the seam end there with the second text too. -/
theorem run_skipped (h : Seam v w) {us : List Char} (hle : run isSkipped (us ++ v) ≤ us.length)
    (hblank : v = [] → ∃ d ∈ us, ¬isSkipped d) :
    run isSkipped (us ++ w) = run isSkipped (us ++ v) := by
  cases h with
  | semi bs cs => exact run_append_of_le hle fun _ => rfl
  | stop hskipped cs =>
    cases v with
    | nil => exact run_append_of_exists (hblank rfl) _ _
    | cons c v =>
      refine run_append_of_le hle fun hv => ?_
      simp [run, hskipped c List.mem_cons_self] at hv

theorem any_getElem?_eq (h : Seam v w) {p : Char → Bool} (hp : ∀ c ∈ seamChars, p c = false)
    {us : List Char} {k : Nat} (hk : k ≤ us.length) : (us ++ w)[k]?.any p = (us ++ v)[k]?.any p := by
  rcases Nat.lt_or_eq_of_le hk with hlt | rfl
  · rw [List.getElem?_append_left hlt, List.getElem?_append_left hlt]
  · have hnone {cs : List Char} (hcs : ∀ c ∈ cs.head?, c ∈ seamChars) :
        (us ++ cs)[us.length]?.any p = false := by
      cases cs with
      | nil => simp
      | cons c cs => simp [hp c (hcs c (by simp))]
    rw [hnone fun c => h.head_right, hnone fun c => h.head_left]

theorem afterSlash_eq (h : Seam v w) {us : List Char}
    (hle : (afterSlash (us ++ v)).2 ≤ us.length)
    (hcls : (afterSlash (us ++ v)).1 ≠ .unclosedComment) :
    afterSlash (us ++ w) = afterSlash (us ++ v) := by
  have hpunct {cs : List Char} (hcs : ∀ c ∈ cs.head?, c ∈ seamChars) :
      afterSlash cs = (.punct, 0) := by
    cases cs with
    | nil => rfl
    | cons c cs =>
      have hc := hcs c (by simp)
      unfold afterSlash
      split
      · simp_all [seamChars]
      · simp_all [seamChars]
      · rfl
  cases us with
  | nil => exact (hpunct fun c => h.head_right).trans (hpunct fun c => h.head_left).symm
  | cons u us => exact afterSlash_append_of_le h.run_line hle hcls

theorem afterQuote_eq (h : Seam v w) {us : List Char} (hle : (afterQuote (us ++ v)).2 ≤ us.length) :
    afterQuote (us ++ w) = afterQuote (us ++ v) := by
  have hchar : charTail? (us ++ w) = charTail? (us ++ v) := h.charTail?_eq us fun n hn => by
    rw [Option.mem_def] at hn
    simpa [afterQuote, hn] using hle
  have hpunct {cs : List Char} (hcs : ∀ c ∈ cs.head?, c ∈ seamChars) (hnone : charTail? cs = none) :
      afterQuote cs = (.punct, 0) := by
    unfold afterQuote
    rw [hnone]
    cases cs with
    | nil => rfl
    | cons c cs =>
      have hletter : ∀ c ∈ seamChars, (isLetter c || decide (c = '_')) = false :=
        List.all_iff_forall_prop.mp (by decide)
      simp [hletter c (hcs c (by simp))]
  cases hv : charTail? (us ++ v) with
  | some n =>
    rw [hv] at hchar
    simp [afterQuote, hv, hchar]
  | none =>
    rw [hv] at hchar
    cases us with
    | nil =>
      exact (hpunct (fun c => h.head_right) hchar).trans (hpunct (fun c => h.head_left) hv).symm
    | cons u us =>
      unfold afterQuote
      rw [hv, hchar]
      simp [h.run_eq (p := isWordChar) (List.all_iff_forall_prop.mp (by decide))]

/-- A quote that begins no string is the last character or stands before a last backslash. -/
theorem afterDoubleQuote_eq_literal (h : Seam v w) {us : List Char}
    (hcls : (afterDoubleQuote (us ++ v)).1 ≠ .unclosedString)
    (hquote : v = [] → us ≠ [] ∧ us ≠ ['\\']) : (afterDoubleQuote (us ++ v)).1 = .literal := by
  unfold afterDoubleQuote at hcls ⊢
  split
  · rfl
  · next hnone =>
    simp only [hnone] at hcls
    split at hcls
    · next hzero =>
      exfalso
      have hend := eq_of_unclosedString_eq_zero hzero
      cases v with
      | nil => simp_all
      | cons c v =>
        have hc := h.head_left (c := c) rfl
        rcases hend with hend | hend
        · simp at hend
        · cases us with
          | nil =>
            obtain ⟨rfl, -⟩ := List.cons.inj hend
            exact absurd hc (by decide)
          | cons u us => simp at hend
    · simp at hcls

theorem rawString?_eq (h : Seam v w) {enough : Nat} {us : List Char}
    (hle : ∀ found ∈ rawString? enough (us ++ v), found.2 ≤ us.length ∧ found.1 ≠ .unclosedRawString) :
    rawString? enough (us ++ w) = rawString? enough (us ++ v) := by
  have hrun : run (· = '#') (us ++ w) = run (· = '#') (us ++ v) :=
    h.run_eq (List.all_iff_forall_prop.mp (by decide)) us
  have hk : run (· = '#') (us ++ v) ≤ us.length := h.run_le (List.all_iff_forall_prop.mp (by decide)) us
  have hany := h.any_getElem?_eq (p := (· = '"')) (List.all_iff_forall_prop.mp (by decide)) hk
  have hsome {o : Option Char} : o = some '"' ↔ o.any (· = '"') = true := by cases o <;> simp
  refine rawString?_append_of_le hrun (fun hw => ?_) hle
  rw [hsome] at hw ⊢
  rw [← hany, hw]

theorem word_eq (h : Seam v w) (us : List Char) : word (us ++ w) = word (us ++ v) := by
  have hrun : run isNameChar (us ++ w) = run isNameChar (us ++ v) :=
    h.run_eq (fun _ => isNameChar_of_mem_seamChars) us
  have hk : run isNameChar (us ++ v) ≤ us.length := h.run_le (fun _ => isNameChar_of_mem_seamChars) us
  unfold word
  rw [hrun]
  dsimp only
  rw [h.any_getElem?_eq (fun _ => hasNameByte_of_mem_seamChars) hk]

theorem afterLetter_eq (h : Seam v w) (c : Char) {us : List Char}
    (hle : (afterLetter c (us ++ v)).2 ≤ us.length)
    (hcls : (afterLetter c (us ++ v)).1 ≠ .unclosedRawString) :
    afterLetter c (us ++ w) = afterLetter c (us ++ v) := by
  have hhead {d : Char} (hd : d ∉ seamChars) {cs : List Char} (hcs : ∀ c ∈ cs.head?, c ∈ seamChars) :
      d ∉ cs.head? := fun hmem => hd (hcs d hmem)
  by_cases hr : c = 'r'
  · subst hr
    have hraw : rawString? 2 (us ++ w) = rawString? 2 (us ++ v) := h.rawString?_eq fun found hfound => by
      rw [Option.mem_def] at hfound
      unfold afterLetter at hle hcls
      simp only [hfound] at hle hcls
      exact ⟨hle, hcls⟩
    cases hv : rawString? 2 (us ++ v) with
    | some found =>
      unfold afterLetter
      simp only [hraw, hv]
    | none =>
      rw [hv] at hraw
      by_cases hus : us.length ≤ 1
      · -- What follows a hash sign is then a character of the seam, and it begins no name.
        have hname {cs : List Char} (hcs : ∀ c ∈ cs.head?, c ∈ seamChars) {first : Char}
            {rest : List Char} (heq : us ++ cs = '#' :: first :: rest) : isNameStart first = false := by
          rcases us with _ | ⟨a, _ | ⟨b, us⟩⟩
          · exact absurd (hcs '#' (by rw [List.nil_append] at heq; simp [heq])) (by decide)
          · obtain ⟨-, rfl⟩ := List.cons.inj heq
            exact isNameStart_of_mem_seamChars (hcs first rfl)
          · simp at hus
        rw [afterLetter_r_eq_word hraw (hname fun c => h.head_right),
          afterLetter_r_eq_word hv (hname fun c => h.head_left), h.word_eq]
      · obtain ⟨a, b, us, rfl⟩ : ∃ a b bs, us = a :: b :: bs := by
          rcases us with _ | ⟨a, _ | ⟨b, us⟩⟩ <;> simp_all
        have hword := h.word_eq (a :: b :: us)
        have hrun := h.run_eq (fun _ => isNameChar_of_mem_seamChars) us
        simp only [List.cons_append] at hv hraw hword ⊢
        unfold afterLetter
        simp only [hraw, hv, hword]
        split <;> simp_all
  · by_cases hb : c = 'b' ∧ 'r' ∈ us.head?
    · obtain ⟨rfl, hmem⟩ := hb
      obtain ⟨us, rfl⟩ := List.head?_eq_some_iff.mp hmem
      rw [List.cons_append] at hle hcls
      rw [List.cons_append, List.cons_append]
      have hraw : rawString? 1 (us ++ w) = rawString? 1 (us ++ v) := h.rawString?_eq fun found hfound => by
        rw [Option.mem_def] at hfound
        rw [afterLetter, hfound] at hle hcls
        exact ⟨Nat.le_of_succ_le_succ hle, hcls⟩
      have hword := h.word_eq ('r' :: us)
      rw [List.cons_append, List.cons_append] at hword
      simp only [afterLetter, hraw, hword]
    · have hnot {cs : List Char} (hcs : ∀ c ∈ cs.head?, c ∈ seamChars) : c = 'b' → 'r' ∉ (us ++ cs).head? := by
        rintro rfl
        cases us with
        | nil => exact hhead (by decide) hcs
        | cons u us => simpa using hb
      rw [afterLetter_eq_word hr (hnot fun c => h.head_right),
        afterLetter_eq_word hr (hnot fun c => h.head_left), h.word_eq]

theorem afterMark_eq (h : Seam v w) (c : Char) (us : List Char) :
    afterMark c (us ++ w) = afterMark c (us ++ v) := by
  cases us with
  | nil =>
    have hcs {cs : List Char} (hcs : ∀ c ∈ cs.head?, c ∈ seamChars) : afterMark c cs = afterMark c [] := by
      cases cs with
      | nil => rfl
      | cons d cs =>
        have hd : d ≠ ':' ∧ d ≠ '>' :=
          (List.all_iff_forall_prop.mp (by decide) : ∀ c ∈ seamChars, c ≠ ':' ∧ c ≠ '>') d (hcs d (by simp))
        unfold afterMark
        split <;> simp_all
    exact (hcs fun c => h.head_right).trans (hcs fun c => h.head_left).symm
  | cons u us =>
    unfold afterMark
    split <;> simp_all

/-- A lexeme that ends before the seam is the same with the second text. A last blank would go on, and
a last quote could begin a string. -/
theorem after_eq (h : Seam v w) (c : Char) {us : List Char}
    (hle : (after c (us ++ v)).2 ≤ us.length)
    (hcls : (after c (us ++ v)).1 ∉ [.unclosedComment, .unclosedString, .unclosedRawString])
    (hblank : v = [] → isSkipped c → ∃ d ∈ us, ¬isSkipped d)
    (hquote : v = [] → c = '"' → us ≠ [] ∧ us ≠ ['\\']) : after c (us ++ w) = after c (us ++ v) := by
  simp only [List.mem_cons, List.not_mem_nil, or_false, not_or] at hcls
  revert hle hcls
  refine after_cases (motive := fun f => (f (us ++ v)).2 ≤ us.length → (f (us ++ v)).1 ≠ .unclosedComment ∧
    (f (us ++ v)).1 ≠ .unclosedString ∧ (f (us ++ v)).1 ≠ .unclosedRawString → f (us ++ w) = f (us ++ v)) c
    ?blank ?slash ?quote ?doubleQuote ?digit ?letter ?mark
  case blank =>
    intro hskip hle _
    dsimp only
    rw [h.run_skipped hle fun hv => hblank hv hskip]
  case slash => exact fun _ hle hcls => h.afterSlash_eq hle hcls.1
  case quote => exact fun _ hle _ => h.afterQuote_eq hle
  case doubleQuote =>
    intro hdouble hle hcls
    have hliteral := h.afterDoubleQuote_eq_literal hcls.2.1 fun hv => hquote hv hdouble
    exact afterDoubleQuote_append_of_le hle hliteral w
  case digit =>
    intro _ _ _
    dsimp only
    rw [h.run_eq (List.all_iff_forall_prop.mp (by decide))]
  case letter => exact fun _ hle hcls => h.afterLetter_eq c hle hcls.2.2
  case mark => exact fun _ _ => h.afterMark_eq c us

end Seam

theorem split_nil : split [] = [] := by
  rw [split]

theorem split_cons (c : Char) (cs : List Char) : split (c :: cs) =
    ⟨(after c cs).1, c :: cs.take (after c cs).2⟩ :: split (cs.drop (after c cs).2) := by
  rw [split]

/-- What stands in front of a text is one lexeme when its first character begins it. -/
theorem split_append_of_after {c : Char} {front cs : List Char} {cls : Class}
    (h : after c (front ++ cs) = (cls, front.length)) :
    split (c :: front ++ cs) = ⟨cls, c :: front⟩ :: split cs := by
  rw [List.cons_append, split_cons, h, List.take_left, List.drop_left]

/-- Blanks that reach to the end of a text are one lexeme. -/
theorem split_of_skipped {c : Char} {cs : List Char} (hc : isSkipped c) (hcs : ∀ d ∈ cs, isSkipped d) :
    split (c :: cs) = [⟨.blank, c :: cs⟩] := by
  have hrun : run isSkipped cs = cs.length := by rw [run, List.takeWhile_eq_self_iff.mpr hcs]
  have hafter : after c cs = (.blank, cs.length) := by rw [after, if_pos hc, hrun]
  rw [split_cons, hafter, List.take_length, List.drop_length, split]

/-- What a lexeme is that could not end. -/
def unfinished : List Class :=
  [.unclosedComment, .unclosedString, .unclosedRawString]

theorem flatMap_text_of_split_append {us v : List Char} {xs : List Lexeme} (h : split (us ++ v) = xs ++ split v) :
    xs.flatMap text = us := by
  have hflat := flatMap_text_split (us ++ v)
  rw [h, List.flatMap_append, flatMap_text_split] at hflat
  exact List.append_cancel_right hflat

/-- The first of the lexemes before a place in a text, and those between it and the place. -/
theorem exists_of_split_append {us v : List Char} {x : Lexeme} {xs : List Lexeme}
    (h : split (us ++ v) = x :: xs ++ split v) : ∃ c ds, us = c :: ds ∧
      (after c (ds ++ v)).2 ≤ ds.length ∧ x = ⟨(after c (ds ++ v)).1, c :: ds.take (after c (ds ++ v)).2⟩ ∧
      split (ds.drop (after c (ds ++ v)).2 ++ v) = xs ++ split v := by
  have htext := flatMap_text_of_split_append h
  cases us with
  | nil =>
    have hmem : x ∈ split ([] ++ v) := by
      rw [h]
      exact List.mem_append_left _ List.mem_cons_self
    simp [text_ne_nil_of_mem_split hmem] at htext
  | cons c ds =>
    rw [List.cons_append, split_cons, List.cons_append] at h
    obtain ⟨hx, hxs⟩ := List.cons.inj h
    have hle : (after c (ds ++ v)).2 ≤ ds.length := by
      have hlen := congrArg List.length htext
      have hn := length_after_le c (ds ++ v)
      rw [List.flatMap_cons, ← hx] at hlen
      simp only [List.length_append, List.length_cons, List.length_take] at hlen hn
      omega
    rw [List.drop_append_of_le_length hle] at hxs
    rw [List.take_append_of_le_length hle] at hx
    exact ⟨c, ds, rfl, hle, hx.symm, hxs⟩

/-- The lexemes before a seam are the same with either text. Before the end of a text the last of them is
no blank and no punctuation. -/
theorem split_append_of_seam {us v w : List Char} (h : Seam v w) {xs : List Lexeme}
    (hsplit : split (us ++ v) = xs ++ split v) (hcls : ∀ x ∈ xs, x.cls ∉ unfinished)
    (hlast : v = [] → ∀ x ∈ xs.getLast?, x.cls ≠ .blank ∧ x.cls ≠ .punct) :
    split (us ++ w) = xs ++ split w := by
  induction xs generalizing us with
  | nil =>
    obtain rfl : [] = us := flatMap_text_of_split_append hsplit
    rfl
  | cons x xs ih =>
    obtain ⟨c, us, rfl, hle, hx, hxs⟩ := exists_of_split_append hsplit
    have hend (hv : v = []) : split (c :: us) = x :: xs := by
      subst hv
      simpa [split] using hsplit
    have hafter : after c (us ++ w) = after c (us ++ v) := by
      refine h.after_eq c hle ?_ (fun hv hc => ?_) (fun hv hc => ?_)
      · have hx' := hcls x List.mem_cons_self
        rwa [hx] at hx'
      · by_contra hnone
        have hskipped : ∀ d ∈ us, isSkipped d := by simpa using hnone
        rw [split_of_skipped hc hskipped] at hend
        obtain ⟨rfl, rfl⟩ := List.cons.inj (hend hv)
        exact (hlast hv _ rfl).1 rfl
      · subst hc
        constructor <;> rintro rfl
        · have hone : split ['"'] = [⟨.punct, ['"']⟩] := by decide +kernel
          obtain ⟨rfl, rfl⟩ := List.cons.inj (hone.symm.trans (hend hv))
          exact (hlast hv _ rfl).2 rfl
        · have htwo : split ['"', '\\'] = [⟨.punct, ['"']⟩, ⟨.punct, ['\\']⟩] := by decide +kernel
          obtain ⟨rfl, rfl⟩ := List.cons.inj (htwo.symm.trans (hend hv))
          exact (hlast hv _ rfl).2 rfl
    have hrest : split (us.drop (after c (us ++ v)).2 ++ w) = xs ++ split w :=
      ih hxs (fun y hy => hcls y (List.mem_cons_of_mem _ hy)) fun hv y hy => hlast hv y (List.mem_getLast?_cons hy)
    rw [List.cons_append, split_cons, hafter, List.drop_append_of_le_length hle,
      List.take_append_of_le_length hle, hrest, hx, List.cons_append]

/-- The lexemes after some of a text are those of the rest of the text. -/
theorem eq_split_of_split_eq_append {cs : List Char} {xs ys : List Lexeme} (h : split cs = xs ++ ys) :
    ys = split (ys.flatMap text) := by
  induction xs generalizing cs with
  | nil =>
    have htext := flatMap_text_split cs
    rw [h, List.nil_append] at htext
    rw [htext, h, List.nil_append]
  | cons x xs ih =>
    cases cs with
    | nil => simp [split] at h
    | cons c cs =>
      rw [split_cons] at h
      exact ih (List.cons.inj h).2

theorem after_brace (cs : List Char) : after '{' cs = (.opening .brace, 0) := by
  rw [after_of_mark (by decide +kernel)]
  rfl

theorem afterMark_eq_semi {c : Char} {cs : List Char} (h : (afterMark c cs).1 = .symbol .semi) :
    c = ';' ∧ (afterMark c cs).2 = 0 := by
  unfold afterMark at h ⊢
  split at h <;> try simp at h
  · exact ⟨rfl, rfl⟩
  · split at h <;> simp at h

/-- Only a semicolon is read as one. -/
theorem after_eq_semi {c : Char} {cs : List Char} (h : (after c cs).1 = .symbol .semi) :
    c = ';' ∧ (after c cs).2 = 0 := by
  revert h
  refine after_cases (motive := fun f => (f cs).1 = .symbol .semi → c = ';' ∧ (f cs).2 = 0) c
    ?blank ?slash ?quote ?doubleQuote ?digit ?letter ?mark
  case slash => exact fun _ h => by simpa [h] using afterSlash_cls cs
  case quote => exact fun _ h => by simpa [h] using afterQuote_cls cs
  case doubleQuote => exact fun _ h => by simpa [h] using afterDoubleQuote_cls cs
  case letter => exact fun _ h => by simpa [h] using afterLetter_cls c cs
  case mark => exact afterMark_eq_semi
  all_goals simp

theorem text_of_semi {cs : List Char} {before rest : List Lexeme} {x : Lexeme}
    (h : split cs = before ++ x :: rest) (hx : x.cls = .symbol .semi) : x.text = [';'] := by
  obtain ⟨c, ds, rfl, -⟩ := exists_after_of_split h
  obtain ⟨rfl, hn⟩ := after_eq_semi hx
  simp [hn]

/-- After an opening brace in place of a semicolon the text goes on with lexemes of its own. -/
theorem split_append_semi {us bs : List Char} {xs : List Lexeme}
    (hsplit : split (us ++ ';' :: bs) = xs ++ split (';' :: bs)) (hcls : ∀ x ∈ xs, x.cls ∉ unfinished)
    (cs : List Char) : split (us ++ '{' :: '\n' :: cs) =
      xs ++ ⟨.opening .brace, ['{']⟩ :: split ('\n' :: cs) := by
  have h := split_append_of_seam (.semi bs cs) hsplit hcls (fun hv => by simp at hv)
  rw [h, split_cons, after_brace]
  rfl

theorem split_closing (cs : List Char) : split ('}' :: cs) = ⟨.closing .brace, ['}']⟩ :: split cs := by
  rw [split_cons, after_of_mark (by decide +kernel)]
  rfl

/-- Blanks at the front of a text are one lexeme. -/
theorem split_of_blanks {c : Char} (hc : isSkipped c) (cs : List Char) :
    split (c :: cs) = ⟨.blank, c :: cs.takeWhile isSkipped⟩ :: split (cs.dropWhile isSkipped) := by
  have hafter : after c cs = (.blank, run isSkipped cs) := by rw [after, if_pos hc]
  rw [split_cons, hafter, take_run, drop_run]

theorem split_blanks_append {bs : List Char} (hbs : ∀ c ∈ bs, isSkipped c) (ds : List Char) :
    split (bs ++ '\n' :: '}' :: ds) = ⟨.blank, bs ++ ['\n']⟩ :: split ('}' :: ds) := by
  cases bs with
  | nil => exact split_of_blanks (by decide) ('}' :: ds)
  | cons b bs =>
    have hrest : ∀ c ∈ bs ++ ['\n'], isSkipped c := by
      intro c hc
      rcases List.mem_append.mp hc with hc | hc
      · exact hbs c (List.mem_cons_of_mem _ hc)
      · obtain rfl := List.mem_singleton.mp hc
        decide
    have hcs : bs ++ '\n' :: '}' :: ds = (bs ++ ['\n']) ++ '}' :: ds := by simp
    have hbrace : isSkipped '}' = false := by decide
    rw [List.cons_append, split_of_blanks (hbs b List.mem_cons_self), hcs,
      List.takeWhile_append_of_pos hrest, List.dropWhile_append_of_pos hrest]
    simp [hbrace]

/-- A newline at the front of a text is a blank, or part of the one that is there. -/
theorem split_newline (cs : List Char) : split ('\n' :: cs) = ⟨.blank, ['\n']⟩ :: split cs ∨
    ∃ bs xs, split cs = ⟨.blank, bs⟩ :: xs ∧ split ('\n' :: cs) = ⟨.blank, '\n' :: bs⟩ :: xs := by
  have hnewline : isSkipped '\n' := by decide
  rw [split_of_blanks hnewline]
  cases cs with
  | nil => exact .inl rfl
  | cons c cs =>
    by_cases hc : isSkipped c
    · exact .inr ⟨_, _, split_of_blanks hc cs, by simp [hc]⟩
    · exact .inl (by simp [hc])

theorem isSkipped_of_blank {cs : List Char} {xs : List Lexeme} {x : Lexeme}
    (h : split cs = xs ++ [x]) (hx : x.cls = .blank) : ∀ c ∈ x.text, isSkipped c := by
  obtain ⟨c, ds, rfl, -⟩ := exists_after_of_split h
  obtain ⟨hc, hn⟩ := after_eq_blank hx
  intro d hd
  rw [hn, take_run] at hd
  rcases List.mem_cons.mp hd with rfl | hd
  · exact hc
  · exact List.mem_takeWhile_imp hd

/-- A blank at the end of a text, and what stands before it. -/
theorem exists_of_last_blank {cs : List Char} {x : Lexeme} (hx : x ∈ (split cs).getLast?) (hcls : x.cls = .blank) :
    ∃ xs, split cs = xs ++ [x] ∧ cs = xs.flatMap text ++ x.text ∧ split x.text = [x] ∧ ∀ c ∈ x.text, isSkipped c := by
  obtain ⟨xs, hxs⟩ := List.getLast?_eq_some_iff.mp hx
  have hsplit : [x] = split x.text := by simpa using eq_split_of_split_eq_append hxs
  have hcs : cs = xs.flatMap text ++ x.text := by
    have htext := flatMap_text_split cs
    rw [hxs] at htext
    simpa using htext.symm
  exact ⟨xs, hxs, hcs, hsplit.symm, isSkipped_of_blank hxs hcls⟩

/-- A newline and a closing brace after a text leave its lexemes as they are, but for a blank at its end.
-/
theorem exists_split_append_stop {cs : List Char} (hcls : ∀ x ∈ split cs, x.cls ∉ unfinished)
    (hlast : ∀ x ∈ (split cs).getLast?, x.cls ≠ .punct) (ds : List Char) : ∃ xs bs,
      (∀ c ∈ bs, isSkipped c) ∧ split cs = xs ++ split bs ∧
      split (cs ++ '\n' :: '}' :: ds) = xs ++ ⟨.blank, bs ++ ['\n']⟩ :: split ('}' :: ds) := by
  by_cases hblank : ∃ x ∈ (split cs).getLast?, x.cls = .blank
  · obtain ⟨x, hx, hcls'⟩ := hblank
    obtain ⟨xs, hxs, hcs, hsplit, hbs⟩ := exists_of_last_blank hx hcls'
    rw [← hsplit, hcs] at hxs
    have hseam := split_append_of_seam (.stop hbs ds) hxs
      (fun y hy => hcls y (by rw [hcs, hxs]; exact List.mem_append_left _ hy))
      (fun hv => by simp [hv, split] at hsplit)
    refine ⟨xs, x.text, hbs, hcs ▸ hxs, ?_⟩
    rw [hcs, List.append_assoc, hseam, split_blanks_append hbs]
  · have hnone : ∀ c ∈ ([] : List Char), isSkipped c := by simp
    have hseam : split (cs ++ '\n' :: '}' :: ds) = split cs ++ split ('\n' :: '}' :: ds) :=
      split_append_of_seam (.stop hnone ds) (by simp [split_nil]) hcls
        fun _ x hx => ⟨fun hb => hblank ⟨x, hx, hb⟩, hlast x hx⟩
    have hstop : split ('\n' :: '}' :: ds) = ⟨.blank, ['\n']⟩ :: split ('}' :: ds) :=
      split_blanks_append hnone ds
    exact ⟨split cs, [], hnone, by simp [split_nil], by rw [hseam, hstop]; rfl⟩

end Doctest.Lexeme
