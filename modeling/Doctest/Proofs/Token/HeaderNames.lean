import Doctest.Proofs.Token.Copies
import Doctest.Proofs.Token.Coverage

/-! Names of headers. A name keeps every character of the header that is not blank, and each token has such a
character, so a header that ends early has another name. -/
namespace Doctest

namespace Text

theorem flatten_splitWhere {α : Type} (p : α → Bool) (cs : List α) :
    (splitWhere p cs).flatten = cs.filter fun c => !p c := by
  induction cs with
  | nil => rfl
  | cons c cs ih =>
    simp only [splitWhere]
    by_cases h : p c
    · simp [h, ih]
    · cases hs : splitWhere p cs with
      | nil => exact absurd hs (splitWhere_ne_nil p cs)
      | cons part parts =>
        rw [hs, List.flatten_cons] at ih
        simp [h, ← ih]

/-- The separators are not among the characters that are kept. -/
theorem filter_joinWith {α : Type} {p : α → Bool} {sep : α} (hsep : p sep = false)
    (parts : List (List α)) : (joinWith sep parts).filter p = parts.flatten.filter p := by
  induction parts with
  | nil => rfl
  | cons part parts ih =>
    cases parts with
    | nil => simp [joinWith, List.intercalate]
    | cons q qs =>
      have hcons : joinWith sep (part :: q :: qs) = part ++ sep :: joinWith sep (q :: qs) := by
        simp [joinWith, List.intercalate]
      rw [hcons, List.filter_append, List.filter_cons_of_neg (by simp [hsep]), ih, ← List.filter_append]
      rfl

/-- Only blanks are changed. -/
theorem filter_collapse (cs : List Char) :
    (collapse cs).filter (fun c => !isBlank c) = cs.filter fun c => !isBlank c := by
  have hspace : (fun c => !isBlank c) ' ' = false := by decide
  rw [collapse, filter_joinWith (p := fun c => !isBlank c) hspace, words, List.flatten_filter_not_isEmpty, flatten_splitWhere,
    List.filter_filter]
  simp

end Text

namespace Lexeme

open Text

/-- Of the blanks some are skipped, and no token begins with one of the others. -/
theorem after_of_isBlank {c : Char} (hc : isBlank c) (cs : List Char) :
    (after c cs).1 = .blank ∨ (after c cs).1 = .stray := by
  have hother : ∀ n ∈ blanks, isSkipped (Char.ofNat n) = true ∨ Char.ofNat n ∉ ['/', '\'', '"'] ∧
      isDigit (Char.ofNat n) = false ∧ isNameStart (Char.ofNat n) = false := by
    decide +kernel
  have hmem : c.toNat ∈ blanks := by simpa [isBlank] using hc
  have hchar := hother c.toNat hmem
  rw [Char.ofNat_toNat] at hchar
  rcases hchar with hskip | ⟨hquote, hdigit, hletter⟩
  · exact .inl (by rw [after, if_pos hskip])
  · have hmark : (afterMark c cs).1 = .stray := by
      unfold afterMark
      split
      case h_17 => simp [hc]
      all_goals exact absurd hc (by decide)
    simp only [List.mem_cons, List.not_mem_nil, or_false, not_or] at hquote
    obtain ⟨hslash, hsingle, hdouble⟩ := hquote
    by_cases hskip : isSkipped c
    · exact .inl (by rw [after, if_pos hskip])
    · rw [after, if_neg hskip, if_neg hslash, if_neg hsingle, if_neg hdouble, hdigit, hletter]
      exact .inr hmark

/-- A lexeme that is read as a token begins with a character that is not blank. -/
theorem exists_not_isBlank {cs : List Char} {before rest : List Lexeme} {x : Lexeme}
    {kind : Token.Kind} (h : split cs = before ++ x :: rest) (hx : Lexed.meaning x = some (.ok kind)) :
    ∃ c ∈ x.text, isBlank c = false := by
  obtain ⟨c, ds, rfl, -⟩ := exists_after_of_split h
  refine ⟨c, List.mem_cons_self, ?_⟩
  by_contra hblank
  rcases after_of_isBlank (by simpa using hblank) ds with hcls | hcls <;> simp [Lexed.meaning, hcls] at hx

end Lexeme

namespace Token

open Text

/-- The span of a token cuts a text out of the source that is not blank. -/
def StandsIn (source : String) (t : Token) : Prop :=
  ∃ before text after, source.toList = before ++ (text ++ after) ∧ t.span.start = byteLength before ∧
    t.span.stop = byteLength before + byteLength text ∧ ∃ c ∈ text, isBlank c = false

theorem StandsIn.start_le_stop {source : String} {t : Token} (h : t.StandsIn source) :
    t.span.start ≤ t.span.stop := by
  obtain ⟨before, text, after, -, hstart, hstop, -⟩ := h
  omega

theorem standsIn_of_mem_tokens {source : String} {t : Token} (ht : t ∈ (Lexed.ofString source).tokens)
    (heof : t.kind ≠ .eof) : t.StandsIn source := by
  obtain ⟨before, x, after, hsplit, hx, hplace, hsource⟩ := Lexed.exists_lexeme_of_mem_ofString ht heof
  exact ⟨before.flatMap Lexeme.text, x.text, after.flatMap Lexeme.text, hsource, by rw [hplace],
    by rw [hplace], Lexeme.exists_not_isBlank hsplit hx⟩

end Token

namespace Outline.Header

open Text

variable {source : String}

/-- Tokens that stand in a source one after the other. -/
structure IsPart (source : String) (ts : List Token) : Prop where
  pairwise : ts.Pairwise (·.span.stop ≤ ·.span.start)
  standsIn : ∀ t ∈ ts, t.StandsIn source

theorem isPart_of_tokens {ts : List Token} (h : ts <:+: (Lexed.ofString source).tokens)
    (heof : ∀ t ∈ ts, t.kind ≠ .eof) : IsPart source ts where
  pairwise := (Lexed.pairwise_tokens_ofString source).sublist h.sublist
  standsIn t ht := Token.standsIn_of_mem_tokens (h.subset ht) (heof t ht)

/-- No token begins before the first one or ends after the last one. -/
theorem IsPart.span_bounds {ts : List Token} (h : IsPart source ts) (hne : ts ≠ []) {t : Token}
    (ht : t ∈ ts) :
    (ts.head hne).span.start ≤ t.span.start ∧ t.span.stop ≤ (ts.getLast hne).span.stop := by
  induction ts with
  | nil => contradiction
  | cons u ts ih =>
    obtain ⟨hu, hpair⟩ := List.pairwise_cons.mp h.pairwise
    obtain ⟨hfirst, hstands⟩ := List.forall_mem_cons.mp h.standsIn
    have hstart := hfirst.start_le_stop
    rcases List.mem_cons.mp ht with rfl | hmem
    · refine ⟨Nat.le_refl _, ?_⟩
      by_cases hnil : ts = []
      · simp [hnil]
      · rw [List.getLast_cons hnil]
        have hlast := List.getLast_mem hnil
        have hnext := hu _ hlast
        have hstop := (hstands _ hlast).start_le_stop
        omega
    · have hnil : ts ≠ [] := List.ne_nil_of_mem hmem
      have hnext := hu t hmem
      rw [List.getLast_cons hnil, List.head_cons]
      exact ⟨by omega, (ih ⟨hpair, hstands⟩ hnil hmem).2⟩

/-- Where some tokens end that may be none, in a header that begins at `start`. -/
def endOf (start : Nat) (ts : List Token) : Nat :=
  (ts.getLast?.map (·.span.stop)).getD start

section

variable {before after : List Token} {t : Token}

/-- The first tokens end at a character, between the beginning of the header and the token after them. -/
theorem IsPart.exists_endOf (h : IsPart source (before ++ t :: after)) (hne : before ++ t :: after ≠ [])
    {as bs : List Char} (hsource : source.toList = as ++ bs)
    (hstart : ((before ++ t :: after).head hne).span.start = byteLength as) :
    ∃ cs ds, source.toList = cs ++ ds ∧ endOf (byteLength as) before = byteLength cs ∧
      byteLength as ≤ byteLength cs ∧ byteLength cs ≤ t.span.start := by
  by_cases hnil : before = []
  · subst hnil
    have hfirst : t.span.start = byteLength as := hstart
    exact ⟨as, bs, hsource, rfl, Nat.le_refl _, by omega⟩
  · have hlast := List.mem_append_left (t :: after) (List.getLast_mem hnil)
    obtain ⟨ps, qs, rs, hcut, -, hstop, -⟩ := h.standsIn _ hlast
    have hbelow := (List.pairwise_append.mp h.pairwise).2.2 _ (List.getLast_mem hnil) t List.mem_cons_self
    have habove := (h.span_bounds hne hlast).1
    have hle := (h.standsIn _ hlast).start_le_stop
    have hend : endOf (byteLength as) before = byteLength (ps ++ qs) := by
      rw [endOf, List.getLast?_eq_some_getLast hnil, Option.map_some, Option.getD_some, hstop,
        byteLength_append]
    refine ⟨ps ++ qs, rs, by rw [hcut, List.append_assoc], hend, ?_, ?_⟩
    · rw [byteLength_append]
      omega
    · rw [byteLength_append]
      omega

/-- The text of a header goes on after its first tokens with something that is not blank. -/
theorem IsPart.exists_text (h : IsPart source (before ++ t :: after)) (hne : before ++ t :: after ≠ []) :
    ∃ as bs cs ds, source.toList = as ++ (bs ++ (cs ++ ds)) ∧
      ((before ++ t :: after).head hne).span.start = byteLength as ∧
      endOf (byteLength as) before = byteLength as + byteLength bs ∧
      ((before ++ t :: after).getLast hne).span.stop = byteLength as + byteLength (bs ++ cs) ∧
      ∃ c ∈ cs, isBlank c = false := by
  have hmem : t ∈ before ++ t :: after := by simp
  have hlast := (h.span_bounds hne hmem).2
  obtain ⟨as, xs, ys, hhead, hstart, -⟩ := h.standsIn _ (List.head_mem hne)
  obtain ⟨us, word, vs, hword, hstart', hstop', c, hc, hblank⟩ := h.standsIn t hmem
  obtain ⟨zs, ws, ds, htail, -, hstop, -⟩ := h.standsIn _ (List.getLast_mem hne)
  obtain ⟨ms, ns, hmiddle, hend, hlow, hhigh⟩ := h.exists_endOf hne hhead hstart
  obtain ⟨bs, rfl, hbs⟩ := exists_append_of_byteLength_le (hhead.symm.trans hmiddle) hlow
  obtain ⟨gap, rfl, hgap⟩ := exists_append_of_byteLength_le (hmiddle.symm.trans hword) (by omega)
  rw [← List.append_assoc] at hword htail
  obtain ⟨more, hmore, -⟩ := exists_append_of_byteLength_le (hword.symm.trans htail)
    (by rw [byteLength_append _ word, byteLength_append zs]; omega)
  refine ⟨as, bs, gap ++ (word ++ more), ds, ?_, hstart, ?_, ?_, c, by simp [hc], hblank⟩
  · rw [htail, hmore]
    simp
  · rw [hend, byteLength_append]
  · have hsize := congrArg byteLength hmore
    simp only [byteLength_append] at hsize ⊢
    omega

end

/-- The characters of a name that are not blank. -/
def visible (source : String) (ts : List Token) : List Char :=
  (headerName source ts).toList.filter fun c => !isBlank c

theorem visible_eq {as bs cs : List Char} {ts : List Token} (hsource : source.toList = as ++ (bs ++ cs))
    (hne : ts ≠ []) (hstart : (ts.head hne).span.start = byteLength as)
    (hstop : (ts.getLast hne).span.stop = byteLength as + byteLength bs) :
    visible source ts = bs.filter fun c => !isBlank c := by
  have hname : headerName (String.ofList (as ++ (bs ++ cs))) ts = String.ofList (collapse bs) :=
    Head.headerName_eq_collapse hne hstart hstop
  rw [← hsource, String.ofList_toList] at hname
  rw [visible, hname, String.toList_ofList, filter_collapse]

/-- A header that goes on has a longer name. -/
theorem IsPart.length_visible_lt {before after : List Token} {t : Token}
    (h : IsPart source (before ++ t :: after)) :
    (visible source before).length < (visible source (before ++ t :: after)).length := by
  have hne : before ++ t :: after ≠ [] := by simp
  obtain ⟨as, bs, cs, ds, hsource, hstart, hend, hstop, c, hc, hblank⟩ := h.exists_text hne
  have hbefore : visible source before = bs.filter fun c => !isBlank c := by
    by_cases hnil : before = []
    · subst hnil
      have hzero : byteLength bs = 0 := by
        simp only [endOf, List.getLast?_nil, Option.map_none, Option.getD_none] at hend
        omega
      obtain rfl : bs = [] := by
        cases bs with
        | nil => rfl
        | cons b bs =>
          have := b.utf8Size_pos
          rw [byteLength_cons] at hzero
          omega
      rw [visible, headerName_nil]
      rfl
    · refine visible_eq hsource hnil ?_ ?_
      · rw [← hstart, List.head_append_left hnil]
      · rw [← hend, endOf, List.getLast?_eq_some_getLast hnil, Option.map_some, Option.getD_some]
  have hsource' : source.toList = as ++ ((bs ++ cs) ++ ds) := by rw [hsource]; simp
  have hmore : 0 < (cs.filter fun c => !isBlank c).length :=
    List.length_pos_of_mem (List.mem_filter.mpr ⟨hc, by simp [hblank]⟩)
  rw [hbefore, visible_eq hsource' hne hstart hstop, List.filter_append, List.length_append]
  omega

/-- A header that ends early has another name. -/
theorem headerName_ne {before after : List Token} {t : Token}
    (hpart : before ++ t :: after <:+: (Lexed.ofString source).tokens)
    (heof : ∀ u ∈ before ++ t :: after, u.kind ≠ .eof) :
    headerName source before ≠ headerName source (before ++ t :: after) := by
  intro heq
  have hlt := (isPart_of_tokens hpart heof).length_visible_lt
  rw [visible, visible, heq] at hlt
  omega

end Outline.Header

end Doctest
