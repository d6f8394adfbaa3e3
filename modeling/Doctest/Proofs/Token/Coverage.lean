import Mathlib.Data.List.Perm.Basic
import Doctest.Proofs.Token.Copies

/-! Tokens and errors cover a source. They stand apart from each other and in the order of the source, and
what is between them is white space and comments without documentation. -/
namespace Doctest

namespace Lexeme

open Text

/-- The rest of a block comment, from inside `depth` comments that are nested in it up to its end. -/
inductive Closes : (depth : Nat) → List Char → Prop
  | stop : Closes 0 ['*', '/']
  | opening {depth : Nat} {cs : List Char} : Closes (depth + 1) cs → Closes depth ('/' :: '*' :: cs)
  | closing {depth : Nat} {cs : List Char} : Closes depth cs → Closes (depth + 1) ('*' :: '/' :: cs)
  | char {depth : Nat} {c : Char} {cs : List Char} : ¬['/', '*'] <+: c :: cs → ¬['*', '/'] <+: c :: cs →
    Closes depth cs → Closes depth (c :: cs)

/-- White space, and comments that document nothing, before some text. A line comment ends with its
line. -/
inductive Silent : List Char → (next : List Char) → Prop
  | blank {cs next : List Char} : (∀ c ∈ cs, c ∈ [' ', '\t', '\r', '\n', '\x0c']) → Silent cs next
  | lineComment {cs next : List Char} : '\n' ∉ cs → (next = [] ∨ ∃ ds, next = '\n' :: ds) →
    ¬['!'] <+: cs → (['/'] <+: cs → ['/', '/'] <+: cs) → Silent ('/' :: '/' :: cs) next
  | blockComment {cs next : List Char} : Closes 0 cs → ¬['!'] <+: cs →
    (['*'] <+: cs → ['*', '*'] <+: cs ∨ cs = ['*', '/']) → Silent ('/' :: '*' :: cs) next

theorem closes_of_commentTail? {depth : Nat} {cs : List Char} {n : Nat}
    (h : commentTail? depth cs = some n) : Closes depth (cs.take n) := by
  fun_induction commentTail? depth cs generalizing n with
  | case1 => simp at h
  | case2 depth cs ih =>
    obtain ⟨m, hm, rfl⟩ := Option.map_eq_some_iff.mp h
    exact .opening (ih hm)
  | case3 cs =>
    obtain rfl := Option.some.inj h
    exact .stop
  | case4 depth cs ih =>
    obtain ⟨m, hm, rfl⟩ := Option.map_eq_some_iff.mp h
    exact .closing (ih hm)
  | case5 depth c cs hopen hclose hdeep ih =>
    obtain ⟨m, hm, rfl⟩ := Option.map_eq_some_iff.mp h
    have hfront {ds : List Char} (hds : ds <+: c :: cs.take m) : ds <+: c :: cs :=
      hds.trans (List.take_prefix (m + 1) (c :: cs))
    obtain ⟨hno, hnc⟩ := not_marks_of_patterns hopen hclose hdeep
    exact .char (fun hds => hno (hfront hds)) (fun hds => hnc (hfront hds)) (ih hm)

theorem after_eq_blockComment {c : Char} {cs : List Char} (h : (after c cs).1 = .blockComment) :
    c = '/' ∧ ∃ ds n, cs = '*' :: ds ∧ commentTail? 0 ds = some n ∧ (after c cs).2 = n + 1 := by
  revert h
  refine after_cases (motive := fun f => (f cs).1 = .blockComment →
    c = '/' ∧ ∃ ds n, cs = '*' :: ds ∧ commentTail? 0 ds = some n ∧ (f cs).2 = n + 1) c
    ?blank ?slash ?quote ?doubleQuote ?digit ?letter ?mark
  case slash =>
    intro hc h
    refine ⟨hc, ?_⟩
    unfold afterSlash at h ⊢
    split at h
    · simp at h
    · next ds =>
      split at h
      · next n hn => exact ⟨ds, n, rfl, hn, by simp⟩
      · simp at h
    · simp at h
  case quote => exact fun _ h => by simpa [h] using afterQuote_cls cs
  case doubleQuote => exact fun _ h => by simpa [h] using afterDoubleQuote_cls cs
  case letter => exact fun _ h => by simpa [h] using afterLetter_cls c cs
  case mark =>
    intro h
    unfold afterMark at h
    split at h <;> try simp at h
    split at h <;> simp at h
  all_goals simp

/-- The lexemes of a text at an offset, each with its place. -/
def places (offset : Nat) : List Lexeme → List (Lexeme × Span)
  | [] => []
  | x :: xs =>
    let stop := offset + byteLength x.text
    (x, ⟨offset, stop⟩) :: places stop xs

theorem places_append (offset : Nat) (xs ys : List Lexeme) : places offset (xs ++ ys) =
    places offset xs ++ places (offset + byteLength (xs.flatMap text)) ys := by
  induction xs generalizing offset with
  | nil => simp [places]
  | cons x xs ih => simp [places, ih, Nat.add_assoc]

theorem exists_of_mem_places {offset : Nat} {xs : List Lexeme} {p : Lexeme × Span}
    (h : p ∈ places offset xs) : ∃ before after, xs = before ++ p.1 :: after ∧
      p.2 = ⟨offset + byteLength (before.flatMap text),
        offset + byteLength (before.flatMap text) + byteLength p.1.text⟩ := by
  induction xs generalizing offset with
  | nil => simp [places] at h
  | cons x xs ih =>
    rcases List.mem_cons.mp h with rfl | h
    · exact ⟨[], xs, rfl, rfl⟩
    · obtain ⟨before, after, rfl, hplace⟩ := ih h
      exact ⟨x :: before, after, rfl, by simp [hplace, Nat.add_assoc]⟩

theorem pairwise_places (offset : Nat) (xs : List Lexeme) :
    (places offset xs).Pairwise (·.2.stop ≤ ·.2.start) := by
  induction xs generalizing offset with
  | nil => exact .nil
  | cons x xs ih =>
    refine List.pairwise_cons.mpr ⟨fun p hp => ?_, ih _⟩
    obtain ⟨before, after, -, hplace⟩ := exists_of_mem_places hp
    rw [hplace]
    exact Nat.le_add_right _ _

/-- Lexemes leave no byte out. -/
theorem exists_place {offset : Nat} {xs : List Lexeme} {k : Nat} (hle : offset ≤ k)
    (hlt : k < offset + byteLength (xs.flatMap text)) : ∃ before x after, xs = before ++ x :: after ∧
      offset + byteLength (before.flatMap text) ≤ k ∧
      k < offset + byteLength (before.flatMap text) + byteLength x.text := by
  induction xs generalizing offset with
  | nil =>
    simp at hlt
    omega
  | cons x xs ih =>
    by_cases hx : k < offset + byteLength x.text
    · exact ⟨[], x, xs, rfl, hle, hx⟩
    · obtain ⟨before, y, after, rfl, hbefore, hafter⟩ := ih (Nat.le_of_not_lt hx)
        (by simpa [Nat.add_assoc] using hlt)
      exact ⟨x :: before, y, after, rfl, by simpa [Nat.add_assoc] using hbefore,
        by simpa [Nat.add_assoc] using hafter⟩

end Lexeme

namespace Lexed

open Text Lexeme

theorem trimReturns_cons {c : Char} (hc : c ≠ '\r') (cs : List Char) :
    trimReturns (c :: cs) = c :: trimReturns cs := by
  cases hcs : trimReturns cs with
  | nil =>
    have hall : ∀ d ∈ cs.reverse, d = '\r' := by simpa [trimReturns, dropEndWhile_eq_nil_iff] using hcs
    have hdrop : cs.reverse.dropWhile (· = '\r') = [] := List.dropWhile_eq_nil_iff.mpr (by simpa using hall)
    simp [trimReturns, dropEndWhile, List.dropWhile_append, hdrop, hc]
  | cons d ds =>
    rw [← hcs]
    exact trimReturns_append (by simp [hcs]) [c]

/-- Carriage returns at the end of a line comment do not change its marks. -/
theorem plain_of_ofLineComment?_eq_none {cs : List Char}
    (h : DocText.ofLineComment? ('/' :: '/' :: cs) = none) :
    ¬['!'] <+: cs ∧ (['/'] <+: cs → ['/', '/'] <+: cs) := by
  have hslash : '/' ≠ '\r' := by decide
  rw [DocText.ofLineComment?, trimReturns_cons hslash, trimReturns_cons hslash] at h
  constructor
  · rintro ⟨ds, rfl⟩
    rw [List.singleton_append, trimReturns_cons (by decide)] at h
    simp at h
  · rintro ⟨ds, rfl⟩
    rw [List.singleton_append, trimReturns_cons hslash] at h
    have hfront := isPrefix_trimReturns ds
    cases hds : trimReturns ds with
    | nil => simp [hds] at h
    | cons d es =>
      by_cases hd : d = '/'
      · obtain ⟨fs, rfl⟩ := hds ▸ hfront
        simp [hd]
      · simp [hds, hd] at h

theorem plain_of_ofBlockComment?_eq_none {cs : List Char}
    (h : DocText.ofBlockComment? ('/' :: '*' :: cs) = none) :
    ¬['!'] <+: cs ∧ (['*'] <+: cs → ['*', '*'] <+: cs ∨ cs = ['*', '/']) := by
  unfold DocText.ofBlockComment? at h
  dsimp only at h
  split at h
  · next heq => simp_all
  · next ds heq =>
    obtain rfl : cs = '*' :: '*' :: ds := by simpa using heq
    simp
  · simp at h
  · simp at h
  · next hone htwo => 
    constructor
    · rintro ⟨ds, rfl⟩
      exact htwo ds rfl
    · rintro ⟨ds, rfl⟩
      exact (hone ds rfl).elim

/-- What gives neither a token nor an error is white space or a comment without documentation. -/
theorem silent_of_meaning_eq_none {cs : List Char} {before rest : List Lexeme} {x : Lexeme}
    (h : split cs = before ++ x :: rest) (hx : meaning x = none) : Silent x.text (rest.flatMap text) := by
  obtain ⟨c, ds, hlexeme, -⟩ := exists_after_of_split h
  have hcls : x.cls = (after c ds).1 := by rw [hlexeme]
  have htext : x.text = c :: ds.take (after c ds).2 := by rw [hlexeme]
  unfold meaning at hx
  split at hx
  case h_1 hblank =>
    obtain ⟨hc, hn⟩ := after_eq_blank (hcls ▸ hblank)
    have hall : ∀ d ∈ x.text, isSkipped d := by
      rw [htext, hn, take_run]
      intro d hd
      rcases List.mem_cons.mp hd with rfl | hd
      · exact hc
      · exact List.mem_takeWhile_imp hd
    exact .blank fun d hd => by simpa [isSkipped, or_assoc] using hall d hd
  case h_2 hline =>
    obtain ⟨rfl, es, rfl, hn⟩ := after_eq_lineComment (hcls ▸ hline)
    rw [hn, List.take_succ_cons] at htext
    obtain ⟨hnewline, hends⟩ := lineComment_of_split h hline
    rw [htext] at hx hnewline ⊢
    obtain ⟨hbang, hslash⟩ := plain_of_ofLineComment?_eq_none (Option.map_eq_none_iff.mp hx)
    have hline : '\n' ∉ es.take (run (· ≠ '\n') es) := fun hmem =>
      hnewline (List.mem_cons_of_mem _ (List.mem_cons_of_mem _ hmem))
    exact .lineComment hline hends hbang hslash
  case h_3 hblock =>
    obtain ⟨rfl, es, n, rfl, hn, hlen⟩ := after_eq_blockComment (hcls ▸ hblock)
    rw [hlen, List.take_succ_cons] at htext
    rw [htext] at hx ⊢
    obtain ⟨hbang, hstar⟩ := plain_of_ofBlockComment?_eq_none (Option.map_eq_none_iff.mp hx)
    exact .blockComment (closes_of_commentTail? hn) hbang hstar
  all_goals simp at hx

def token? (p : Lexeme × Span) : Option Token :=
  match meaning p.1 with
  | some (.ok kind) => some ⟨kind, p.2⟩
  | _ => none

def error? (p : Lexeme × Span) : Option LexError :=
  match meaning p.1 with
  | some (.error cause) => some ⟨cause, p.2⟩
  | _ => none

/-- The places of the lexemes that give a token or an error. -/
def spans (ps : List (Lexeme × Span)) : List Span :=
  (ps.filter fun p => (meaning p.1).isSome).map (·.2)

/-- Tokens and errors are those of the first lexemes, up to the last error that is still read. -/
theorem ofLexemes_eq_places (errorsLeft offset : Nat) (xs : List Lexeme) : ∃ read rest,
    xs = read ++ rest ∧
    (ofLexemes errorsLeft offset xs).tokens = (places offset read).filterMap token? ∧
    (ofLexemes errorsLeft offset xs).errors = (places offset read).filterMap error? ∧
    ((ofLexemes errorsLeft offset xs).errors.length < errorsLeft → rest = []) := by
  fun_induction ofLexemes errorsLeft offset xs with
  | case1 => exact ⟨[], _, rfl, rfl, rfl, by simp⟩
  | case2 => exact ⟨[], [], rfl, rfl, rfl, fun _ => rfl⟩
  | case3 errorsLeft offset x xs stop hx ih =>
    obtain ⟨read, rest, rfl, htokens, herrors, hrest⟩ := ih
    exact ⟨x :: read, rest, rfl, by simp [places, token?, hx, htokens, stop],
      by simp [places, error?, hx, herrors, stop], hrest⟩
  | case4 errorsLeft offset x xs stop kind hx tail ih =>
    obtain ⟨read, rest, rfl, htokens, herrors, hrest⟩ := ih
    exact ⟨x :: read, rest, rfl, by simp [places, token?, hx, tail, htokens, stop],
      by simp [places, error?, hx, tail, herrors, stop], hrest⟩
  | case5 errorsLeft offset x xs stop cause hx tail ih =>
    obtain ⟨read, rest, rfl, htokens, herrors, hrest⟩ := ih
    exact ⟨x :: read, rest, rfl, by simp [places, token?, hx, tail, htokens, stop],
      by simp [places, error?, hx, tail, herrors, stop],
      fun hlt => hrest (by simpa using hlt)⟩

/-- A lexeme that is not silent gives either a token or an error. -/
theorem spans_perm (ps : List (Lexeme × Span)) :
    (spans ps).Perm ((ps.filterMap token?).map (·.span) ++ (ps.filterMap error?).map (·.span)) := by
  induction ps with
  | nil => exact .nil
  | cons p ps ih =>
    rcases hp : meaning p.1 with _ | cause | kind
    · simpa [spans, token?, error?, hp] using ih
    · simp only [spans, token?, error?, hp, List.filter_cons, List.filterMap_cons, Option.isSome_some,
        if_true, List.map_cons]
      exact (ih.cons p.2).trans List.perm_middle.symm
    · simpa [spans, token?, error?, hp] using ih.cons p.2

theorem tokens_sublist (ps : List (Lexeme × Span)) :
    ((ps.filterMap token?).map (·.span)).Sublist (spans ps) := by
  induction ps with
  | nil => exact .slnil
  | cons p ps ih =>
    rcases hp : meaning p.1 with _ | cause | kind
    · simpa [spans, token?, hp] using ih
    · simpa [spans, token?, hp] using ih.cons p.2
    · simpa [spans, token?, hp] using ih

theorem errors_sublist (ps : List (Lexeme × Span)) :
    ((ps.filterMap error?).map (·.span)).Sublist (spans ps) := by
  induction ps with
  | nil => exact .slnil
  | cons p ps ih =>
    rcases hp : meaning p.1 with _ | cause | kind
    · simpa [spans, error?, hp] using ih
    · simpa [spans, error?, hp] using ih
    · simpa [spans, error?, hp] using ih.cons p.2

theorem pairwise_spans (offset : Nat) (xs : List Lexeme) :
    (spans (places offset xs)).Pairwise (·.stop ≤ ·.start) :=
  List.pairwise_map.mpr ((pairwise_places offset xs).filter _)

/-- The end of the file is no lexeme. -/
theorem meaning_ne_eof (x : Lexeme) : meaning x ≠ some (.ok .eof) := by
  have hdoc {cs : List Char} : ¬(DocText.ofLineComment? cs = some .eof ∨
      DocText.ofBlockComment? cs = some .eof) := fun h => by
    obtain ⟨text, h⟩ := exists_doc_of_comment h
    simp at h
  intro h
  unfold meaning at h
  split at h
  case h_2 => exact hdoc (.inl (by simpa using h))
  case h_3 => exact hdoc (.inr (by simpa using h))
  case h_9 => cases hword : Keyword.ofString? (String.ofList x.text) <;> simp [hword] at h
  all_goals simp at h

theorem kind_ne_eof_of_token? {p : Lexeme × Span} {t : Token} (h : token? p = some t) : t.kind ≠ .eof := by
  unfold token? at h
  split at h
  · next kind hkind =>
    obtain rfl := Option.some.inj h
    rintro rfl
    exact meaning_ne_eof p.1 hkind
  · simp at h

/-- What stands around a lexeme of a text. -/
theorem eq_append_of_split {cs : List Char} {before after rest : List Lexeme} {x : Lexeme}
    (h : split cs = (before ++ x :: after) ++ rest) :
    cs = before.flatMap text ++ (x.text ++ (after ++ rest).flatMap text) := by
  have htext := flatMap_text_split cs
  rw [h, List.append_assoc, List.flatMap_append, List.cons_append, List.flatMap_cons] at htext
  exact htext.symm

/-- The places of lexemes are in the source and hold some of it. -/
theorem text?_place {source : String} {read rest : List Lexeme} {p : Lexeme × Span}
    (h : split source.toList = read ++ rest) (hp : p ∈ places 0 read) :
    p.2.start < p.2.stop ∧ (p.2.text? source).isSome := by
  obtain ⟨before, after, rfl, hplace⟩ := exists_of_mem_places hp
  have hne : p.1.text ≠ [] := text_ne_nil_of_mem_split (h ▸ by simp : p.1 ∈ split source.toList)
  have hsource := eq_append_of_split h
  rw [Nat.zero_add] at hplace
  rw [hplace]
  constructor
  · obtain ⟨c, cs, hcs⟩ := List.exists_cons_of_ne_nil hne
    have := c.utf8Size_pos
    simp only [hcs, byteLength_cons]
    omega
  · rw [← String.ofList_toList (s := source), hsource, Span.text?_append]
    rfl

/-- Another lexeme of a list is before or after a lexeme. -/
theorem apart_of_mem_spans {before after : List Lexeme} {x : Lexeme} {s : Span} (hx : meaning x = none)
    (h : s ∈ spans (places 0 (before ++ x :: after))) :
    s.stop ≤ byteLength (before.flatMap text) ∨
      byteLength (before.flatMap text) + byteLength x.text ≤ s.start := by
  have hpair := pairwise_places 0 (before ++ x :: after)
  obtain ⟨p, hp, rfl⟩ := List.mem_map.mp h
  obtain ⟨hmem, hsome⟩ := List.mem_filter.mp hp
  rw [places_append, Nat.zero_add, places] at hmem hpair
  rw [List.pairwise_append, List.pairwise_cons] at hpair
  obtain ⟨-, ⟨hlater, -⟩, hearlier⟩ := hpair
  rcases List.mem_append.mp hmem with hmem | hmem
  · exact .inl (hearlier p hmem _ List.mem_cons_self)
  · rcases List.mem_cons.mp hmem with rfl | hmem
    · simp [hx] at hsome
    · exact .inr (hlater p hmem)

/-- Every piece of a source is read. At most twenty errors are met, and the tokens end with the end of the
file. The other tokens and the errors take up parts of the source that are not empty and that follow each
other. If the limit of errors is not reached, each byte that they leave out stands in white space or in a
complete comment without documentation. -/
theorem ofString_covers_source (source : String) :
    let size := byteLength source.toList
    let errors := (ofString source).errors
    errors.length ≤ 20 ∧ ∃ body taken,
      (ofString source).tokens = body ++ [⟨.eof, ⟨size, size⟩⟩] ∧ (∀ t ∈ body, t.kind ≠ .eof) ∧
      taken.Perm (body.map (·.span) ++ errors.map (·.span)) ∧
      (body.map (·.span)).Sublist taken ∧ (errors.map (·.span)).Sublist taken ∧
      taken.Pairwise (·.stop ≤ ·.start) ∧
      (∀ s ∈ taken, s.start < s.stop ∧ (s.text? source).isSome) ∧
      (errors.length < 20 → ∀ k < size, (∀ s ∈ taken, ¬(s.start ≤ k ∧ k < s.stop)) →
        ∃ before gap after, source.toList = before ++ (gap ++ after) ∧ byteLength before ≤ k ∧
          k < byteLength before + byteLength gap ∧ Silent gap after ∧
          ∀ s ∈ taken, s.stop ≤ byteLength before ∨ byteLength before + byteLength gap ≤ s.start) := by
  intro size errors
  obtain ⟨read, rest, hsplit, htokens, herrors, hrest⟩ :=
    ofLexemes_eq_places maxErrors 0 (split source.toList)
  have hsource := flatMap_text_split source.toList
  refine ⟨length_errors_ofLexemes_le maxErrors 0 _, (places 0 read).filterMap token?,
    spans (places 0 read), ?_, fun t ht => ?_, ?_, tokens_sublist _, ?_, pairwise_spans 0 read,
    fun s hs => ?_, fun hlt k hk hout => ?_⟩
  · rw [← htokens]
    rfl
  · obtain ⟨p, -, hp⟩ := List.mem_filterMap.mp ht
    exact kind_ne_eof_of_token? hp
  · rw [show errors = _ from herrors]
    exact spans_perm (places 0 read)
  · rw [show errors = _ from herrors]
    exact errors_sublist (places 0 read)
  · obtain ⟨p, hp, rfl⟩ := List.mem_map.mp hs
    exact text?_place hsplit (List.mem_filter.mp hp).1
  · obtain rfl := hrest hlt
    rw [List.append_nil] at hsplit
    have hread : k < 0 + byteLength (read.flatMap text) := by
      rw [Nat.zero_add, ← hsplit, hsource]
      exact hk
    obtain ⟨before, x, after, rfl, hbefore, hafter⟩ := exists_place (Nat.zero_le k) hread
    rw [Nat.zero_add] at hbefore hafter
    have hx : meaning x = none := by
      by_contra hsome
      refine hout ⟨byteLength (before.flatMap text), byteLength (before.flatMap text) +
        byteLength x.text⟩ ?_ ⟨hbefore, hafter⟩
      refine List.mem_map.mpr ⟨(x, _), List.mem_filter.mpr ⟨?_, Option.isSome_iff_ne_none.mpr hsome⟩, rfl⟩
      rw [places_append, Nat.zero_add]
      exact List.mem_append_right _ List.mem_cons_self
    refine ⟨before.flatMap text, x.text, after.flatMap text, ?_, hbefore, hafter,
      silent_of_meaning_eq_none hsplit hx, fun s hs => apart_of_mem_spans hx hs⟩
    rw [← hsource, hsplit, List.flatMap_append, List.flatMap_cons]

end Lexed

end Doctest
