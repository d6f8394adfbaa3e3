import Mathlib.Data.List.Forall2
import Doctest.Proofs.Outline.Forest
import Doctest.Proofs.Token.Edges

/-! The same lexemes in two sources. Their tokens differ only by where they stand, so a header that is
written in them has the same name in both. -/
namespace Doctest

namespace Lexed

open Text Lexeme

/-- The tokens of lexemes that begin at an offset, none of which is an error. -/
inductive Spells : (offset : Nat) → List Lexeme → List Token → Prop
  | nil {offset : Nat} : Spells offset [] []
  | gap {offset : Nat} {x : Lexeme} {xs : List Lexeme} {ts : List Token} : meaning x = none →
    Spells (offset + byteLength x.text) xs ts → Spells offset (x :: xs) ts
  | token {offset : Nat} {x : Lexeme} {xs : List Lexeme} {kind : Token.Kind} {ts : List Token} :
    meaning x = some (.ok kind) → Spells (offset + byteLength x.text) xs ts →
    Spells offset (x :: xs) (⟨kind, ⟨offset, offset + byteLength x.text⟩⟩ :: ts)

/-- The same token, read at another offset. -/
structure Moved (offset other : Nat) (t u : Token) : Prop where
  kind_eq : t.kind = u.kind
  start_eq : u.span.start + offset = t.span.start + other
  stop_eq : u.span.stop + offset = t.span.stop + other

/-- A comment is read as a comment or not at all. -/
theorem exists_doc_of_comment {cs : List Char} {kind : Token.Kind}
    (h : DocText.ofLineComment? cs = some kind ∨ DocText.ofBlockComment? cs = some kind) :
    ∃ text, kind = .outerDoc text ∨ kind = .innerDoc text := by
  unfold DocText.ofLineComment? DocText.ofBlockComment? at h
  dsimp only at h
  split at h <;> split at h <;> simp at h <;> grind

theorem cls_of_semi {x : Lexeme} (h : meaning x = some (.ok (.symbol .semi))) : x.cls = .symbol .semi := by
  have hdoc {cs : List Char} (h : DocText.ofLineComment? cs = some (.symbol .semi) ∨
      DocText.ofBlockComment? cs = some (.symbol .semi)) : False := by
    obtain ⟨text, h⟩ := exists_doc_of_comment h
    simp at h
  unfold meaning at h
  split at h
  case h_2 => exact (hdoc (.inl (by simpa using h))).elim
  case h_3 => exact (hdoc (.inr (by simpa using h))).elim
  case h_9 => cases hword : Keyword.ofString? (String.ofList x.text) <;> simp [hword] at h
  all_goals simp_all

namespace Spells

variable {offset : Nat} {xs ys : List Lexeme} {ts us : List Token}

theorem iff_ofLexemes (errorsLeft : Nat) :
    Spells offset xs ts ↔ ofLexemes (errorsLeft + 1) offset xs = ⟨ts, []⟩ := by
  constructor
  · intro h
    induction h with
    | nil => rfl
    | gap hx _ ih => simp [ofLexemes, hx, ih]
    | token hx _ ih => simp [ofLexemes, hx, ih]
  · intro h
    induction xs generalizing offset ts with
    | nil =>
      obtain rfl : [] = ts := congrArg Lexed.tokens h
      exact .nil
    | cons x xs ih =>
      unfold ofLexemes at h
      dsimp only at h
      split at h
      · next hx => exact .gap hx (ih h)
      · next kind hx =>
        have htokens := congrArg Lexed.tokens h
        have herrors := congrArg Lexed.errors h
        dsimp only at htokens herrors
        subst htokens
        refine .token hx (ih ?_)
        rw [← herrors]
      · simp at h

theorem of_ofString {source : String} (h : (ofString source).errors = []) : ∃ ts,
    (ofString source).tokens =
      ts ++ [⟨.eof, ⟨byteLength source.toList, byteLength source.toList⟩⟩] ∧
      Spells 0 (split source.toList) ts := by
  refine ⟨_, rfl, (iff_ofLexemes 19).mpr ?_⟩
  have herrors : (ofLexemes maxErrors 0 (split source.toList)).errors = [] := h
  rw [← herrors]
  rfl

theorem append (h : Spells offset xs ts) (hys : Spells (offset + byteLength (xs.flatMap text)) ys us) :
    Spells offset (xs ++ ys) (ts ++ us) := by
  induction h with
  | nil => simpa using hys
  | gap hx _ ih => exact .gap hx (ih (by simpa [Nat.add_assoc] using hys))
  | token hx _ ih => exact .token hx (ih (by simpa [Nat.add_assoc] using hys))

theorem exists_of_lexemes_append (h : Spells offset (xs ++ ys) ts) : ∃ as bs, ts = as ++ bs ∧
    Spells offset xs as ∧ Spells (offset + byteLength (xs.flatMap text)) ys bs := by
  induction xs generalizing offset ts with
  | nil => exact ⟨[], ts, rfl, .nil, by simpa using h⟩
  | cons x xs ih =>
    cases h with
    | gap hx h =>
      obtain ⟨as, bs, rfl, has, hbs⟩ := ih h
      exact ⟨as, bs, rfl, .gap hx has, by simpa [Nat.add_assoc] using hbs⟩
    | token hx h =>
      obtain ⟨as, bs, rfl, has, hbs⟩ := ih h
      exact ⟨_ :: as, bs, rfl, .token hx has, by simpa [Nat.add_assoc] using hbs⟩

/-- Before a token there may be lexemes without tokens. -/
theorem exists_of_cons {t : Token} (h : Spells offset xs (t :: ts)) : ∃ gaps x rest,
    xs = gaps ++ x :: rest ∧ Spells offset gaps [] ∧ meaning x = some (.ok t.kind) ∧
      t.span.start = offset + byteLength (gaps.flatMap text) ∧
      t.span.stop = t.span.start + byteLength x.text ∧ Spells t.span.stop rest ts := by
  induction xs generalizing offset with
  | nil => cases h
  | cons x xs ih =>
    cases h with
    | gap hx h =>
      obtain ⟨gaps, y, rest, rfl, hgaps, hy, hstart, hstop, hrest⟩ := ih h
      exact ⟨x :: gaps, y, rest, rfl, .gap hx hgaps, hy, by simp [hstart, Nat.add_assoc], hstop, hrest⟩
    | token hx h => exact ⟨[], x, xs, rfl, .nil, hx, rfl, rfl, h⟩

/-- The lexemes up to the last of some tokens. -/
theorem exists_of_append (h : Spells offset xs (ts ++ us)) : ∃ as bs, xs = as ++ bs ∧
    Spells offset as ts ∧ Spells (offset + byteLength (as.flatMap text)) bs us ∧
      (ts = [] → as = []) ∧ ∀ t ∈ ts.getLast?, t.span.stop = offset + byteLength (as.flatMap text) := by
  induction xs generalizing offset ts with
  | nil =>
    cases ts with
    | nil => exact ⟨[], [], rfl, .nil, by simpa using h, fun _ => rfl, by simp⟩
    | cons t ts => cases h
  | cons x xs ih =>
    cases ts with
    | nil => exact ⟨[], x :: xs, rfl, .nil, by simpa using h, fun _ => rfl, by simp⟩
    | cons t ts =>
      cases h with
      | gap hx h =>
        obtain ⟨as, bs, rfl, has, hbs, -, hlast⟩ := ih h
        refine ⟨x :: as, bs, rfl, .gap hx has, by simpa [Nat.add_assoc] using hbs, by simp, ?_⟩
        simpa [Nat.add_assoc] using hlast
      | token hx h =>
        obtain ⟨as, bs, rfl, has, hbs, hnil, hlast⟩ := ih h
        refine ⟨x :: as, bs, rfl, .token hx has, by simpa [Nat.add_assoc] using hbs, by simp, ?_⟩
        cases ts with
        | nil => simp [hnil rfl]
        | cons u ts => simpa [Nat.add_assoc] using hlast

/-- Tokens that follow each other span lexemes that follow each other. -/
theorem exists_cut {before header after : List Token} (hne : header ≠ [])
    (h : Spells offset xs (before ++ (header ++ after))) : ∃ as bs cs, xs = as ++ (bs ++ cs) ∧
      (header.head hne).span.start = offset + byteLength (as.flatMap text) ∧
      (header.getLast hne).span.stop =
        offset + byteLength (as.flatMap text) + byteLength (bs.flatMap text) := by
  obtain ⟨as, rest, rfl, -, hrest, -⟩ := h.exists_of_append
  obtain ⟨t, header, rfl⟩ := List.exists_cons_of_ne_nil hne
  rw [List.cons_append] at hrest
  obtain ⟨gaps, x, rest, rfl, -, hx, hstart, hstop, hrest⟩ := hrest.exists_of_cons
  obtain ⟨bs, cs, rfl, -, -, hnil, hlast⟩ := hrest.exists_of_append
  refine ⟨as ++ gaps, x :: bs, cs, by simp, by simp [hstart, Nat.add_assoc], ?_⟩
  cases header with
  | nil => simp [hnil rfl, hstop, hstart, Nat.add_assoc]
  | cons u header =>
    have hlast := hlast _ (List.getLast?_eq_some_getLast (List.cons_ne_nil u header))
    rw [List.getLast_cons (List.cons_ne_nil u header), hlast, hstop, hstart]
    simp [Nat.add_assoc]

/-- The same lexemes at another offset have the same tokens, all moved by as much. -/
theorem forall₂_moved {other : Nat} (h : Spells offset xs ts) (h' : Spells other xs us) :
    List.Forall₂ (Moved offset other) ts us := by
  induction h generalizing other us with
  | nil =>
    cases h'
    exact .nil
  | @gap offset x xs ts hx _ ih =>
    cases h' with
    | gap _ h' => exact (ih h').imp fun t u htu => ⟨htu.1, by have := htu.2; omega, by have := htu.3; omega⟩
    | token hx' _ => simp [hx] at hx'
  | @token offset x xs kind ts hx _ ih =>
    cases h' with
    | gap hx' _ => simp [hx] at hx'
    | token hx' h' =>
      obtain rfl : kind = _ := Except.ok.inj (Option.some.inj (hx.symm.trans hx'))
      refine .cons ⟨rfl, Nat.add_comm _ _, by dsimp only; omega⟩ ?_
      exact (ih h').imp fun t u htu => ⟨htu.1, by have := htu.2; omega, by have := htu.3; omega⟩

/-- The same lexemes can be read at any offset. -/
theorem exists_at (h : Spells offset xs ts) (other : Nat) : ∃ us, Spells other xs us := by
  induction h generalizing other with
  | nil => exact ⟨[], .nil⟩
  | @gap _ x _ _ hx _ ih =>
    obtain ⟨us, hus⟩ := ih (other + byteLength x.text)
    exact ⟨us, .gap hx hus⟩
  | @token _ x _ _ _ hx _ ih =>
    obtain ⟨us, hus⟩ := ih (other + byteLength x.text)
    exact ⟨_ :: us, .token hx hus⟩

theorem notMem_unfinished (h : Spells offset xs ts) {x : Lexeme} (hx : x ∈ xs) :
    x.cls ∉ unfinished := by
  have hmeaning {y : Lexeme} (hy : ∀ cause, meaning y ≠ some (.error cause)) : y.cls ∉ unfinished := by
    intro hmem
    simp only [unfinished, List.mem_cons, List.not_mem_nil, or_false] at hmem
    rcases hmem with hcls | hcls | hcls <;> simp [meaning, hcls] at hy
  induction h with
  | nil => simp at hx
  | gap hy _ ih =>
    rcases List.mem_cons.mp hx with rfl | hx
    · exact hmeaning (by simp [hy])
    · exact ih hx
  | token hy _ ih =>
    rcases List.mem_cons.mp hx with rfl | hx
    · exact hmeaning (by simp [hy])
    · exact ih hx

/-- No token is empty. -/
theorem start_lt_stop (h : Spells offset xs ts) (hxs : ∀ x ∈ xs, x.text ≠ []) :
    ∀ t ∈ ts, t.span.start < t.span.stop := by
  induction h with
  | nil => simp
  | gap _ _ ih => exact ih fun x hx => hxs x (List.mem_cons_of_mem _ hx)
  | token _ _ ih =>
    intro t ht
    rcases List.mem_cons.mp ht with rfl | ht
    · obtain ⟨c, cs, hcs⟩ := List.exists_cons_of_ne_nil (hxs _ List.mem_cons_self)
      have := c.utf8Size_pos
      simp only [hcs, byteLength_cons]
      omega
    · exact ih (fun x hx => hxs x (List.mem_cons_of_mem _ hx)) t ht

/-- Blanks have no tokens. -/
theorem eq_nil_of_skipped {cs : List Char} (h : Spells offset (split cs) ts)
    (hcs : ∀ c ∈ cs, isSkipped c) : ts = [] := by
  cases cs with
  | nil =>
    rw [split] at h
    cases h
    rfl
  | cons c cs =>
    rw [split_of_skipped (hcs c List.mem_cons_self) fun d hd => hcs d (List.mem_cons_of_mem c hd)] at h
    cases h with
    | gap _ h =>
      cases h
      rfl
    | token hkind _ => simp [meaning] at hkind

/-- A newline at the front has no token. -/
theorem exists_newline {cs rest : List Char} (h : Spells (offset + 1) xs ts)
    (hsplit : split cs = xs ++ split ('}' :: rest)) :
    ∃ ys, split ('\n' :: cs) = ys ++ split ('}' :: rest) ∧ Spells offset ys ts := by
  rcases split_newline cs with hcs | ⟨bs, zs, hzs, hcs⟩
  · exact ⟨⟨.blank, ['\n']⟩ :: xs, by rw [hcs, hsplit, List.cons_append], .gap rfl h⟩
  · rw [hzs] at hsplit
    cases h with
    | nil => simp [split_closing] at hsplit
    | token hkind _ =>
      obtain ⟨rfl, -⟩ := List.cons.inj hsplit
      simp [meaning] at hkind
    | gap _ h =>
      obtain ⟨rfl, rfl⟩ := List.cons.inj hsplit
      refine ⟨_ :: _, hcs, .gap rfl ?_⟩
      have hlen : offset + byteLength ('\n' :: bs) = offset + 1 + byteLength bs := by
        rw [byteLength_cons, ← Nat.add_assoc]
        rfl
      exact hlen ▸ h

/-- Lexemes in braces. -/
theorem exists_braces {zs : List Lexeme} {vs : List Token} (h : Spells offset xs ts)
    (hys : Spells (offset + byteLength (xs.flatMap text) + 1) ys us)
    (hzs : Spells (offset + byteLength (xs.flatMap text) + 1 + byteLength (ys.flatMap text) + 1) zs vs) :
    ∃ opening closing : Token, opening.kind = .opening .brace ∧ closing.kind = .closing .brace ∧
      Spells offset (xs ++ ⟨.opening .brace, ['{']⟩ :: (ys ++ ⟨.closing .brace, ['}']⟩ :: zs))
        (ts ++ opening :: (us ++ closing :: vs)) :=
  ⟨_, _, rfl, rfl, h.append (.token rfl (hys.append (.token rfl hzs)))⟩

/-- A text with a semicolon, cut there. -/
theorem exists_of_semi {cs : List Char} {semi : Span}
    (h : Spells offset (split cs) (ts ++ ⟨.symbol .semi, semi⟩ :: us)) : ∃ xs ds,
      cs = xs.flatMap text ++ ';' :: ds ∧
      split (xs.flatMap text ++ ';' :: ds) = xs ++ split (';' :: ds) ∧ Spells offset xs ts ∧
      semi = ⟨offset + byteLength (xs.flatMap text), offset + byteLength (xs.flatMap text) + 1⟩ ∧
      Spells semi.stop (split ds) us := by
  obtain ⟨as, ys, hsplit, has, hys, -, -⟩ := h.exists_of_append
  obtain ⟨gaps, x, zs, rfl, hgaps, hx, hstart, hstop, hzs⟩ := hys.exists_of_cons
  have hxs : Spells offset (as ++ gaps) (ts ++ []) := has.append hgaps
  rw [List.append_nil] at hxs
  have hcut : split cs = (as ++ gaps) ++ x :: zs := by rw [hsplit, List.append_assoc]
  have htext := text_of_semi hcut (cls_of_semi hx)
  have hrest : x :: zs = split (';' :: zs.flatMap text) := by
    have heq := eq_split_of_split_eq_append hcut
    rwa [List.flatMap_cons, htext] at heq
  have hlast : zs = split (zs.flatMap text) := by
    have hcut : split cs = ((as ++ gaps) ++ [x]) ++ zs := by rw [hcut]; simp
    exact eq_split_of_split_eq_append hcut
  have hcs : cs = (as ++ gaps).flatMap text ++ ';' :: zs.flatMap text := by
    have hflat := flatMap_text_split cs
    rw [hcut, List.flatMap_append, List.flatMap_cons, htext] at hflat
    exact hflat.symm
  have hsize : byteLength [';'] = 1 := by decide
  rw [htext, hsize] at hstop
  rw [hlast] at hzs
  refine ⟨as ++ gaps, zs.flatMap text, hcs, ?_, hxs, ?_, hzs⟩
  · rw [← hcs, hcut, hrest]
  · obtain ⟨start, stop⟩ := semi
    simp only at hstart hstop
    simp [hstart, hstop, Nat.add_assoc]

/-- The last lexeme is punctuation only if the last token is. -/
theorem cls_getLast (h : Spells offset xs ts) (hts : ∀ t ∈ ts.getLast?, ∀ c, t.kind ≠ .punct c) :
    ∀ x ∈ xs.getLast?, x.cls ≠ .punct := by
  intro x hx hcls
  obtain ⟨ys, rfl⟩ := List.getLast?_eq_some_iff.mp hx
  obtain ⟨as, bs, rfl, -, hlast⟩ := h.exists_of_lexemes_append
  have hmeaning : meaning x = some (.ok (.punct (x.text.headD '?'))) := by simp [meaning, hcls]
  cases hlast with
  | gap hnone _ => simp [hmeaning] at hnone
  | token hkind hrest =>
    cases hrest
    obtain rfl : Token.Kind.punct _ = _ := Except.ok.inj (Option.some.inj (hmeaning.symm.trans hkind))
    exact hts _ List.getLast?_concat _ rfl

end Spells

end Lexed

namespace Outline

open Text Lexeme

/-- Tokens of two sources with the same kinds, where every part of the ones names the same header as that
part of the others. -/
structure Copies (source other : String) (ts us : List Token) : Prop where
  kinds : ts.map (·.kind) = us.map (·.kind)
  headerName_eq (n k : Nat) : Header.headerName source ((ts.drop n).take k) =
    Header.headerName other ((us.drop n).take k)

/-- A header without tokens has the empty name. -/
theorem Header.headerName_nil (source : String) : headerName source [] = "" := by
  have htext : (Span.mk 0 0).text? source = some "" := by
    simpa using Span.text?_append [] [] source.toList
  simp only [headerName, List.head?_nil, List.getLast?_nil, Option.map_none, Option.getD_none, htext,
    Option.getD_some]
  rfl

theorem rel_getLast {α β : Type} {r : α → β → Prop} {a : α} {b : β} {as : List α} {bs : List β}
    (hab : r a b) (h : List.Forall₂ r as bs) : r ((a :: as).getLast (List.cons_ne_nil a as))
      ((b :: bs).getLast (List.cons_ne_nil b bs)) := by
  induction h generalizing a b with
  | nil => exact hab
  | cons hab' _ ih => exact ih hab'

/-- A piece of text that stands in two sources is read into copies. -/
theorem Copies.of_spells {source other : String} {as as' bs bs' : List Char} {xs : List Lexeme}
    {ts us : List Token} (hsource : source.toList = as ++ (xs.flatMap text ++ bs))
    (hother : other.toList = as' ++ (xs.flatMap text ++ bs'))
    (hts : Lexed.Spells (byteLength as) xs ts) (hus : Lexed.Spells (byteLength as') xs us) :
    Copies source other ts us := by
  have hmoved := hts.forall₂_moved hus
  refine ⟨?_, fun n k => ?_⟩
  · have hkinds : List.Forall₂ Eq (ts.map (·.kind)) (us.map (·.kind)) :=
      List.forall₂_map_left_iff.mpr (List.forall₂_map_right_iff.mpr (hmoved.imp fun t u h => h.kind_eq))
    rwa [List.forall₂_eq_eq_eq] at hkinds
  · have hslice := List.forall₂_take k (List.forall₂_drop n hmoved)
    have hcut : ts = ts.take n ++ ((ts.drop n).take k ++ (ts.drop n).drop k) := by
      rw [List.take_append_drop, List.take_append_drop]
    generalize (ts.drop n).take k = header at hslice hcut ⊢
    generalize (us.drop n).take k = header' at hslice ⊢
    cases hslice with
    | nil => rw [Header.headerName_nil, Header.headerName_nil]
    | @cons t u header header' htu hslice =>
      obtain ⟨ys, zs, vs, rfl, hstart, hstop⟩ := (hcut ▸ hts).exists_cut (List.cons_ne_nil t header)
      have hlast := rel_getLast htu hslice
      -- In either source the header is the text of the lexemes `zs`.
      have hname {source : String} {front back : List Char} {t : Token} {header : List Token}
          (hsource : source.toList = front ++ ((ys ++ (zs ++ vs)).flatMap text ++ back))
          (hstart : t.span.start = byteLength front + byteLength (ys.flatMap text))
          (hstop : ((t :: header).getLast (List.cons_ne_nil t header)).span.stop =
            byteLength front + byteLength (ys.flatMap text) + byteLength (zs.flatMap text)) :
          Header.headerName source (t :: header) = String.ofList (collapse (zs.flatMap text)) := by
        rw [← byteLength_append] at hstart hstop
        have hsource : source = String.ofList ((front ++ ys.flatMap text) ++
            (zs.flatMap text ++ (vs.flatMap text ++ back))) := by
          have htext := congrArg String.ofList hsource
          rw [String.ofList_toList] at htext
          simp [htext]
        rw [hsource, Head.headerName_eq_collapse (List.cons_ne_nil t header) hstart hstop]
      have hstart' := htu.start_eq
      have hstop' := hlast.stop_eq
      rw [List.head_cons] at hstart
      rw [hname hsource hstart hstop, hname hother (by omega) (by omega)]

end Outline

end Doctest
