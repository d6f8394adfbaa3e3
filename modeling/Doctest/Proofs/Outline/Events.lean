import Doctest.Proofs.Outline.ForestMarks
import Doctest.Proofs.Outline.Remainders
import Doctest.Proofs.Token.Places

/-! The reading of a file in two stages: the tokens are cut into comments, attributes, headers of items
and ends of blocks, and the marks are made of these, each item with the comments before it. -/
namespace Doctest.Outline

/-- Comments with their places in the source. -/
abbrev Comments : Type := List (String × Span)

/-- What the next tokens of a block are. -/
inductive Event
  | comment (text : String) (span : Span)
  | inner (docs : Comments)
  | attr
  | item (header : Header)
  | close
  | unmatched (span : Span)
  | unclosed (span : Span)

/-- The element that a header begins. -/
def Header.declared? : Header → Option (Element.Kind × String)
  | leaf kind name | body kind name => some (kind, name)
  | outside name _ | bareModule name _ => some (.module, name)
  | nothing | fault _ => none

/-- A comment on what encloses it. -/
def isInner (t : Token) : Bool :=
  match t.kind with
  | .innerDoc _ => true
  | _ => false

namespace Event

/-- What begins with a token that ends no block, and the tokens after it. -/
def next (source : String) (t : Token) (ts : List Token) : Event × List Token :=
  match t.kind with
  | .outerDoc text => (comment text t.span, ts)
  | .innerDoc _ => (inner ((t :: ts.takeWhile isInner).filterMap (·.comment?)), ts.dropWhile isInner)
  | .symbol .pound => (attr, skipAttribute ts)
  | _ => ((item (Header.read source (t :: ts)).1), (Header.read source (t :: ts)).2)

theorem next_suffix (source : String) (t : Token) (ts : List Token) :
    (next source t ts).2 <:+ t :: ts := by
  unfold next
  split
  · exact List.suffix_cons _ _
  · exact (List.dropWhile_suffix _).trans (List.suffix_cons _ _)
  · exact (skipAttribute_suffix ts).trans (List.suffix_cons _ _)
  · exact Header.read_suffix source (t :: ts)

theorem length_next_le (source : String) {t : Token} (ts : List Token)
    (hb : t.kind ≠ .closing .brace) (he : t.kind ≠ .eof) : (next source t ts).2.length ≤ ts.length := by
  unfold next
  split
  · exact Nat.le_refl _
  · exact (List.dropWhile_suffix _).length_le
  · exact length_skipAttribute_le ts
  · exact Nat.le_of_lt_succ (Header.length_read_lt source ts hb he)

/-- The events of the tokens, where `depth` blocks are open and `faults` faults have been met. -/
def ofTokens (source : String) (depth faults : Nat) : List Token → List Event
  | [] => List.replicate depth (unclosed ⟨0, 0⟩)
  | t :: ts =>
    if he : t.kind = .eof then List.replicate depth (unclosed t.span)
    else if hb : t.kind = .closing .brace then
      match depth with
      | depth + 1 => close :: ofTokens source depth faults ts
      | 0 =>
        unmatched t.span ::
          if faults + 1 < Mark.maxFaults then ofTokens source 0 (faults + 1) ts else []
    else
      let found := next source t ts
      have := length_next_le source ts hb he
      found.1 ::
        match found.1 with
        | item (.body _ _) => ofTokens source (depth + 1) faults found.2
        | item (.fault _) | item (.bareModule _ _) =>
          if faults + 1 < Mark.maxFaults then
            have := length_skipItem_le 0 found.2
            ofTokens source depth (faults + 1) (skipItem 0 found.2)
          else
            match depth with
            | depth + 1 => close :: ofTokens source depth (faults + 1) found.2
            | 0 => []
        | _ => ofTokens source depth faults found.2
termination_by ts => ts.length
decreasing_by all_goals simp_all +zetaDelta <;> omega

/-- The marks of the events, where `doc` documents the item that comes next. -/
def marks (lines : LineMap) (doc : Option DocRun) : List Event → List Mark
  | [] => []
  | comment text span :: es => marks lines (docRun lines doc [(text, span)]) es
  | inner docs :: es => (docRun lines none docs).toList.map .doc ++ marks lines doc es
  | attr :: es => marks lines doc es
  | item header :: es => Mark.ofHeader doc header ++ marks lines none es
  | close :: es => .leave :: marks lines none es
  | unmatched span :: es => .fault ⟨.unmatchedBrace, span⟩ :: marks lines doc es
  | unclosed span :: es => .fault ⟨.unclosedBody, span⟩ :: .leave :: marks lines none es

theorem marks_replicate_unclosed (lines : LineMap) (doc : Option DocRun) (depth : Nat) (span : Span) :
    marks lines doc (List.replicate depth (unclosed span)) = Mark.unclosed span depth := by
  induction depth generalizing doc with
  | zero => rfl
  | succ depth ih =>
    rw [List.replicate_succ, marks, ih, Mark.unclosed, Mark.unclosed, List.replicate_succ]
    rfl

theorem innerDocs_eq (lines : LineMap) (run : Option DocRun) (ts : List Token) :
    Mark.innerDocs lines run ts =
      (docRun lines run ((ts.takeWhile isInner).filterMap (·.comment?)), ts.dropWhile isInner) := by
  induction ts generalizing run with
  | nil => rfl
  | cons t ts ih =>
    unfold Mark.innerDocs
    split
    · next text ht =>
      have hinner : isInner t = true := by simp [isInner, ht]
      have hcomment : t.comment? = some (text, t.span) := by simp [Token.comment?, ht]
      rw [ih, List.takeWhile_cons_of_pos hinner, List.dropWhile_cons_of_pos hinner,
        List.filterMap_cons_some hcomment]
      rfl
    · next hne =>
      have hinner : ¬ isInner t = true := by
        unfold isInner
        split
        · next text ht => exact absurd ht (hne text)
        · simp
      rw [List.takeWhile_cons_of_neg hinner, List.dropWhile_cons_of_neg hinner]
      rfl

/-- What the first of some tokens may be. -/
theorem kind_cases (t : Token) : t.kind = .eof ∨ t.kind = .closing .brace ∨
    (∃ text, t.kind = .outerDoc text) ∨ (∃ text, t.kind = .innerDoc text) ∨
      t.kind = .symbol .pound ∨ t.kind.startsItem := by
  unfold Token.Kind.startsItem
  split <;> simp_all

/-- Tokens are read piece by piece. After an item, tokens may be passed over. -/
theorem tokens_induction (source : String) {motive : List Token → Prop} (nil : motive [])
    (eof : ∀ t ts, t.kind = .eof → motive (t :: ts))
    (closing : ∀ t ts, t.kind = .closing .brace → motive ts → motive (t :: ts))
    (comment : ∀ t ts text, t.kind = .outerDoc text → motive ts → motive (t :: ts))
    (inner : ∀ t ts text, t.kind = .innerDoc text → motive (ts.dropWhile isInner) → motive (t :: ts))
    (attr : ∀ t ts, t.kind = .symbol .pound → motive (skipAttribute ts) → motive (t :: ts))
    (item : ∀ t ts, t.kind.startsItem →
      (∀ us, us <:+ (Header.read source (t :: ts)).2 → motive us) → motive (t :: ts))
    (ts : List Token) : motive ts := by
  induction hn : ts.length using Nat.strong_induction_on generalizing ts with
  | _ n ih =>
    subst hn
    cases ts with
    | nil => exact nil
    | cons t ts =>
      have shorter {us : List Token} (h : us <:+ ts) : motive us :=
        ih us.length (Nat.lt_succ_of_le h.length_le) us rfl
      rcases kind_cases t with ht | ht | ⟨text, ht⟩ | ⟨text, ht⟩ | ht | ht
      · exact eof t ts ht
      · exact closing t ts ht (shorter (List.suffix_refl ts))
      · exact comment t ts text ht (shorter (List.suffix_refl ts))
      · exact inner t ts text ht (shorter (List.dropWhile_suffix _))
      · exact attr t ts ht (shorter (skipAttribute_suffix ts))
      · refine item t ts ht fun us hus => ih us.length ?_ us rfl
        exact Nat.lt_of_le_of_lt hus.length_le (Header.length_read_lt source ts
          (Token.Kind.ne_of_startsItem ht rfl) (Token.Kind.ne_of_startsItem ht rfl))

section Steps

variable (source : String) (depth faults : Nat) {t : Token} (ts : List Token)

theorem next_comment {text : String} (ht : t.kind = .outerDoc text) :
    next source t ts = (comment text t.span, ts) := by
  simp [next, ht]

theorem next_inner {text : String} (ht : t.kind = .innerDoc text) :
    next source t ts = (inner ((text, t.span) :: (ts.takeWhile isInner).filterMap (·.comment?)),
      ts.dropWhile isInner) := by
  have hcomment : t.comment? = some (text, t.span) := by simp [Token.comment?, ht]
  simp [next, ht, hcomment]

theorem next_attr (ht : t.kind = .symbol .pound) : next source t ts = (attr, skipAttribute ts) := by
  simp [next, ht]

theorem next_item (ht : t.kind.startsItem) :
    next source t ts = (item (Header.read source (t :: ts)).1, (Header.read source (t :: ts)).2) := by
  unfold next
  split
  · next heq => exact absurd heq (Token.Kind.ne_of_startsItem ht rfl)
  · next heq => exact absurd heq (Token.Kind.ne_of_startsItem ht rfl)
  · next heq => exact absurd heq (Token.Kind.ne_of_startsItem ht rfl)
  · rfl

theorem ofTokens_eof (ht : t.kind = .eof) :
    ofTokens source depth faults (t :: ts) = List.replicate depth (unclosed t.span) := by
  rw [ofTokens.eq_def]
  simp [ht]

theorem ofTokens_closing (ht : t.kind = .closing .brace) :
    ofTokens source (depth + 1) faults (t :: ts) = close :: ofTokens source depth faults ts := by
  rw [ofTokens.eq_def]
  simp [ht]

theorem ofTokens_unmatched (ht : t.kind = .closing .brace) :
    ofTokens source 0 faults (t :: ts) = unmatched t.span ::
      if faults + 1 < Mark.maxFaults then ofTokens source 0 (faults + 1) ts else [] := by
  rw [ofTokens.eq_def]
  simp [ht]

theorem ofTokens_comment {text : String} (ht : t.kind = .outerDoc text) :
    ofTokens source depth faults (t :: ts) =
      comment text t.span :: ofTokens source depth faults ts := by
  rw [ofTokens.eq_def]
  simp [ht, next_comment source ts ht]

theorem ofTokens_inner {text : String} (ht : t.kind = .innerDoc text) :
    ofTokens source depth faults (t :: ts) =
      inner ((text, t.span) :: (ts.takeWhile isInner).filterMap (·.comment?)) ::
        ofTokens source depth faults (ts.dropWhile isInner) := by
  rw [ofTokens.eq_def]
  simp [ht, next_inner source ts ht]

theorem ofTokens_attr (ht : t.kind = .symbol .pound) :
    ofTokens source depth faults (t :: ts) =
      attr :: ofTokens source depth faults (skipAttribute ts) := by
  rw [ofTokens.eq_def]
  simp [ht, next_attr source ts ht]

/-- The events after that of a header. -/
def following (rest : List Token) : Header → List Event
  | .body _ _ => ofTokens source (depth + 1) faults rest
  | .fault _ | .bareModule _ _ =>
    if faults + 1 < Mark.maxFaults then ofTokens source depth (faults + 1) (skipItem 0 rest)
    else
      match depth with
      | depth + 1 => close :: ofTokens source depth (faults + 1) rest
      | 0 => []
  | _ => ofTokens source depth faults rest

theorem ofTokens_item (ht : t.kind.startsItem) :
    ofTokens source depth faults (t :: ts) = item (Header.read source (t :: ts)).1 ::
      following source depth faults (Header.read source (t :: ts)).2
        (Header.read source (t :: ts)).1 := by
  have he : t.kind ≠ .eof := Token.Kind.ne_of_startsItem ht rfl
  have hb : t.kind ≠ .closing .brace := Token.Kind.ne_of_startsItem ht rfl
  have hnext := next_item source ts ht
  obtain ⟨header, rest, hread⟩ : ∃ header rest, Header.read source (t :: ts) = (header, rest) :=
    ⟨_, _, rfl⟩
  rw [hread] at hnext ⊢
  rw [ofTokens.eq_def]
  simp only [he, hb, dite_false, hnext]
  cases header <;> rfl

end Steps

/-- The marks of the tokens are those of their events. -/
theorem marks_ofTokens (source : String) (lines : LineMap) (depth faults : Nat)
    (doc : Option DocRun) (ts : List Token) :
    marks lines doc (ofTokens source depth faults ts) =
      Mark.ofTokens source lines depth doc faults ts := by
  induction ts using tokens_induction source generalizing depth faults doc with
  | nil => rw [ofTokens.eq_def, marks_replicate_unclosed, Mark.ofTokens.eq_def]
  | eof t ts ht =>
    rw [ofTokens_eof source depth faults ts ht, marks_replicate_unclosed, Mark.ofTokens.eq_def]
    simp [ht]
  | closing t ts ht ih =>
    cases depth with
    | zero =>
      rw [ofTokens_unmatched source faults ts ht, marks, Mark.ofTokens.eq_def source lines 0]
      simp only [ht]
      split <;> simp [marks, ih]
    | succ depth =>
      rw [ofTokens_closing source depth faults ts ht, marks, ih,
        Mark.ofTokens.eq_def source lines (depth + 1)]
      simp [ht]
  | comment t ts text ht ih =>
    rw [ofTokens_comment source depth faults ts ht, marks, ih,
      Mark.ofTokens.eq_def source lines depth doc faults (t :: ts)]
    simp [ht, docRun]
  | inner t ts text ht ih =>
    rw [ofTokens_inner source depth faults ts ht, marks, ih,
      Mark.ofTokens.eq_def source lines depth doc faults (t :: ts)]
    simp [ht, innerDocs_eq, docRun, DocRun.extend]
  | attr t ts ht ih =>
    rw [ofTokens_attr source depth faults ts ht, marks, ih,
      Mark.ofTokens.eq_def source lines depth doc faults (t :: ts)]
    simp [ht]
  | item t ts ht ih =>
    obtain ⟨header, rest, hread⟩ : ∃ header rest, Header.read source (t :: ts) = (header, rest) :=
      ⟨_, _, rfl⟩
    rw [hread] at ih
    rw [ofTokens_item source depth faults ts ht, hread, marks,
      Mark.ofTokens_item source lines depth doc faults ht hread]
    refine congrArg _ ?_
    have hrest (depth faults : Nat) : marks lines none (ofTokens source depth faults rest) =
        Mark.ofTokens source lines depth none faults rest := ih rest (List.suffix_refl _) _ _ none
    have hfault : marks lines none (following source depth faults rest (.fault ⟨.unclosedBody, ⟨0, 0⟩⟩)) =
        Mark.following source lines depth faults rest (.fault ⟨.unclosedBody, ⟨0, 0⟩⟩) := by
      unfold following Mark.following
      dsimp only
      split
      · exact ih _ (skipItem_suffix 0 rest) _ _ none
      · cases depth with
        | zero => rfl
        | succ depth => simp [marks, hrest]
    cases header with
    | fault f => exact hfault
    | bareModule name f => exact hfault
    | body kind name => exact hrest (depth + 1) faults
    | _ => exact hrest depth faults

end Event

end Doctest.Outline
