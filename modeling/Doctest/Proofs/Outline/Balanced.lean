import Mathlib.Data.List.Basic
import Doctest.Outline.Skip

/-! Tokens whose groups close, and the functions that pass over a part of an item: on such tokens each
of them goes on until the first token that stops it outside of all groups. -/
namespace Doctest

/-- Neither a bracket nor the end of the file. -/
def Token.Kind.isPlain : Token.Kind → Bool
  | .opening _ | .closing _ | .eof => false
  | _ => true

theorem Token.Kind.ne_of_isPlain {kind other : Token.Kind} (h : kind.isPlain)
    (hother : other.isPlain = false) : kind ≠ other := by
  rintro rfl
  simp [hother] at h

namespace Outline

/-- Every group closes, and outside of the groups no token and no opening bracket is one of `stops`. -/
inductive Balanced : (stops : List Token.Kind) → List Token → Prop
  | nil {stops : List Token.Kind} : Balanced stops []
  | plain {stops : List Token.Kind} {t : Token} {ts : List Token} :
    t.kind.isPlain → t.kind ∉ stops → Balanced stops ts → Balanced stops (t :: ts)
  | group {stops : List Token.Kind} {b : Bracket} {o c : Token} {inside ts : List Token} :
    o.kind = .opening b → o.kind ∉ stops → Balanced [] inside → c.kind = .closing b →
      Balanced stops ts → Balanced stops (o :: (inside ++ c :: ts))

theorem Balanced.append {stops : List Token.Kind} {as bs : List Token} (ha : Balanced stops as)
    (hb : Balanced stops bs) : Balanced stops (as ++ bs) := by
  induction ha with
  | nil => exact hb
  | plain hp hs _ ih => exact .plain hp hs (ih hb)
  | group ho hs hi hc _ _ ih =>
    rw [List.cons_append, List.append_assoc, List.cons_append]
    exact .group ho hs hi hc (ih hb)

/-- A reader that counts the groups that are open, treats every token by `keep` and goes on. Only
outside of the groups, one of `stops` may do something else. -/
structure Passes {α : Type} (stops : List Token.Kind) (keep : Token → α → α)
    (pass : Nat → List Token → α) : Prop where
  plain {depth : Nat} {t : Token} (ts : List Token) :
    t.kind.isPlain → (depth = 0 → t.kind ∉ stops) → pass depth (t :: ts) = keep t (pass depth ts)
  opening {depth : Nat} {b : Bracket} {t : Token} (ts : List Token) :
    t.kind = .opening b → (depth = 0 → t.kind ∉ stops) →
      pass depth (t :: ts) = keep t (pass (depth + 1) ts)
  closing {depth : Nat} {b : Bracket} {t : Token} (ts : List Token) :
    t.kind = .closing b → pass (depth + 1) (t :: ts) = keep t (pass depth ts)

/-- Inside of a group nothing stops the reader, so there the tokens may be balanced in any way. -/
theorem Passes.balanced {α : Type} {stops allowed : List Token.Kind} {keep : Token → α → α}
    {pass : Nat → List Token → α} (h : Passes stops keep pass) {depth : Nat} {as : List Token}
    (ha : Balanced allowed as) (hs : depth = 0 → stops ⊆ allowed) (ts : List Token) :
    pass depth (as ++ ts) = as.foldr keep (pass depth ts) := by
  induction ha generalizing depth ts with
  | nil => rfl
  | plain hp hn _ ih =>
    rw [List.cons_append, h.plain _ hp (fun hd hmem => hn (hs hd hmem)), ih hs, List.foldr_cons]
  | group ho hn _ hc _ ihi ih =>
    rw [List.cons_append, List.append_assoc, List.cons_append,
      h.opening _ ho (fun hd hmem => hn (hs hd hmem)), ihi (fun hd => absurd hd (by omega)),
      h.closing _ hc, ih hs, List.foldr_cons, List.foldr_append, List.foldr_cons]

/-- A reader that keeps nothing is after the balanced tokens where it was before them. -/
theorem Passes.skip {α : Type} {stops : List Token.Kind} {pass : Nat → List Token → α}
    (h : Passes stops (fun _ a => a) pass) {as : List Token} (ha : Balanced stops as)
    (ts : List Token) : pass 0 (as ++ ts) = pass 0 ts := by
  rw [h.balanced ha (fun _ => List.Subset.refl _)]
  exact List.foldr_fixed as

/-- What ends a signature, outside of its groups. -/
def bodyOrSemi : List Token.Kind := [.opening .brace, .symbol .semi]

/-- What ends the header of an impl, outside of its groups. -/
def bodyOrWhere : List Token.Kind := [.opening .brace, .symbol .semi, .keyword .whereKw]

theorem passes_skipGroup : Passes [] (fun _ a => a) (fun depth => skipGroup (depth + 1)) where
  plain ts hp _ := by
    rw [skipGroup.eq_def]
    dsimp only
    split <;> simp_all [Token.Kind.isPlain]
  opening ts ho _ := by
    simp [skipGroup, ho]
  closing ts hc := by
    simp [skipGroup, hc]

theorem passes_skipItem : Passes bodyOrSemi (fun _ a => a) skipItem where
  plain ts hp hs := by
    rw [skipItem.eq_def]
    dsimp only
    split <;> simp_all [Token.Kind.isPlain, bodyOrSemi]
  opening ts ho hs := by
    rw [skipItem.eq_def]
    dsimp only
    split <;> simp_all [bodyOrSemi]
  closing ts hc := by
    simp [skipItem, hc]

theorem passes_skipToSemi : Passes [.symbol .semi] (fun _ a => a) skipToSemi where
  plain ts hp hs := by
    rw [skipToSemi.eq_def]
    dsimp only
    split <;> simp_all [Token.Kind.isPlain]
  opening ts ho hs := by
    simp [skipToSemi, ho]
  closing ts hc := by
    simp [skipToSemi, hc]

theorem passes_findBody : Passes bodyOrSemi (fun _ a => a) findBody where
  plain ts hp hs := by
    rw [findBody.eq_def]
    dsimp only
    split <;> simp_all [Token.Kind.isPlain, bodyOrSemi]
  opening ts ho hs := by
    rw [findBody.eq_def]
    dsimp only
    split <;> simp_all [bodyOrSemi]
  closing ts hc := by
    simp [findBody, hc]

theorem passes_splitHeader :
    Passes bodyOrWhere (fun t p => (t :: p.1, p.2)) splitHeader where
  plain ts hp hs := by
    rw [splitHeader.eq_def]
    dsimp only
    split <;> simp_all [Token.Kind.isPlain, bodyOrWhere]
  opening ts ho hs := by
    rw [splitHeader.eq_def]
    dsimp only
    split <;> simp_all [bodyOrWhere]
  closing ts hc := by
    simp [splitHeader, hc]

/-- A group in brackets, with its tokens wherever they stand. -/
structure Group (b : Bracket) where
  opening : Span
  inside : List Token
  closing : Span
  balanced : Balanced [] inside

namespace Group

def tokens {b : Bracket} (g : Group b) : List Token :=
  ⟨.opening b, g.opening⟩ :: (g.inside ++ [⟨.closing b, g.closing⟩])

theorem skipGroup_tokens {b : Bracket} (g : Group b) (ts : List Token) :
    skipGroup 0 (g.tokens ++ ts) = ts := by
  have h := passes_skipGroup.skip g.balanced (⟨.closing b, g.closing⟩ :: ts)
  simpa [tokens, skipGroup] using h

theorem skipItem_tokens (g : Group .brace) (ts : List Token) : skipItem 0 (g.tokens ++ ts) = ts := by
  have h := passes_skipGroup.skip g.balanced (⟨.closing .brace, g.closing⟩ :: ts)
  simpa [tokens, skipItem, skipGroup] using h

end Group

/-- Every `<` has its `>`, and there is no brace and no semicolon. Other brackets are tokens like any
other. -/
inductive Angled : List Token → Prop
  | nil : Angled []
  | plain {t : Token} {ts : List Token} :
    t.kind ∉ [.symbol .lt, .symbol .gt, .opening .brace, .closing .brace, .symbol .semi, .eof] →
      Angled ts → Angled (t :: ts)
  | angles {o c : Token} {inside ts : List Token} :
    o.kind = .symbol .lt → Angled inside → c.kind = .symbol .gt → Angled ts →
      Angled (o :: (inside ++ c :: ts))

theorem Angled.skipAngles_append {as : List Token} (h : Angled as) (depth : Nat) (ts : List Token) :
    skipAngles (depth + 1) (as ++ ts) = skipAngles (depth + 1) ts := by
  induction h generalizing depth ts with
  | nil => rfl
  | @plain t as hn _ ih =>
    rw [List.cons_append, skipAngles.eq_def]
    dsimp only
    split <;> simp_all
  | @angles o c inside as ho _ hc _ ihi ih =>
    have hopen (us : List Token) :
        skipAngles (depth + 1) (o :: us) = skipAngles (depth + 2) us := by
      simp [skipAngles, ho]
    have hclose (us : List Token) :
        skipAngles (depth + 2) (c :: us) = skipAngles (depth + 1) us := by
      simp [skipAngles, hc]
    rw [List.cons_append, List.append_assoc, List.cons_append, hopen, ihi, hclose, ih]

/-- Generics in angle brackets. -/
structure Generics where
  opening : Span
  inside : List Token
  closing : Span
  angled : Angled inside

namespace Generics

def tokens (g : Generics) : List Token :=
  ⟨.symbol .lt, g.opening⟩ :: (g.inside ++ [⟨.symbol .gt, g.closing⟩])

theorem skipGenerics_tokens (g : Generics) (ts : List Token) :
    skipGenerics (g.tokens ++ ts) = ts := by
  have h := g.angled.skipAngles_append 0 (⟨.symbol .gt, g.closing⟩ :: ts)
  simpa [tokens, skipGenerics, kindOf, skipAngles] using h

end Generics

end Outline

end Doctest
