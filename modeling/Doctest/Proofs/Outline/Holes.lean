import Doctest.Proofs.Outline.Steps

/-! The tokens of a file with a hole wherever a module in another file is declared. Filled with bodies for
these modules, they are read into the marks of the file, filled with those of the bodies. -/
namespace Doctest.Outline

/-- Tokens with holes. A hole is the semicolon after the name of a module. -/
inductive Holed
  | last (ts : List Token)
  | hole (before : List Token) (word : Token) (semi : Span) (rest : Holed)

namespace Holed

def tokens : Holed → List Token
  | last ts => ts
  | hole before word semi rest => before ++ word :: ⟨.symbol .semi, semi⟩ :: rest.tokens

/-- The names before the holes. -/
def names : Holed → List Span
  | last _ => []
  | hole _ word _ rest => word.span :: rest.names

def prepend (front : List Token) : Holed → Holed
  | last ts => last (front ++ ts)
  | hole before word semi rest => hole (front ++ before) word semi rest

@[simp]
theorem tokens_prepend (front : List Token) (f : Holed) :
    (f.prepend front).tokens = front ++ f.tokens := by
  cases f <;> simp [prepend, tokens]

@[simp]
theorem names_prepend (front : List Token) (f : Holed) : (f.prepend front).names = f.names := by
  cases f <;> rfl

/-- Copies of the tokens with a body in braces in each hole. -/
inductive Filled (source other : String) : Holed → List (List Token) → List Token → Prop
  | last {ts us : List Token} : Copies source other ts us → Filled source other (.last ts) [] us
  | hole {before front body us : List Token} {word opening closing : Token} {semi : Span} {rest : Holed}
    {bodies : List (List Token)} : Copies source other (before ++ [word]) front →
    opening.kind = .opening .brace → closing.kind = .closing .brace →
    Filled source other rest bodies us →
    Filled source other (.hole before word semi rest) (body :: bodies)
      (front ++ opening :: (body ++ closing :: us))

namespace Filled

variable {source other : String} {f : Holed} {bodies : List (List Token)} {us : List Token}

theorem exists_of_prepend {used : List Token} (h : Filled source other (f.prepend used) bodies us) :
    ∃ used' us', us = used' ++ us' ∧ Copies source other used used' ∧
      Filled source other f bodies us' := by
  cases f with
  | last ts =>
    cases h with
    | last h =>
      obtain ⟨used', us', rfl, hused, hts⟩ := h.exists_append
      exact ⟨used', us', rfl, hused, .last hts⟩
  | hole before word semi rest =>
    cases h with
    | hole h hopening hclosing hrest =>
      rw [List.append_assoc] at h
      obtain ⟨used', front', rfl, hused, hfront⟩ := h.exists_append
      exact ⟨used', _, List.append_assoc _ _ _, hused, .hole hfront hopening hclosing hrest⟩

/-- The filled tokens may stand in the place of the tokens. -/
theorem follows (h : Filled source other f bodies us) {others : List Token}
    (hothers : kindOf others = .eof ∨ kindOf others = .closing .brace) :
    Follows f.tokens (us ++ others) := by
  cases h with
  | last h =>
    have hend : Follows [] others := hothers.imp id fun hkind => ⟨rfl, hkind⟩
    simpa [tokens] using h.sameKinds.follows hend
  | hole h _ _ _ => exact List.append_assoc _ _ _ ▸ h.sameKinds.follows_append

end Filled

end Holed

/-- The places of the modules in other files. -/
def outsides (marks : List Mark) : List Span :=
  marks.filterMap fun | .outside span => some span | _ => none

/-- Marks with the marks of a body in place of each module in another file. -/
def fillMarks : List (List Mark) → List Mark → List Mark
  | _, [] => []
  | bodies, .outside _ :: marks => bodies.headD [] ++ fillMarks bodies.tail marks
  | bodies, mark :: marks => mark :: fillMarks bodies marks

@[simp]
theorem outsides_append (marks more : List Mark) :
    outsides (marks ++ more) = outsides marks ++ outsides more :=
  List.filterMap_append

theorem outsides_eq_nil {marks : List Mark} (hout : ∀ span, .outside span ∉ marks) :
    outsides marks = [] := by
  refine List.filterMap_eq_nil_iff.mpr fun mark hmem => ?_
  cases mark with
  | outside span => exact absurd hmem (hout span)
  | _ => rfl

theorem fillMarks_append (bodies : List (List Mark)) (marks more : List Mark) :
    fillMarks bodies (marks ++ more) = fillMarks (bodies.take (outsides marks).length) marks ++
      fillMarks (bodies.drop (outsides marks).length) more := by
  induction marks generalizing bodies with
  | nil => rfl
  | cons mark marks ih =>
    cases mark with
    | outside span =>
      have hlen : (outsides (.outside span :: marks)).length = (outsides marks).length + 1 := rfl
      rw [hlen, List.cons_append, fillMarks, fillMarks, ih, List.append_assoc]
      cases bodies <;> simp
    | _ => exact congrArg _ (ih bodies)

theorem fillMarks_of_notMem {marks : List Mark} (hout : ∀ span, .outside span ∉ marks)
    (bodies : List (List Mark)) : fillMarks bodies marks = marks := by
  induction marks with
  | nil => rfl
  | cons mark marks ih =>
    have hrest := ih fun span hmem => hout span (List.mem_cons_of_mem _ hmem)
    cases mark with
    | outside span => exact absurd List.mem_cons_self (hout span)
    | _ => exact congrArg _ hrest

/-- Tokens that are read into these marks, wherever they stand before the end of a block or a file. They
close `depth` blocks. -/
def ReadAs (source : String) (depth : Nat) (ts : List Token) (marks : List Mark) : Prop :=
  ∀ above others, kindOf others = .eof ∨ kindOf others = .closing .brace →
    skeleton source (above + depth) (ts ++ others) = marks ++ skeleton source above others

/-- **Filled tokens are read into filled marks.** -/
theorem Steps.exists_holed {source : String} {depth : Nat} {ts : List Token} {marks : List Mark}
    (h : Steps source depth ts marks) : ∃ f : Holed, f.tokens = ts ∧ f.names = outsides marks ∧
      ∀ other us bodies kids, f.Filled source other bodies us →
        List.Forall₂ (ReadAs other 0) bodies kids → ReadAs other depth us (fillMarks kids marks) := by
  induction h with
  | done =>
    refine ⟨.last [], rfl, rfl, fun other us bodies kids hus _ above others _ => ?_⟩
    cases hus with
    | last hus =>
      obtain rfl := hus.sameKinds.nil_left
      rfl
  | step hout hlocal _ ih =>
    obtain ⟨f, rfl, hnames, hfill⟩ := ih
    refine ⟨f.prepend _, f.tokens_prepend _, by simp [hnames, outsides_eq_nil hout],
      fun other us bodies kids hus hkids above others hothers => ?_⟩
    obtain ⟨used', us, rfl, hused, hus⟩ := hus.exists_of_prepend
    rw [List.append_assoc, hlocal other used' _ above hused (hus.follows hothers),
      hfill other us bodies kids hus hkids above others hothers, fillMarks_append, outsides_eq_nil hout,
      fillMarks_of_notMem hout, List.append_assoc]
    rfl
  | @outside depth used rest word semi name more hsemi hlocal _ ih =>
    obtain ⟨f, rfl, hnames, hfill⟩ := ih
    obtain ⟨kind, semi⟩ := semi
    obtain rfl : kind = .symbol .semi := hsemi
    refine ⟨.hole used word semi f, rfl, congrArg _ hnames,
      fun other us bodies kids hus hkids above others hothers => ?_⟩
    cases hus with
    | @hole _ front body us _ opening closing _ _ bodies hfront hopening hclosing hus =>
      cases hkids with
      | @cons _ kid _ kids hkid hkids =>
        have hbody := hkid (above + depth + 1) (closing :: (us ++ others)) (.inr hclosing)
        have hrest := hfill other us bodies kids hus hkids above others hothers
        have hshape : front ++ opening :: (body ++ closing :: us) ++ others =
            front ++ opening :: (body ++ closing :: (us ++ others)) := by simp
        rw [hshape, hlocal other front opening _ above hfront hopening]
        rw [Nat.add_zero] at hbody
        rw [hbody, skeleton_closing other (above + depth) _ hclosing, hrest]
        simp [fillMarks]

end Doctest.Outline
