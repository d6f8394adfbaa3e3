import Doctest.Proofs.Outline.Headers

/-! Marks of a forest: the tokens of items that follow each other give the marks of the one after those
of the other, and the members of an item stand between its beginning and its end. -/
namespace Doctest

/-- What an item or its qualifiers begin with. -/
def Token.Kind.startsItem : Token.Kind → Bool
  | .eof | .closing .brace | .outerDoc _ | .innerDoc _ | .symbol .pound => false
  | _ => true

theorem Token.Kind.ne_of_startsItem {kind other : Token.Kind} (h : kind.startsItem)
    (hother : other.startsItem = false) : kind ≠ other := by
  rintro rfl
  simp [hother] at h

namespace Outline

variable (source : String) (lines : LineMap)

theorem Qualifier.startsItem_firstOf {first : Token.Kind} (h : first.startsItem)
    (qs : List Qualifier) : (firstOf first qs).startsItem := by
  cases qs with
  | nil => exact h
  | cons q qs => cases q <;> rfl

theorem Leaf.startsItem_first (item : Leaf) : item.first.startsItem := by
  cases item with
  | macroCall head path bang signature ending => cases head <;> rfl
  | _ => rfl

/-- The run of comments before an item. -/
def Front.docRun {first : Token.Kind} (f : Front first) : Option DocRun :=
  Outline.docRun lines none (f.notes.filterMap (·.doc?))

theorem Front.kindOf_tokens_ne_semi {first : Token.Kind} (f : Front first)
    (hfirst : first ≠ .symbol .semi) (span : Span) (ts : List Token) :
    kindOf (f.tokens ++ ⟨first, span⟩ :: ts) ≠ .symbol .semi := by
  obtain ⟨notes, qualifiers, fit⟩ := f
  cases notes with
  | nil =>
    rw [tokens, List.flatMap_nil, List.nil_append, Qualifier.kindOf_flatMap]
    cases qualifiers with
    | nil => exact hfirst
    | cons q qs => cases q <;> simp [Qualifier.firstOf, Qualifier.kind]
  | cons note notes => cases note <;> simp [tokens, Note.tokens, Attribute.tokens]

namespace Mark

theorem ofTokens_attribute (depth : Nat) (doc : Option DocRun) (faults : Nat) (a : Attribute)
    (ts : List Token) :
    ofTokens source lines depth doc faults (a.tokens ++ ts) =
      ofTokens source lines depth doc faults ts := by
  have hskip := a.skipAttribute_tokens ts
  rw [Attribute.tokens, List.cons_append, ofTokens.eq_def]
  simpa [Attribute.tokens] using congrArg (ofTokens source lines depth doc faults) hskip

theorem ofTokens_doc (depth : Nat) (doc : Option DocRun) (faults : Nat) (text : String) (span : Span)
    (ts : List Token) :
    ofTokens source lines depth doc faults (⟨.outerDoc text, span⟩ :: ts) =
      ofTokens source lines depth (docRun lines doc [(text, span)]) faults ts := by
  rw [ofTokens.eq_def]
  simp [docRun]

theorem ofTokens_notes (depth : Nat) (doc : Option DocRun) (faults : Nat) (notes : List Note)
    (ts : List Token) :
    ofTokens source lines depth doc faults (notes.flatMap (·.tokens) ++ ts) =
      ofTokens source lines depth (docRun lines doc (notes.filterMap (·.doc?))) faults ts := by
  induction notes generalizing doc with
  | nil => rfl
  | cons note notes ih =>
    rw [List.flatMap_cons, List.append_assoc]
    cases note with
    | doc text span =>
      rw [Note.tokens, List.singleton_append, ofTokens_doc, ih]
      rfl
    | attr a =>
      rw [Note.tokens, ofTokens_attribute, ih]
      rfl

/-- The end of a file gives no marks, if no block is open. -/
theorem ofTokens_eof (faults : Nat) (stop : Span) : ofTokens source lines 0 none faults [⟨.eof, stop⟩] = [] := by
  rw [ofTokens.eq_def]
  rfl

/-- The marks after those of a header. -/
def following (depth faults : Nat) (rest : List Token) : Header → List Mark
  | .body _ _ => ofTokens source lines (depth + 1) none faults rest
  | .fault _ | .bareModule _ _ =>
    if faults + 1 < maxFaults then ofTokens source lines depth none (faults + 1) (skipItem 0 rest)
    else
      match depth with
      | depth + 1 => leave :: ofTokens source lines depth none (faults + 1) rest
      | 0 => []
  | _ => ofTokens source lines depth none faults rest

theorem ofTokens_item (depth : Nat) (doc : Option DocRun) (faults : Nat) {t : Token}
    {ts rest : List Token} {header : Header} (ht : t.kind.startsItem)
    (hread : Header.read source (t :: ts) = (header, rest)) :
    ofTokens source lines depth doc faults (t :: ts) =
      ofHeader doc header ++ following source lines depth faults rest header := by
  rw [ofTokens.eq_def]
  dsimp only
  rw [dif_neg (Token.Kind.ne_of_startsItem ht rfl), dif_neg (Token.Kind.ne_of_startsItem ht rfl)]
  split
  · next heq => exact absurd heq (Token.Kind.ne_of_startsItem ht rfl)
  · next heq => exact absurd heq (Token.Kind.ne_of_startsItem ht rfl)
  · next heq => exact absurd heq (Token.Kind.ne_of_startsItem ht rfl)
  · rw [hread]
    cases header <;> rfl

/-- Comments, attributes and qualifiers leave the header of an item as its keyword has it. -/
theorem ofTokens_front (depth faults : Nat) {first : Token.Kind} (hfirst : first.startsItem)
    (front : Front first) {span : Span} {ts rest : List Token} {header : Header}
    (hqualifiers : Header.qualifiers (⟨first, span⟩ :: ts) = (false, ⟨first, span⟩ :: ts))
    (hheader : Header.ofKeyword source ⟨first, span⟩ ts = (header, rest)) :
    ofTokens source lines depth none faults (front.tokens ++ ⟨first, span⟩ :: ts) =
      ofHeader (front.docRun lines) header ++ following source lines depth faults rest header := by
  rw [Front.tokens, List.append_assoc, ofTokens_notes]
  have hread : Header.read source (front.qualifiers.flatMap (·.tokens) ++ ⟨first, span⟩ :: ts) =
      (header, rest) := by
    have hskip := Qualifier.qualifiers_flatMap (t := ⟨first, span⟩) front.fit ts
    rw [Header.read, hskip, hqualifiers]
    exact hheader
  have hkind := Qualifier.kindOf_flatMap front.qualifiers ⟨first, span⟩ ts
  cases heq : front.qualifiers.flatMap (·.tokens) ++ ⟨first, span⟩ :: ts with
  | nil => simp at heq
  | cons t us =>
    rw [heq] at hread hkind
    refine ofTokens_item source lines depth _ faults ?_ hread
    rw [kindOf_cons] at hkind
    rw [hkind]
    exact Qualifier.startsItem_firstOf hfirst front.qualifiers

theorem ofTokens_leaf (depth faults : Nat) {item : Leaf} (hmut : item.namedMut = false)
    (front : Front item.first) {ts : List Token} (hts : kindOf ts ≠ .symbol .semi) :
    ofTokens source lines depth none faults
      (front.tokens ++ ⟨item.first, item.span⟩ :: (item.tail ++ ts)) =
      ofHeader (front.docRun lines) item.header ++ ofTokens source lines depth none faults ts := by
  rw [ofTokens_front source lines depth faults item.startsItem_first front (item.qualifiers_eq ts)
    (item.ofKeyword_eq source hmut hts)]
  cases item <;> rfl

theorem exists_fault_mem_of_namedMut (depth faults : Nat) {item : Leaf} (hmut : item.namedMut)
    (front : Front item.first) (ts : List Token) : ∃ f, fault f ∈
      ofTokens source lines depth none faults
        (front.tokens ++ ⟨item.first, item.span⟩ :: (item.tail ++ ts)) := by
  obtain ⟨f, us, hheader⟩ := item.ofKeyword_namedMut source hmut ts
  refine ⟨f, ?_⟩
  rw [ofTokens_front source lines depth faults item.startsItem_first front (item.qualifiers_eq ts)
    hheader]
  simp [ofHeader]

theorem ofTokens_head (depth faults : Nat) (head : Head) (front : Front (.keyword head.keyword))
    (opening : Span) (ts : List Token) :
    ofTokens source lines depth none faults
      (front.tokens ++ ⟨.keyword head.keyword, head.span⟩ ::
        (head.tail ++ ⟨.opening .brace, opening⟩ :: ts)) =
      enter head.kind (head.name source) (front.docRun lines) ::
        ofTokens source lines (depth + 1) none faults ts :=
  ofTokens_front source lines depth faults rfl front (head.qualifiers_eq _)
    (head.ofKeyword_eq source opening ts)

theorem ofTokens_closing (depth : Nat) (doc : Option DocRun) (faults : Nat) (span : Span)
    (ts : List Token) :
    ofTokens source lines (depth + 1) doc faults (⟨.closing .brace, span⟩ :: ts) =
      leave :: ofTokens source lines depth none faults ts := by
  rw [ofTokens.eq_def]
  simp

theorem ofTokens_attributes (depth faults : Nat) (inner : List Attribute) (ts : List Token) :
    ofTokens source lines depth none faults (inner.flatMap (·.tokens) ++ ts) =
      ofTokens source lines depth none faults ts := by
  induction inner with
  | nil => rfl
  | cons a inner ih => rw [List.flatMap_cons, List.append_assoc, ofTokens_attribute, ih]

end Mark

namespace Forest

/-- The marks of the items, where the members of an item are inside of it. -/
def marks : Forest → List Mark
  | nil => []
  | leaf item front rest => Mark.ofHeader (front.docRun lines) item.header ++ rest.marks
  | block head front _ _ members _ rest =>
    .enter head.kind (head.name source) (front.docRun lines) ::
      (members.marks ++ .leave :: rest.marks)

/-- No item begins with a semicolon. -/
theorem kindOf_tokens_ne_semi (f : Forest) {ts : List Token} (hts : kindOf ts ≠ .symbol .semi) :
    kindOf (f.tokens ++ ts) ≠ .symbol .semi := by
  cases f with
  | nil => exact hts
  | leaf item front rest =>
    have hfirst : item.first ≠ .symbol .semi := by
      cases item with
      | macroCall head path bang signature ending =>
        cases head <;> simp [Leaf.first, PathPart.token, Name.token]
      | _ => simp [Leaf.first]
    have hfront := front.kindOf_tokens_ne_semi hfirst item.span (item.tail ++ (rest.tokens ++ ts))
    simpa [tokens] using hfront
  | block head front opening inner members closing rest =>
    have hfirst : Token.Kind.keyword head.keyword ≠ .symbol .semi := by simp
    rw [tokens, List.append_assoc, List.cons_append]
    exact front.kindOf_tokens_ne_semi hfirst _ _

/-- The marks of an item with members, as far as its opening brace. -/
theorem ofTokens_block (depth faults : Nat) (head : Head) (front : Front (.keyword head.keyword))
    (opening : Span) (inner : List Attribute) (members : Forest) (closing : Span) (rest : Forest)
    (ts : List Token) :
    Mark.ofTokens source lines depth none faults
      ((block head front opening inner members closing rest).tokens ++ ts) =
      .enter head.kind (head.name source) (front.docRun lines) ::
        Mark.ofTokens source lines (depth + 1) none faults
          (members.tokens ++ ⟨.closing .brace, closing⟩ :: (rest.tokens ++ ts)) := by
  simp [tokens, Mark.ofTokens_head, Mark.ofTokens_attributes]

/-- The tokens of a forest give its marks, and then those of the tokens that follow it. -/
theorem ofTokens_tokens (f : Forest) (hmut : f.namedMut = false) (depth faults : Nat)
    {ts : List Token} (hts : kindOf ts ≠ .symbol .semi) :
    Mark.ofTokens source lines depth none faults (f.tokens ++ ts) =
      f.marks source lines ++ Mark.ofTokens source lines depth none faults ts := by
  induction f generalizing depth ts with
  | nil => rfl
  | leaf item front rest ih =>
    obtain ⟨hitem, hrest⟩ : item.namedMut = false ∧ rest.namedMut = false := by
      simpa [namedMut] using hmut
    have hleaf := Mark.ofTokens_leaf source lines depth faults hitem front
      (rest.kindOf_tokens_ne_semi hts)
    simpa [tokens, marks, ih hrest depth hts] using hleaf
  | block head front opening inner members closing rest ihm ih =>
    obtain ⟨hmembers, hrest⟩ : members.namedMut = false ∧ rest.namedMut = false := by
      simpa [namedMut] using hmut
    have hclosing : kindOf (⟨.closing .brace, closing⟩ :: (rest.tokens ++ ts)) ≠ .symbol .semi := by
      simp
    rw [ofTokens_block, ihm hmembers (depth + 1) hclosing, Mark.ofTokens_closing, ih hrest depth hts,
      marks, List.cons_append, List.append_assoc, List.cons_append]

/-- A name `mut` at any depth makes a fault, since the items before it are read as they are written. -/
theorem exists_fault_mem (f : Forest) (hmut : f.namedMut) (depth faults : Nat) {ts : List Token}
    (hts : kindOf ts ≠ .symbol .semi) : ∃ fault : SyntaxFault, .fault fault ∈
      Mark.ofTokens source lines depth none faults (f.tokens ++ ts) := by
  induction f generalizing depth ts with
  | nil => simp [namedMut] at hmut
  | leaf item front rest ih =>
    have hnext := rest.kindOf_tokens_ne_semi hts
    have htokens : (leaf item front rest).tokens ++ ts =
        front.tokens ++ ⟨item.first, item.span⟩ :: (item.tail ++ (rest.tokens ++ ts)) := by
      simp [tokens]
    rw [htokens]
    by_cases hitem : item.namedMut = true
    · exact Mark.exists_fault_mem_of_namedMut source lines depth faults hitem front _
    · have hrest : rest.namedMut := by simpa [namedMut, hitem] using hmut
      obtain ⟨fault, hmem⟩ := ih hrest depth hts
      rw [Mark.ofTokens_leaf source lines depth faults (by simpa using hitem) front hnext]
      exact ⟨fault, List.mem_append_right _ hmem⟩
  | block head front opening inner members closing rest ihm ih =>
    have hclosing : kindOf (⟨.closing .brace, closing⟩ :: (rest.tokens ++ ts)) ≠ .symbol .semi := by
      simp
    rw [ofTokens_block]
    by_cases hmembers : members.namedMut = true
    · obtain ⟨fault, hmem⟩ := ihm hmembers (depth + 1) hclosing
      exact ⟨fault, List.mem_cons_of_mem _ hmem⟩
    · have hrest : rest.namedMut := by simpa [namedMut, hmembers] using hmut
      obtain ⟨fault, hmem⟩ := ih hrest depth hts
      rw [ofTokens_tokens source lines members (by simpa using hmembers) _ _ hclosing,
        Mark.ofTokens_closing]
      exact ⟨fault, List.mem_cons_of_mem _ (List.mem_append_right _ (List.mem_cons_of_mem _ hmem))⟩

end Forest

end Outline

end Doctest
