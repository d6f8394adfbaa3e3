import Doctest.Proofs.Outline.Forest

/-! Headers of well-formed items: what the header of an item declares is read off its tokens, and the
reading goes on where the item's members or the next item begin. -/
namespace Doctest.Outline

@[simp]
theorem kindOf_cons (t : Token) (ts : List Token) : kindOf (t :: ts) = t.kind := rfl

theorem Attribute.skipAttribute_tokens (a : Attribute) (ts : List Token) :
    skipAttribute (a.tokens.tail ++ ts) = ts := by
  obtain ⟨hash, bang, group⟩ := a
  have hgroup := group.skipGroup_tokens ts
  cases bang <;> simpa [tokens, skipAttribute, Group.tokens] using hgroup

namespace Qualifier

theorem kindOf_tokens (q : Qualifier) (ts : List Token) : kindOf (q.tokens ++ ts) = q.kind := by
  unfold tokens
  split <;> rfl

theorem kindOf_flatMap (qs : List Qualifier) (t : Token) (ts : List Token) :
    kindOf (qs.flatMap tokens ++ t :: ts) = firstOf t.kind qs := by
  cases qs with
  | nil => rfl
  | cons q qs =>
    rw [List.flatMap_cons, List.append_assoc, kindOf_tokens]
    rfl

/-- Each qualifier is passed over. -/
theorem qualifiers_tokens (q : Qualifier) {ts : List Token} (h : q.Precedes (kindOf ts)) :
    Header.qualifiers (q.tokens ++ ts) = Header.qualifiers ts := by
  cases q with
  | visibility span scope =>
    cases scope with
    | none =>
      have hparen : kindOf ts ≠ .opening .paren := h
      simp [tokens, Header.qualifiers, hparen]
    | some scope =>
      have hparen : kindOf (scope.tokens ++ ts) = .opening .paren := rfl
      simp [tokens, Header.qualifiers, hparen, scope.skipGroup_tokens]
  | unsafeKw span => simp [tokens, Header.qualifiers]
  | asyncKw span => simp [tokens, Header.qualifiers]
  | constKw span =>
    have hmem : kindOf ts ∈ _ := h
    simp only [tokens, List.singleton_append, Header.qualifiers, hmem, if_true]
  | externKw span abi =>
    cases abi with
    | none =>
      have hnext : kindOf ts ∉ _ := h
      simp only [List.mem_cons, List.not_mem_nil, or_false, not_or] at hnext
      simp [tokens, Header.qualifiers, Header.dropLiteral, hnext]
    | some literal =>
      have hnext : kindOf ts ≠ .opening .brace := h
      simp [tokens, Header.qualifiers, Header.dropLiteral, hnext]
  | defaultWord span =>
    have hfn : kindOf ts = .keyword .fnKw := h
    simp [tokens, Header.qualifiers, hfn]

theorem qualifiers_flatMap {qs : List Qualifier} {t : Token} (hfit : Fit t.kind qs)
    (ts : List Token) :
    Header.qualifiers (qs.flatMap tokens ++ t :: ts) = Header.qualifiers (t :: ts) := by
  induction qs with
  | nil => rfl
  | cons q qs ih =>
    rw [List.flatMap_cons, List.append_assoc, qualifiers_tokens, ih hfit.2]
    rw [kindOf_flatMap]
    exact hfit.1

end Qualifier

namespace Ending

theorem skipItem_tokens (e : Ending) (ts : List Token) : skipItem 0 (e.tokens ++ ts) = ts := by
  cases e with
  | body group => exact group.skipItem_tokens ts
  | semi span => simp [tokens, skipItem]

end Ending

/-- A signature and what ends it are passed over. -/
theorem skipItem_signature (signature : Signature) (ending : Ending) (ts : List Token) :
    skipItem 0 (signature.1 ++ (ending.tokens ++ ts)) = ts := by
  rw [passes_skipItem.skip signature.2, ending.skipItem_tokens]

theorem skipToSemi_initializer (rest : Initializer) (semi : Span) (ts : List Token) :
    skipToSemi 0 (rest.1 ++ ⟨.symbol .semi, semi⟩ :: ts) = ts := by
  rw [passes_skipToSemi.skip rest.2]
  simp [skipToSemi]

theorem findBody_semi (signature : Signature) (semi : Span) (ts : List Token) :
    findBody 0 (signature.1 ++ ⟨.symbol .semi, semi⟩ :: ts) = (false, ts) := by
  rw [passes_findBody.skip signature.2]
  simp [findBody]

theorem findBody_brace (signature : Signature) (opening : Span) (ts : List Token) :
    findBody 0 (signature.1 ++ ⟨.opening .brace, opening⟩ :: ts) = (true, ts) := by
  rw [passes_findBody.skip signature.2]
  simp [findBody]

/-- The part of a header that names an impl ends where the body or the where clause begins, or at a
semicolon. -/
theorem splitHeader_balanced {header : List Token} (h : Balanced bodyOrWhere header) {t : Token}
    (ht : t.kind ∈ bodyOrWhere) (ts : List Token) :
    splitHeader 0 (header ++ t :: ts) = (header, t :: ts) := by
  have hstop : splitHeader 0 (t :: ts) = ([], t :: ts) := by
    simp only [bodyOrWhere, List.mem_cons, List.not_mem_nil, or_false] at ht
    rcases ht with ht | ht | ht <;> simp [splitHeader, ht]
  have hkeep (as : List Token) :
      as.foldr (fun a p => (a :: p.1, p.2)) ([], t :: ts) = (as, t :: ts) := by
    induction as with
    | nil => rfl
    | cons a as ih => rw [List.foldr_cons, ih]
  rw [passes_splitHeader.balanced h (fun _ => List.Subset.refl _), hstop, hkeep]

@[simp]
theorem Header.named_token (name : Name) (ts : List Token)
    (go : String → List Token → Header × List Token) :
    Header.named (name.token :: ts) go = go name.text ts := rfl

theorem PathPart.balanced_tokens (parts : List PathPart) :
    Balanced bodyOrSemi (parts.map (·.token)) := by
  induction parts with
  | nil => exact .nil
  | cons part parts ih =>
    exact .plain (by cases part <;> rfl)
      (by cases part <;> simp [PathPart.token, Name.token, bodyOrSemi]) ih

namespace Leaf

/-- What the tokens of the item declare. -/
def header (item : Leaf) : Header :=
  match item.outside?, item.declared? with
  | some name, _ => .outside name.text name.span
  | none, some (kind, name) => .leaf kind name
  | none, none => .nothing

theorem qualifiers_eq (item : Leaf) (ts : List Token) :
    Header.qualifiers (⟨item.first, item.span⟩ :: (item.tail ++ ts)) =
      (false, ⟨item.first, item.span⟩ :: (item.tail ++ ts)) := by
  cases item with
  | bodied what => cases what <;> simp [first, Bodied.keyword, Header.qualifiers]
  | assigned what =>
    cases what with
    | constant =>
      simp [first, Assigned.keyword, Header.qualifiers, tail, Assigned.mutTokens, Name.token]
    | static => simp [first, Assigned.keyword, Header.qualifiers]
    | typeAlias => simp [first, Assigned.keyword, Header.qualifiers]
  | macroRules => simp [first, Header.qualifiers]
  | macroCall head path bang signature ending =>
    have hnext : kindOf ((macroCall head path bang signature ending).tail ++ ts) ≠ .keyword .fnKw := by
      cases path with
      | nil => simp [tail]
      | cons part parts => cases part <;> simp [tail, PathPart.token, Name.token]
    cases head <;> simp [first, PathPart.token, Name.token, Header.qualifiers, hnext]
  | use => simp [first, Header.qualifiers]
  | traitAlias => simp [first, Header.qualifiers]
  | outside => simp [first, Header.qualifiers]

theorem ofKeyword_bodied (source : String) (what : Bodied) (span : Span) (name : Name)
    (signature : Signature) (ending : Ending) (ts : List Token) :
    Header.ofKeyword source ⟨.keyword what.keyword, span⟩
      (name.token :: (signature.1 ++ (ending.tokens ++ ts))) = (.leaf what.kind name.text, ts) := by
  have hskip := skipItem_signature signature ending ts
  cases what <;> simp [Header.ofKeyword, Bodied.keyword, Bodied.kind, hskip]

theorem ofKeyword_assigned (source : String) (what : Assigned) (span : Span) {name : Name}
    (hname : what.mayBeMut → name.text ≠ "mut") (rest : Initializer) (semi : Span)
    (ts : List Token) :
    Header.ofKeyword source ⟨.keyword what.keyword, span⟩
      (what.mutTokens ++ name.token :: (rest.1 ++ ⟨.symbol .semi, semi⟩ :: ts)) =
      (.leaf what.kind name.text, ts) := by
  have hskip := skipToSemi_initializer rest semi ts
  have hdrop (h : name.text ≠ "mut") (us : List Token) :
      Header.dropMut (name.token :: us) = name.token :: us := by
    simp [Header.dropMut, Name.token, h]
  cases what with
  | constant =>
    simp [Header.ofKeyword, Assigned.keyword, Assigned.kind, Assigned.mutTokens, hdrop (hname rfl),
      hskip]
  | static mutable =>
    cases mutable with
    | none =>
      simp [Header.ofKeyword, Assigned.keyword, Assigned.kind, Assigned.mutTokens,
        hdrop (hname rfl), hskip]
    | some span =>
      simp [Header.ofKeyword, Assigned.keyword, Assigned.kind, Assigned.mutTokens, Header.dropMut,
        hskip]
  | typeAlias =>
    simp [Header.ofKeyword, Assigned.keyword, Assigned.kind, Assigned.mutTokens, hskip]

/-- The name is passed over as the word `mut`, and no name follows. -/
theorem ofKeyword_mut (source : String) {what : Assigned} (hwhat : what.mayBeMut) (span : Span)
    {name : Name} (hname : name.text = "mut") {rest : Initializer}
    (hrest : ∀ word, kindOf rest.1 ≠ .name word) (semi : Span) (ts : List Token) :
    ∃ fault us, Header.ofKeyword source ⟨.keyword what.keyword, span⟩
      (what.mutTokens ++ name.token :: (rest.1 ++ ⟨.symbol .semi, semi⟩ :: ts)) =
      (.fault fault, us) := by
  have hmut (us : List Token) : Header.dropMut (name.token :: us) = us := by
    simp [Header.dropMut, Name.token, hname]
  have hnamed (go : String → List Token → Header × List Token) :
      ∃ fault us, Header.named (rest.1 ++ ⟨.symbol .semi, semi⟩ :: ts) go = (.fault fault, us) := by
    unfold Header.named
    split
    · next word span us heq =>
      have hkind := congrArg kindOf heq
      cases hr : rest.1 with
      | nil => simp [hr] at hkind
      | cons r rs => simp_all
    · exact ⟨_, _, rfl⟩
  cases what with
  | constant => simpa [Header.ofKeyword, Assigned.keyword, Assigned.mutTokens, hmut] using hnamed _
  | static mutable =>
    cases mutable with
    | none => simpa [Header.ofKeyword, Assigned.keyword, Assigned.mutTokens, hmut] using hnamed _
    | some span => simp [Assigned.mayBeMut] at hwhat
  | typeAlias => simp [Assigned.mayBeMut] at hwhat

theorem ofKeyword_macroRules (source : String) (span bang : Span) (name : Name)
    (signature : Signature) (ending : Ending) (semi : Option Span) {ts : List Token}
    (hts : kindOf ts ≠ .symbol .semi) :
    Header.ofKeyword source ⟨.keyword .macroRulesKw, span⟩ (⟨.symbol .bang, bang⟩ :: name.token ::
      (signature.1 ++ (ending.tokens ++ (semi.toList.map (⟨.symbol .semi, ·⟩) ++ ts)))) =
      (.leaf .macroDef name.text, ts) := by
  have hskip := skipItem_signature signature ending (semi.toList.map (⟨.symbol .semi, ·⟩) ++ ts)
  have hsemi : Header.dropSemi (semi.toList.map (⟨.symbol .semi, ·⟩) ++ ts) = ts := by
    cases semi <;> simp [Header.dropSemi, hts]
  simp [Header.ofKeyword, hskip, hsemi]

theorem ofKeyword_macroCall (source : String) (head : PathPart) (path : List PathPart) (bang : Span)
    (signature : Signature) (ending : Ending) (ts : List Token) :
    Header.ofKeyword source head.token (path.map (·.token) ++
      ⟨.symbol .bang, bang⟩ :: (signature.1 ++ (ending.tokens ++ ts))) = (.nothing, ts) := by
  have hcall : Balanced bodyOrSemi
      ((head :: path).map (·.token) ++ ⟨.symbol .bang, bang⟩ :: signature.1) :=
    (PathPart.balanced_tokens (head :: path)).append (.plain rfl (by simp [bodyOrSemi]) signature.2)
  have hskip := skipItem_signature ⟨_, hcall⟩ ending ts
  have hother : ∀ us, Header.ofKeyword source head.token us =
      (.nothing, skipItem 0 (head.token :: us)) := by
    intro us
    cases head <;> rfl
  simpa [hother] using hskip

theorem ofKeyword_use (source : String) (span : Span) (tree : Initializer) (semi : Span)
    (ts : List Token) :
    Header.ofKeyword source ⟨.keyword .useKw, span⟩ (tree.1 ++ ⟨.symbol .semi, semi⟩ :: ts) =
      (.nothing, ts) := by
  have htree : Balanced [.symbol .semi] (⟨.keyword .useKw, span⟩ :: tree.1) :=
    .plain rfl (by simp) tree.2
  have hskip := skipToSemi_initializer ⟨_, htree⟩ semi ts
  simpa [Header.ofKeyword] using hskip

theorem ofKeyword_traitAlias (source : String) (span : Span) (name : Name) (signature : Signature)
    (semi : Span) (ts : List Token) :
    Header.ofKeyword source ⟨.keyword .traitKw, span⟩
      (name.token :: (signature.1 ++ ⟨.symbol .semi, semi⟩ :: ts)) = (.leaf .trait name.text, ts) := by
  have hfind := findBody_semi signature semi ts
  simp [Header.ofKeyword, Header.withMembers, hfind]

/-- The header of an item is read as it is written, and the reading goes on after the item. -/
theorem ofKeyword_eq (source : String) {item : Leaf} (hmut : item.namedMut = false)
    {ts : List Token} (hts : kindOf ts ≠ .symbol .semi) :
    Header.ofKeyword source ⟨item.first, item.span⟩ (item.tail ++ ts) = (item.header, ts) := by
  cases item with
  | bodied what span name signature ending =>
    simpa [first, Leaf.span, tail, header, outside?, declared?] using
      ofKeyword_bodied source what span name signature ending ts
  | assigned what span name rest semi hrest =>
    have hname : what.mayBeMut → name.text ≠ "mut" := by simpa [namedMut] using hmut
    simpa [first, Leaf.span, tail, header, outside?, declared?] using
      ofKeyword_assigned source what span hname rest semi ts
  | macroRules span bang name signature ending semi =>
    simpa [first, Leaf.span, tail, header, outside?, declared?] using
      ofKeyword_macroRules source span bang name signature ending semi hts
  | macroCall head path bang signature ending =>
    simpa [first, Leaf.span, tail, header, outside?, declared?] using
      ofKeyword_macroCall source head path bang signature ending ts
  | use span tree semi =>
    simpa [first, Leaf.span, tail, header, outside?, declared?] using
      ofKeyword_use source span tree semi ts
  | traitAlias span name signature semi =>
    simpa [first, Leaf.span, tail, header, outside?, declared?] using
      ofKeyword_traitAlias source span name signature semi ts
  | outside span name semi =>
    rfl

/-- A name `mut` where the word may stand is a fault, whatever comes after the item. -/
theorem ofKeyword_namedMut (source : String) {item : Leaf} (hmut : item.namedMut)
    (ts : List Token) : ∃ fault us,
      Header.ofKeyword source ⟨item.first, item.span⟩ (item.tail ++ ts) = (.fault fault, us) := by
  cases item with
  | assigned what span name rest semi hrest =>
    have h : what.mayBeMut ∧ name.text = "mut" := by simpa [namedMut] using hmut
    simpa [first, Leaf.span, tail] using ofKeyword_mut source h.1 span h.2 hrest semi ts
  | _ => simp [namedMut] at hmut

end Leaf

namespace Head

theorem qualifiers_eq (head : Head) (ts : List Token) :
    Header.qualifiers (⟨.keyword head.keyword, head.span⟩ :: ts) =
      (false, ⟨.keyword head.keyword, head.span⟩ :: ts) := by
  cases head <;> simp [keyword, Header.qualifiers]

theorem withMembers_signature (kind : Element.Kind) (name : String) (signature : Signature)
    (opening : Span) (ts : List Token) :
    Header.withMembers kind name (signature.1 ++ ⟨.opening .brace, opening⟩ :: ts) =
      (.body kind name, ts) := by
  simp [Header.withMembers, findBody_brace]

theorem skipGenerics_eq {generics : Option Generics} {ts : List Token}
    (h : generics = none → kindOf ts ≠ .symbol .lt) :
    skipGenerics (generics.toList.flatMap (·.tokens) ++ ts) = ts := by
  cases generics with
  | none => simp [skipGenerics, h rfl]
  | some g => simpa using g.skipGenerics_tokens ts

/-- The name of an impl is the text between its generics and its where clause or body. -/
theorem ofKeyword_impl (source : String) (span : Span) {generics : Option Generics}
    {header : List Token} (hbalanced : Balanced bodyOrWhere header)
    (hheader : generics = none → kindOf header ≠ .symbol .lt) (bounds : Option (Span × Signature))
    (opening : Span) (ts : List Token) :
    Header.ofKeyword source ⟨.keyword .implKw, span⟩ (generics.toList.flatMap (·.tokens) ++
      (header ++ (bounds.toList.flatMap (fun (span, ts) => ⟨.keyword .whereKw, span⟩ :: ts.1) ++
        ⟨.opening .brace, opening⟩ :: ts))) = (.body .impl (Header.headerName source header), ts) := by
  have hbounds : Balanced bodyOrSemi
      (bounds.toList.flatMap fun (span, ts) => ⟨.keyword .whereKw, span⟩ :: ts.1) := by
    cases bounds with
    | none => exact .nil
    | some bounds => simpa using .plain rfl (by simp [bodyOrSemi]) bounds.2.2
  have hbody := withMembers_signature .impl (Header.headerName source header) ⟨_, hbounds⟩ opening ts
  -- The name ends at the where clause, or at the brace if there is none.
  obtain ⟨t, us, heq, ht⟩ : ∃ t us,
      bounds.toList.flatMap (fun (span, ts) => ⟨.keyword .whereKw, span⟩ :: ts.1) ++
        ⟨.opening .brace, opening⟩ :: ts = t :: us ∧
      t.kind ∈ bodyOrWhere := by
    cases bounds <;> simp [bodyOrWhere]
  have hlt : generics = none → kindOf (header ++ t :: us) ≠ .symbol .lt := by
    intro hnone
    cases header with
    | nil =>
      intro hkind
      rw [List.nil_append, kindOf_cons] at hkind
      simp [hkind, bodyOrWhere] at ht
    | cons a as => exact hheader hnone
  rw [heq] at hbody ⊢
  simp only [Header.ofKeyword, skipGenerics_eq hlt, splitHeader_balanced hbalanced ht, hbody]

/-- The header of an item with members is read as it is written, and its members come next. -/
theorem ofKeyword_eq (source : String) (head : Head) (opening : Span) (ts : List Token) :
    Header.ofKeyword source ⟨.keyword head.keyword, head.span⟩
      (head.tail ++ ⟨.opening .brace, opening⟩ :: ts) =
      (.body head.kind (head.name source), ts) := by
  cases head with
  | module span name => rfl
  | trait span name signature =>
    simp [keyword, tail, kind, Head.name, Header.ofKeyword, withMembers_signature]
  | impl span generics header hheader bounds =>
    simpa [keyword, Head.span, tail, kind, Head.name] using
      ofKeyword_impl source span header.2 hheader bounds opening ts

end Head

end Doctest.Outline
