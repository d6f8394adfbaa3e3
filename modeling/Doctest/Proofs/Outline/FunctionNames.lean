import Doctest.Proofs.Outline.Grafting
import Doctest.Proofs.Token.Identifiers

/-! Functions and their names. Wherever a function stands, at the top of a file or inside of modules, traits and
impls, it is read under any name that a function may have, but for two words that are read as keywords. -/
namespace Doctest.Outline

variable (source : String) (lines : LineMap)

/-- The items around one that is left out: those before it, those after it, and the blocks that it is in. -/
inductive Surroundings
  | here (rest : Forest)
  | leaf (item : Leaf) (front : Front item.first) (next : Surroundings)
  | block (head : Head) (front : Front (.keyword head.keyword)) (opening : Span) (inner : List Attribute)
    (members : Forest) (closing : Span) (next : Surroundings)
  | inside (head : Head) (front : Front (.keyword head.keyword)) (opening : Span) (inner : List Attribute)
    (place : Surroundings) (closing : Span) (rest : Forest)

namespace Surroundings

/-- The tokens before the item. -/
def before : Surroundings → List Token
  | here _ => []
  | leaf item front next => front.tokens ++ (⟨item.first, item.span⟩ :: (item.tail ++ next.before))
  | block head front opening inner members closing next =>
    front.tokens ++ (⟨.keyword head.keyword, head.span⟩ :: (head.tail ++ (⟨.opening .brace, opening⟩ ::
      (inner.flatMap (·.tokens) ++ (members.tokens ++ (⟨.closing .brace, closing⟩ :: next.before))))))
  | inside head front opening inner place _ _ =>
    front.tokens ++ (⟨.keyword head.keyword, head.span⟩ :: (head.tail ++ (⟨.opening .brace, opening⟩ ::
      (inner.flatMap (·.tokens) ++ place.before))))

/-- The tokens after the item. -/
def after : Surroundings → List Token
  | here rest => rest.tokens
  | leaf _ _ next => next.after
  | block _ _ _ _ _ _ next => next.after
  | inside _ _ _ _ place closing rest => place.after ++ (⟨.closing .brace, closing⟩ :: rest.tokens)

/-- The items with one in the place that was left. -/
def fill (item : Leaf) (front : Front item.first) : Surroundings → Forest
  | here rest => .leaf item front rest
  | leaf other otherFront next => .leaf other otherFront (next.fill item front)
  | block head headFront opening inner members closing next =>
    .block head headFront opening inner members closing (next.fill item front)
  | inside head headFront opening inner place closing rest =>
    .block head headFront opening inner (place.fill item front) closing rest

/-- The number of the element that the place is in, and the number that an element in the place gets. -/
def position : Surroundings → (parent next : Nat) → Nat × Nat
  | here _, parent, next => (parent, next)
  | leaf item _ rest, parent, next => rest.position parent (next + item.declared?.toList.length)
  | block _ _ _ _ members _ rest, parent, next => rest.position parent (next + 1 + members.size)
  | inside _ _ _ _ place _ _, _, next => place.position next (next + 1)

/-- The kind and the name of the innermost block that the place is in. -/
def block? : Surroundings → Option (Element.Kind × String)
  | here _ => none
  | leaf _ _ next => next.block?
  | block _ _ _ _ _ _ next => next.block?
  | inside head _ _ _ place _ _ => some (place.block?.getD (head.kind, head.name source))

def namedMut : Surroundings → Bool
  | here rest => rest.namedMut
  | leaf item _ next => item.namedMut || next.namedMut
  | block _ _ _ _ members _ next => members.namedMut || next.namedMut
  | inside _ _ _ _ place _ rest => place.namedMut || rest.namedMut

theorem tokens_fill (item : Leaf) (front : Front item.first) (s : Surroundings) :
    (s.fill item front).tokens =
      s.before ++ (front.tokens ++ (⟨item.first, item.span⟩ :: (item.tail ++ s.after))) := by
  induction s with
  | here rest => rfl
  | leaf other otherFront next ih => simp [fill, before, after, Forest.tokens, ih]
  | block head headFront opening inner members closing next ih => simp [fill, before, after, Forest.tokens, ih]
  | inside head headFront opening inner place closing rest ih => simp [fill, before, after, Forest.tokens, ih]

theorem namedMut_fill {item : Leaf} (hitem : item.namedMut = false) (front : Front item.first) (s : Surroundings) :
    (s.fill item front).namedMut = s.namedMut := by
  induction s with
  | here rest => simp [fill, namedMut, Forest.namedMut, hitem]
  | leaf other otherFront next ih => simp [fill, namedMut, Forest.namedMut, ih]
  | block head headFront opening inner members closing next ih => simp [fill, namedMut, Forest.namedMut, ih]
  | inside head headFront opening inner place closing rest ih => simp [fill, namedMut, Forest.namedMut, ih]

/-- The item in the place declares its element there. -/
theorem element_mem (file : Option Path) (item : Leaf) (front : Front item.first) {kind : Element.Kind}
    {name : String} (hitem : item.declared? = some (kind, name)) (s : Surroundings) (parent next : Nat) :
    ⟨(s.position parent next).2, kind, name, some (s.position parent next).1, [], front.docs source file⟩ ∈
      (s.fill item front).elements source file parent next := by
  induction s generalizing parent next with
  | here rest => simp [fill, position, Forest.elements, hitem]
  | leaf other otherFront rest ih => exact List.mem_append_right _ (ih _ _)
  | block head headFront opening inner members closing rest ih =>
    exact List.mem_cons_of_mem _ (List.mem_append_right _ (ih _ _))
  | inside head headFront opening inner place closing rest ih =>
    exact List.mem_cons_of_mem _ (List.mem_append_left _ (ih _ _))

/-- An item in no block is a member of what all the items are, and any other one of its innermost block. -/
theorem child_of_block (file : Option Path) (item : Leaf) (front : Front item.first) (hitem : item.declared?.isSome)
    (s : Surroundings) (parent next : Nat) :
    (s.block? source = none →
      (s.position parent next).1 = parent ∧ (s.position parent next).2 ∈ (s.fill item front).ids next) ∧
    (∀ kind name, s.block? source = some (kind, name) →
      ∃ e ∈ (s.fill item front).elements source file parent next, e.id = (s.position parent next).1 ∧
        e.kind = kind ∧ e.name = name ∧ (s.position parent next).2 ∈ e.children) := by
  induction s generalizing parent next with
  | here rest =>
    obtain ⟨declared, hdeclared⟩ := Option.isSome_iff_exists.mp hitem
    simp [block?, position, fill, Forest.ids, hdeclared]
  | leaf other otherFront rest ih =>
    obtain ⟨hnone, hsome⟩ := ih parent (next + other.declared?.toList.length)
    constructor
    · intro h
      obtain ⟨hparent, hmem⟩ := hnone h
      exact ⟨hparent, List.mem_append_right _ hmem⟩
    · intro kind name h
      obtain ⟨e, he, hrest⟩ := hsome kind name h
      exact ⟨e, List.mem_append_right _ he, hrest⟩
  | block head headFront opening inner members closing rest ih =>
    obtain ⟨hnone, hsome⟩ := ih parent (next + 1 + members.size)
    constructor
    · intro h
      obtain ⟨hparent, hmem⟩ := hnone h
      exact ⟨hparent, List.mem_cons_of_mem _ hmem⟩
    · intro kind name h
      obtain ⟨e, he, hrest⟩ := hsome kind name h
      exact ⟨e, List.mem_cons_of_mem _ (List.mem_append_right _ he), hrest⟩
  | inside head headFront opening inner place closing rest ih =>
    obtain ⟨hnone, hsome⟩ := ih next (next + 1)
    constructor
    · simp [block?]
    · intro kind name h
      cases hblock : place.block? source with
      | none =>
        obtain ⟨rfl, rfl⟩ : head.kind = kind ∧ head.name source = name := by simpa [block?, hblock] using h
        obtain ⟨hparent, hmem⟩ := hnone hblock
        exact ⟨_, List.mem_cons_self, hparent.symm, rfl, rfl, hmem⟩
      | some found =>
        obtain rfl : found = (kind, name) := by simpa [block?, hblock] using h
        obtain ⟨e, he, hrest⟩ := hsome kind name hblock
        exact ⟨e, List.mem_cons_of_mem _ (List.mem_append_left _ he), hrest⟩

/-- What does not begin with a semicolon is not made to do so by the items before it. -/
theorem kindOf_before_ne_semi (s : Surroundings) {ts : List Token} (hts : kindOf ts ≠ .symbol .semi) :
    kindOf (s.before ++ ts) ≠ .symbol .semi := by
  cases s with
  | here rest => exact hts
  | leaf item front next =>
    have hfirst : item.first ≠ .symbol .semi := by
      cases item with
      | macroCall head path bang signature ending => cases head <;> simp [Leaf.first, PathPart.token, Name.token]
      | _ => simp [Leaf.first]
    have hfront := front.kindOf_tokens_ne_semi hfirst item.span (item.tail ++ (next.before ++ ts))
    simpa [before] using hfront
  | block head front opening inner members closing next =>
    have hfront := front.kindOf_tokens_ne_semi (by simp) head.span (head.tail ++ (⟨.opening .brace, opening⟩ ::
      (inner.flatMap (·.tokens) ++ (members.tokens ++ (⟨.closing .brace, closing⟩ :: (next.before ++ ts))))))
    simpa [before] using hfront
  | inside head front opening inner place closing rest =>
    have hfront := front.kindOf_tokens_ne_semi (by simp) head.span (head.tail ++ (⟨.opening .brace, opening⟩ ::
      (inner.flatMap (·.tokens) ++ (place.before ++ ts))))
    simpa [before] using hfront

/-- What makes a fault in the place makes one wherever the place is, since the items before it are read as they are
written. -/
theorem exists_fault_mem {s : Surroundings} (hmut : s.namedMut = false) {ts : List Token}
    (hts : kindOf ts ≠ .symbol .semi) (hfault : ∀ depth, ∃ fault : SyntaxFault, .fault fault ∈
      Mark.ofTokens source lines depth none 0 ts) (depth : Nat) :
    ∃ fault : SyntaxFault, .fault fault ∈ Mark.ofTokens source lines depth none 0 (s.before ++ ts) := by
  induction s generalizing depth with
  | here rest => exact hfault depth
  | leaf item front next ih =>
    obtain ⟨hitem, hnext⟩ : item.namedMut = false ∧ next.namedMut = false := by simpa [namedMut] using hmut
    obtain ⟨fault, hmem⟩ := ih hnext depth
    have hleaf := Mark.ofTokens_leaf source lines depth 0 hitem front (next.kindOf_before_ne_semi hts)
    have htokens : (leaf item front next).before ++ ts =
        front.tokens ++ ⟨item.first, item.span⟩ :: (item.tail ++ (next.before ++ ts)) := by
      simp [before]
    rw [htokens, hleaf]
    exact ⟨fault, List.mem_append_right _ hmem⟩
  | block head front opening inner members closing next ih =>
    obtain ⟨hmembers, hnext⟩ : members.namedMut = false ∧ next.namedMut = false := by simpa [namedMut] using hmut
    obtain ⟨fault, hmem⟩ := ih hnext depth
    have hclosing : kindOf (⟨.closing .brace, closing⟩ :: (next.before ++ ts)) ≠ .symbol .semi := by simp
    have htokens : (block head front opening inner members closing next).before ++ ts =
        front.tokens ++ ⟨.keyword head.keyword, head.span⟩ :: (head.tail ++ ⟨.opening .brace, opening⟩ ::
          (inner.flatMap (·.tokens) ++ (members.tokens ++ ⟨.closing .brace, closing⟩ :: (next.before ++ ts)))) := by
      simp [before]
    rw [htokens, Mark.ofTokens_head, Mark.ofTokens_attributes,
      members.ofTokens_tokens source lines hmembers _ _ hclosing, Mark.ofTokens_closing]
    exact ⟨fault, List.mem_cons_of_mem _ (List.mem_append_right _ (List.mem_cons_of_mem _ hmem))⟩
  | inside head front opening inner place closing rest ih =>
    obtain ⟨hplace, -⟩ : place.namedMut = false ∧ rest.namedMut = false := by simpa [namedMut] using hmut
    obtain ⟨fault, hmem⟩ := ih hplace (depth + 1)
    have htokens : (inside head front opening inner place closing rest).before ++ ts =
        front.tokens ++ ⟨.keyword head.keyword, head.span⟩ :: (head.tail ++ ⟨.opening .brace, opening⟩ ::
          (inner.flatMap (·.tokens) ++ (place.before ++ ts))) := by
      simp [before]
    rw [htokens, Mark.ofTokens_head, Mark.ofTokens_attributes]
    exact ⟨fault, List.mem_cons_of_mem _ hmem⟩

end Surroundings

/-- The whole of a file whose items are written as a forest. -/
theorem ofSource_forest (crateName : String) (file : Option Path) {source : String} {f : Forest} {stop : Span}
    (htokens : (Lexed.ofString source).tokens = f.tokens ++ [⟨.eof, stop⟩]) (hmut : f.namedMut = false) :
    ofSource crateName file source =
      ⟨adopt ⟨#[⟨0, .crate, crateName, none, [], []⟩], [0]⟩ 0 (f.ids 1) (f.elements source file 0 1),
        f.outside [] 1, []⟩ := by
  have heof : kindOf [⟨.eof, stop⟩] ≠ .symbol .semi := by simp
  have hmarks := f.ofTokens_tokens source (.ofString source) hmut 0 0 heof
  rw [Mark.ofTokens_eof, List.append_nil] at hmarks
  have hfold := Cursor.foldl_marks file source f
    ⟨⟨#[⟨0, .crate, crateName, none, [], []⟩], [0]⟩, 0, [], [], []⟩ Nat.zero_lt_one
  have hroot : empty.addRoot .crate crateName = (0, ⟨#[⟨0, .crate, crateName, none, [], []⟩], [0]⟩) := rfl
  simp only [ofSource, hroot, readSource, readTokens, htokens, hmarks, hfold]
  rfl

/-- Where a name should be, a keyword is a fault. -/
theorem exists_fault_of_keyword (front : Front (.keyword .fnKw)) (span word : Span) (k : Keyword) (ts : List Token)
    (depth : Nat) : ∃ fault : SyntaxFault, .fault fault ∈ Mark.ofTokens source lines depth none 0
      (front.tokens ++ ⟨.keyword .fnKw, span⟩ :: ⟨.keyword k, word⟩ :: ts) := by
  have hqualifiers : Header.qualifiers (⟨.keyword .fnKw, span⟩ :: ⟨.keyword k, word⟩ :: ts) =
      (false, ⟨.keyword .fnKw, span⟩ :: ⟨.keyword k, word⟩ :: ts) := by
    simp [Header.qualifiers]
  have hheader : Header.ofKeyword source ⟨.keyword .fnKw, span⟩ (⟨.keyword k, word⟩ :: ts) =
      (.fault ⟨.expectedName (.keyword k), word⟩, ⟨.keyword k, word⟩ :: ts) := rfl
  refine ⟨⟨.expectedName (.keyword k), word⟩, ?_⟩
  rw [Mark.ofTokens_front source lines depth 0 rfl front hqualifiers hheader]
  exact List.mem_append_left _ List.mem_cons_self

/-- A function in a source text: what is before the `fn`, the blanks up to the name, the name, and what comes after
it. -/
structure FunctionText where
  before : List Char
  gap : List Char
  id : Identifier
  after : List Char

namespace FunctionText

open Text

def span (w : FunctionText) : Span :=
  ⟨byteLength w.before, byteLength w.before + 2⟩

def nameSpan (w : FunctionText) : Span :=
  ⟨byteLength w.before + 2 + byteLength w.gap, byteLength w.before + 2 + byteLength w.gap + byteLength w.id.text⟩

/-- The text from the `fn` on. -/
def rest (w : FunctionText) : List Char :=
  'f' :: 'n' :: (w.gap ++ (w.id.text ++ w.after))

def item (w : FunctionText) (signature : Signature) (ending : Ending) : Leaf :=
  .bodied .function w.span ⟨w.id.name, w.nameSpan⟩ signature ending

end FunctionText

open Text Lexeme Lexed

/-- The source is the text of the function, and all but its `fn` and its name is read as these items with their
comments, this signature and this ending. -/
structure DeclaresFunction (source : String) (w : FunctionText) (s : Surroundings) (front : Front (.keyword .fnKw))
    (signature : Signature) (ending : Ending) : Prop where
  source_eq : source.toList = w.before ++ w.rest
  gap_ne_nil : w.gap ≠ []
  gap_skipped : ∀ c ∈ w.gap, isSkipped c
  after_head : ∀ c ∈ w.after.head?, c ∈ nameEnds
  exists_before : ∃ xs, split source.toList = xs ++ split w.rest ∧ Spells 0 xs (s.before ++ front.tokens)
  spells_after : Spells w.nameSpan.stop (split w.after) (signature.1 ++ (ending.tokens ++ s.after))

/-- The name is one token, between the tokens before it and those after it. -/
theorem DeclaresFunction.tokens_eq {source : String} {w : FunctionText} {s : Surroundings}
    {front : Front (.keyword .fnKw)} {signature : Signature} {ending : Ending}
    (h : DeclaresFunction source w s front signature ending) {kind : Token.Kind} (hkind : meaning w.id.lexeme = some (.ok kind)) : (ofString source).errors = [] ∧
      (ofString source).tokens = s.before ++ (front.tokens ++ (⟨.keyword .fnKw, w.span⟩ :: ⟨kind, w.nameSpan⟩ ::
        (signature.1 ++ (ending.tokens ++ s.after)))) ++
          [⟨.eof, ⟨byteLength source.toList, byteLength source.toList⟩⟩] := by
  obtain ⟨xs, hsplit, hxs⟩ := h.exists_before
  have hbefore : xs.flatMap Lexeme.text = w.before := by
    have htext := flatMap_text_split source.toList
    rw [hsplit, List.flatMap_append, flatMap_text_split, h.source_eq] at htext
    exact List.append_cancel_right htext
  have hname : split w.rest = ⟨.word, ['f', 'n']⟩ :: ⟨.blank, w.gap⟩ :: w.id.lexeme :: split w.after := by
    rw [FunctionText.rest, split_fn h.gap_skipped h.gap_ne_nil fun c hc => not_isSkipped_identifier w.id hc,
      split_identifier w.id h.after_head]
  have hrest : Spells (0 + byteLength (xs.flatMap Lexeme.text)) (split w.rest)
      (⟨.keyword .fnKw, w.span⟩ :: ⟨kind, w.nameSpan⟩ :: (signature.1 ++ (ending.tokens ++ s.after))) := by
    rw [hbefore, hname, Nat.zero_add]
    exact .token (by decide) (.gap rfl (.token hkind h.spells_after))
  have hspells := hxs.append hrest
  rw [← hsplit] at hspells
  have hread : ofLexemes maxErrors 0 (split source.toList) = _ := (Spells.iff_ofLexemes 19).mp hspells
  simp [ofString, hread]

/-- **A function is read under its name** wherever it stands: it is an element with that name and its documentation,
and a child of the block that it is in. The items are read as they are written, without a fault, exactly if the name
is not one of the words that are keywords in some places only. -/
theorem ofSource_function_iff (crateName : String) (file : Option Path) {source : String} {w : FunctionText}
    {s : Surroundings} {front : Front (.keyword .fnKw)} {signature : Signature} {ending : Ending}
    (h : DeclaresFunction source w s front signature ending) (hmut : s.namedMut = false) :
    let f := s.fill (w.item signature ending) front
    let es := f.elements source file 0 1
    let parent := (s.position 0 1).1
    let number := (s.position 0 1).2
    (ofString source).errors = [] ∧
      ⟨number, .function, w.id.name, some parent, [], front.docs source file⟩ ∈ es ∧
      (s.block? source = none → parent = 0 ∧ number ∈ f.ids 1) ∧
      (∀ kind name, s.block? source = some (kind, name) →
        ∃ e ∈ es, e.id = parent ∧ e.kind = kind ∧ e.name = name ∧ number ∈ e.children) ∧
      (ofSource crateName file source =
        ⟨adopt ⟨#[⟨0, .crate, crateName, none, [], []⟩], [0]⟩ 0 (f.ids 1) es, f.outside [] 1, []⟩ ↔
          ¬w.id.Contextual) := by
  intro f es parent number
  have hitem : (w.item signature ending).declared? = some (.function, w.id.name) := rfl
  have hplain : f.namedMut = false := by
    have hnotMut : (w.item signature ending).namedMut = false := rfl
    exact (s.namedMut_fill hnotMut front).trans hmut
  have helement := Surroundings.element_mem source file (w.item signature ending) front hitem s 0 1
  obtain ⟨hnone, hsome⟩ :=
    Surroundings.child_of_block source file (w.item signature ending) front (by simp [hitem]) s 0 1
  by_cases hword : w.id.Contextual
  · obtain ⟨k, hk⟩ := Identifier.meaning_of_contextual hword
    obtain ⟨herrors, htokens⟩ := h.tokens_eq hk
    refine ⟨herrors, helement, hnone, hsome, fun heq => ?_, fun hnot => absurd hword hnot⟩
    have hfault (depth : Nat) := exists_fault_of_keyword source (.ofString source) front w.span w.nameSpan k
      (signature.1 ++ (ending.tokens ++ (s.after ++
        [⟨.eof, ⟨byteLength source.toList, byteLength source.toList⟩⟩]))) depth
    have hsemi := front.kindOf_tokens_ne_semi (by simp) w.span (⟨.keyword k, w.nameSpan⟩ ::
      (signature.1 ++ (ending.tokens ++ (s.after ++
        [⟨.eof, ⟨byteLength source.toList, byteLength source.toList⟩⟩]))))
    obtain ⟨fault, hmem⟩ := Surroundings.exists_fault_mem source (.ofString source) hmut hsemi hfault 0
    have hread : fault ∈ (ofSource crateName file source).faults := by
      refine (Cursor.mem_faults_foldl file _ _).mpr (.inr ?_)
      rw [htokens]
      simpa using hmem
    rw [heq] at hread
    simp at hread
  · obtain ⟨herrors, htokens⟩ := h.tokens_eq (Identifier.meaning_of_not_contextual hword)
    have hforest : (ofString source).tokens = f.tokens ++
        [⟨.eof, ⟨byteLength source.toList, byteLength source.toList⟩⟩] := by
      have hfill := s.tokens_fill (w.item signature ending) front
      have htail : (w.item signature ending).tail ++ s.after =
          ⟨.name w.id.name, w.nameSpan⟩ :: (signature.1 ++ (ending.tokens ++ s.after)) := by
        simp [FunctionText.item, Leaf.tail, Name.token]
      rw [htail] at hfill
      rw [htokens, hfill]
      rfl
    exact ⟨herrors, helement, hnone, hsome, fun _ => hword, fun _ => ofSource_forest crateName file hforest hplain⟩

/-- A raw name, in a module and with a comment. -/
theorem ofSource_function_raw : ∃ (w : FunctionText) (s : Surroundings) (front : Front (.keyword .fnKw))
    (signature : Signature) (ending : Ending), let source := "mod m\x7b/** d*/fn r#fn()\x7b\x7d\x7d"
    DeclaresFunction source w s front signature ending ∧ s.namedMut = false ∧ w.id.text = "r#fn".toList ∧
      ofSource "c" none source =
        ⟨⟨#[⟨0, .crate, "c", none, [1], []⟩, ⟨1, .module, "m", some 0, [2], []⟩,
          ⟨2, .function, "fn", some 1, [], [⟨"d", none, 1⟩]⟩], [0]⟩, [], []⟩ := by
  let id : Identifier :=
    ⟨true, 'f', ['n'], by decide +kernel, List.forall_mem_singleton.mpr (by decide +kernel), by decide +kernel⟩
  let w : FunctionText := ⟨"mod m\x7b/** d*/".toList, [' '], id, "()\x7b\x7d\x7d".toList⟩
  let s : Surroundings :=
    .inside (.module ⟨0, 3⟩ ⟨"m", ⟨4, 5⟩⟩) ⟨[], [], trivial⟩ ⟨5, 6⟩ [] (.here .nil) ⟨24, 25⟩ .nil
  let front : Front (.keyword .fnKw) := ⟨[.doc "d" ⟨6, 13⟩], [], trivial⟩
  let signature : Signature := ⟨[⟨.opening .paren, ⟨20, 21⟩⟩, ⟨.closing .paren, ⟨21, 22⟩⟩],
    .group (b := .paren) rfl (by decide) .nil rfl .nil⟩
  let ending : Ending := .body ⟨⟨22, 23⟩, [], ⟨23, 24⟩, .nil⟩
  have hdeclares : DeclaresFunction "mod m\x7b/** d*/fn r#fn()\x7b\x7d\x7d" w s front signature ending :=
    { source_eq := by decide
      gap_ne_nil := by simp [w]
      gap_skipped := List.forall_mem_singleton.mpr (by decide)
      after_head := by simp [w, nameEnds]
      exists_before := by
        refine ⟨(split "mod m\x7b/** d*/".toList), by decide +kernel, ?_⟩
        exact (Spells.iff_ofLexemes 19).mpr (by decide +kernel)
      spells_after := (Spells.iff_ofLexemes 19).mpr (by decide +kernel) }
  have hword : ¬w.id.Contextual := by simp [Identifier.Contextual, w, id]
  obtain ⟨-, -, -, -, hread⟩ := ofSource_function_iff "c" none hdeclares rfl
  refine ⟨w, s, front, signature, ending, hdeclares, rfl, by decide, (hread.mpr hword).trans ?_⟩
  decide +kernel

/-- The word `union` is a name in some places, and yet no function is read under it. -/
theorem ofSource_function_union : ∃ (w : FunctionText) (s : Surroundings) (front : Front (.keyword .fnKw))
    (signature : Signature) (ending : Ending), let source := "fn union() \x7b\x7d"
    let f := s.fill (w.item signature ending) front
    DeclaresFunction source w s front signature ending ∧ s.namedMut = false ∧ w.id.text = "union".toList ∧
      f.elements source none 0 1 = [⟨1, .function, "union", some 0, [], []⟩] ∧
      ofSource "c" none source = ⟨⟨#[⟨0, .crate, "c", none, [], []⟩], [0]⟩, [],
        [⟨.expectedName (.keyword .unionKw), ⟨3, 8⟩⟩]⟩ := by
  let id : Identifier :=
    ⟨false, 'u', "nion".toList, by decide +kernel, List.all_iff_forall_prop.mp (by decide +kernel), by decide +kernel⟩
  let w : FunctionText := ⟨[], [' '], id, "() \x7b\x7d".toList⟩
  let front : Front (.keyword .fnKw) := ⟨[], [], trivial⟩
  let signature : Signature := ⟨[⟨.opening .paren, ⟨8, 9⟩⟩, ⟨.closing .paren, ⟨9, 10⟩⟩],
    .group (b := .paren) rfl (by decide) .nil rfl .nil⟩
  let ending : Ending := .body ⟨⟨11, 12⟩, [], ⟨12, 13⟩, .nil⟩
  have hdeclares : DeclaresFunction "fn union() \x7b\x7d" w (.here .nil) front signature ending :=
    { source_eq := by decide
      gap_ne_nil := by simp [w]
      gap_skipped := List.forall_mem_singleton.mpr (by decide)
      after_head := by simp [w, nameEnds]
      exists_before := ⟨[], by decide +kernel, .nil⟩
      spells_after := (Spells.iff_ofLexemes 19).mpr (by decide +kernel) }
  refine ⟨w, .here .nil, front, signature, ending, hdeclares, rfl, by decide, rfl, ?_⟩
  decide +kernel

end Doctest.Outline
