import Doctest.Outline.Reading
import Doctest.Proofs.Outline.Balanced
import Doctest.Proofs.Outline.DocLines

/-! Items as trees: the tokens that they are written in, wherever these stand in a source, and the
elements, comments and modules that they declare. -/
namespace Doctest.Outline

structure Name where
  text : String
  span : Span

def Name.token (n : Name) : Token :=
  ⟨.name n.text, n.span⟩

structure Attribute where
  hash : Span
  bang : Option Span
  group : Group .square

def Attribute.tokens (a : Attribute) : List Token :=
  ⟨.symbol .pound, a.hash⟩ :: (a.bang.toList.map (⟨.symbol .bang, ·⟩) ++ a.group.tokens)

/-- What stands before an item and its qualifiers. -/
inductive Note
  | doc (text : String) (span : Span)
  | attr (a : Attribute)

namespace Note

def tokens : Note → List Token
  | doc text span => [⟨.outerDoc text, span⟩]
  | attr a => a.tokens

def doc? : Note → Option (String × Span)
  | doc text span => some (text, span)
  | attr _ => none

end Note

/-- A visibility or a word that qualifies an item. -/
inductive Qualifier
  | visibility (span : Span) (scope : Option (Group .paren))
  | unsafeKw (span : Span)
  | asyncKw (span : Span)
  | constKw (span : Span)
  | externKw (span : Span) (abi : Option Span)
  | defaultWord (span : Span)

namespace Qualifier

def kind : Qualifier → Token.Kind
  | visibility _ _ => .keyword .pubKw
  | unsafeKw _ => .keyword .unsafeKw
  | asyncKw _ => .keyword .asyncKw
  | constKw _ => .keyword .constKw
  | externKw _ _ => .keyword .externKw
  | defaultWord _ => .name "default"

def tokens : Qualifier → List Token
  | visibility span none => [⟨.keyword .pubKw, span⟩]
  | visibility span (some scope) => ⟨.keyword .pubKw, span⟩ :: scope.tokens
  | unsafeKw span => [⟨.keyword .unsafeKw, span⟩]
  | asyncKw span => [⟨.keyword .asyncKw, span⟩]
  | constKw span => [⟨.keyword .constKw, span⟩]
  | externKw span abi => ⟨.keyword .externKw, span⟩ :: abi.toList.map (⟨.literal, ·⟩)
  | defaultWord span => [⟨.name "default", span⟩]

/-- Which token may follow. A `const` qualifies functions, also those with more qualifiers, and a
`default` stands right before the `fn`. -/
def Precedes (next : Token.Kind) : Qualifier → Prop
  | visibility _ none => next ≠ .opening .paren
  | constKw _ =>
    next ∈ [.keyword .fnKw, .keyword .unsafeKw, .keyword .asyncKw, .keyword .externKw]
  | externKw _ none => next ∉ [.keyword .crateKw, .opening .brace, .literal]
  | externKw _ (some _) => next ≠ .opening .brace
  | defaultWord _ => next = .keyword .fnKw
  | _ => True

/-- The first token of an item that begins with `first` and has these qualifiers. -/
def firstOf (first : Token.Kind) : List Qualifier → Token.Kind
  | [] => first
  | q :: _ => q.kind

/-- Each qualifier may stand where it does, before an item that begins with `first`. -/
def Fit (first : Token.Kind) : List Qualifier → Prop
  | [] => True
  | q :: qs => q.Precedes (firstOf first qs) ∧ Fit first qs

end Qualifier

/-- All that stands before an item whose first token is of the kind `first`. -/
structure Front (first : Token.Kind) where
  notes : List Note
  qualifiers : List Qualifier
  fit : Qualifier.Fit first qualifiers

namespace Front

variable {first : Token.Kind}

def tokens (f : Front first) : List Token :=
  f.notes.flatMap (·.tokens) ++ f.qualifiers.flatMap (·.tokens)

def docs (source : String) (file : Option Path) (f : Front first) : List DocComment :=
  (docComment? (.ofString source) file (f.notes.filterMap (·.doc?))).toList

end Front

/-- Tokens with braces and semicolons only inside of parentheses or square brackets. -/
abbrev Signature : Type :=
  { ts : List Token // Balanced bodyOrSemi ts }

/-- Tokens with semicolons only inside of groups. -/
abbrev Initializer : Type :=
  { ts : List Token // Balanced [.symbol .semi] ts }

inductive Ending
  | body (group : Group .brace)
  | semi (span : Span)

def Ending.tokens : Ending → List Token
  | body group => group.tokens
  | semi span => [⟨.symbol .semi, span⟩]

/-- A part of the path of a macro. -/
inductive PathPart
  | name (name : Name)
  | separator (span : Span)
  | crateKw (span : Span)

def PathPart.token : PathPart → Token
  | name n => n.token
  | separator span => ⟨.symbol .pathSep, span⟩
  | crateKw span => ⟨.keyword .crateKw, span⟩

/-- Items of a name, a signature, and a body or a semicolon. -/
inductive Bodied
  | function | struct | enum | union

namespace Bodied

def keyword : Bodied → Keyword
  | function => .fnKw
  | struct => .structKw
  | enum => .enumKw
  | union => .unionKw

def kind : Bodied → Element.Kind
  | function => .function
  | struct => .struct
  | enum => .enum
  | union => .union

end Bodied

/-- Items of a name and tokens that a semicolon ends. -/
inductive Assigned
  | constant
  | static (mutable : Option Span)
  | typeAlias

namespace Assigned

def keyword : Assigned → Keyword
  | constant => .constKw
  | static _ => .staticKw
  | typeAlias => .typeKw

def kind : Assigned → Element.Kind
  | constant => .constant
  | static _ => .static
  | typeAlias => .typeAlias

def mutTokens : Assigned → List Token
  | static (some span) => [⟨.name "mut", span⟩]
  | _ => []

/-- A name `mut` would be taken for the word. -/
def mayBeMut : Assigned → Bool
  | constant | static none => true
  | _ => false

end Assigned

/-- An item without members. After the name of a constant, a static item or an alias there is no other
name. What a macro is called with is a signature or a body. -/
inductive Leaf
  | bodied (what : Bodied) (span : Span) (name : Name) (signature : Signature) (ending : Ending)
  | assigned (what : Assigned) (span : Span) (name : Name) (rest : Initializer) (semi : Span)
    (hrest : ∀ word, kindOf rest.1 ≠ .name word)
  | macroRules (span bang : Span) (name : Name) (signature : Signature) (ending : Ending)
    (semi : Option Span)
  | macroCall (head : PathPart) (path : List PathPart) (bang : Span) (signature : Signature)
    (ending : Ending)
  | use (span : Span) (tree : Initializer) (semi : Span)
  | traitAlias (span : Span) (name : Name) (signature : Signature) (semi : Span)
  | outside (span : Span) (name : Name) (semi : Span)

namespace Leaf

/-- The kind of the first token. -/
def first : Leaf → Token.Kind
  | bodied what _ _ _ _ => .keyword what.keyword
  | assigned what _ _ _ _ _ => .keyword what.keyword
  | macroRules _ _ _ _ _ _ => .keyword .macroRulesKw
  | macroCall head _ _ _ _ => head.token.kind
  | use _ _ _ => .keyword .useKw
  | traitAlias _ _ _ _ => .keyword .traitKw
  | outside _ _ _ => .keyword .modKw

def span : Leaf → Span
  | bodied _ span _ _ _ => span
  | assigned _ span _ _ _ _ => span
  | macroRules span _ _ _ _ _ => span
  | macroCall head _ _ _ _ => head.token.span
  | use span _ _ => span
  | traitAlias span _ _ _ => span
  | outside span _ _ => span

/-- The tokens after the first. -/
def tail : Leaf → List Token
  | bodied _ _ name signature ending => name.token :: (signature.1 ++ ending.tokens)
  | assigned what _ name rest semi _ =>
    what.mutTokens ++ name.token :: (rest.1 ++ [⟨.symbol .semi, semi⟩])
  | macroRules _ bang name signature ending semi =>
    ⟨.symbol .bang, bang⟩ :: name.token ::
      (signature.1 ++ (ending.tokens ++ semi.toList.map (⟨.symbol .semi, ·⟩)))
  | macroCall _ path bang signature ending =>
    path.map (·.token) ++ ⟨.symbol .bang, bang⟩ :: (signature.1 ++ ending.tokens)
  | use _ tree semi => tree.1 ++ [⟨.symbol .semi, semi⟩]
  | traitAlias _ name signature semi => name.token :: (signature.1 ++ [⟨.symbol .semi, semi⟩])
  | outside _ name semi => [name.token, ⟨.symbol .semi, semi⟩]

/-- The kind and the name of the element that the item declares. -/
def declared? : Leaf → Option (Element.Kind × String)
  | bodied what _ name _ _ => some (what.kind, name.text)
  | assigned what _ name _ _ _ => some (what.kind, name.text)
  | macroRules _ _ name _ _ _ => some (.macroDef, name.text)
  | macroCall _ _ _ _ _ => none
  | use _ _ _ => none
  | traitAlias _ name _ _ => some (.trait, name.text)
  | outside _ name _ => some (.module, name.text)

/-- The name of a module whose items are in another file. -/
def outside? : Leaf → Option Name
  | outside _ name _ => some name
  | _ => none

/-- A constant, or a static item that is not mutable, whose name is `mut`. -/
def namedMut : Leaf → Bool
  | assigned what _ name _ _ _ => what.mayBeMut && name.text == "mut"
  | _ => false

end Leaf

/-- The header of an item with members. Angle brackets right after `impl` are its generics. -/
inductive Head
  | module (span : Span) (name : Name)
  | trait (span : Span) (name : Name) (signature : Signature)
  | impl (span : Span) (generics : Option Generics)
    (header : { ts : List Token // Balanced bodyOrWhere ts })
    (hheader : generics = none → kindOf header.1 ≠ .symbol .lt)
    (bounds : Option (Span × Signature))

namespace Head

def keyword : Head → Keyword
  | module _ _ => .modKw
  | trait _ _ _ => .traitKw
  | impl _ _ _ _ _ => .implKw

def span : Head → Span
  | module span _ => span
  | trait span _ _ => span
  | impl span _ _ _ _ => span

/-- The tokens after the keyword. -/
def tail : Head → List Token
  | module _ name => [name.token]
  | trait _ name signature => name.token :: signature.1
  | impl _ generics header _ bounds =>
    generics.toList.flatMap (·.tokens) ++ (header.1 ++
      bounds.toList.flatMap fun (span, ts) => ⟨.keyword .whereKw, span⟩ :: ts.1)

def kind : Head → Element.Kind
  | module _ _ => .module
  | trait _ _ _ => .trait
  | impl _ _ _ _ _ => .impl

/-- An impl has the text of its header as its name. -/
def name (source : String) : Head → String
  | module _ name => name.text
  | trait _ name _ => name.text
  | impl _ _ header _ _ => Header.headerName source header.1

/-- The path of the members of an item that stands at `path`. -/
def pathBelow (path : List String) : Head → List String
  | module _ name => path ++ [name.text]
  | _ => path

/-- The text from the first token of a header to its last, each run of blanks as one space. -/
theorem headerName_eq_collapse {as bs cs : List Char} {header : List Token} (hne : header ≠ [])
    (hstart : (header.head hne).span.start = Text.byteLength as)
    (hstop : (header.getLast hne).span.stop = Text.byteLength as + Text.byteLength bs) :
    Header.headerName (String.ofList (as ++ (bs ++ cs))) header =
      String.ofList (Text.collapse bs) := by
  simp only [Header.headerName, List.head?_eq_some_head hne, List.getLast?_eq_some_getLast hne,
    Option.map_some, Option.getD_some, hstart, hstop, Span.text?_append, String.toList_ofList]

end Head

/-- Items that follow each other. -/
inductive Forest
  | nil
  | leaf (item : Leaf) (front : Front item.first) (rest : Forest)
  | block (head : Head) (front : Front (.keyword head.keyword)) (opening : Span)
    (inner : List Attribute) (members : Forest) (closing : Span) (rest : Forest)

namespace Forest

def tokens : Forest → List Token
  | nil => []
  | leaf item front rest => front.tokens ++ (⟨item.first, item.span⟩ :: (item.tail ++ rest.tokens))
  | block head front opening inner members closing rest =>
    front.tokens ++ (⟨.keyword head.keyword, head.span⟩ :: (head.tail ++
      (⟨.opening .brace, opening⟩ :: (inner.flatMap (·.tokens) ++ (members.tokens ++
        (⟨.closing .brace, closing⟩ :: rest.tokens))))))

/-- The number of elements that the items declare. -/
def size : Forest → Nat
  | nil => 0
  | leaf item _ rest => item.declared?.toList.length + rest.size
  | block _ _ _ _ members _ rest => 1 + members.size + rest.size

/-- The numbers of the elements that are not members of others, if `next` is the first number. -/
def ids : Forest → (next : Nat) → List Nat
  | nil, _ => []
  | leaf item _ rest, next =>
    item.declared?.toList.map (fun _ => next) ++ rest.ids (next + item.declared?.toList.length)
  | block _ _ _ _ members _ rest, next => next :: rest.ids (next + 1 + members.size)

/-- The elements that the items declare, in the order of their numbers. -/
def elements (source : String) (file : Option Path) : Forest → (parent next : Nat) → List Element
  | nil, _, _ => []
  | leaf item front rest, parent, next =>
    (item.declared?.toList.map fun (kind, name) =>
      ⟨next, kind, name, some parent, [], front.docs source file⟩) ++
      rest.elements source file parent (next + item.declared?.toList.length)
  | block head front _ _ members _ rest, parent, next =>
    ⟨next, head.kind, head.name source, some parent, members.ids (next + 1),
      front.docs source file⟩ ::
      (members.elements source file next (next + 1) ++
        rest.elements source file parent (next + 1 + members.size))

/-- The modules that other files hold, where `path` has the names of the modules around the items. -/
def outside : Forest → (path : List String) → (next : Nat) → List OutsideModule
  | nil, _, _ => []
  | leaf item _ rest, path, next =>
    (item.outside?.toList.map fun name => ⟨next, name.text, path, name.span⟩) ++
      rest.outside path (next + item.declared?.toList.length)
  | block head _ _ _ members _ rest, path, next =>
    members.outside (head.pathBelow path) (next + 1) ++ rest.outside path (next + 1 + members.size)

/-- At some depth, an item has the name `mut` where the word may stand. -/
def namedMut : Forest → Bool
  | nil => false
  | leaf item _ rest => item.namedMut || rest.namedMut
  | block _ _ _ _ members _ rest => members.namedMut || rest.namedMut

@[simp]
theorem length_elements (source : String) (file : Option Path) (f : Forest) (parent next : Nat) :
    (f.elements source file parent next).length = f.size := by
  induction f generalizing parent next with
  | nil => rfl
  | leaf item front rest ih => simp [elements, size, ih]
  | block head front opening inner members closing rest ihm ih =>
    simp [elements, size, ihm, ih]
    omega

/-- The numbers of the elements follow each other. -/
theorem map_id_elements (source : String) (file : Option Path) (f : Forest) (parent next : Nat) :
    (f.elements source file parent next).map (·.id) = List.range' next f.size := by
  induction f generalizing parent next with
  | nil => rfl
  | leaf item front rest ih =>
    cases hdeclared : item.declared? with
    | none => simp [elements, size, hdeclared, ih]
    | some declared => simp [elements, size, hdeclared, ih, Nat.add_comm 1, List.range'_succ]
  | block head front opening inner members closing rest ihm ih =>
    have hsize : 1 + members.size + rest.size = members.size + rest.size + 1 := by omega
    rw [elements, size, hsize, List.range'_succ, ← List.range'_append_1]
    simp [ihm, ih]

end Forest

end Doctest.Outline
