import Doctest.Outline.Doc

/-! The outline of a crate: its elements, numbered in the order of their creation, with their parents,
children and documentation. -/
namespace Doctest

namespace Element

inductive Kind
  | crate | module | function | struct | enum | union | trait | impl | constant | static
  | typeAlias | macroDef
deriving DecidableEq, Repr

namespace Kind

def all : List Kind :=
  [crate, module, function, struct, enum, union, trait, impl, constant, static, typeAlias, macroDef]

/-- The short word for a kind, which the names of test units begin with. -/
def tag : Kind → String
  | crate => "crate"
  | module => "mod"
  | function => "fn"
  | struct => "struct"
  | enum => "enum"
  | union => "union"
  | trait => "trait"
  | impl => "impl"
  | constant => "const"
  | static => "static"
  | typeAlias => "type"
  | macroDef => "macro"

/-- Crates and modules hold names that can be imported. -/
def isNamespace : Kind → Bool
  | crate | module => true
  | _ => false

def ofTag? (tag : String) : Option Kind :=
  all.find? fun k => k.tag == tag

end Kind

end Element

/-- A declared element: the crate, a module, an item or a member. -/
structure Element where
  id : Nat
  kind : Element.Kind
  name : String
  parent : Option Nat
  children : List Nat
  /-- More than one comment only where they come from different files. -/
  docs : List DocComment
deriving DecidableEq, Repr

structure Outline where
  elements : Array Element
  roots : List Nat
deriving DecidableEq, Repr

namespace Outline

def empty : Outline :=
  ⟨#[], []⟩

def size (t : Outline) : Nat :=
  t.elements.size

def get? (t : Outline) (id : Nat) : Option Element :=
  t.elements[id]?

/-- The outline with one more element, and that element's number. -/
def push (t : Outline) (kind : Element.Kind) (name : String) (parent : Option Nat) :
    Nat × Outline :=
  (t.size, { t with elements := t.elements.push ⟨t.size, kind, name, parent, [], []⟩ })

def addRoot (t : Outline) (kind : Element.Kind) (name : String) : Nat × Outline :=
  let (id, t) := t.push kind name none
  (id, { t with roots := t.roots ++ [id] })

/-- Changes one element and leaves the others. -/
def modify (t : Outline) (id : Nat) (f : Element → Element) : Outline :=
  { t with elements := t.elements.modify id f }

def addChild (t : Outline) (parent : Nat) (kind : Element.Kind) (name : String) :
    Nat × Outline :=
  let (id, t) := t.push kind name (some parent)
  (id, t.modify parent fun e => { e with children := e.children ++ [id] })

def attachDoc (t : Outline) (id : Nat) (doc : DocComment) : Outline :=
  t.modify id fun e => { e with docs := DocComment.attach e.docs doc }

theorem get?_modify (t : Outline) (id target : Nat) (f : Element → Element) :
    (t.modify target f).get? id = if target = id then (t.get? id).map f else t.get? id :=
  Array.getElem?_modify

theorem get?_push (t : Outline) (id : Nat) (kind : Element.Kind) (name : String) (parent : Option Nat) :
    (t.push kind name parent).2.get? id =
      if id = t.size then some ⟨t.size, kind, name, parent, [], []⟩ else t.get? id :=
  Array.getElem?_push

theorem get?_eq_none_iff (t : Outline) (id : Nat) : t.get? id = none ↔ t.size ≤ id :=
  Array.getElem?_eq_none_iff

@[simp]
theorem size_push (t : Outline) (kind : Element.Kind) (name : String) (parent : Option Nat) :
    (t.push kind name parent).2.size = t.size + 1 :=
  Array.size_push _

@[simp]
theorem size_modify (t : Outline) (id : Nat) (f : Element → Element) :
    (t.modify id f).size = t.size :=
  Array.size_modify

/-- The element, then what encloses it up to its root. A parent is older than its child, and a number
that breaks this rule is not followed. -/
def ancestors (t : Outline) (id : Nat) : List Element :=
  match t.get? id with
  | none => []
  | some e =>
    match e.parent with
    | none => [e]
    | some parent => if parent < id then e :: t.ancestors parent else [e]
termination_by id

/-- The names from the root down to the element. -/
def path (t : Outline) (id : Nat) : List String :=
  ((t.ancestors id).map (·.name)).reverse

def qualifiedName (t : Outline) (id : Nat) : String :=
  "::".intercalate (t.path id)

/-- The nearest crate or module at or above the element. -/
def enclosingNamespace? (t : Outline) (id : Nat) : Option Nat :=
  ((t.ancestors id).find? (·.kind.isNamespace)).map (·.id)

end Outline

end Doctest
