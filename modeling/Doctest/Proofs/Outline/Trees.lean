import Doctest.Outline.Mark

/-! The elements of an outline as ordered trees that are labelled with kinds and names, and as such trees with
the comments on the elements. -/
namespace Doctest.Outline

/-- What the tree of an outline shows of an element. -/
structure Face where
  kind : Element.Kind
  name : String
  children : List Nat
deriving DecidableEq, Repr

def face? (t : Outline) (id : Nat) : Option Face :=
  (t.get? id).map fun e => ⟨e.kind, e.name, e.children⟩

/-- Ordered trees, each node with a kind and a name. -/
inductive Trees
  | nil
  | node (kind : Element.Kind) (name : String) (children rest : Trees)
deriving DecidableEq, Repr

/-- The trees of these elements, in this order, where `look` shows the elements. -/
inductive HasTrees (look : Nat → Option Face) : List Nat → Trees → Prop
  | nil : HasTrees look [] .nil
  | node {id : Nat} {kind : Element.Kind} {name : String} {below ids : List Nat} {children rest : Trees} :
    look id = some ⟨kind, name, below⟩ → HasTrees look below children → HasTrees look ids rest →
    HasTrees look (id :: ids) (.node kind name children rest)

namespace Trees

def marks : Trees → List Mark
  | nil => []
  | node kind name children rest => .enter kind name none :: (children.marks ++ .leave :: rest.marks)

theorem mem_marks {trees : Trees} {mark : Mark} (h : mark ∈ trees.marks) :
    mark = .leave ∨ ∃ kind name, mark = .enter kind name none := by
  induction trees with
  | nil => simp [marks] at h
  | node kind name children rest ihc ih =>
    simp only [marks, List.mem_cons, List.mem_append] at h
    rcases h with rfl | h | rfl | h
    · exact .inr ⟨kind, name, rfl⟩
    · exact ihc h
    · exact .inl rfl
    · exact ih h

/-- Trees are told by their marks, up to where no further element begins. -/
theorem marks_append_inj {trees other : Trees} {more more' : List Mark}
    (h : trees.marks ++ more = other.marks ++ more')
    (hmore : ∀ kind name doc, .enter kind name doc ∉ more.head?)
    (hmore' : ∀ kind name doc, .enter kind name doc ∉ more'.head?) : trees = other ∧ more = more' := by
  induction trees generalizing other more more' with
  | nil =>
    cases other with
    | nil => exact ⟨rfl, h⟩
    | node kind name children rest =>
      obtain rfl : more = _ := h
      exact absurd rfl (hmore kind name none)
  | node kind name children rest ihc ih =>
    cases other with
    | nil =>
      obtain rfl : _ = more' := h
      exact absurd rfl (hmore' kind name none)
    | node kind' name' children' rest' =>
      simp only [marks, List.cons_append, List.append_assoc, List.cons.injEq, Mark.enter.injEq, and_true] at h
      obtain ⟨⟨rfl, rfl⟩, h⟩ := h
      obtain ⟨rfl, hrest⟩ := ihc h (by simp) (by simp)
      obtain ⟨rfl, rfl⟩ := ih (List.cons.inj hrest).2 hmore hmore'
      exact ⟨rfl, rfl⟩

theorem marks_inj {trees other : Trees} (h : trees.marks = other.marks) : trees = other := by
  have happend : trees.marks ++ [] = other.marks ++ [] := congrArg (· ++ []) h
  exact (marks_append_inj happend (by simp) (by simp)).1

end Trees

/-- What the tree of an outline with its comments shows of an element. -/
structure DocFace where
  kind : Element.Kind
  name : String
  children : List Nat
  docs : List DocComment
deriving DecidableEq, Repr

def docFace? (t : Outline) (id : Nat) : Option DocFace :=
  (t.get? id).map fun e => ⟨e.kind, e.name, e.children, e.docs⟩

theorem lt_size_of_docFace? {t : Outline} {id : Nat} {face : DocFace} (h : t.docFace? id = some face) :
    id < t.size := by
  refine Nat.lt_of_not_le fun hle => ?_
  rw [docFace?, (get?_eq_none_iff t id).mpr hle] at h
  simp at h

/-- Ordered trees of elements with their comments. Where the members of a module are read from another file,
that file is told too. -/
inductive DocTrees
  | nil
  | node (kind : Element.Kind) (name : String) (docs : List DocComment) (file : Option Path)
    (children rest : DocTrees)
deriving DecidableEq, Repr

/-- The trees of these elements, in this order, where `look` shows the elements. The files are not shown. -/
inductive HasDocTrees (look : Nat → Option DocFace) : List Nat → DocTrees → Prop
  | nil : HasDocTrees look [] .nil
  | node {id : Nat} {kind : Element.Kind} {name : String} {docs : List DocComment} {file : Option Path}
    {below ids : List Nat} {children rest : DocTrees} :
    look id = some ⟨kind, name, below, docs⟩ → HasDocTrees look below children → HasDocTrees look ids rest →
    HasDocTrees look (id :: ids) (.node kind name docs file children rest)

theorem HasDocTrees.mono {look other : Nat → Option DocFace} {ids : List Nat} {trees : DocTrees}
    (h : HasDocTrees look ids trees) (hle : ∀ id face, look id = some face → other id = some face) :
    HasDocTrees other ids trees := by
  induction h with
  | nil => exact .nil
  | node hface _ _ ihc ih => exact .node (hle _ _ hface) ihc ih

/-- The trees without the comments. -/
def DocTrees.trees : DocTrees → Trees
  | nil => .nil
  | node kind name _ _ children rest => .node kind name children.trees rest.trees

theorem HasDocTrees.hasTrees {t : Outline} {ids : List Nat} {trees : DocTrees}
    (h : HasDocTrees t.docFace? ids trees) : HasTrees t.face? ids trees.trees := by
  induction h with
  | nil => exact .nil
  | @node id kind name docs file below ids children rest hface _ _ ihc ih =>
    have hbare : t.face? id = (t.docFace? id).map fun e => ⟨e.kind, e.name, e.children⟩ := by
      rw [face?, docFace?, Option.map_map]
      rfl
    exact .node (hbare.trans (congrArg _ hface)) ihc ih

end Doctest.Outline
