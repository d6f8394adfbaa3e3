import Doctest.Unit.Basic

/-! The test snippets of an outline in the order of a run, named as the run names them. -/
namespace Doctest

/-- An ignored snippet has no unit, and its unit's name is empty. -/
structure Planned where
  unit : String
  element : String
  location : String
  ignored : Bool
deriving DecidableEq, Repr

namespace Planned

/-- Plans one snippet of a comment on an element. -/
def ofSnippet (t : Outline) (id : Nat) (doc : DocComment) (r : NameRegistry) (s : Snippet) :
    Planned × NameRegistry :=
  let element := t.qualifiedName id
  let location := doc.location (s.line - doc.line)
  if s.isIgnored then (⟨"", element, location, true⟩, r)
  else
    let (unit, r) := TestUnit.synthesize t id s r
    (⟨unit.name, element, location, false⟩, r)

/-- Plans a list of test snippets, each with its comment. -/
def ofSnippets (t : Outline) (id : Nat) (r : NameRegistry) :
    List (DocComment × Snippet) → List Planned × NameRegistry
  | [] => ([], r)
  | (doc, s) :: rest =>
    let (first, r) := ofSnippet t id doc r s
    let (others, r) := ofSnippets t id r rest
    (first :: others, r)

/-- The test snippets of an element's own comments. -/
def tests (e : Element) : List (DocComment × Snippet) :=
  e.docs.flatMap fun doc => ((Snippet.ofComment doc).filter (·.isTest)).map (doc, ·)

end Planned

namespace Outline

/-- The children of an element that are younger than it, as all its children are. -/
def childrenOf (t : Outline) (id : Nat) : List Nat :=
  ((t.get? id).map (·.children)).getD [] |>.filter (id < ·)

theorem lt_of_mem_childrenOf {t : Outline} {id c : Nat} (h : c ∈ t.childrenOf id) : id < c := by
  simp only [childrenOf, List.mem_filter, decide_eq_true_eq] at h
  exact h.2

theorem lt_size_of_mem_childrenOf {t : Outline} {id c : Nat} (h : c ∈ t.childrenOf id) :
    id < t.size := by
  cases hg : t.get? id with
  | none => simp [childrenOf, hg] at h
  | some e => exact (Array.getElem?_eq_some_iff.mp hg).1

/-- The number of elements that are met below an element, the element included. -/
def weight (t : Outline) (id : Nat) : Nat :=
  1 + total ((t.childrenOf id).attach.map fun (c : { c // c ∈ t.childrenOf id }) => t.weight c.1)
termination_by t.size - id
decreasing_by
  have := lt_of_mem_childrenOf c.2
  have := lt_size_of_mem_childrenOf c.2
  omega

theorem total_weight_childrenOf_lt (t : Outline) (id : Nat) :
    total ((t.childrenOf id).map t.weight) < t.weight id := by
  rw [weight, List.attach_map_val (f := t.weight)]
  omega

/-- Plans the elements on a stack, each before its children. -/
def planStack (t : Outline) (r : NameRegistry) (stack : List Nat) : List Planned :=
  match stack with
  | [] => []
  | id :: rest =>
    let tests := ((t.get? id).map Planned.tests).getD []
    let (planned, r) := Planned.ofSnippets t id r tests
    planned ++ t.planStack r (t.childrenOf id ++ rest)
termination_by total (stack.map t.weight)
decreasing_by
  have := total_weight_childrenOf_lt t id
  simp only [List.map_append, List.map_cons, total_append, total_cons]
  omega

def plan (t : Outline) (roots : List Nat) : List Planned :=
  t.planStack .empty roots

end Outline

end Doctest
