import Mathlib.Data.List.Forall2
import Doctest.Proofs.Outline.Contents
import Doctest.Proofs.Outline.Trees

/-! The trees of the contents of a file, in which the modules that are in other files are left to be filled with
what is read from there. -/
namespace Doctest.Outline

/-- Puts comments after others, one by one. -/
def attachAll (docs more : List DocComment) : List DocComment :=
  more.foldl DocComment.attach docs

/-- What a module in another file gets from there. A module without a file stays as it is. -/
structure Body where
  file : Option Path
  docs : List DocComment
  trees : DocTrees
deriving DecidableEq, Repr

def Body.empty : Body :=
  ⟨none, [], .nil⟩

/-- The comments that stand before an item. -/
def headDocs (file : Option Path) (doc : Option DocRun) : List DocComment :=
  (doc.map (·.toComment file)).toList

namespace Contents

/-- The modules that are in other files. -/
def holes : Contents → Nat
  | nil => 0
  | inner _ rest => rest.holes
  | fault _ rest => rest.holes
  | item _ _ _ members rest => members.holes + rest.holes
  | outside _ _ _ rest => rest.holes + 1

/-- The trees of the contents of a file, where the modules in other files have these bodies. -/
def fill (file : Option Path) : Contents → List Body → DocTrees
  | nil, _ => .nil
  | inner _ rest, bodies => rest.fill file bodies
  | fault _ rest, bodies => rest.fill file bodies
  | item kind name run members rest, bodies =>
    .node kind name (attachAll (headDocs file run) (members.docs file)) none
      (members.fill file (bodies.take members.holes)) (rest.fill file (bodies.drop members.holes))
  | outside name run _ rest, bodies =>
    let body := bodies.headD .empty
    .node .module name (attachAll (headDocs file run) body.docs) body.file body.trees
      (rest.fill file bodies.tail)

/-- The elements from `n` on are those of the contents. Modules in other files have no members yet. -/
def Stands (file : Option Path) (look : Nat → Option DocFace) : Contents → (n : Nat) → Prop
  | nil, _ => True
  | inner _ rest, n => rest.Stands file look n
  | fault _ rest, n => rest.Stands file look n
  | item kind name run members rest, n =>
    look n = some ⟨kind, name, members.ids (n + 1), attachAll (headDocs file run) (members.docs file)⟩ ∧
      members.Stands file look (n + 1) ∧ rest.Stands file look (n + 1 + members.size)
  | outside name run _ rest, n =>
    look n = some ⟨.module, name, [], headDocs file run⟩ ∧ rest.Stands file look (n + 1)

theorem length_modules (contents : Contents) (above : List String) (n : Nat) :
    (contents.modules above n).length = contents.holes := by
  induction contents generalizing above n with
  | nil => rfl
  | inner run rest ih => exact ih above n
  | fault f rest ih => exact ih above n
  | item kind name run members rest ihm ih => rw [modules, List.length_append, ihm, ih, holes]
  | outside name run span rest ih => rw [modules, List.length_cons, ih, holes]

theorem Stands.congr {file : Option Path} {look other : Nat → Option DocFace} {contents : Contents} {n : Nat}
    (h : contents.Stands file look n) (hsame : ∀ id, n ≤ id → id < n + contents.size → other id = look id) :
    contents.Stands file other n := by
  induction contents generalizing n with
  | nil => trivial
  | inner run rest ih => exact ih h hsame
  | fault f rest ih => exact ih h hsame
  | item kind name run members rest ihm ih =>
    obtain ⟨hface, hmembers, hrest⟩ := h
    rw [size] at hsame
    refine ⟨?_, ihm hmembers fun id _ _ => hsame id (by omega) (by omega),
      ih hrest fun id _ _ => hsame id (by omega) (by omega)⟩
    rw [hsame n (Nat.le_refl n) (by omega), hface]
  | outside name run span rest ih =>
    obtain ⟨hface, hrest⟩ := h
    rw [size] at hsame
    refine ⟨?_, ih hrest fun id _ _ => hsame id (by omega) (by omega)⟩
    rw [hsame n (Nat.le_refl n) (by omega), hface]

/-- Where the modules in other files stand among the elements. -/
theorem Stands.look_eq {file : Option Path} {look : Nat → Option DocFace} {contents : Contents}
    {above : List String} {n : Nat} (h : contents.Stands file look n) {m : OutsideModule}
    (hm : m ∈ contents.modules above n) : ∃ docs, look m.id = some ⟨.module, m.name, [], docs⟩ := by
  induction contents generalizing above n with
  | nil => simp [modules] at hm
  | inner run rest ih => exact ih h hm
  | fault f rest ih => exact ih h hm
  | item kind name run members rest ihm ih =>
    obtain ⟨-, hmembers, hrest⟩ := h
    rcases List.mem_append.mp hm with hm | hm
    · exact ihm hmembers hm
    · exact ih hrest hm
  | outside name run span rest ih =>
    obtain ⟨hface, hrest⟩ := h
    rcases List.mem_cons.mp hm with rfl | hm
    · exact ⟨_, hface⟩
    · exact ih hrest hm

end Contents

/-- A module that waits for its file in one outline has this body in another. -/
def Receives (look other : Nat → Option DocFace) (m : OutsideModule) (body : Body) : Prop :=
  ∃ docs below, look m.id = some ⟨.module, m.name, [], docs⟩ ∧
    other m.id = some ⟨.module, m.name, below, attachAll docs body.docs⟩ ∧ HasDocTrees other below body.trees

/-- When the modules in other files have got their bodies, the contents have the filled trees. -/
theorem Contents.Stands.hasDocTrees {file : Option Path} {look other : Nat → Option DocFace}
    {contents : Contents} {above : List String} {n : Nat} (h : contents.Stands file look n)
    (hsame : ∀ id, n ≤ id → id < n + contents.size → (∀ m ∈ contents.modules above n, m.id ≠ id) →
      other id = look id)
    {bodies : List Body} (hbodies : List.Forall₂ (Receives look other) (contents.modules above n) bodies) :
    HasDocTrees other (contents.ids n) (contents.fill file bodies) := by
  induction contents generalizing above n bodies with
  | nil => exact .nil
  | inner run rest ih => exact ih h hsame hbodies
  | fault f rest ih => exact ih h hsame hbodies
  | item kind name run members rest ihm ih =>
    obtain ⟨hface, hmembers, hrest⟩ := h
    have hfront := List.forall₂_take members.holes hbodies
    have hback := List.forall₂_drop members.holes hbodies
    rw [modules, List.take_left' (length_modules _ _ _)] at hfront
    rw [modules, List.drop_left' (length_modules _ _ _)] at hback
    rw [size] at hsame
    have hself : other n = look n := by
      refine hsame n (Nat.le_refl n) (by omega) fun m hm => ?_
      rcases List.mem_append.mp hm with hm | hm <;>
        have := mem_modules hm <;> omega
    refine .node (hself.trans hface) (ihm hmembers (fun id hle hlt hne => ?_) hfront)
      (ih hrest (fun id hle hlt hne => ?_) hback)
    · refine hsame id (by omega) (by omega) fun m hm => ?_
      rcases List.mem_append.mp hm with hm | hm
      · exact hne m hm
      · have := mem_modules hm
        omega
    · refine hsame id (by omega) (by omega) fun m hm => ?_
      rcases List.mem_append.mp hm with hm | hm
      · have := mem_modules hm
        omega
      · exact hne m hm
  | outside name run span rest ih =>
    obtain ⟨hface, hrest⟩ := h
    rw [size] at hsame
    cases hbodies with
    | cons hbody hbodies =>
      obtain ⟨docs, below, hself, hself', hbelow⟩ := hbody
      obtain rfl : headDocs file run = docs := by simpa [hface] using hself
      refine .node hself' hbelow (ih hrest (fun id hle hlt hne => ?_) hbodies)
      refine hsame id (by omega) (by omega) fun m hm => ?_
      rcases List.mem_cons.mp hm with rfl | hm
      · dsimp only
        omega
      · exact hne m hm

end Doctest.Outline
