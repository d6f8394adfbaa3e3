import Mathlib.Data.List.Perm.Basic
import Doctest.Proofs.Session.Walk

/-! Outlines that are built element by element are forests. The links up to the parents, the lists of
children and the list of roots are three records of one relation, and they agree after any edits. So the
way up from an element ends at a root, and the way down from the roots meets each element once. -/
namespace Doctest.Outline

/-- The outlines that edits make of an empty one, with the numbers that have been given to elements, the
last one first. Elements are added and documented under such numbers only. -/
inductive Built : List Nat → Outline → Prop
  | empty : Built [] .empty
  | root {ids : List Nat} {t : Outline} (kind : Element.Kind) (name : String) : Built ids t →
    Built ((t.addRoot kind name).1 :: ids) (t.addRoot kind name).2
  | child {ids : List Nat} {t : Outline} {parent : Nat} (kind : Element.Kind) (name : String) :
    Built ids t → parent ∈ ids →
      Built ((t.addChild parent kind name).1 :: ids) (t.addChild parent kind name).2
  | doc {ids : List Nat} {t : Outline} {id : Nat} (doc : DocComment) : Built ids t → id ∈ ids →
    Built ids (t.attachDoc id doc)

def parent? (t : Outline) (id : Nat) : Option Nat :=
  (t.get? id).bind (·.parent)

/-- The links of the elements agree with each other and with the list of roots. -/
structure IsForest (t : Outline) : Prop where
  id_eq {id : Nat} {e : Element} : t.get? id = some e → e.id = id
  parent_lt {id p : Nat} : t.parent? id = some p → p < id
  children_eq {id : Nat} {e : Element} : t.get? id = some e →
    e.children = (List.range t.size).filter (t.parent? · = some id)
  roots_eq : t.roots = (List.range t.size).filter (t.parent? · = none)

section Edits

variable (t : Outline) (id : Nat)

theorem parent?_eq_none (h : t.size ≤ id) : t.parent? id = none := by
  rw [parent?, (get?_eq_none_iff t id).mpr h, Option.bind_none]

theorem get?_addChild {parent : Nat} (h : parent < t.size) (kind : Element.Kind) (name : String) :
    (t.addChild parent kind name).2.get? id =
      if id = t.size then some ⟨t.size, kind, name, some parent, [], []⟩
      else if parent = id then (t.get? id).map fun e => { e with children := e.children ++ [t.size] }
      else t.get? id := by
  have hsize : (t.push kind name (some parent)).1 = t.size := rfl
  simp only [addChild, get?_modify, get?_push, hsize]
  split_ifs <;> first | rfl | omega

theorem parent?_addChild {parent : Nat} (h : parent < t.size) (kind : Element.Kind) (name : String) :
    (t.addChild parent kind name).2.parent? id = if id = t.size then some parent else t.parent? id := by
  rw [parent?, get?_addChild t id h]
  split_ifs
  · rfl
  · exact Option.bind_map
  · rfl

theorem get?_addRoot (kind : Element.Kind) (name : String) : (t.addRoot kind name).2.get? id =
    if id = t.size then some ⟨t.size, kind, name, none, [], []⟩ else t.get? id :=
  t.get?_push id kind name none

theorem parent?_addRoot (kind : Element.Kind) (name : String) :
    (t.addRoot kind name).2.parent? id = t.parent? id := by
  rw [parent?, get?_addRoot]
  split_ifs with hnew
  · rw [parent?_eq_none t id (Nat.le_of_eq hnew.symm)]
    rfl
  · rfl

theorem get?_attachDoc (target : Nat) (doc : DocComment) : (t.attachDoc target doc).get? id =
    if target = id then (t.get? id).map fun e => { e with docs := DocComment.attach e.docs doc }
    else t.get? id :=
  t.get?_modify id target _

theorem parent?_attachDoc (target : Nat) (doc : DocComment) :
    (t.attachDoc target doc).parent? id = t.parent? id := by
  rw [parent?, get?_attachDoc]
  split_ifs
  · exact Option.bind_map
  · rfl

end Edits

namespace IsForest

variable {t : Outline}

/-- A parent is an element of the outline. -/
theorem parent_lt_size (h : t.IsForest) {id p : Nat} (hp : t.parent? id = some p) : p < t.size := by
  have hid : id < t.size := by
    by_contra hle
    rw [parent?_eq_none t id (Nat.le_of_not_lt hle)] at hp
    simp at hp
  exact Nat.lt_trans (h.parent_lt hp) hid

theorem empty : IsForest .empty where
  id_eq h := by simp [get?, Outline.empty] at h
  parent_lt h := by simp [parent?, get?, Outline.empty] at h
  children_eq h := by simp [get?, Outline.empty] at h
  roots_eq := rfl

theorem addRoot (h : t.IsForest) (kind : Element.Kind) (name : String) :
    (t.addRoot kind name).2.IsForest := by
  have hsize : (t.addRoot kind name).2.size = t.size + 1 := t.size_push kind name none
  have hparent : (t.addRoot kind name).2.parent? = t.parent? :=
    funext fun id => t.parent?_addRoot id kind name
  have hnone : t.parent? t.size = none := t.parent?_eq_none t.size (Nat.le_refl _)
  refine ⟨fun {id e} he => ?_, fun hp => h.parent_lt (hparent ▸ hp), fun {id e} he => ?_, ?_⟩
  · rw [get?_addRoot] at he
    split_ifs at he with hnew
    · obtain rfl := Option.some.inj he
      exact hnew.symm
    · exact h.id_eq he
  · rw [get?_addRoot] at he
    rw [hsize, hparent, List.range_succ, List.filter_append]
    split_ifs at he with hnew
    · obtain rfl := Option.some.inj he
      have hchild : ∀ c, t.parent? c ≠ some id := fun c hc => by
        have := h.parent_lt_size hc
        omega
      simp [hchild]
    · simp [h.children_eq he, hnone]
  · have hroots : (t.addRoot kind name).2.roots = t.roots ++ [t.size] := rfl
    rw [hroots, hsize, hparent, List.range_succ, List.filter_append, ← h.roots_eq]
    simp [hnone]

theorem addChild (h : t.IsForest) {parent : Nat} (hlt : parent < t.size) (kind : Element.Kind)
    (name : String) : (t.addChild parent kind name).2.IsForest := by
  have hsize : (t.addChild parent kind name).2.size = t.size + 1 := by simp [Outline.addChild]
  have hparent (id : Nat) := t.parent?_addChild id hlt kind name
  have hnone : t.parent? t.size = none := t.parent?_eq_none t.size (Nat.le_refl _)
  -- Of the elements that were there, each has the parent that it had.
  have hold (f : Option Nat → Bool) : (List.range t.size).filter
      (fun c => f ((t.addChild parent kind name).2.parent? c)) =
        (List.range t.size).filter fun c => f (t.parent? c) := by
    refine List.filter_congr fun c hc => ?_
    rw [hparent, if_neg (Nat.ne_of_lt (List.mem_range.mp hc))]
  refine ⟨fun {id e} he => ?_, fun {id p} hp => ?_, fun {id e} he => ?_, ?_⟩
  · rw [get?_addChild t id hlt] at he
    split_ifs at he with hnew hid
    · obtain rfl := Option.some.inj he
      exact hnew.symm
    · obtain ⟨e', he', rfl⟩ := Option.map_eq_some_iff.mp he
      exact (h.id_eq he' : e'.id = id)
    · exact h.id_eq he
  · rw [hparent] at hp
    split_ifs at hp with hnew
    · obtain rfl := Option.some.inj hp
      omega
    · exact h.parent_lt hp
  · rw [get?_addChild t id hlt] at he
    rw [hsize, List.range_succ, List.filter_append, hold (· = some id)]
    have hlast : [t.size].filter ((t.addChild parent kind name).2.parent? · = some id) =
        if parent = id then [t.size] else [] := by
      simp [hparent, List.filter_singleton]
    rw [hlast]
    split_ifs at he with hnew hid
    · obtain rfl := Option.some.inj he
      have hchild : ∀ c, t.parent? c ≠ some id := fun c hc => by
        have := h.parent_lt_size hc
        omega
      rw [if_neg (by omega)]
      simp [hchild]
    · obtain ⟨e', he', rfl⟩ := Option.map_eq_some_iff.mp he
      rw [if_pos hid, h.children_eq he']
    · rw [if_neg hid, List.append_nil, h.children_eq he]
  · have hroots : (t.addChild parent kind name).2.roots = t.roots := rfl
    rw [hroots, hsize, List.range_succ, List.filter_append, hold (· = none), ← h.roots_eq]
    simp [hparent]

theorem attachDoc (h : t.IsForest) (target : Nat) (doc : DocComment) :
    (t.attachDoc target doc).IsForest := by
  have hparent : (t.attachDoc target doc).parent? = t.parent? :=
    funext fun id => t.parent?_attachDoc id target doc
  have hsize : (t.attachDoc target doc).size = t.size := t.size_modify _ _
  -- The comment changes neither the number of an element nor its children.
  have hsame {id : Nat} {e : Element} (he : (t.attachDoc target doc).get? id = some e) :
      ∃ e', t.get? id = some e' ∧ e.id = e'.id ∧ e.children = e'.children := by
    rw [get?_attachDoc] at he
    split_ifs at he
    · obtain ⟨e', he', rfl⟩ := Option.map_eq_some_iff.mp he
      exact ⟨e', he', rfl, rfl⟩
    · exact ⟨e, he, rfl, rfl⟩
  refine ⟨fun {id e} he => ?_, fun hp => h.parent_lt (hparent ▸ hp), fun {id e} he => ?_, ?_⟩
  · obtain ⟨e', he', hid, -⟩ := hsame he
    rw [hid, h.id_eq he']
  · obtain ⟨e', he', -, hchildren⟩ := hsame he
    rw [hchildren, h.children_eq he', hsize, hparent]
  · rw [hsize, hparent]
    exact h.roots_eq

end IsForest

/-- The way up from an element along the links to the parents, wherever they lead. -/
inductive Chain (t : Outline) : Nat → List Element → Prop
  | root {id : Nat} {e : Element} : t.get? id = some e → e.parent = none → Chain t id [e]
  | child {id parent : Nat} {e : Element} {es : List Element} : t.get? id = some e →
    e.parent = some parent → Chain t parent es → Chain t id (e :: es)

/-- The elements that are met on the way down from some elements, each before its children. -/
inductive Walk (t : Outline) : List Nat → List Nat → Prop
  | nil : Walk t [] []
  | cons {id : Nat} {e : Element} {ids below rest : List Nat} : t.get? id = some e →
    Walk t e.children below → Walk t ids rest → Walk t (id :: ids) (id :: (below ++ rest))

theorem Walk.append {t : Outline} {as bs walk rest : List Nat} (ha : t.Walk as walk)
    (hb : t.Walk bs rest) : t.Walk (as ++ bs) (walk ++ rest) := by
  induction ha with
  | nil => exact hb
  | cons he hbelow _ _ ih =>
    have hcons := Walk.cons he hbelow ih
    rwa [← List.append_assoc] at hcons

theorem Walk.exists_of_singletons {t : Outline} {ids : List Nat}
    (h : ∀ id ∈ ids, ∃ walk, t.Walk [id] walk) : ∃ walk, t.Walk ids walk := by
  induction ids with
  | nil => exact ⟨[], .nil⟩
  | cons id ids ih =>
    obtain ⟨first, hfirst⟩ := h id List.mem_cons_self
    obtain ⟨rest, hrest⟩ := ih fun c hc => h c (List.mem_cons_of_mem _ hc)
    exact ⟨first ++ rest, hfirst.append hrest⟩

namespace IsForest

variable {t : Outline} {id : Nat} {e : Element}

section Up

theorem ancestors_eq (h : t.IsForest) (he : t.get? id = some e) :
    t.ancestors id = e :: e.parent.elim [] t.ancestors := by
  rw [ancestors]
  simp only [he]
  cases hp : e.parent with
  | none => rfl
  | some p =>
    have hlt : p < id := h.parent_lt (by rw [parent?, he]; exact hp)
    exact if_pos hlt

theorem chain_ancestors (h : t.IsForest) (hid : id < t.size) : t.Chain id (t.ancestors id) := by
  induction id using Nat.strongRecOn with
  | _ id ih =>
    obtain ⟨e, he⟩ : ∃ e, t.get? id = some e := ⟨_, Array.getElem?_eq_getElem hid⟩
    rw [h.ancestors_eq he]
    cases hp : e.parent with
    | none => exact .root he hp
    | some p =>
      have hlt : p < id := h.parent_lt (by rw [parent?, he]; exact hp)
      exact .child he hp (ih p hlt (Nat.lt_trans hlt hid))

theorem path_eq (h : t.IsForest) (he : t.get? id = some e) :
    t.path id = e.parent.elim [] t.path ++ [e.name] := by
  rw [path, h.ancestors_eq he, List.map_cons, List.reverse_cons]
  cases e.parent <;> rfl

theorem enclosingNamespace?_eq (h : t.IsForest) (he : t.get? id = some e) :
    t.enclosingNamespace? id =
      if e.kind.isNamespace then some id else e.parent.bind t.enclosingNamespace? := by
  rw [enclosingNamespace?, h.ancestors_eq he, List.find?_cons]
  cases e.kind.isNamespace with
  | true => exact congrArg some (h.id_eq he)
  | false => cases e.parent <;> rfl

end Up

section Down

theorem count_children (h : t.IsForest) (he : t.get? id = some e) (c : Nat) :
    e.children.count c = if t.parent? c = some id then 1 else 0 := by
  have hnodup : e.children.Nodup := by
    rw [h.children_eq he]
    exact List.nodup_range.filter _
  have hmem : c ∈ e.children ↔ t.parent? c = some id := by
    rw [h.children_eq he, List.mem_filter, List.mem_range, decide_eq_true_eq, and_iff_right_iff_imp]
    intro hc
    by_contra hle
    rw [parent?_eq_none t c (Nat.le_of_not_lt hle)] at hc
    simp at hc
  rw [hnodup.count]
  exact if_congr hmem rfl rfl

theorem count_roots (h : t.IsForest) (hid : id < t.size) :
    t.roots.count id = if t.parent? id = none then 1 else 0 := by
  have hnodup : t.roots.Nodup := by
    rw [h.roots_eq]
    exact List.nodup_range.filter _
  rw [hnodup.count, h.roots_eq]
  simp [hid]

theorem lt_size_of_mem_roots (h : t.IsForest) (hid : id ∈ t.roots) : id < t.size := by
  rw [h.roots_eq, List.mem_filter, List.mem_range] at hid
  exact hid.1

/-- An element is met once where a walk starts with it and once below each meeting of its parent. -/
theorem count_walk (h : t.IsForest) {ids walk : List Nat} (hw : t.Walk ids walk) (x : Nat) :
    walk.count x = ids.count x + (t.parent? x).elim 0 walk.count := by
  induction hw with
  | nil => cases t.parent? x <;> rfl
  | @cons id e ids below rest he _ _ ihbelow ihrest =>
    rw [List.count_cons, List.count_append, ihbelow, ihrest, List.count_cons, h.count_children he]
    cases t.parent? x with
    | none =>
      simp only [Option.elim, reduceCtorEq, if_false]
      omega
    | some p =>
      simp only [Option.elim, List.count_cons, List.count_append, Option.some.injEq, beq_iff_eq]
      have hcomm : (id = p) = (p = id) := propext eq_comm
      simp only [hcomm]
      omega

/-- A walk from the roots meets each element once. -/
theorem walk_perm (h : t.IsForest) {walk : List Nat} (hw : t.Walk t.roots walk) :
    walk.Perm (List.range t.size) := by
  have hcount (x : Nat) : walk.count x = if x < t.size then 1 else 0 := by
    induction x using Nat.strongRecOn with
    | _ x ih =>
      rw [h.count_walk hw]
      by_cases hx : x < t.size
      · rw [h.count_roots hx, if_pos hx]
        cases hp : t.parent? x with
        | none => rfl
        | some p =>
          simp only [Option.elim, ih p (h.parent_lt hp), if_pos (h.parent_lt_size hp)]
          rfl
      · have hroot : x ∉ t.roots := fun hmem => hx (h.lt_size_of_mem_roots hmem)
        rw [parent?_eq_none t x (Nat.le_of_not_lt hx), List.count_eq_zero_of_not_mem hroot, if_neg hx]
        rfl
  refine List.perm_iff_count.mpr fun x => ?_
  rw [hcount, List.nodup_range.count]
  simp

theorem lt_of_mem_children (h : t.IsForest) (he : t.get? id = some e) {c : Nat} (hc : c ∈ e.children) :
    id < c ∧ c < t.size := by
  rw [h.children_eq he, List.mem_filter, List.mem_range, decide_eq_true_eq] at hc
  exact ⟨h.parent_lt hc.2, hc.1⟩

theorem childrenOf_eq (h : t.IsForest) (he : t.get? id = some e) : t.childrenOf id = e.children := by
  rw [childrenOf, he, Option.map_some, Option.getD_some, List.filter_eq_self]
  exact fun c hc => decide_eq_true (h.lt_of_mem_children he hc).1

/-- The way down ends, because children are younger than their parents. -/
theorem exists_walk_singleton (h : t.IsForest) (hid : id < t.size) : ∃ walk, t.Walk [id] walk := by
  induction hn : t.size - id using Nat.strongRecOn generalizing id with
  | _ n ih =>
    obtain ⟨e, he⟩ : ∃ e, t.get? id = some e := ⟨_, Array.getElem?_eq_getElem hid⟩
    obtain ⟨below, hbelow⟩ := Walk.exists_of_singletons fun c hc =>
      have hlt := h.lt_of_mem_children he hc
      ih (t.size - c) (by omega) hlt.2 rfl
    exact ⟨_, .cons he hbelow .nil⟩

theorem exists_walk (h : t.IsForest) : ∃ walk, t.Walk t.roots walk :=
  Walk.exists_of_singletons fun _ hid => h.exists_walk_singleton (h.lt_size_of_mem_roots hid)

/-- The test snippets that a run deals with are those of the elements that are met on the way down. -/
theorem jobs_walk (h : t.IsForest) {ids walk : List Nat} (hw : t.Walk ids walk) :
    ids.flatMap t.jobs = walk.flatMap t.ownJobs := by
  induction hw with
  | nil => rfl
  | cons he _ _ ihbelow ihrest =>
    rw [List.flatMap_cons, List.flatMap_cons, List.flatMap_append, jobs_eq, h.childrenOf_eq he, ihbelow,
      ihrest, List.append_assoc]

end Down

end IsForest

/-- The numbers that edits give are the places of the elements. -/
theorem Built.isForest {ids : List Nat} {t : Outline} (h : Built ids t) :
    t.IsForest ∧ ids = (List.range t.size).reverse := by
  induction h with
  | empty => exact ⟨.empty, rfl⟩
  | root kind name _ ih =>
    obtain ⟨hforest, rfl⟩ := ih
    refine ⟨hforest.addRoot kind name, ?_⟩
    rw [show (addRoot _ kind name).2.size = _ from size_push _ kind name none, List.range_succ,
      List.reverse_concat]
    rfl
  | @child _ t parent kind name _ hparent ih =>
    obtain ⟨hforest, rfl⟩ := ih
    have hlt : parent < t.size := by simpa using hparent
    refine ⟨hforest.addChild hlt kind name, ?_⟩
    rw [show (t.addChild parent kind name).2.size = t.size + 1 by simp [addChild], List.range_succ,
      List.reverse_concat]
    rfl
  | @doc _ t id doc _ _ ih =>
    obtain ⟨hforest, rfl⟩ := ih
    refine ⟨hforest.attachDoc id doc, ?_⟩
    rw [show (t.attachDoc id doc).size = t.size from t.size_modify _ _]

/-- However an outline was built, its records of who is below whom agree. An element's number is its
place, and its parent is older. It is once among the children of its parent, or once among the roots, and
nowhere else. The way up from it ends, and gives its path and its namespace. The way down from the roots
meets each element once, and a plan goes that way. -/
theorem Built.links_agree {ids : List Nat} {t : Outline} (h : Built ids t) :
    ids = (List.range t.size).reverse ∧
    (∀ id e, t.get? id = some e →
      e.id = id ∧
      (∀ p, e.parent = some p → p < id) ∧
      (∀ c, e.children.count c = if t.parent? c = some id then 1 else 0) ∧
      t.Chain id (t.ancestors id) ∧
      t.path id = e.parent.elim [] t.path ++ [e.name] ∧
      t.enclosingNamespace? id =
        if e.kind.isNamespace then some id else e.parent.bind t.enclosingNamespace?) ∧
    t.roots = (List.range t.size).filter (t.parent? · = none) ∧
    ∃ walk, t.Walk t.roots walk ∧ walk.Perm (List.range t.size) ∧
      t.plan t.roots = (t.planJobs .empty (walk.flatMap t.ownJobs)).1 := by
  obtain ⟨hforest, hids⟩ := h.isForest
  refine ⟨hids, fun id e he => ?_, hforest.roots_eq, ?_⟩
  · have hid : id < t.size := Nat.lt_of_not_le fun hle => by
      rw [(get?_eq_none_iff t id).mpr hle] at he
      simp at he
    have hparent (p : Nat) (hp : e.parent = some p) : p < id :=
      hforest.parent_lt (by rw [parent?, he]; exact hp)
    exact ⟨hforest.id_eq he, hparent, hforest.count_children he, hforest.chain_ancestors hid,
      hforest.path_eq he, hforest.enclosingNamespace?_eq he⟩
  · obtain ⟨walk, hwalk⟩ := hforest.exists_walk
    refine ⟨walk, hwalk, hforest.walk_perm hwalk, ?_⟩
    rw [plan_eq_planJobs, hforest.jobs_walk hwalk]

/-- Two crates: the first with a documented function in a module, the second empty. -/
theorem links_agree_two_crates :
    let crates := ((empty.addRoot .crate "shapes").2.addChild 0 .module "geometry").2.addRoot .crate "tools"
    let t := (crates.2.addChild 1 .function "area").2.attachDoc 3 ⟨"The area.", none, 1⟩
    Built [3, 2, 1, 0] t ∧ t.roots = [0, 2] ∧ t.path 3 = t.path 1 ++ ["area"] ∧
      ∃ walk, t.Walk t.roots walk ∧ walk.Perm [0, 1, 2, 3] := by
  intro crates t
  have hshapes : Built [0] (empty.addRoot .crate "shapes").2 := Built.empty.root .crate "shapes"
  have hcrates : Built [2, 1, 0] crates.2 :=
    (hshapes.child .module "geometry" (List.mem_singleton_self 0)).root .crate "tools"
  have h : Built [3, 2, 1, 0] t :=
    (hcrates.child .function "area" (by decide : 1 ∈ [2, 1, 0])).doc _ List.mem_cons_self
  obtain ⟨-, helement, hroots, walk, hwalk, hperm, -⟩ := h.links_agree
  obtain ⟨-, -, -, -, hpath, -⟩ := helement 3 _ rfl
  exact ⟨h, by decide, hpath, walk, hwalk, hperm⟩

end Doctest.Outline
