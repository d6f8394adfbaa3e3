import Doctest.Proofs.Outline.Comments
import Doctest.Proofs.Outline.Cursors

/-! What the reading of a file changes in an outline: one element gets children and comments, and all that is new
is below it. -/
namespace Doctest

/-- An element with more children and comments. -/
def Element.receive (ids : List Nat) (docs : List DocComment) (e : Element) : Element :=
  { e with children := e.children ++ ids, docs := Outline.attachAll e.docs docs }

namespace Outline

/-- The children of an element that are numbered from `n` on. -/
def childrenFrom (t : Outline) (n parent : Nat) : List Nat :=
  (List.range t.size).filter fun id => n ≤ id ∧ t.parent? id = some parent

theorem childrenFrom_congr {t t' : Outline} (hsize : t'.size = t.size) (hparent : t'.parent? = t.parent?)
    (n parent : Nat) : t'.childrenFrom n parent = t.childrenFrom n parent := by
  rw [childrenFrom, hsize, hparent, childrenFrom]

theorem childrenFrom_size (t : Outline) (parent : Nat) : t.childrenFrom t.size parent = [] := by
  refine List.filter_eq_nil_iff.mpr fun id hid => ?_
  have hlt := List.mem_range.mp hid
  simp only [decide_eq_true_eq]
  omega

theorem childrenFrom_addChild (t : Outline) {n parent above : Nat} (hn : n ≤ t.size) (h : above < t.size)
    (kind : Element.Kind) (name : String) :
    (t.addChild above kind name).2.childrenFrom n parent =
      t.childrenFrom n parent ++ if above = parent then [t.size] else [] := by
  have hold : (List.range t.size).filter
      (fun id => n ≤ id ∧ (t.addChild above kind name).2.parent? id = some parent) =
        t.childrenFrom n parent := by
    refine List.filter_congr fun id hid => ?_
    rw [parent?_addChild t id h, if_neg (Nat.ne_of_lt (List.mem_range.mp hid))]
  rw [childrenFrom, size_addChild, List.range_succ, List.filter_append, hold, List.filter_singleton,
    parent?_addChild t t.size h, if_pos rfl]
  simp [hn]

/-- What was in the outline `t` is as it was, but the element `parent` has these comments and more children. What
is new is below it. -/
structure Cursor.Keeps (t : Outline) (parent : Nat) (docs : List DocComment) (c : Cursor) : Prop where
  parent_lt : parent < t.size
  base_eq : c.base = parent
  frames_new : ∀ frame ∈ c.frames, t.size ≤ frame.id ∧ frame.id < c.outline.size
  size_le : t.size ≤ c.outline.size
  roots_eq : c.outline.roots = t.roots
  get?_eq : ∀ id < t.size, id ≠ parent → c.outline.get? id = t.get? id
  parent_eq : c.outline.get? parent =
    (t.get? parent).map (Element.receive (c.outline.childrenFrom t.size parent) docs)
  exists_parent : ∀ id, t.size ≤ id → id < c.outline.size →
    ∃ p < id, c.outline.parent? id = some p ∧ (p = parent ∨ t.size ≤ p)

namespace Cursor.Keeps

variable {t : Outline} {parent : Nat} {docs : List DocComment} {c : Cursor}

theorem start (t : Outline) {parent : Nat} (h : parent < t.size) :
    Keeps t parent [] ⟨t, parent, [], [], []⟩ := by
  refine ⟨h, rfl, by simp, Nat.le_refl _, rfl, fun _ _ _ => rfl, ?_, fun id hle hlt => ?_⟩
  · have hid : Element.receive [] [] = id := funext fun e => by simp [Element.receive, attachAll]
    rw [childrenFrom_size, hid, Option.map_id, id]
  · exact absurd hlt (Nat.not_lt.mpr hle)

/-- What is open is the element `parent` or new. -/
theorem here_cases (h : c.Keeps t parent docs) :
    c.here = parent ∨ t.size ≤ c.here ∧ c.here < c.outline.size := by
  rcases c.here_mem with heq | ⟨frame, hframe, heq⟩
  · exact .inl (heq.trans h.base_eq)
  · exact .inr (heq ▸ h.frames_new frame hframe)

theorem here_lt (h : c.Keeps t parent docs) : c.here < c.outline.size := by
  rcases h.here_cases with heq | ⟨-, hlt⟩
  · exact heq ▸ h.parent_lt.trans_le h.size_le
  · exact hlt

theorem enter (h : c.Keeps t parent docs) (kind : Element.Kind) (name : String) :
    (c.enter kind name).Keeps t parent docs := by
  have hlt := h.here_lt
  have hsize : (c.enter kind name).outline.size = c.outline.size + 1 := size_addChild _ _ _ _
  have hget (id : Nat) := get?_addChild c.outline id hlt kind name
  have hle := h.size_le
  refine ⟨h.parent_lt, h.base_eq, ?_, by omega, h.roots_eq, fun id hid hne => ?_, ?_, fun id hle hid => ?_⟩
  · rw [hsize]
    refine List.forall_mem_cons.mpr ⟨⟨hle, Nat.lt_succ_self _⟩, fun frame hframe => ?_⟩
    obtain ⟨hnew, hold⟩ := h.frames_new frame hframe
    exact ⟨hnew, Nat.lt_succ_of_lt hold⟩
  · have hhere : c.here ≠ id := by
      rcases h.here_cases with heq | ⟨hnew, -⟩ <;> omega
    refine (hget id).trans ?_
    rw [if_neg (by omega), if_neg hhere]
    exact h.get?_eq id hid hne
  · have hparent := h.parent_lt
    have hchildren : (c.enter kind name).outline.childrenFrom t.size parent =
        c.outline.childrenFrom t.size parent ++ if c.here = parent then [c.outline.size] else [] :=
      childrenFrom_addChild c.outline hle hlt kind name
    refine (hget parent).trans ?_
    rw [if_neg (by omega), hchildren, h.parent_eq]
    split
    · rw [Option.map_map]
      refine congrArg (Option.map · _) (funext fun e => ?_)
      simp [Element.receive]
    · rw [List.append_nil]
  · have hparent : (c.enter kind name).outline.parent? id =
        if id = c.outline.size then some c.here else c.outline.parent? id :=
      parent?_addChild c.outline id hlt kind name
    rw [hparent]
    split
    · next heq =>
      exact ⟨c.here, heq ▸ hlt, rfl, h.here_cases.imp_right (·.1)⟩
    · exact h.exists_parent id hle (by omega)

/-- A comment on a new element. -/
theorem attach (h : c.Keeps t parent docs) {target : Nat} (htarget : t.size ≤ target) (file : Option Path)
    (doc : Option DocRun) : (c.attach target file doc).Keeps t parent docs := by
  have hsame (id : Nat) (hid : id < t.size) := get?_attach c target file doc id (by omega)
  have hparent (id : Nat) : (c.attach target file doc).outline.parent? id = c.outline.parent? id := by
    rw [parent?_eq_label?, label?_attach, ← parent?_eq_label?]
  have hsize := size_attach c target file doc
  have hchildren := childrenFrom_congr hsize (funext hparent) t.size parent
  refine ⟨h.parent_lt, (base_attach ..).trans h.base_eq, ?_, hsize ▸ h.size_le, ?_, fun id hid hne => ?_, ?_,
    fun id hle hid => ?_⟩
  · rw [frames_attach, hsize]
    exact h.frames_new
  · cases doc <;> exact h.roots_eq
  · exact (hsame id hid).trans (h.get?_eq id hid hne)
  · rw [hchildren]
    exact (hsame parent h.parent_lt).trans h.parent_eq
  · rw [hparent]
    exact h.exists_parent id hle (hsize ▸ hid)

/-- A comment on the element `parent`. -/
theorem attach_parent (h : c.Keeps t parent docs) (file : Option Path) (run : DocRun) :
    (c.attach parent file (some run)).Keeps t parent (docs ++ [run.toComment file]) := by
  have hparent (id : Nat) := parent?_attachDoc c.outline id parent (run.toComment file)
  have hsize := size_attach c parent file (some run)
  have hchildren := childrenFrom_congr hsize (funext hparent) t.size parent
  refine ⟨h.parent_lt, h.base_eq, hsize ▸ h.frames_new, hsize ▸ h.size_le, h.roots_eq, fun id hid hne => ?_, ?_,
    fun id hle hid => ?_⟩
  · exact (get?_attach _ _ _ _ _ hne.symm).trans (h.get?_eq id hid hne)
  · rw [hchildren]
    refine (get?_attachDoc c.outline parent parent (run.toComment file)).trans ?_
    rw [if_pos rfl, h.parent_eq, Option.map_map]
    refine congrArg (Option.map · _) (funext fun e => ?_)
    simp [Element.receive, attachAll]
  · exact hparent id ▸ h.exists_parent id hle (hsize ▸ hid)

/-- **What a mark changes**, at most one comment of the element `parent` among it. -/
theorem step (h : c.Keeps t parent docs) (file : Option Path) (mark : Mark) :
    ∃ more, (c.step file mark).Keeps t parent (docs ++ more) ∧
      ∀ d ∈ more, ∃ run, mark = .doc run ∧ d = run.toComment file := by
  have same {d : Cursor} (hd : d.Keeps t parent docs) : ∃ more, d.Keeps t parent (docs ++ more) ∧
      ∀ e ∈ more, ∃ run, mark = .doc run ∧ e = run.toComment file :=
    ⟨[], by rwa [List.append_nil], by simp⟩
  cases mark with
  | enter kind name doc => exact same ((h.enter kind name).attach h.size_le file doc)
  | leave =>
    refine same ⟨h.parent_lt, h.base_eq, fun frame hframe => ?_, h.size_le, h.roots_eq, h.get?_eq, h.parent_eq,
      h.exists_parent⟩
    exact h.frames_new frame (List.mem_of_mem_tail hframe)
  | doc run =>
    have hstep : c.step file (.doc run) = c.attach c.here file (some run) := rfl
    rcases h.here_cases with heq | ⟨hnew, -⟩
    · rw [hstep, heq]
      refine ⟨[run.toComment file], h.attach_parent file run, fun d hd => ⟨run, rfl, ?_⟩⟩
      exact List.mem_singleton.mp hd
    · exact same (hstep ▸ h.attach hnew file (some run))
  | outside span =>
    obtain ⟨modules, heq⟩ := c.step_outside file span
    refine same (heq ▸ ⟨h.parent_lt, h.base_eq, h.frames_new, h.size_le, h.roots_eq, h.get?_eq, h.parent_eq,
      h.exists_parent⟩)
  | fault f =>
    exact same ⟨h.parent_lt, h.base_eq, h.frames_new, h.size_le, h.roots_eq, h.get?_eq, h.parent_eq,
      h.exists_parent⟩

theorem foldl (h : c.Keeps t parent docs) (file : Option Path) (marks : List Mark) :
    ∃ more, (marks.foldl (Cursor.step file) c).Keeps t parent (docs ++ more) ∧
      ∀ d ∈ more, ∃ run, .doc run ∈ marks ∧ d = run.toComment file := by
  induction marks generalizing c docs with
  | nil => exact ⟨[], by rwa [List.append_nil], by simp⟩
  | cons mark marks ih =>
    obtain ⟨own, hstep, hown⟩ := h.step file mark
    obtain ⟨more, hrest, hmore⟩ := ih hstep
    refine ⟨own ++ more, by rwa [← List.append_assoc], fun d hd => ?_⟩
    rcases List.mem_append.mp hd with hd | hd
    · obtain ⟨run, rfl, rfl⟩ := hown d hd
      exact ⟨run, List.mem_cons_self, rfl⟩
    · obtain ⟨run, hrun, rfl⟩ := hmore d hd
      exact ⟨run, List.mem_cons_of_mem _ hrun, rfl⟩

/-- The way up from a new element comes to the element `parent`. -/
theorem mem_ancestors (h : c.Keeps t parent docs) {above : Element}
    (habove : c.outline.get? parent = some above) {id : Nat} (hle : t.size ≤ id) (hlt : id < c.outline.size) :
    above ∈ (c.outline.ancestors id).tail := by
  induction id using Nat.strongRecOn with
  | ind id ih =>
    obtain ⟨p, hp, hparent, hplace⟩ := h.exists_parent id hle hlt
    obtain ⟨e, he, heparent⟩ := Option.bind_eq_some_iff.mp hparent
    rw [ancestors]
    simp only [he, heparent]
    rw [if_pos hp, List.tail_cons]
    rcases hplace with rfl | hnew
    · rw [ancestors]
      simp only [habove]
      split
      · exact List.mem_singleton_self above
      · split <;> exact List.mem_cons_self
    · exact List.mem_of_mem_tail (ih p hp hnew (hp.trans hlt))

end Cursor.Keeps

/-- A comment on what encloses it is made of such comments that follow each other in the file. -/
theorem exists_tokens_of_doc_mem {source : String} {lines : LineMap} {tokens : List Token} {run : DocRun}
    (h : .doc run ∈ Mark.ofTokens source lines 0 none 0 tokens) (file : Option Path) :
    ∃ comments : List Token, comments <:+: tokens ∧ comments ≠ [] ∧ (∀ t ∈ comments, isInner t) ∧
      docComment? lines file (comments.filterMap (·.comment?)) = some (run.toComment file) := by
  rw [← Event.marks_ofTokens] at h
  obtain ⟨cs, hcs, hrun⟩ := Event.exists_inner_of_doc_mem h
  obtain ⟨t, us, hsuffix, ht, rfl⟩ := Event.exists_suffix_of_inner_mem hcs
  refine ⟨t :: us.takeWhile isInner, ?_, by simp, ?_, ?_⟩
  · exact ((List.prefix_cons_inj t).mpr (us.takeWhile_prefix isInner)).isInfix.trans hsuffix.isInfix
  · exact List.forall_mem_cons.mpr ⟨ht, fun u hu => List.mem_takeWhile_imp hu⟩
  · rw [← docRun_none, hrun, Option.map_some]

/-- The modules that a file leaves to other files are new elements. -/
theorem exists_module_of_mem {t : Outline} {parent : Nat} (h : parent < t.size) (file : Option Path)
    (source : String) (tokens : List Token) {m : OutsideModule}
    (hm : m ∈ (t.readTokens parent file source tokens).modules) :
    t.size ≤ m.id ∧ ∃ e, (t.readTokens parent file source tokens).outline.get? m.id = some e ∧
      e.kind = .module ∧ e.name = m.name := by
  obtain ⟨contents, hcontents⟩ := Contents.exists_ofTokens_eq source (.ofString source) tokens
  have hread := Cursor.reads_contents file contents ⟨t, parent, [], [], []⟩ h
  rw [← hcontents] at hread
  obtain ⟨hgains, hstands⟩ := hread
  have heq : (t.readTokens parent file source tokens).modules = contents.modules [] t.size := hgains.modules_eq
  have hmodules : m ∈ contents.modules [] t.size := heq ▸ hm
  obtain ⟨docs, hlook⟩ := hstands.look_eq hmodules
  obtain ⟨e, he, hface⟩ := Option.map_eq_some_iff.mp hlook
  obtain ⟨hkind, hname, -⟩ := DocFace.mk.inj hface
  exact ⟨(Contents.mem_modules hmodules).1, e, he, hkind, hname⟩

/-- **A file is read below its parent, and nowhere else.** Each other element that was there stays as it is. The
parent keeps its number, kind, name and place. Its children are followed by the new ones, and its comments are
followed by, or merged with, those that the file has on what encloses it. The parent is a proper ancestor of each
new element. A module that is left to another file is a new element of that name. -/
theorem readTokens_frame (t : Outline) {parent : Nat} (h : parent < t.size) (file : Option Path) (source : String)
    (tokens : List Token) :
    let r := t.readTokens parent file source tokens
    t.size ≤ r.outline.size ∧ r.outline.roots = t.roots ∧
      (∀ id < t.size, id ≠ parent → r.outline.get? id = t.get? id) ∧
      (∃ e docs, t.get? parent = some e ∧
        r.outline.get? parent = some { e with
          children := e.children ++ r.outline.childrenFrom t.size parent
          docs := attachAll e.docs docs } ∧
        (∀ d ∈ docs, ∃ comments : List Token, comments <:+: tokens ∧ comments ≠ [] ∧
          (∀ t ∈ comments, isInner t) ∧
          docComment? (.ofString source) file (comments.filterMap (·.comment?)) = some d) ∧
        ∀ id, t.size ≤ id → id < r.outline.size →
          ∃ above ∈ (r.outline.ancestors id).tail, r.outline.get? parent = some above) ∧
      ∀ m ∈ r.modules, t.size ≤ m.id ∧
        ∃ e, r.outline.get? m.id = some e ∧ e.kind = .module ∧ e.name = m.name := by
  intro r
  obtain ⟨docs, hkeeps, hdocs⟩ := (Cursor.Keeps.start t h).foldl file
    (Mark.ofTokens source (.ofString source) 0 none 0 tokens)
  obtain ⟨e, he⟩ : ∃ e, t.get? parent = some e := ⟨_, Array.getElem?_eq_getElem h⟩
  have hparent : r.outline.get? parent =
      some (e.receive (r.outline.childrenFrom t.size parent) docs) := by
    have heq := hkeeps.parent_eq
    rw [he] at heq
    exact heq
  refine ⟨hkeeps.size_le, hkeeps.roots_eq, hkeeps.get?_eq, ⟨e, docs, he, hparent, fun d hd => ?_,
    fun id hle hlt => ?_⟩, fun m hm => exists_module_of_mem h file source tokens hm⟩
  · obtain ⟨run, hrun, rfl⟩ := hdocs d hd
    exact exists_tokens_of_doc_mem hrun file
  · exact ⟨_, hkeeps.mem_ancestors hparent hle hlt, hparent⟩

/-- A faulty file with a comment on its parent and a module, read below a crate that has a function. -/
theorem readTokens_frame_crate :
    let t := ((empty.addRoot .crate "c").2.addChild 0 .function "f").2
    let tokens : List Token := [⟨.innerDoc "d", ⟨0, 5⟩⟩, ⟨.keyword .modKw, ⟨6, 9⟩⟩, ⟨.name "m", ⟨10, 11⟩⟩,
      ⟨.symbol .semi, ⟨11, 12⟩⟩, ⟨.closing .brace, ⟨12, 13⟩⟩, ⟨.eof, ⟨13, 13⟩⟩]
    let r := t.readTokens 0 none "" tokens
    0 < t.size ∧ r.outline.get? 1 = t.get? 1 ∧ r.outline.size = 3 ∧
      (∃ above ∈ (r.outline.ancestors 2).tail, r.outline.get? 0 = some above) ∧
      ∀ m ∈ r.modules, ∃ e, r.outline.get? m.id = some e ∧ e.kind = .module ∧ e.name = m.name := by
  intro t tokens r
  have hparent : 0 < t.size := by decide
  obtain ⟨-, -, hsame, ⟨e, docs, -, -, -, hnew⟩, hmodules⟩ := readTokens_frame t hparent none "" tokens
  have hsize : r.outline.size = 3 := by decide +kernel
  have hlast : 2 < r.outline.size := by
    rw [hsize]
    decide
  exact ⟨hparent, hsame 1 (by decide) (by decide), hsize, hnew 2 (by decide) hlast, fun m hm => (hmodules m hm).2⟩

end Outline

end Doctest
