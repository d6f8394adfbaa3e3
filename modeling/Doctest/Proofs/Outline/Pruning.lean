import Doctest.Proofs.Outline.Filling

/-! Trees without what is read from one file. Where the modules in other files have their bodies, this is the
same as an empty body for the module of that file. -/
namespace Doctest.Outline

/-- The trees without the children and the comments that a module gets from this file. -/
def DocTrees.without (path : Path) : DocTrees → DocTrees
  | nil => nil
  | node kind name docs file children rest =>
    if file = some path then
      node kind name (docs.filter (·.file ≠ some path)) none nil (rest.without path)
    else node kind name docs file (children.without path) (rest.without path)

def Body.without (path : Path) (body : Body) : Body :=
  if body.file = some path then .empty else { body with trees := body.trees.without path }

/-- The file that the comments of the body come from is that of the body. -/
def Body.IsFrom (body : Body) : Prop :=
  ∀ d ∈ body.docs, d.file = body.file

theorem Contents.file_of_mem_docs {contents : Contents} {file : Option Path} {d : DocComment}
    (h : d ∈ contents.docs file) : d.file = file := by
  induction contents with
  | nil => simp [docs] at h
  | inner run rest ih =>
    rcases List.mem_cons.mp h with rfl | h
    · rfl
    · exact ih h
  | fault f rest ih => exact ih h
  | item kind name run members rest ihm ih => exact ih h
  | outside name run span rest ih => exact ih h

/-- A comment does not continue one of another file. -/
theorem attach_append {docs fs : List DocComment} {e : DocComment} (hdocs : ∀ d ∈ docs, ¬ d.sameFile e)
    (hfs : ∀ d ∈ fs, d.file = e.file) :
    ∃ es, DocComment.attach (docs ++ fs) e = docs ++ es ∧ ∀ d ∈ es, d.file = e.file := by
  have happend : ∀ d ∈ fs ++ [e], d.file = e.file := by
    simpa [or_imp, forall_and] using hfs
  unfold DocComment.attach
  split
  · next last hlast =>
    split
    · next hsame =>
      have hne : fs ≠ [] := by
        rintro rfl
        rw [List.append_nil] at hlast
        refine hdocs last (List.mem_of_getLast? hlast) ?_
        simp only [Bool.and_eq_true] at hsame
        exact hsame.1
      have hmem : last ∈ fs := by
        rw [List.getLast?_append_of_ne_nil _ hne] at hlast
        exact List.mem_of_getLast? hlast
      refine ⟨fs.dropLast ++ [last.merge e], ?_, fun d hd => ?_⟩
      · rw [List.dropLast_append_of_ne_nil hne, List.append_assoc]
      · rcases List.mem_append.mp hd with hd | hd
        · exact hfs d (List.dropLast_subset fs hd)
        · rw [List.mem_singleton.mp hd]
          exact hfs last hmem
    · exact ⟨fs ++ [e], List.append_assoc _ _ _, happend⟩
  · next hnone =>
    obtain ⟨rfl, rfl⟩ := List.append_eq_nil_iff.mp (List.getLast?_eq_none_iff.mp hnone)
    exact ⟨[e], rfl, by simp⟩

theorem attachAll_append {docs fs more : List DocComment} {file : Option Path}
    (hdocs : ∀ d ∈ docs, ∀ e ∈ more, ¬ d.sameFile e) (hmore : ∀ e ∈ more, e.file = file)
    (hfs : ∀ d ∈ fs, d.file = file) :
    ∃ es, attachAll (docs ++ fs) more = docs ++ es ∧ ∀ d ∈ es, d.file = file := by
  induction more generalizing fs with
  | nil => exact ⟨fs, rfl, hfs⟩
  | cons e more ih =>
    obtain ⟨rfl, hmore⟩ := List.forall_mem_cons.mp hmore
    obtain ⟨gs, hattach, hgs⟩ := attach_append (fun d hd => hdocs d hd e List.mem_cons_self) hfs
    obtain ⟨es, hall, hes⟩ := ih (fun d hd e' he' => hdocs d hd e' (List.mem_cons_of_mem _ he')) hmore hgs
    exact ⟨es, (congrArg (attachAll · more) hattach).trans hall, hes⟩

/-- The comments before a module stay when those from its own file are taken away. -/
theorem filter_attachAll {file path : Path} (h : ¬ file.isSame path) (run : Option DocRun)
    {more : List DocComment} (hmore : ∀ d ∈ more, d.file = some path) :
    (attachAll (headDocs (some file) run) more).filter (·.file ≠ some path) = headDocs (some file) run := by
  have hhead : ∀ d ∈ headDocs (some file) run, d.file = some file := by
    cases run <;> simp [headDocs, DocRun.toComment]
  have hne : file ≠ path := fun heq => h (by simp [heq, Path.isSame])
  have hapart : ∀ d ∈ headDocs (some file) run, ∀ e ∈ more, ¬ d.sameFile e := fun d hd e he => by
    simpa [DocComment.sameFile, hhead d hd, hmore e he] using h
  obtain ⟨es, hall, hes⟩ := attachAll_append hapart hmore fun d hd => absurd hd List.not_mem_nil
  rw [List.append_nil] at hall
  rw [hall, List.filter_append, List.filter_eq_self.mpr, List.filter_eq_nil_iff.mpr, List.append_nil]
  · exact fun d hd => by simp [hes d hd]
  · exact fun d hd => by simp [hhead d hd, hne]

theorem Contents.fill_outside_cons (file : Option Path) (name : String) (run : Option DocRun) (span : Span)
    (rest : Contents) (body : Body) (bodies : List Body) :
    (outside name run span rest).fill file (body :: bodies) =
      .node .module name (attachAll (headDocs file run) body.docs) body.file body.trees
        (rest.fill file bodies) :=
  rfl

/-- **Taking away what one file gives is giving its module nothing.** -/
theorem Contents.without_fill (contents : Contents) {file path : Path} (h : ¬ file.isSame path)
    {bodies : List Body} (hbodies : ∀ body ∈ bodies, body.IsFrom) :
    (contents.fill (some file) bodies).without path =
      contents.fill (some file) (bodies.map (·.without path)) := by
  induction contents generalizing bodies with
  | nil => rfl
  | inner run rest ih => exact ih hbodies
  | fault f rest ih => exact ih hbodies
  | item kind name run members rest ihm ih =>
    rw [fill, fill, DocTrees.without, if_neg (by simp), ihm fun body hbody => hbodies body (List.mem_of_mem_take hbody),
      ih fun body hbody => hbodies body (List.mem_of_mem_drop hbody), List.map_take, List.map_drop]
  | outside name run span rest ih =>
    cases bodies with
    | nil => exact congrArg (DocTrees.node .module name (headDocs (some file) run) none .nil) (ih hbodies)
    | cons body bodies =>
      obtain ⟨hbody, hbodies⟩ := List.forall_mem_cons.mp hbodies
      rw [List.map_cons, fill_outside_cons, fill_outside_cons, DocTrees.without, ih hbodies]
      by_cases hfile : body.file = some path
      · have hdocs := filter_attachAll h run fun d hd => (hbody d hd).trans hfile
        rw [if_pos hfile, hdocs, Body.without, if_pos hfile]
        rfl
      · rw [if_neg hfile, Body.without, if_neg hfile]

end Doctest.Outline
