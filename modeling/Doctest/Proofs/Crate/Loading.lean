import Doctest.Proofs.Crate.Survey

/-! The loading of a crate. Each file is read below the element of its module, long after the file that
declares it, and its elements come after all that are there. Still every module gets the trees of its
file, and the warnings of all files are told in some order. -/
namespace Doctest.LoadedCrate

open Outline

theorem isSame_comm (p q : Path) : p.isSame q = q.isSame p := by
  rw [Path.isSame, Path.isSame, BEq.comm (a := p.lead), BEq.comm (a := p.names)]

/-- A crate before and after the reading of one file, without those of the modules in it. -/
structure Reads (c c' : LoadedCrate) (s : Source) (text : String) (contents : Contents)
    (losses : List SourceWarning) : Prop where
  root_eq : c'.root = c.root
  files_eq : c'.files = c.files ++ [s.file]
  warnings_perm : c'.warnings.Perm (c.warnings ++ (textWarnings s.file text contents ++ losses))
  size_eq : c'.outline.size = c.outline.size + contents.size
  stands : contents.Stands (some s.file) c'.outline.docFace? c.outline.size
  self_eq : c'.outline.docFace? s.id = (c.outline.docFace? s.id).map
    (DocFace.receive (contents.ids c.outline.size) (contents.docs (some s.file)))
  same : ∀ id < c.outline.size, id ≠ s.id → c'.outline.docFace? id = c.outline.docFace? id

theorem reads_readFile {t : FileTree} {root : Path} {c : LoadedCrate} {s s₀ : Source} {text : String}
    {contents : Contents} {modules : Survey} (hid : s.id < c.outline.size) (hcontents : contents.IsOf text)
    (h : modules.Holds t root s₀ text (contents.modules [] 1)) (hfile : s.file = s₀.file) (hdir : s.dir = s₀.dir) :
    Reads c (c.readFile t s text).1 s text contents modules.losses ∧
      (c.readFile t s text).2 = modules.sources (contents.modules [] c.outline.size) := by
  obtain ⟨hsize, hmodules, hfaults, hstands, hself, hsame⟩ := readTokens_of_isOf hid (some s.file) hcontents
  obtain ⟨hfound, hlosses⟩ := h.found_eq (renumbered_modules contents [] 1 c.outline.size) hfile hdir
  rw [← hmodules] at hfound hlosses
  have htext : SourceWarning.ofReading s.file (.ofString text) (Lexed.ofString text)
      (c.outline.readTokens s.id (some s.file) text (Lexed.ofString text).tokens) =
        textWarnings s.file text contents := by
    rw [textWarnings, ← hfaults]
    rfl
  refine ⟨⟨rfl, rfl, ?_, hsize, hstands, hself, hsame⟩, ?_⟩
  · unfold readFile
    dsimp only
    rw [htext, List.append_assoc, List.append_assoc]
    refine .append_left _ (.append_left _ ?_)
    rw [← hlosses]
    exact errors_perm t s text _
  · rw [← hmodules, ← hfound]
    exact oks_map_find t s text _

theorem readFiles_succ {t : FileTree} {levels : Nat} {c : LoadedCrate} {s : Source} {text : String}
    (h : ∀ p ∈ c.files, ¬ p.isSame s.file) : readFiles t (levels + 1) c (s, text) =
      (c.readFile t s text).2.foldr (fun next c => readFiles t levels c next) (c.readFile t s text).1 := by
  rw [readFiles, if_neg (by simpa using h)]
  exact List.foldl_reverse

theorem readFiles_again {t : FileTree} {levels : Nat} {c : LoadedCrate} {s : Source} {text : String} {p : Path}
    (hp : p ∈ c.files) (h : p.isSame s.file) : readFiles t levels c (s, text) = c := by
  cases levels with
  | zero => rfl
  | succ levels =>
    rw [readFiles, if_pos]
    exact List.any_eq_true.mpr ⟨p, hp, h⟩

/-- The elements from a number on. -/
def since (n : Nat) (look : Nat → Option DocFace) (id : Nat) : Option DocFace :=
  if n ≤ id then look id else none

theorem since_eq_some {n : Nat} {look : Nat → Option DocFace} {id : Nat} {face : DocFace} :
    since n look id = some face ↔ n ≤ id ∧ look id = some face := by
  by_cases hle : n ≤ id <;> simp [since, hle]

namespace Survey

/-- A module waits for its file in one crate and has what it gets from there in another, of which the
elements with numbers from `n` on are new. -/
def Filled (c c' : LoadedCrate) (n : Nat) (m : OutsideModule) (body : Body) : Prop :=
  ∃ docs below, c.outline.docFace? m.id = some ⟨.module, m.name, [], docs⟩ ∧
    c'.outline.docFace? m.id = some ⟨.module, m.name, below, attachAll docs body.docs⟩ ∧
    HasDocTrees (since n c'.outline.docFace?) below body.trees

/-- What the loading of the files of some modules changes. The warnings about modules without text have
come before. -/
structure Loads (survey : Survey) (ms : List OutsideModule) (c c' : LoadedCrate) : Prop where
  root_eq : c'.root = c.root
  size_le : c.outline.size ≤ c'.outline.size
  same : ∀ id < c.outline.size, (∀ m ∈ ms, m.id ≠ id) → c'.outline.docFace? id = c.outline.docFace? id
  filled : List.Forall₂ (Filled c c' c.outline.size) ms survey.bodies
  files_subset : c.files ⊆ c'.files
  mem_files : ∀ p ∈ c'.files, p ∈ c.files ∨ p ∈ survey.paths
  warnings_perm : (c'.warnings ++ survey.losses).Perm (c.warnings ++ survey.warnings)

namespace Loads

variable {c c₁ c₂ c₃ : LoadedCrate} {m : OutsideModule} {ms : List OutsideModule} {rest : Survey}

theorem none (c : LoadedCrate) : Loads .none [] c c :=
  ⟨rfl, Nat.le_refl _, fun _ _ _ => rfl, .nil, List.Subset.refl _, fun _ hp => .inl hp, .refl _⟩

/-- A module that no file is read for stays as it is. -/
theorem filled_empty (h : rest.Loads ms c c₁) {docs : List DocComment}
    (hopen : c.outline.docFace? m.id = some ⟨.module, m.name, [], docs⟩) (hne : ∀ m' ∈ ms, m'.id ≠ m.id) :
    List.Forall₂ (Filled c c₁ c.outline.size) (m :: ms) (.empty :: rest.bodies) := by
  refine .cons ⟨docs, [], hopen, ?_, .nil⟩ h.filled
  rw [h.same m.id (lt_size_of_docFace? hopen) hne, hopen]
  rfl

theorem lost (h : rest.Loads ms c c₁) {docs : List DocComment}
    (hopen : c.outline.docFace? m.id = some ⟨.module, m.name, [], docs⟩) (hne : ∀ m' ∈ ms, m'.id ≠ m.id)
    (path : Option Path) (w : SourceWarning) : (Survey.lost path w rest).Loads (m :: ms) c c₁ := by
  refine ⟨h.root_eq, h.size_le, fun id hid hother => ?_, h.filled_empty hopen hne, h.files_subset, h.mem_files, ?_⟩
  · exact h.same id hid fun m' hm' => hother m' (List.mem_cons_of_mem _ hm')
  · exact List.perm_middle.trans ((h.warnings_perm.cons w).trans List.perm_middle.symm)

theorem again (h : rest.Loads ms c c₁) {docs : List DocComment}
    (hopen : c.outline.docFace? m.id = some ⟨.module, m.name, [], docs⟩) (hne : ∀ m' ∈ ms, m'.id ≠ m.id)
    (path dir : Path) (text : String) : (Survey.again path dir text rest).Loads (m :: ms) c c₁ := by
  refine ⟨h.root_eq, h.size_le, fun id hid hother => ?_, h.filled_empty hopen hne, h.files_subset, h.mem_files,
    h.warnings_perm⟩
  exact h.same id hid fun m' hm' => hother m' (List.mem_cons_of_mem _ hm')

/-- The file of a module is read after those of the later modules, and then those of the modules in it. -/
theorem file (h : rest.Loads ms c c₁) {docs : List DocComment}
    (hopen : c.outline.docFace? m.id = some ⟨.module, m.name, [], docs⟩) (hne : ∀ m' ∈ ms, m'.id ≠ m.id)
    {path dir : Path} {text : String} {contents : Contents} {modules : Survey}
    (hread : Reads c₁ c₂ ⟨path, m.id, dir⟩ text contents modules.losses)
    (h' : modules.Loads (contents.modules [] c₁.outline.size) c₂ c₃) :
    (Survey.file path dir text contents modules rest).Loads (m :: ms) c c₃ := by
  have hlt := lt_size_of_docFace? hopen
  have hsize := hread.size_eq
  have hle := h.size_le
  -- The modules in the file are newer than all that was there.
  have hold {id : Nat} (hid : id < c₁.outline.size) : c₃.outline.docFace? id = c₂.outline.docFace? id :=
    h'.same id (by omega) fun m' hm' => by
      have := Contents.mem_modules hm'
      omega
  have hsame {id : Nat} (hid : id < c₁.outline.size) (hother : id ≠ m.id) :
      c₃.outline.docFace? id = c₁.outline.docFace? id :=
    (hold hid).trans (hread.same id hid hother)
  have hself : c₃.outline.docFace? m.id = some ⟨.module, m.name, contents.ids c₁.outline.size,
      attachAll docs (contents.docs (some path))⟩ := by
    rw [hold (by omega), hread.self_eq, h.same m.id hlt hne, hopen]
    rfl
  refine ⟨?_, ?_, fun id hid hother => ?_, .cons ⟨docs, _, hopen, hself, ?_⟩ ?_, ?_, fun p hp => ?_, ?_⟩
  · rw [h'.root_eq, hread.root_eq, h.root_eq]
  · have := h'.size_le
    omega
  · rw [hsame (by omega) (hother m List.mem_cons_self).symm,
      h.same id hid fun m' hm' => hother m' (List.mem_cons_of_mem _ hm')]
  · refine hread.stands.hasDocTrees (fun id hfirst _ hother => ?_) (((List.forall₂_and_left _ _).mpr
      ⟨fun m' hm' => (Contents.mem_modules hm').1, h'.filled⟩).imp fun m' body ⟨hnew, hbody⟩ => ?_)
    · rw [since, if_pos (by omega), h'.same id (by omega) hother]
    · obtain ⟨docs', below, hwait, hfull, htrees⟩ := hbody
      refine ⟨docs', below, hwait, since_eq_some.mpr ⟨by omega, hfull⟩, htrees.mono fun id face hid => ?_⟩
      rw [since_eq_some] at hid ⊢
      exact ⟨by omega, hid.2⟩
  · refine ((List.forall₂_and_left _ _).mpr ⟨hne, h.filled⟩).imp fun m' body ⟨hne', hbody⟩ => ?_
    obtain ⟨docs', below, hwait, hfull, htrees⟩ := hbody
    refine ⟨docs', below, hwait, ?_, htrees.mono fun id face hid => ?_⟩
    · rw [hsame (lt_size_of_docFace? hfull) hne', hfull]
    · rw [since_eq_some] at hid ⊢
      refine ⟨hid.1, ?_⟩
      rw [hsame (lt_size_of_docFace? hid.2) (by omega), hid.2]
  · intro p hp
    exact h'.files_subset (by rw [hread.files_eq]; exact List.mem_append_left _ (h.files_subset hp))
  · have hp := h'.mem_files p hp
    rw [hread.files_eq, List.mem_append, List.mem_singleton] at hp
    simp only [paths, List.mem_cons, List.mem_append]
    rcases hp with (hp | hp) | hp
    · rcases h.mem_files p hp with hp | hp
      · exact .inl hp
      · exact .inr (.inr (.inr hp))
    · exact .inr (.inl hp)
    · exact .inr (.inr (.inl hp))
  · -- The warnings are counted, since the files are read in another order.
    refine List.perm_iff_count.mpr fun w => ?_
    have hrest := h.warnings_perm.count_eq w
    have hfile := hread.warnings_perm.count_eq w
    have hmodules := h'.warnings_perm.count_eq w
    simp only [List.count_append, losses, warnings] at hrest hfile hmodules ⊢
    omega

end Loads

/-- **The files of modules are loaded**, each after those of the modules that are declared later. -/
theorem Holds.loads {t : FileTree} {root : Path} {s : Source} {text : String} {ms ms' : List OutsideModule}
    {survey : Survey} (h : survey.Holds t root s text ms) (hms : List.Forall₂ Renumbered ms ms')
    (hids : ms'.Pairwise (·.id < ·.id)) {c : LoadedCrate}
    (hopen : ∀ m ∈ ms', ∃ docs, c.outline.docFace? m.id = some ⟨.module, m.name, [], docs⟩)
    (hroot : root ∈ c.files) (hpaths : survey.paths.Pairwise (¬ ·.isSame ·))
    (hnew : ∀ p ∈ c.files, ∀ q ∈ survey.paths, ¬ p.isSame q) {levels : Nat} (hlevels : survey.depth ≤ levels) :
    survey.Loads ms' c ((survey.sources ms').foldr (fun next c => readFiles t levels c next) c) := by
  induction h generalizing ms' c levels with
  | none =>
    cases hms
    exact .none c
  | @lost s text m ms path w rest _ _ ih =>
    obtain ⟨_, ms', ⟨id, rfl⟩, hmore, rfl⟩ := List.forall₂_cons_left_iff.mp hms
    obtain ⟨hfirst, hids⟩ := List.pairwise_cons.mp hids
    obtain ⟨⟨docs, hself⟩, hopen⟩ := List.forall_mem_cons.mp hopen
    exact (ih hmore hids hopen hroot hpaths hnew hlevels).lost hself (fun m' hm' => (hfirst m' hm').ne') path w
  | @again s text inside m ms path dir rest _ hagain _ ih =>
    obtain ⟨_, ms', ⟨id, rfl⟩, hmore, rfl⟩ := List.forall₂_cons_left_iff.mp hms
    obtain ⟨hfirst, hids⟩ := List.pairwise_cons.mp hids
    obtain ⟨⟨docs, hself⟩, hopen⟩ := List.forall_mem_cons.mp hopen
    have hloads := ih hmore hids hopen hroot hpaths hnew hlevels
    rw [sources, List.foldr_cons, readFiles_again (hloads.files_subset hroot) (isSame_comm path root ▸ hagain)]
    exact hloads.again hself (fun m' hm' => (hfirst m' hm').ne') path dir inside
  | @file s text inside m ms path dir contents modules rest _ _ hcontents hmodules _ ihm ih =>
    obtain ⟨_, ms', ⟨id, rfl⟩, hmore, rfl⟩ := List.forall₂_cons_left_iff.mp hms
    obtain ⟨hfirst, hids⟩ := List.pairwise_cons.mp hids
    obtain ⟨⟨docs, hself⟩, hopen⟩ := List.forall_mem_cons.mp hopen
    obtain ⟨hpath, hpaths⟩ := List.pairwise_cons.mp hpaths
    obtain ⟨hinner, hrest, hcross⟩ := List.pairwise_append.mp hpaths
    simp only [depth, Nat.max_le] at hlevels
    simp only [paths, List.mem_cons, List.mem_append] at hnew hpath
    have hloads := ih hmore hids hopen hroot hrest (fun p hp q hq => hnew p hp q (.inr (.inr hq))) hlevels.2
    obtain ⟨levels, rfl⟩ : ∃ below, levels = below + 1 := ⟨levels - 1, by omega⟩
    rw [sources, List.foldr_cons]
    generalize (rest.sources ms').foldr (fun next c => readFiles t (levels + 1) c next) c = c₁ at hloads ⊢
    have hunread (p : Path) (hp : p ∈ c₁.files) : ¬ p.isSame path := by
      rcases hloads.mem_files p hp with hp | hp
      · exact hnew p hp path (.inl rfl)
      · rw [isSame_comm]
        exact hpath p (.inr hp)
    have hid : id < c₁.outline.size := (lt_size_of_docFace? hself).trans_le hloads.size_le
    obtain ⟨hread, hsources⟩ := reads_readFile (c := c₁) (s := ⟨path, id, dir⟩) hid hcontents hmodules rfl rfl
    rw [readFiles_succ hunread, hsources]
    refine hloads.file hself (fun m' hm' => (hfirst m' hm').ne') hread (ihm
      (renumbered_modules contents [] 1 c₁.outline.size) (contents.pairwise_modules _ _)
      (fun m' hm' => hread.stands.look_eq hm') ?_ hinner ?_ (Nat.le_of_succ_le_succ hlevels.1))
    · rw [hread.files_eq]
      exact List.mem_append_left _ (hloads.files_subset hroot)
    · intro p hp q hq
      rw [hread.files_eq, List.mem_append, List.mem_singleton] at hp
      rcases hp with hp | rfl
      · rcases hloads.mem_files p hp with hp | hp
        · exact hnew p hp q (.inr (.inl hq))
        · rw [isSame_comm]
          exact hcross q hq p hp
      · exact hpath q (.inl hq)

end Survey

/-- The root file of a crate, and where the modules in it lead. -/
structure CrateSurvey where
  root : Path
  text : String
  contents : Contents
  modules : Survey
deriving DecidableEq, Repr

namespace CrateSurvey

def source (f : CrateSurvey) : Source :=
  ⟨f.root, 0, rootDir f.root⟩

/-- These are the files in the tree. -/
structure Holds (t : FileTree) (f : CrateSurvey) : Prop where
  text : t.readText f.root = .ok f.text
  contents : f.contents.IsOf f.text
  modules : f.modules.Holds t f.root f.source f.text (f.contents.modules [] 1)

/-- The tree of a crate of this name. -/
def tree (f : CrateSurvey) (name : String) : DocTrees :=
  .node .crate name (attachAll [] (f.contents.docs (some f.root))) (some f.root)
    (f.contents.fill (some f.root) f.modules.bodies) .nil

def warnings (f : CrateSurvey) : List SourceWarning :=
  textWarnings f.root f.text f.contents ++ f.modules.warnings

/-- Whatever the files hold, a crate with a root file that can be read has a survey. -/
theorem exists_holds {t : FileTree} {root : Path} {text : String} (h : t.readText root = .ok text) :
    ∃ f : CrateSurvey, f.root = root ∧ f.Holds t := by
  obtain ⟨contents, hcontents⟩ := Contents.exists_isOf text
  obtain ⟨modules, hmodules⟩ := Survey.exists_holds t root (s := ⟨root, 0, rootDir root⟩) (.zero _) text
    fun m hm => Survey.isNamed_of_mem_contents hcontents hm
  exact ⟨⟨root, text, contents, modules⟩, rfl, h, hcontents, hmodules⟩

/-- **A crate is loaded with the tree of its files and their warnings.** The order in which the files are read
does not matter. -/
theorem Holds.exists_load {t : FileTree} {f : CrateSurvey} (h : f.Holds t)
    (hpaths : f.modules.paths.Pairwise (¬ ·.isSame ·)) (name : String) :
    ∃ c, load t f.root name = .ok c ∧ HasDocTrees c.outline.docFace? [c.root] (f.tree name) ∧
      c.warnings.Perm f.warnings := by
  have hlevels : f.modules.depth ≤ t.height + 1 := by
    have := h.modules.depth_le (fun m hm => Survey.isNamed_of_mem_contents h.contents hm) (.zero _) (Nat.zero_le _)
    omega
  obtain ⟨hread, hsources⟩ :=
    reads_readFile (c := start name) (s := f.source) Nat.zero_lt_one h.contents h.modules rfl rfl
  have hload : load t f.root name = .ok ((f.modules.sources (f.contents.modules [] 1)).foldr
      (fun next c => readFiles t (t.height + 1) c next) ((start name).readFile t f.source f.text).1) := by
    have hstart : readFiles t (t.height + 2) (start name) (f.source, f.text) = _ :=
      readFiles_succ fun p hp => absurd hp List.not_mem_nil
    rw [hsources] at hstart
    rw [load, h.text]
    exact congrArg _ hstart
  generalize ((start name).readFile t f.source f.text).1 = c₁ at hread hload
  have hfiles : c₁.files = [f.root] := hread.files_eq
  have hsize : c₁.outline.size = 1 + f.contents.size := hread.size_eq
  have hloads := h.modules.loads (c := c₁) (renumbered_modules f.contents [] 1 1) (f.contents.pairwise_modules [] 1)
    (fun m hm => hread.stands.look_eq hm) (by simp [hfiles]) hpaths
    (fun p hp q hq => by
      rw [hfiles, List.mem_singleton] at hp
      rw [hp, isSame_comm]
      exact h.modules.not_isSame_root q hq) hlevels
  refine ⟨_, hload, ?_, ?_⟩
  · have hmodules (m : OutsideModule) (hm : m ∈ f.contents.modules [] 1) : m.id ≠ 0 := by
      have := Contents.mem_modules hm
      omega
    have hface := (hloads.same 0 (by omega) hmodules).trans hread.self_eq
    rw [hloads.root_eq, hread.root_eq]
    refine .node hface (hread.stands.hasDocTrees (fun id _ hlt hother => ?_)
      (hloads.filled.imp fun m body hbody => ?_)) .nil
    · exact hloads.same id (hsize ▸ hlt) hother
    · obtain ⟨docs, below, hwait, hfull, htrees⟩ := hbody
      exact ⟨docs, below, hwait, hfull, htrees.mono fun id face hid => (since_eq_some.mp hid).2⟩
  · refine List.perm_iff_count.mpr fun w => ?_
    have hroot : c₁.warnings.Perm (textWarnings f.root f.text f.contents ++ f.modules.losses) := hread.warnings_perm
    have hfile := hroot.count_eq w
    have hmodules := hloads.warnings_perm.count_eq w
    simp only [List.count_append, warnings] at hfile hmodules ⊢
    omega

end CrateSurvey

end Doctest.LoadedCrate
