import Doctest.Proofs.Crate.Nesting
import Doctest.Proofs.Outline.Growth

/-! The files of a crate, whatever they hold, as trees: each with those of the modules that it declares. Some
modules have no file, or one that cannot be read. -/
namespace Doctest.LoadedCrate

open Outline

/-- The file of a module, with the directory of its own modules and the text. Otherwise a warning, with the
file if there is one. -/
def find (t : FileTree) (s : Source) (text : String) (m : OutsideModule) :
    Except (Option Path × SourceWarning) (Source × String) :=
  match locate t (.ofString text) s m with
  | .error w => .error (none, w)
  | .ok s' =>
    match readModule t s' with
    | .error w => .error (some s'.file, w)
    | .ok found => .ok found

/-- The warnings about the text of a file alone. -/
def textWarnings (path : Path) (text : String) (contents : Contents) : List SourceWarning :=
  SourceWarning.ofReading path (.ofString text) (Lexed.ofString text) ⟨.empty, [], contents.faults⟩

/-- Where some modules lead, in the order of their declarations. Those in the file of a module are told with
it. The root file is not read again. -/
inductive Survey
  | none
  | lost (path : Option Path) (w : SourceWarning) (rest : Survey)
  | again (path dir : Path) (text : String) (rest : Survey)
  | file (path dir : Path) (text : String) (contents : Contents) (modules rest : Survey)
deriving DecidableEq, Repr

namespace Survey

/-- Where these modules of a source lead in the tree. -/
inductive Holds (t : FileTree) (root : Path) : Source → String → List OutsideModule → Survey → Prop
  | none {s : Source} {text : String} : Holds t root s text [] .none
  | lost {s : Source} {text : String} {m : OutsideModule} {ms : List OutsideModule} {path : Option Path}
    {w : SourceWarning} {rest : Survey} : find t s text m = .error (path, w) → Holds t root s text ms rest →
    Holds t root s text (m :: ms) (.lost path w rest)
  | again {s : Source} {text inside : String} {m : OutsideModule} {ms : List OutsideModule} {path dir : Path}
    {rest : Survey} : find t s text m = .ok (⟨path, m.id, dir⟩, inside) → path.isSame root →
    Holds t root s text ms rest → Holds t root s text (m :: ms) (.again path dir inside rest)
  | file {s : Source} {text inside : String} {m : OutsideModule} {ms : List OutsideModule} {path dir : Path}
    {contents : Contents} {modules rest : Survey} : find t s text m = .ok (⟨path, m.id, dir⟩, inside) →
    ¬ path.isSame root → contents.IsOf inside →
    Holds t root ⟨path, m.id, dir⟩ inside (contents.modules [] 1) modules → Holds t root s text ms rest →
    Holds t root s text (m :: ms) (.file path dir inside contents modules rest)

/-- The files that are read. -/
def paths : Survey → List Path
  | none => []
  | lost _ _ rest => rest.paths
  | again _ _ _ rest => rest.paths
  | file path _ _ _ modules rest => path :: (modules.paths ++ rest.paths)

/-- How deep the files are nested. -/
def depth : Survey → Nat
  | none => 0
  | lost _ _ rest => rest.depth
  | again _ _ _ rest => rest.depth
  | file _ _ _ _ modules rest => max (modules.depth + 1) rest.depth

/-- What the modules get from their files. -/
def bodies : Survey → List Body
  | none => []
  | lost _ _ rest => .empty :: rest.bodies
  | again _ _ _ rest => .empty :: rest.bodies
  | file path _ _ contents modules rest =>
    ⟨some path, contents.docs (some path), contents.fill (some path) modules.bodies⟩ :: rest.bodies

/-- The warnings about the modules without text. -/
def losses : Survey → List SourceWarning
  | none => []
  | lost _ w rest => w :: rest.losses
  | again _ _ _ rest => rest.losses
  | file _ _ _ _ _ rest => rest.losses

/-- The warnings about the modules, their files and the modules in these. -/
def warnings : Survey → List SourceWarning
  | none => []
  | lost _ w rest => w :: rest.warnings
  | again _ _ _ rest => rest.warnings
  | file path _ text contents modules rest =>
    textWarnings path text contents ++ (modules.warnings ++ rest.warnings)

/-- The files that the modules lead to, with their texts. -/
def sources : Survey → List OutsideModule → List (Source × String)
  | lost _ _ rest, _ :: ms => rest.sources ms
  | again path dir text rest, m :: ms => (⟨path, m.id, dir⟩, text) :: rest.sources ms
  | file path dir text _ _ rest, m :: ms => (⟨path, m.id, dir⟩, text) :: rest.sources ms
  | _, _ => []

end Survey

/-- The same module, but for the number of its element. -/
def Renumbered (m m' : OutsideModule) : Prop :=
  ∃ id, m' = { m with id }

theorem renumbered_modules (contents : Contents) (above : List String) (n n' : Nat) :
    List.Forall₂ Renumbered (contents.modules above n) (contents.modules above n') := by
  induction contents generalizing above n n' with
  | nil => exact .nil
  | inner run rest ih => exact ih above n n'
  | fault f rest ih => exact ih above n n'
  | item kind name run members rest ihm ih => exact List.rel_append (ihm _ _ _) (ih _ _ _)
  | outside name run span rest ih => exact .cons ⟨n', rfl⟩ (ih _ _ _)

/-- The search goes by the directory and the text of the declaring file. -/
theorem find_eq {t : FileTree} {s s' : Source} (hfile : s'.file = s.file) (hdir : s'.dir = s.dir)
    (text : String) (m : OutsideModule) (id : Nat) : find t s' text { m with id } =
      (find t s text m).map fun found => ({ found.1 with id }, found.2) := by
  have hcandidates : candidates s'.dir { m with id } = candidates s.dir m := by
    rw [hdir]
    rfl
  unfold find locate
  rw [hcandidates, hfile]
  dsimp only
  split_ifs
  · unfold readModule
    dsimp only
    cases t.readText _ <;> rfl
  · unfold readModule
    dsimp only
    cases t.readText _ <;> rfl
  · rfl

theorem locate_eq_ok {t : FileTree} {lines : LineMap} {s s' : Source} {m : OutsideModule}
    (h : locate t lines s m = .ok s') : s'.id = m.id ∧ t.isFile s'.file := by
  unfold locate at h
  dsimp only at h
  split_ifs at h with hflat hnested
  · obtain rfl := Except.ok.inj h
    exact ⟨rfl, hflat⟩
  · obtain rfl := Except.ok.inj h
    exact ⟨rfl, hnested⟩

theorem find_eq_ok_iff {t : FileTree} {s s' : Source} {text inside : String} {m : OutsideModule} :
    find t s text m = .ok (s', inside) ↔
      locate t (.ofString text) s m = .ok s' ∧ t.readText s'.file = .ok inside := by
  unfold find readModule
  cases locate t (.ofString text) s m with
  | error w => simp
  | ok found =>
    dsimp only
    constructor
    · intro h
      cases hread : t.readText found.file with
      | error e => simp [hread] at h
      | ok other =>
        obtain ⟨rfl, rfl⟩ : found = s' ∧ other = inside := by simpa [hread] using h
        exact ⟨rfl, hread⟩
    · rintro ⟨hfound, hread⟩
      obtain rfl := Except.ok.inj hfound
      rw [hread]

theorem find_eq_error_iff {t : FileTree} {s : Source} {text : String} {m : OutsideModule} {path : Option Path}
    {w : SourceWarning} : find t s text m = .error (path, w) ↔
      path = none ∧ locate t (.ofString text) s m = .error w ∨
      ∃ s' e, locate t (.ofString text) s m = .ok s' ∧ t.readText s'.file = .error e ∧ path = some s'.file ∧
        w = .fault s'.file 1 (.unreadable e) := by
  unfold find readModule
  cases locate t (.ofString text) s m with
  | error w' => simp [eq_comm]
  | ok found =>
    dsimp only
    cases hread : t.readText found.file with
    | error e => simp [hread, eq_comm]
    | ok other => simp [hread]

theorem oks_map_find (t : FileTree) (s : Source) (text : String) (ms : List OutsideModule) :
    oks ((oks (ms.map (locate t (.ofString text) s))).map (readModule t)) = oks (ms.map (find t s text)) := by
  induction ms with
  | nil => rfl
  | cons m ms ih =>
    simp only [oks, List.map_cons, List.filterMap_cons] at ih ⊢
    unfold find
    cases locate t (.ofString text) s m with
    | error w => exact ih
    | ok s' =>
      dsimp only
      rw [List.map_cons, List.filterMap_cons]
      cases readModule t s' with
      | error w => exact ih
      | ok found => exact congrArg (found :: ·) ih

/-- The warnings about modules without files come before those about files that cannot be read. -/
theorem errors_perm (t : FileTree) (s : Source) (text : String) (ms : List OutsideModule) :
    (errors (ms.map (locate t (.ofString text) s)) ++
      errors ((oks (ms.map (locate t (.ofString text) s))).map (readModule t))).Perm
      ((errors (ms.map (find t s text))).map (·.2)) := by
  induction ms with
  | nil => exact .nil
  | cons m ms ih =>
    simp only [oks, errors, List.map_cons, List.filterMap_cons] at ih ⊢
    unfold find
    cases locate t (.ofString text) s m with
    | error w => exact ih.cons w
    | ok s' =>
      dsimp only
      rw [List.map_cons, List.filterMap_cons]
      cases readModule t s' with
      | error w => exact List.perm_middle.trans (ih.cons w)
      | ok found => exact ih

/-- What is found for the modules in a file that has been read. -/
theorem Survey.Holds.found_eq {t : FileTree} {root : Path} {s s' : Source} {text : String}
    {ms ms' : List OutsideModule} {survey : Survey} (h : survey.Holds t root s text ms)
    (hms : List.Forall₂ Renumbered ms ms') (hfile : s'.file = s.file) (hdir : s'.dir = s.dir) :
    oks (ms'.map (find t s' text)) = survey.sources ms' ∧
      (errors (ms'.map (find t s' text))).map (·.2) = survey.losses := by
  induction h generalizing ms' with
  | none =>
    cases hms
    exact ⟨rfl, rfl⟩
  | @lost s text m ms path w rest hfind _ ih =>
    obtain ⟨_, ms', ⟨id, rfl⟩, hrest, rfl⟩ := List.forall₂_cons_left_iff.mp hms
    rw [List.map_cons, find_eq hfile hdir text m id, hfind]
    exact ⟨(ih hrest hfile hdir).1, congrArg (w :: ·) (ih hrest hfile hdir).2⟩
  | @again s text inside m ms path dir rest hfind _ _ ih =>
    obtain ⟨_, ms', ⟨id, rfl⟩, hrest, rfl⟩ := List.forall₂_cons_left_iff.mp hms
    rw [List.map_cons, find_eq hfile hdir text m id, hfind]
    exact ⟨congrArg (List.cons _) (ih hrest hfile hdir).1, (ih hrest hfile hdir).2⟩
  | @file s text inside m ms path dir contents modules rest hfind _ _ _ _ _ ih =>
    obtain ⟨_, ms', ⟨id, rfl⟩, hrest, rfl⟩ := List.forall₂_cons_left_iff.mp hms
    rw [List.map_cons, find_eq hfile hdir text m id, hfind]
    exact ⟨congrArg (List.cons _) (ih hrest hfile hdir).1, (ih hrest hfile hdir).2⟩

namespace Survey

theorem Holds.not_isSame_root {t : FileTree} {root : Path} {s : Source} {text : String}
    {ms : List OutsideModule} {survey : Survey} (h : survey.Holds t root s text ms) :
    ∀ p ∈ survey.paths, ¬ p.isSame root := by
  induction h with
  | none => simp [paths]
  | lost _ _ ih => exact ih
  | again _ _ _ ih => exact ih
  | file _ hroot _ _ _ ihm ih => exact List.forall_mem_cons.mpr ⟨hroot, List.forall_mem_append.mpr ⟨ihm, ih⟩⟩

theorem isNamed_of_mem_contents {text : String} {contents : Contents} (h : contents.IsOf text)
    {m : OutsideModule} (hm : m ∈ contents.modules [] 1) : m.IsNamed := by
  obtain ⟨-, hmodules, -⟩ := readTokens_of_isOf (t := (start "").outline) Nat.zero_lt_one Option.none h
  have hsize : (start "").outline.size = 1 := rfl
  rw [← hsize, ← hmodules] at hm
  exact isNamed_of_mem_modules hm

/-- The height of the tree bounds the nesting of the files. -/
theorem Holds.depth_le {t : FileTree} {root : Path} {s : Source} {text : String} {ms : List OutsideModule}
    {survey : Survey} (h : survey.Holds t root s text ms) (hms : ∀ m ∈ ms, m.IsNamed) {count : Nat}
    (hdir : s.dir.Below count) (hle : count ≤ t.height) : count + survey.depth ≤ t.height := by
  induction h generalizing count with
  | none => exact hle
  | lost _ _ ih => exact ih (List.forall_mem_cons.mp hms).2 hdir hle
  | again _ _ _ ih => exact ih (List.forall_mem_cons.mp hms).2 hdir hle
  | file hfind _ hcontents _ _ ihm ih =>
    obtain ⟨hm, hms⟩ := List.forall_mem_cons.mp hms
    obtain ⟨hfile, hinner, hisFile⟩ := below_of_locate (find_eq_ok_iff.mp hfind).1 hdir hm
    have hmodules := ihm (fun m hm => isNamed_of_mem_contents hcontents hm) hinner
      (FileTree.le_height_of_isFile hfile hisFile)
    have hrest := ih hms hdir hle
    simp only [depth]
    omega

/-- Modules lead somewhere in every tree, because files are nested only as deep as the tree is high. -/
theorem exists_holds (t : FileTree) (root : Path) {s : Source} {count : Nat} (hdir : s.dir.Below count)
    (text : String) {ms : List OutsideModule} (hms : ∀ m ∈ ms, m.IsNamed) :
    ∃ survey : Survey, survey.Holds t root s text ms := by
  induction hn : t.height - count using Nat.strong_induction_on generalizing s count text ms with
  | _ n ihn =>
    induction ms with
    | nil => exact ⟨.none, .none⟩
    | cons m ms ih =>
      obtain ⟨hm, hms⟩ := List.forall_mem_cons.mp hms
      obtain ⟨rest, hrest⟩ := ih hms
      cases hfind : find t s text m with
      | error lost => exact ⟨.lost lost.1 lost.2 rest, .lost hfind hrest⟩
      | ok found =>
        obtain ⟨⟨path, id, dir⟩, inside⟩ := found
        obtain ⟨hlocate, -⟩ := find_eq_ok_iff.mp hfind
        obtain rfl : id = m.id := (locate_eq_ok hlocate).1
        by_cases hroot : path.isSame root
        · exact ⟨.again path dir inside rest, .again hfind hroot hrest⟩
        · obtain ⟨hfile, hinner, hisFile⟩ := below_of_locate hlocate hdir hm
          have hle := FileTree.le_height_of_isFile hfile hisFile
          obtain ⟨contents, hcontents⟩ := Contents.exists_isOf inside
          obtain ⟨modules, hmodules⟩ := ihn (t.height - (count + 1)) (by omega) hinner inside
            (fun m hm => isNamed_of_mem_contents hcontents hm) rfl
          exact ⟨.file path dir inside contents modules rest, .file hfind hroot hcontents hmodules hrest⟩

end Survey

end Doctest.LoadedCrate
