import Mathlib.Data.List.Pairwise
import Doctest.Proofs.Crate.Loading
import Doctest.Proofs.Files.Lookup
import Doctest.Proofs.Outline.Pruning

/-! A crate that loses the file of a module. Its tree loses what was read from that file and from the files
below it, and the warnings about these give way to one about the loss. All else stays. -/
namespace Doctest

/-- The file that a warning points to. -/
def SourceWarning.file : SourceWarning → Path
  | missingModule _ file _ _ => file
  | fault file _ _ => file

namespace LoadedCrate

open Outline

/-- A module in another file, where it is declared, and the file that is found for it. -/
structure Declaration where
  source : Source
  text : String
  module : OutsideModule
  file : Path
deriving DecidableEq, Repr

/-- The warning that the module has no file. -/
def Declaration.missing (d : Declaration) : SourceWarning :=
  let (flat, nested, _) := candidates d.source.dir d.module
  .missingModule d.module.name d.source.file ((LineMap.ofString d.text).lineOf d.module.span.start) [flat, nested]

namespace Survey

/-- The files that the modules lead to, also those that cannot be read. The root file is left out. -/
def found : Survey → List Path
  | none => []
  | lost path _ rest => path.toList ++ rest.found
  | again _ _ _ rest => rest.found
  | file path _ _ _ modules rest => path :: (modules.found ++ rest.found)

/-- The declarations that lead to these files. -/
def declarations : Survey → Source → String → List OutsideModule → List Declaration
  | lost path _ rest, s, text, m :: ms => path.toList.map (⟨s, text, m, ·⟩) ++ rest.declarations s text ms
  | again _ _ _ rest, s, text, _ :: ms => rest.declarations s text ms
  | file path dir inside contents modules rest, s, text, m :: ms => ⟨s, text, m, path⟩ ::
    (modules.declarations ⟨path, m.id, dir⟩ inside (contents.modules [] 1) ++ rest.declarations s text ms)
  | _, _, _, _ => []

/-- The files that are found for the modules in one file, and in theirs. -/
def filesBelow (path : Path) : Survey → List Path
  | none => []
  | lost _ _ rest => rest.filesBelow path
  | again _ _ _ rest => rest.filesBelow path
  | file other _ _ _ modules rest =>
    (if other = path then modules.found else modules.filesBelow path) ++ rest.filesBelow path

/-- Where the modules lead when the text of one file is lost. The file may still be there. -/
def lose (path : Path) (left : Option Path) (w : SourceWarning) : Survey → Survey
  | none => none
  | lost other w' rest =>
    if other = some path then lost left w (rest.lose path left w) else lost other w' (rest.lose path left w)
  | again other dir text rest => again other dir text (rest.lose path left w)
  | file other dir text contents modules rest =>
    if other = path then lost left w (rest.lose path left w)
    else file other dir text contents (modules.lose path left w) (rest.lose path left w)

section Lose

variable {survey : Survey} {path : Path} {left : Option Path} {w : SourceWarning}

theorem lose_eq_self (h : path ∉ survey.found) : survey.lose path left w = survey := by
  induction survey with
  | none => rfl
  | lost other w' rest ih =>
    simp only [found, List.mem_append, Option.mem_toList, not_or] at h
    rw [lose, if_neg h.1, ih h.2]
  | again other dir text rest ih => rw [lose, ih h]
  | file other dir text contents modules rest ihm ih =>
    simp only [found, List.mem_cons, List.mem_append, not_or] at h
    rw [lose, if_neg (Ne.symm h.1), ihm h.2.1, ih h.2.2]

theorem paths_sublist_found : survey.paths.Sublist survey.found := by
  induction survey with
  | none => exact .slnil
  | lost other w' rest ih => exact ih.trans (List.sublist_append_right _ _)
  | again other dir text rest ih => exact ih
  | file other dir text contents modules rest ihm ih => exact (ihm.append ih).cons_cons _

theorem paths_lose_sublist : (survey.lose path left w).paths.Sublist survey.paths := by
  induction survey with
  | none => exact .slnil
  | lost other w' rest ih =>
    rw [lose]
    split <;> exact ih
  | again other dir text rest ih => exact ih
  | file other dir text contents modules rest ihm ih =>
    rw [lose]
    split
    · exact (ih.trans (List.sublist_append_right _ _)).cons _
    · exact (ihm.append ih).cons_cons _

theorem filesBelow_subset_found : survey.filesBelow path ⊆ survey.found := by
  induction survey with
  | none => exact List.nil_subset _
  | lost other w' rest ih => exact List.subset_append_of_subset_right _ ih
  | again other dir text rest ih => exact ih
  | file other dir text contents modules rest ihm ih =>
    rw [filesBelow, found]
    split
    · exact List.subset_cons_of_subset _ (List.append_subset.mpr
        ⟨List.subset_append_left _ _, List.subset_append_of_subset_right _ ih⟩)
    · exact List.subset_cons_of_subset _ (List.append_subset.mpr
        ⟨List.subset_append_of_subset_left _ ihm, List.subset_append_of_subset_right _ ih⟩)

theorem filesBelow_eq_nil (h : path ∉ survey.found) : survey.filesBelow path = [] := by
  induction survey with
  | none => rfl
  | lost other w' rest ih =>
    simp only [found, List.mem_append, not_or] at h
    exact ih h.2
  | again other dir text rest ih => exact ih h
  | file other dir text contents modules rest ihm ih =>
    simp only [found, List.mem_cons, List.mem_append, not_or] at h
    rw [filesBelow, if_neg (Ne.symm h.1), ihm h.2.1, ih h.2.2]
    rfl

theorem isFrom_of_mem_bodies : ∀ body ∈ survey.bodies, body.IsFrom := by
  induction survey with
  | none => simp [bodies]
  | lost other w' rest ih => exact List.forall_mem_cons.mpr ⟨fun d hd => absurd hd List.not_mem_nil, ih⟩
  | again other dir text rest ih => exact List.forall_mem_cons.mpr ⟨fun d hd => absurd hd List.not_mem_nil, ih⟩
  | file other dir text contents modules rest ihm ih =>
    exact List.forall_mem_cons.mpr ⟨fun d hd => Contents.file_of_mem_docs hd, ih⟩

/-- The module of the lost file gets nothing. -/
theorem bodies_lose (h : ∀ p ∈ survey.paths, p ≠ path → ¬ p.isSame path) :
    (survey.lose path left w).bodies = survey.bodies.map (·.without path) := by
  induction survey with
  | none => rfl
  | lost other w' rest ih =>
    rw [lose]
    split <;> exact congrArg (Body.empty :: ·) (ih h)
  | again other dir text rest ih => exact congrArg (Body.empty :: ·) (ih h)
  | file other dir text contents modules rest ihm ih =>
    obtain ⟨hother, h⟩ := List.forall_mem_cons.mp h
    obtain ⟨hmodules, hrest⟩ := List.forall_mem_append.mp h
    rw [lose, bodies, List.map_cons, Body.without, ← ih hrest]
    by_cases heq : other = path
    · rw [if_pos heq, if_pos (congrArg some heq)]
      rfl
    · rw [if_neg heq, if_neg (by simpa using heq)]
      dsimp only
      rw [contents.without_fill (hother heq) isFrom_of_mem_bodies, ← ihm hmodules]
      rfl

end Lose

end Survey

section Agree

variable {t t' : FileTree} {names : List Bytes} {s : Source} {text : String} {m : OutsideModule}

theorem locate_def (t : FileTree) (lines : LineMap) (s : Source) (m : OutsideModule) :
    locate t lines s m =
      if t.isFile (candidates s.dir m).1 then .ok ⟨(candidates s.dir m).1, m.id, (candidates s.dir m).2.2⟩
      else if t.isFile (candidates s.dir m).2.1 then
        .ok ⟨(candidates s.dir m).2.1, m.id, (candidates s.dir m).2.2⟩
      else .error (.missingModule m.name s.file (lines.lineOf m.span.start)
        [(candidates s.dir m).1, (candidates s.dir m).2.1]) :=
  rfl

theorem locate_eq_of_isFile {lines : LineMap}
    (hflat : t'.isFile (candidates s.dir m).1 = t.isFile (candidates s.dir m).1)
    (hnested : ¬ t.isFile (candidates s.dir m).1 →
      t'.isFile (candidates s.dir m).2.1 = t.isFile (candidates s.dir m).2.1) :
    locate t' lines s m = locate t lines s m := by
  rw [locate_def, locate_def, hflat]
  split
  · rfl
  · next hnone => rw [hnested hnone]

/-- A module is found as before when the face that has changed is not its file. -/
theorem find_eq_of_agree (h : FileTree.AgreeBut t t' names) {bytes : Bytes} {isExecutable : Bool}
    (hat : t.at? names = some (.file bytes isExecutable))
    (hne : ∀ s', locate t (.ofString text) s m = .ok s' → t.resolve s'.file ≠ .ok names) :
    find t' s text m = find t s text m := by
  have hisFile {p : Path} (hp : t.resolve p = .ok names) : t.isFile p := FileTree.isFile_of_resolve hp hat
  have hlocate : locate t' (.ofString text) s m = locate t (.ofString text) s m := by
    refine locate_eq_of_isFile (h.isFile_eq fun hp => ?_) fun hflat => h.isFile_eq fun hp => ?_
    · exact hne ⟨_, m.id, (candidates s.dir m).2.2⟩ (by rw [locate_def, if_pos (hisFile hp)]) hp
    · exact hne ⟨_, m.id, (candidates s.dir m).2.2⟩ (by rw [locate_def, if_neg hflat, if_pos (hisFile hp)]) hp
  unfold find
  rw [hlocate]
  cases hfound : locate t (.ofString text) s m with
  | error w => rfl
  | ok s' =>
    obtain ⟨result, -, -, hresolve, -⟩ := FileTree.exists_resolve_of_isFile (locate_eq_ok hfound).2
    have hread := h.readText_eq hresolve fun heq => hne s' hfound (heq ▸ hresolve)
    simp only [readModule, hread]

theorem find_ok_of_agree (h : FileTree.AgreeBut t t' names) {bytes : Bytes} {isExecutable : Bool}
    (hat : t.at? names = some (.file bytes isExecutable)) {s' : Source} {inside : String}
    (hfind : find t s text m = .ok (s', inside)) (hne : t.resolve s'.file ≠ .ok names) :
    find t' s text m = .ok (s', inside) := by
  rw [find_eq_of_agree h hat fun s'' hlocate => ?_, hfind]
  obtain rfl := Except.ok.inj (hlocate.symm.trans (find_eq_ok_iff.mp hfind).1)
  exact hne

theorem find_error_of_agree (h : FileTree.AgreeBut t t' names) {bytes : Bytes} {isExecutable : Bool}
    (hat : t.at? names = some (.file bytes isExecutable)) {path : Option Path} {w : SourceWarning}
    (hfind : find t s text m = .error (path, w)) (hne : ∀ p ∈ path, t.resolve p ≠ .ok names) :
    find t' s text m = .error (path, w) := by
  rw [find_eq_of_agree h hat fun s' hlocate => hne _ ?_, hfind]
  obtain ⟨-, hnone⟩ | ⟨s'', e, hlocate', -, rfl, -⟩ := find_eq_error_iff.mp hfind
  · simp [hlocate] at hnone
  · obtain rfl := Except.ok.inj (hlocate.symm.trans hlocate')
    rfl

end Agree

/-- What has become of the file of a module: neither place holds one, or it is no text. The file that is left
is told, and the warning. -/
inductive Lost (t' : FileTree) (names : List Bytes) (d : Declaration) : Option Path → SourceWarning → Prop
  | removed : ¬ t'.isFile (candidates d.source.dir d.module).1 →
    ¬ t'.isFile (candidates d.source.dir d.module).2.1 → Lost t' names d none d.missing
  | notText {bytes : Bytes} {isExecutable : Bool} : t'.at? names = some (.file bytes isExecutable) →
    bytes.toString? = none → Lost t' names d (some d.file) (.fault d.file 1 (.unreadable ⟨d.file, .notText⟩))

theorem Lost.find_eq {t t' : FileTree} {names : List Bytes} {d : Declaration} {left : Option Path}
    {w : SourceWarning} (h : Lost t' names d left w) (hagree : FileTree.AgreeBut t t' names) {bytes : Bytes}
    {isExecutable : Bool} (hat : t.at? names = some (.file bytes isExecutable))
    (hnames : t.resolve d.file = .ok names) {s' : Source}
    (hlocate : locate t (.ofString d.text) d.source d.module = .ok s') (hfile : s'.file = d.file) :
    find t' d.source d.text d.module = .error (left, w) := by
  rw [find_eq_error_iff]
  cases h with
  | removed hflat hnested =>
    refine .inl ⟨rfl, ?_⟩
    rw [locate_def, if_neg hflat, if_neg hnested]
    rfl
  | @notText bytes' isExecutable' hat' htext =>
    have hisFile (p : Path) : t'.isFile p = t.isFile p := by
      by_cases hp : t.resolve p = .ok names
      · rw [FileTree.isFile_of_resolve hp hat, FileTree.isFile_of_resolve (hagree.resolve_eq_ok_iff.mpr hp) hat']
      · exact hagree.isFile_eq hp
    refine .inr ⟨s', ⟨d.file, .notText⟩, ?_, ?_, by rw [hfile], by rw [hfile]⟩
    · rw [locate_eq_of_isFile (hisFile _) fun _ => hisFile _, hlocate]
    · rw [hfile, FileTree.readText_of_resolve (hagree.resolve_eq_ok_iff.mpr hnames) hat', htext]
      rfl

namespace Survey

theorem file_mem_found {survey : Survey} {s : Source} {text : String} {ms : List OutsideModule} {d : Declaration}
    (h : d ∈ survey.declarations s text ms) : d.file ∈ survey.found := by
  induction survey generalizing s text ms with
  | none => simp [declarations] at h
  | lost path w rest ih =>
    cases ms with
    | nil => simp [declarations] at h
    | cons m ms =>
      rcases List.mem_append.mp h with h | h
      · obtain ⟨p, hp, rfl⟩ := List.mem_map.mp h
        exact List.mem_append_left _ hp
      · exact List.mem_append_right _ (ih h)
  | again path dir text rest ih =>
    cases ms with
    | nil => simp [declarations] at h
    | cons m ms => exact ih h
  | file path dir inside contents modules rest ihm ih =>
    cases ms with
    | nil => simp [declarations] at h
    | cons m ms =>
      rcases List.mem_cons.mp h with rfl | h
      · exact List.mem_cons_self
      · rcases List.mem_append.mp h with h | h
        · exact List.mem_cons_of_mem _ (List.mem_append_left _ (ihm h))
        · exact List.mem_cons_of_mem _ (List.mem_append_right _ (ih h))

section Changed

variable {t t' : FileTree} {names place : List Bytes} {root : Path} {bytes : Bytes} {isExecutable : Bool}
  {s : Source} {text : String} {m : OutsideModule} {ms : List OutsideModule} {survey : Survey}

/-- All is found as before where the face that has changed is no file of these modules. -/
theorem Holds.agree (h : survey.Holds t root s text ms) (hagree : FileTree.AgreeBut t t' names)
    (hat : t.at? names = some (.file bytes isExecutable)) (hroot : t.resolve root = .ok place)
    (hplace : place ≠ names) (hfound : ∀ p ∈ survey.found, t.resolve p ≠ .ok names) :
    survey.Holds t' root s text ms := by
  induction h with
  | none => exact .none
  | lost hfind _ ih =>
    obtain ⟨hpath, hrest⟩ := List.forall_mem_append.mp hfound
    exact .lost (find_error_of_agree hagree hat hfind fun p hp => hpath p (Option.mem_toList.mpr hp)) (ih hrest)
  | again hfind hsame _ ih =>
    refine .again (find_ok_of_agree hagree hat hfind fun hnames => ?_) hsame (ih hfound)
    exact hplace (FileTree.eq_of_isSame hnames hroot hsame).symm
  | file hfind hsame hcontents _ _ ihm ih =>
    obtain ⟨hpath, hfound⟩ := List.forall_mem_cons.mp hfound
    obtain ⟨hmodules, hrest⟩ := List.forall_mem_append.mp hfound
    exact .file (find_ok_of_agree hagree hat hfind hpath) hsame hcontents (ihm hmodules) (ih hrest)

/-- **The loss of one file changes what is found in one place.** -/
theorem Holds.lose (h : survey.Holds t root s text ms) {d : Declaration}
    (hd : d ∈ survey.declarations s text ms) (hdistinct : survey.found.Pairwise (t.resolve · ≠ t.resolve ·))
    (hagree : FileTree.AgreeBut t t' names) (hat : t.at? names = some (.file bytes isExecutable))
    (hroot : t.resolve root = .ok place) (hplace : place ≠ names) (hnames : t.resolve d.file = .ok names)
    {left : Option Path} {w : SourceWarning} (hlost : Lost t' names d left w) :
    (survey.lose d.file left w).Holds t' root s text ms := by
  have same {survey : Survey} {s : Source} {text : String} {ms : List OutsideModule}
      (h : survey.Holds t root s text ms) (hne : ∀ p ∈ survey.found, t.resolve d.file ≠ t.resolve p) :
      (survey.lose d.file left w).Holds t' root s text ms := by
    rw [lose_eq_self fun hmem => hne _ hmem rfl]
    exact h.agree hagree hat hroot hplace fun p hp hresolve => hne p hp (hnames.trans hresolve.symm)
  induction h with
  | none => simp [declarations] at hd
  | @lost s text m ms path w' rest hfind hrest ih =>
    obtain ⟨-, hdistinct, hfirst⟩ := List.pairwise_append.mp hdistinct
    rcases List.mem_append.mp hd with hd | hd
    · obtain ⟨p, hp, rfl⟩ := List.mem_map.mp hd
      obtain rfl : path = some p := Option.mem_toList.mp hp
      obtain ⟨hpath, -⟩ | ⟨s', e, hlocate, -, hpath, -⟩ := find_eq_error_iff.mp hfind
      · simp at hpath
      · rw [Survey.lose, if_pos rfl]
        exact .lost (hlost.find_eq hagree hat hnames hlocate (Option.some.inj hpath).symm) (same hrest (hfirst p hp))
    · have hne (p : Path) (hp : p ∈ path) : t.resolve p ≠ t.resolve d.file :=
        hfirst p (Option.mem_toList.mpr hp) _ (file_mem_found hd)
      have hother : path ≠ some d.file := fun heq => hne d.file heq rfl
      rw [Survey.lose, if_neg hother]
      exact .lost (find_error_of_agree hagree hat hfind (hnames ▸ hne)) (ih hd hdistinct)
  | again hfind hsame _ ih =>
    refine .again (find_ok_of_agree hagree hat hfind fun hresolve => ?_) hsame (ih hd hdistinct)
    exact hplace (FileTree.eq_of_isSame hresolve hroot hsame).symm
  | @file s text inside m ms path dir contents modules rest hfind hsame hcontents hmodules hrest ihm ih =>
    obtain ⟨hfirst, hdistinct⟩ := List.pairwise_cons.mp hdistinct
    obtain ⟨hinner, hlater, hcross⟩ := List.pairwise_append.mp hdistinct
    rcases List.mem_cons.mp hd with rfl | hd
    · rw [Survey.lose, if_pos rfl]
      exact .lost (hlost.find_eq hagree hat hnames (find_eq_ok_iff.mp hfind).1 rfl)
        (same hrest fun p hp => hfirst p (List.mem_append_right _ hp))
    · have hne : t.resolve path ≠ t.resolve d.file := by
        refine hfirst _ (List.mem_append.mpr ?_)
        exact (List.mem_append.mp hd).imp file_mem_found file_mem_found
      have hfind' := find_ok_of_agree hagree hat hfind (hnames ▸ hne)
      have hother : path ≠ d.file := fun heq => hne (congrArg t.resolve heq)
      rw [Survey.lose, if_neg hother]
      rcases List.mem_append.mp hd with hd | hd
      · exact .file hfind' hsame hcontents (ihm hd hinner) (same hrest (hcross _ (file_mem_found hd)))
      · exact .file hfind' hsame hcontents
          (same hmodules fun p hp => (hcross p hp _ (file_mem_found hd)).symm) (ih hd hlater)

end Changed

section Warnings

variable {t : FileTree} {root : Path} {s : Source} {text : String} {ms : List OutsideModule} {survey : Survey}

theorem file_of_mem_textWarnings {path : Path} {contents : Contents} {w : SourceWarning}
    (h : w ∈ textWarnings path text contents) : w.file = path := by
  rcases List.mem_append.mp h with h | h <;>
    obtain ⟨-, -, rfl⟩ := List.mem_map.mp h <;> rfl

theorem file_of_find_error {m : OutsideModule} {path : Option Path} {w : SourceWarning}
    (h : find t s text m = .error (path, w)) : w.file = path.getD s.file := by
  obtain ⟨rfl, hlocate⟩ | ⟨s', e, -, -, rfl, rfl⟩ := find_eq_error_iff.mp h
  · rw [locate_def] at hlocate
    split_ifs at hlocate
    obtain rfl := Except.error.inj hlocate
    rfl
  · rfl

theorem Holds.file_of_mem_warnings (h : survey.Holds t root s text ms) :
    ∀ w ∈ survey.warnings, w.file = s.file ∨ w.file ∈ survey.found := by
  induction h with
  | none => simp [warnings]
  | @lost s text m ms path w rest hfind _ ih =>
    refine List.forall_mem_cons.mpr ⟨?_, fun w' hw' => (ih w' hw').imp_right (List.mem_append_right _)⟩
    rw [file_of_find_error hfind]
    cases path with
    | none => exact .inl rfl
    | some p => exact .inr List.mem_cons_self
  | again _ _ _ ih => exact ih
  | file _ _ _ _ _ ihm ih =>
    refine List.forall_mem_append.mpr ⟨fun w hw => .inr ?_, List.forall_mem_append.mpr
      ⟨fun w hw => .inr ?_, fun w hw => (ih w hw).imp_right fun hmem => ?_⟩⟩
    · rw [file_of_mem_textWarnings hw]
      exact List.mem_cons_self
    · rcases ihm w hw with heq | hmem
      · rw [heq]
        exact List.mem_cons_self
      · exact List.mem_cons_of_mem _ (List.mem_append_left _ hmem)
    · exact List.mem_cons_of_mem _ (List.mem_append_right _ hmem)

/-- Warnings that point to none of some files. -/
def others (files : List Path) (ws : List SourceWarning) : List SourceWarning :=
  ws.filter (·.file ∉ files)

theorem others_append (files : List Path) (ws ws' : List SourceWarning) :
    others files (ws ++ ws') = others files ws ++ others files ws' :=
  List.filter_append ..

theorem others_textWarnings {files : List Path} {path : Path} (h : path ∉ files) (text : String)
    (contents : Contents) : others files (textWarnings path text contents) = textWarnings path text contents :=
  List.filter_eq_self.mpr fun w hw => by simpa [file_of_mem_textWarnings hw] using h

theorem others_eq_nil {files : List Path} {ws : List SourceWarning} (h : ∀ w ∈ ws, w.file ∈ files) :
    others files ws = [] :=
  List.filter_eq_nil_iff.mpr fun w hw => by simpa using h w hw

theorem Holds.others_warnings (h : survey.Holds t root s text ms) {files : List Path} (hs : s.file ∉ files)
    (hfound : ∀ p ∈ survey.found, p ∉ files) : others files survey.warnings = survey.warnings := by
  refine List.filter_eq_self.mpr fun w hw => decide_eq_true ?_
  rcases h.file_of_mem_warnings w hw with heq | hmem
  · exact heq ▸ hs
  · exact hfound _ hmem

/-- **The warnings about a lost file and those below it give way to one.** -/
theorem Holds.warnings_lose (h : survey.Holds t root s text ms) {path : Path} (hpath : path ∈ survey.found)
    (hnodup : survey.found.Nodup) (hs : s.file ∉ survey.found) (left : Option Path) (w : SourceWarning) :
    (survey.lose path left w).warnings.Perm
      (w :: others (path :: survey.filesBelow path) survey.warnings) := by
  induction h with
  | none => simp [found] at hpath
  | @lost s text m ms other w' rest hfind hrest ih =>
    obtain ⟨-, hnodup, hfirst⟩ := List.nodup_append.mp hnodup
    simp only [found, List.mem_append, not_or] at hs
    have hfile := file_of_find_error hfind
    by_cases heq : other = some path
    · subst heq
      have hnew : path ∉ rest.found := fun hmem => hfirst path List.mem_cons_self path hmem rfl
      have hne : s.file ≠ path := by simpa using hs.1
      rw [Survey.lose, if_pos rfl, lose_eq_self hnew, filesBelow, filesBelow_eq_nil hnew, warnings, warnings, others,
        List.filter_cons_of_neg (by simp [hfile]), ← others, hrest.others_warnings]
      · simpa using hne
      · exact fun p hp => by simpa using fun heq : p = path => hnew (heq ▸ hp)
    · have hrestPath : path ∈ rest.found := by
        rcases List.mem_append.mp hpath with hmem | hmem
        · exact absurd (Option.mem_toList.mp hmem) heq
        · exact hmem
      have hsubset : path :: rest.filesBelow path ⊆ rest.found :=
        List.cons_subset.mpr ⟨hrestPath, filesBelow_subset_found⟩
      have hkeep : w'.file ∉ path :: rest.filesBelow path := fun hmem => by
        rw [hfile] at hmem
        cases other with
        | none => exact hs.2 (hsubset hmem)
        | some p => exact hfirst p List.mem_cons_self p (hsubset hmem) rfl
      rw [Survey.lose, if_neg heq, filesBelow, warnings, warnings, others, List.filter_cons_of_pos (by simpa using hkeep)]
      exact ((ih hrestPath hnodup hs.2).cons w').trans (.swap w w' _)
  | again _ _ _ ih => exact ih hpath hnodup hs
  | @file s text inside m ms other dir contents modules rest hfind _ _ hmodules hrest ihm ih =>
    obtain ⟨hother, hnodup⟩ := List.nodup_cons.mp hnodup
    obtain ⟨hinner, hlater, hcross⟩ := List.nodup_append.mp hnodup
    simp only [found, List.mem_cons, List.mem_append, not_or] at hs hother hpath
    obtain ⟨hsother, hsmodules, hsrest⟩ := hs
    rcases hpath with rfl | hpath | hpath
    · have hmodulesFiles (w : SourceWarning) (hw : w ∈ modules.warnings) : w.file ∈ path :: modules.found :=
        List.mem_cons.mpr (hmodules.file_of_mem_warnings w hw)
      rw [Survey.lose, if_pos rfl, lose_eq_self hother.2, filesBelow, if_pos rfl, filesBelow_eq_nil hother.2,
        List.append_nil, warnings, warnings, others_append, others_append, hrest.others_warnings,
        others_eq_nil hmodulesFiles, others_eq_nil fun w hw => ?_]
      · exact .refl _
      · rw [file_of_mem_textWarnings hw]
        exact List.mem_cons_self
      · simp [hsother, hsmodules]
      · intro p hp hmem
        rcases List.mem_cons.mp hmem with rfl | hmem
        · exact hother.2 hp
        · exact hcross p hmem p hp rfl
    · have hne : other ≠ path := fun heq => hother.1 (heq ▸ hpath)
      have hrestPath : path ∉ rest.found := fun hmem => hcross path hpath path hmem rfl
      have hsubset : path :: modules.filesBelow path ⊆ modules.found :=
        List.cons_subset.mpr ⟨hpath, filesBelow_subset_found⟩
      rw [Survey.lose, if_neg hne, lose_eq_self hrestPath, filesBelow, if_neg hne, filesBelow_eq_nil hrestPath,
        List.append_nil, warnings, warnings, others_append, others_append,
        hrest.others_warnings (fun hmem => hsmodules (hsubset hmem)) fun p hp hmem => hcross p (hsubset hmem) p hp rfl,
        others_textWarnings fun hmem => hother.1 (hsubset hmem)]
      exact (((ihm hpath hinner hother.1).append_right _).append_left _).trans List.perm_middle
    · have hne : other ≠ path := fun heq => hother.2 (heq ▸ hpath)
      have hmodulesPath : path ∉ modules.found := fun hmem => hcross path hmem path hpath rfl
      have hsubset : path :: rest.filesBelow path ⊆ rest.found :=
        List.cons_subset.mpr ⟨hpath, filesBelow_subset_found⟩
      rw [Survey.lose, if_neg hne, lose_eq_self hmodulesPath, filesBelow, if_neg hne,
        filesBelow_eq_nil hmodulesPath, List.nil_append, warnings, warnings, others_append, others_append,
        hmodules.others_warnings (fun hmem => hother.2 (hsubset hmem))
          fun p hp hmem => hcross p hp p (hsubset hmem) rfl,
        others_textWarnings fun hmem => hother.2 (hsubset hmem), ← List.append_assoc, ← List.append_assoc]
      exact ((ih hpath hlater hsrest).append_left _).trans List.perm_middle

end Warnings

theorem Holds.isFile_of_mem_found {t : FileTree} {root : Path} {s : Source} {text : String}
    {ms : List OutsideModule} {survey : Survey} (h : survey.Holds t root s text ms) :
    ∀ p ∈ survey.found, t.isFile p := by
  induction h with
  | none => simp [found]
  | lost hfind _ ih =>
    refine List.forall_mem_append.mpr ⟨fun p hp => ?_, ih⟩
    obtain ⟨rfl, -⟩ | ⟨s', e, hlocate, -, rfl, -⟩ := find_eq_error_iff.mp hfind
    · simp at hp
    · rw [List.mem_singleton.mp hp]
      exact (locate_eq_ok hlocate).2
  | again _ _ _ ih => exact ih
  | file hfind _ _ _ _ ihm ih =>
    exact List.forall_mem_cons.mpr ⟨(locate_eq_ok (find_eq_ok_iff.mp hfind).1).2, List.forall_mem_append.mpr ⟨ihm, ih⟩⟩

/-- The root file can be read, and it is read once. -/
theorem Holds.root_notMem_found {t : FileTree} {root : Path} {s : Source} {text whole : String}
    {ms : List OutsideModule} {survey : Survey} (h : survey.Holds t root s text ms)
    (hroot : t.readText root = .ok whole) : root ∉ survey.found := by
  have hself : root.isSame root := by simp [Path.isSame]
  induction h with
  | none => simp [found]
  | lost hfind _ ih =>
    refine List.not_mem_append (fun hmem => ?_) ih
    obtain ⟨rfl, -⟩ | ⟨s', e, -, hread, rfl, -⟩ := find_eq_error_iff.mp hfind
    · simp at hmem
    · rw [← List.mem_singleton.mp hmem, hroot] at hread
      simp at hread
  | again _ _ _ ih => exact ih
  | @file _ _ _ _ _ path _ _ _ _ _ hne _ _ _ ihm ih =>
    simp only [found, List.mem_cons, List.mem_append, not_or]
    exact ⟨fun heq => hne (heq ▸ hself), ihm, ih⟩

end Survey

namespace CrateSurvey

/-- The declarations of modules in other files that have files, in the whole crate. -/
def declarations (f : CrateSurvey) : List Declaration :=
  f.modules.declarations f.source f.text (f.contents.modules [] 1)

theorem others_warnings (f : CrateSurvey) {files : List Path} (h : f.root ∉ files) :
    Survey.others files f.warnings =
      textWarnings f.root f.text f.contents ++ Survey.others files f.modules.warnings := by
  rw [warnings, Survey.others_append, Survey.others_textWarnings h]

/-- **The loss of a module's file stays with that file.** No two declarations lead to one file. The crate is
still loaded; its tree is as before without what was read from the lost file and what is below, and so are its
warnings, but for a new one about the loss. -/
theorem Holds.load_without {t t' : FileTree} {f : CrateSurvey} (h : f.Holds t)
    (hdistinct : f.modules.found.Pairwise (t.resolve · ≠ t.resolve ·)) {d : Declaration}
    (hd : d ∈ f.declarations) (hroot : t.resolve f.root ≠ t.resolve d.file) {names : List Bytes}
    (hnames : t.resolve d.file = .ok names) (hagree : FileTree.AgreeBut t t' names) {left : Option Path}
    {w : SourceWarning} (hlost : Lost t' names d left w) (name : String) :
    ∃ c c', load t f.root name = .ok c ∧ load t' f.root name = .ok c' ∧
      HasDocTrees c.outline.docFace? [c.root] (f.tree name) ∧
      HasDocTrees c'.outline.docFace? [c'.root] ((f.tree name).without d.file) ∧
      c'.warnings.Perm (w :: c.warnings.filter (·.file ∉ d.file :: f.modules.filesBelow d.file)) := by
  have hfile := Survey.file_mem_found hd
  obtain ⟨_, bytes, isExecutable, hnames', hat⟩ :=
    FileTree.exists_resolve_of_isFile (h.modules.isFile_of_mem_found d.file hfile)
  obtain rfl := Except.ok.inj (hnames.symm.trans hnames')
  obtain ⟨place, hplace⟩ := FileTree.exists_resolve_of_readText h.text
  have hne : place ≠ names := fun heq => hroot (by rw [hplace, hnames, heq])
  have hpaths : f.modules.found.Pairwise (¬ ·.isSame ·) := by
    refine hdistinct.imp_of_mem fun {p q} hp hq hresolve hsame => ?_
    obtain ⟨a, -, -, ha, -⟩ := FileTree.exists_resolve_of_isFile (h.modules.isFile_of_mem_found p hp)
    obtain ⟨b, -, -, hb, -⟩ := FileTree.exists_resolve_of_isFile (h.modules.isFile_of_mem_found q hq)
    exact hresolve (by rw [ha, hb, FileTree.eq_of_isSame ha hb hsame])
  let f' : CrateSurvey := { f with modules := f.modules.lose d.file left w }
  have h' : f'.Holds t' := by
    refine ⟨?_, h.contents, h.modules.lose hd hdistinct hagree hat hplace hne hnames hlost⟩
    rw [hagree.readText_eq hplace hne]
    exact h.text
  obtain ⟨c, hload, htree, hwarnings⟩ := h.exists_load (hpaths.sublist Survey.paths_sublist_found) name
  obtain ⟨c', hload', htree', hwarnings'⟩ := h'.exists_load
    (hpaths.sublist (Survey.paths_lose_sublist.trans Survey.paths_sublist_found)) name
  have hrootFile : ¬ f.root.isSame d.file := fun hsame => hne (FileTree.eq_of_isSame hplace hnames hsame)
  have hrootFound : f.root ∉ f.modules.found := h.modules.root_notMem_found h.text
  have hbodies : f'.modules.bodies = f.modules.bodies.map (·.without d.file) := by
    refine Survey.bodies_lose fun p hp hother => ?_
    have hsymm : Std.Symm fun p q : Path => ¬ p.isSame q := ⟨fun p q h => isSame_comm p q ▸ h⟩
    exact hpaths.forall (Survey.paths_sublist_found.mem hp) hfile hother
  have htree'' : f'.tree name = (f.tree name).without d.file := by
    have hother : f.root ≠ d.file := fun heq => hrootFound (heq ▸ hfile)
    rw [tree, hbodies, tree, DocTrees.without, if_neg (by simpa using hother),
      f.contents.without_fill hrootFile Survey.isFrom_of_mem_bodies]
    rfl
  refine ⟨c, c', hload, hload', htree, htree'' ▸ htree', hwarnings'.trans ?_⟩
  have hlose := h.modules.warnings_lose hfile (hdistinct.imp fun hresolve heq => hresolve (congrArg t.resolve heq))
    hrootFound left w
  have hkeep : f.root ∉ d.file :: f.modules.filesBelow d.file := fun hmem =>
    hrootFound (List.cons_subset.mpr ⟨hfile, Survey.filesBelow_subset_found⟩ hmem)
  have hold : (Survey.others (d.file :: f.modules.filesBelow d.file) c.warnings).Perm _ :=
    (hwarnings.filter _).trans (.of_eq (f.others_warnings hkeep))
  exact (hlose.append_left _).trans (List.perm_middle.trans (hold.symm.cons w))

/-- The lost file declares a module that has a file and one that has none. -/
theorem load_without_middle :
    let t : FileTree := ⟨[], [([Bytes.ofString "l.rs"], .file (Bytes.ofString "mod a;fn f();") false),
      ([Bytes.ofString "a.rs"], .file (Bytes.ofString "//! A.\nmod b;mod x;") false),
      ([Bytes.ofString "a"], .directory),
      ([Bytes.ofString "a", Bytes.ofString "b.rs"], .file (Bytes.ofString "type T;") false)]⟩
    let lost : SourceWarning := .missingModule "x" (.ofString "./a.rs") 2
      [.ofString "./a/x.rs", .ofString "./a/x/mod.rs"]
    let f : CrateSurvey := ⟨.ofString "l.rs", "mod a;fn f();",
      .outside "a" none ⟨4, 5⟩ (.item .function "f" none .nil .nil),
      .file (.ofString "./a.rs") (.ofString "./a") "//! A.\nmod b;mod x;"
        (.inner ⟨1, 2, "A."⟩ (.outside "b" none ⟨11, 12⟩ (.outside "x" none ⟨17, 18⟩ .nil)))
        (.file (.ofString "./a/b.rs") (.ofString "./a/b") "type T;" (.item .typeAlias "T" none .nil .nil) .none
          (.lost none lost .none)) .none⟩
    let d : Declaration := ⟨f.source, f.text, ⟨1, "a", [], ⟨4, 5⟩⟩, .ofString "./a.rs"⟩
    let names := [Bytes.ofString "a.rs"]
    f.Holds t ∧ f.modules.found.Pairwise (t.resolve · ≠ t.resolve ·) ∧ d ∈ f.declarations ∧
      t.resolve f.root ≠ t.resolve d.file ∧ t.resolve d.file = .ok names ∧
      FileTree.AgreeBut t (t.erase names) names ∧ Lost (t.erase names) names d none d.missing ∧
      ∃ c c', load t f.root "c" = .ok c ∧ load (t.erase names) f.root "c" = .ok c' ∧
        HasDocTrees c.outline.docFace? [c.root] (f.tree "c") ∧
        HasDocTrees c'.outline.docFace? [c'.root] ((f.tree "c").without d.file) ∧
        c'.warnings.Perm (d.missing :: c.warnings.filter (·.file ∉ d.file :: f.modules.filesBelow d.file)) := by
  intro t lost f d names
  have hmodules : f.modules.Holds t f.root f.source f.text (f.contents.modules [] 1) := by
    refine .file (by decide +kernel) (by decide +kernel) (by decide +kernel) ?_ .none
    refine .file (by decide +kernel) (by decide +kernel) (by decide +kernel) .none ?_
    exact .lost (by decide +kernel) .none
  have h : f.Holds t := ⟨by decide +kernel, by decide +kernel, hmodules⟩
  have hdistinct : f.modules.found.Pairwise (t.resolve · ≠ t.resolve ·) := by decide +kernel
  have hd : d ∈ f.declarations := by decide +kernel
  have hroot : t.resolve f.root ≠ t.resolve d.file := by decide +kernel
  have hnames : t.resolve d.file = .ok names := by decide +kernel
  have hagree : FileTree.AgreeBut t (t.erase names) names :=
    .erase (show t.at? names = some (.file (Bytes.ofString "//! A.\nmod b;mod x;") false) by decide +kernel)
  have hlost : Lost (t.erase names) names d none d.missing := .removed (by decide +kernel) (by decide +kernel)
  exact ⟨h, hdistinct, hd, hroot, hnames, hagree, hlost,
    Holds.load_without h hdistinct hd hroot hnames hagree hlost "c"⟩

end CrateSurvey

end LoadedCrate

end Doctest
