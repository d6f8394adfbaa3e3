import Doctest.Proofs.Crate.Survey
import Doctest.Proofs.Outline.WellFormed

/-! The files of a crate as trees: each file with those of the modules that it declares. The text of a file
can be given the texts of these modules, and theirs in them. -/
namespace Doctest.LoadedCrate

open Outline

/-- The files of some modules, in the order of their declarations, each with the directory of its own
modules, its text and the files of these modules. -/
inductive Layout
  | none
  | file (path dir : Path) (text : String) (modules rest : Layout)
deriving DecidableEq, Repr

namespace Layout

/-- The texts of the files, each with those of its modules in braces in place of their semicolons. -/
def texts : Layout → List String
  | none => []
  | file _ _ text modules rest => withBodies text modules.texts :: rest.texts

def paths : Layout → List Path
  | none => []
  | file path _ _ modules rest => path :: (modules.paths ++ rest.paths)

/-- The files in the tree that hold these modules of a source and the modules in them. All are complete
items without faults. -/
inductive Holds (t : FileTree) : Source → String → List OutsideModule → Layout → Prop
  | none {s : Source} {text : String} : Holds t s text [] .none
  | file {s : Source} {text inside : String} {m : OutsideModule} {ms : List OutsideModule}
    {path dir : Path} {modules rest : Layout} :
    locate t (.ofString text) s m = .ok ⟨path, m.id, dir⟩ → t.readText path = .ok inside →
    WellFormed inside → Holds t ⟨path, m.id, dir⟩ inside (modulesOf inside) modules →
    Holds t s text ms rest → Holds t s text (m :: ms) (.file path dir inside modules rest)

theorem Holds.length_texts {t : FileTree} {s : Source} {text : String} {ms : List OutsideModule}
    {layout : Layout} (h : Holds t s text ms layout) : layout.texts.length = ms.length := by
  induction h with
  | none => rfl
  | file _ _ _ _ _ _ ih => exact congrArg (· + 1) ih

/-- The files are among those that are surveyed, and their texts are read into the bodies of the modules. -/
theorem Holds.exists_survey {t : FileTree} {root : Path} {s : Source} {text : String} {ms : List OutsideModule}
    {layout : Layout} (h : layout.Holds t s text ms) (hroot : ∀ p ∈ layout.paths, ¬ p.isSame root) :
    ∃ survey : Survey, survey.Holds t root s text ms ∧ survey.paths = layout.paths ∧
      List.Forall₂ (fun text body => Embeds text.toList body.trees.trees.marks) layout.texts survey.bodies := by
  induction h with
  | none => exact ⟨.none, .none, rfl, .nil⟩
  | @file s text inside m ms path dir modules rest hlocate hread hinside hmodules _ ihm ih =>
    obtain ⟨hpath, hroot⟩ := List.forall_mem_cons.mp hroot
    obtain ⟨hinner, hrest⟩ := List.forall_mem_append.mp hroot
    obtain ⟨contents, hcontents⟩ := Contents.exists_isOf inside
    obtain ⟨below, hbelow, hpaths, htexts⟩ := ihm hinner
    obtain ⟨later, hlater, hpaths', htexts'⟩ := ih hrest
    have hlen : modules.texts.length = contents.holes := by
      rw [hmodules.length_texts, modulesOf_eq hcontents, contents.length_modules]
    rw [modulesOf_eq hcontents] at hbelow
    refine ⟨.file path dir inside contents below later,
      .file (find_eq_ok_iff.mpr ⟨hlocate, hread⟩) hpath hcontents hbelow hlater, ?_,
      .cons (hinside.embeds_withBodies hcontents _ hlen htexts) htexts'⟩
    rw [Survey.paths, hpaths, hpaths', paths]

end Layout

end Doctest.LoadedCrate
