import Doctest.Proofs.Crate.Layout
import Doctest.Proofs.Crate.Loading

/-! A crate of files and the crate of one text, in which the text of each file stands in braces where its
module is declared, have the same tree. -/
namespace Doctest.LoadedCrate

open Outline

/-- The text in which all others stand has the trees of all of them. -/
theorem hasTrees_ofSource {text : String} {trees : Trees} (h : Embeds text.toList trees.marks) (name : String) :
    HasTrees (ofSource name text).outline.face? [0] (.node .crate name trees .nil) := by
  obtain ⟨contents, hcontents⟩ := Contents.exists_isOf text
  have hbare : contents.bare = trees.marks := hcontents.skeleton_eq.symm.trans h.skeleton_eq
  have hout (span : Span) : .outside span ∉ trees.marks := fun hmem => by
    simpa using Trees.mem_marks hmem
  have hfaults : contents.faults = [] := List.eq_nil_iff_forall_not_mem.mpr fun f hf => by
    have hmem : .fault f ∈ trees.marks := hbare ▸ Contents.fault_mem_bare hf
    simpa using Trees.mem_marks hmem
  have hmodules : contents.modules [] 1 = [] := by
    rw [← List.map_eq_nil_iff, ← contents.outsides_bare [] 1, hbare, outsides_eq_nil hout]
  have htrees : (contents.fill none []).trees = trees := by
    refine Trees.marks_inj ((contents.marks_fill none [] hfaults).trans ?_)
    rw [hbare]
    exact fillMarks_of_notMem hout _
  obtain ⟨-, -, -, hstands, hface, -⟩ :=
    @readTokens_of_isOf (start name).outline 0 Nat.zero_lt_one none _ _ hcontents
  have hnone : List.Forall₂ (Receives (ofSource name text).outline.docFace? (ofSource name text).outline.docFace?)
      (contents.modules [] 1) [] := by
    rw [hmodules]
    exact .nil
  have hfilled := hstands.hasDocTrees (fun _ _ _ _ => rfl) hnone
  have hcrate : HasDocTrees (ofSource name text).outline.docFace? [0]
      (.node .crate name (attachAll [] (contents.docs none)) none (contents.fill none []) .nil) :=
    .node hface hfilled .nil
  exact htrees ▸ hcrate.hasTrees

/-- **A crate that is read from its files has the tree of the text in which each file stands in the place
of its module.** All files are complete items without faults, and each is the file of one module. -/
theorem load_hasTrees_inlined {t : FileTree} {rootFile : Path} {text : String} {layout : Layout}
    (hread : t.readText rootFile = .ok text) (htext : WellFormed text)
    (hlayout : layout.Holds t ⟨rootFile, 0, rootDir rootFile⟩ text (modulesOf text))
    (hpaths : (rootFile :: layout.paths).Pairwise (¬ ·.isSame ·)) (name : String) :
    ∃ c trees, load t rootFile name = .ok c ∧ HasTrees c.outline.face? [c.root] trees ∧
      HasTrees (ofSource name (withBodies text layout.texts)).outline.face?
        [(ofSource name (withBodies text layout.texts)).root] trees := by
  obtain ⟨hfirst, hpaths⟩ := List.pairwise_cons.mp hpaths
  obtain ⟨contents, hcontents⟩ := Contents.exists_isOf text
  obtain ⟨survey, hsurvey, heq, htexts⟩ :=
    hlayout.exists_survey fun p hp => isSame_comm rootFile p ▸ hfirst p hp
  have hlen : layout.texts.length = contents.holes := by
    rw [hlayout.length_texts, modulesOf_eq hcontents, contents.length_modules]
  rw [modulesOf_eq hcontents] at hsurvey
  let f : CrateSurvey := ⟨rootFile, text, contents, survey⟩
  have hf : f.Holds t := ⟨hread, hcontents, hsurvey⟩
  obtain ⟨c, hload, htree, -⟩ := hf.exists_load (heq ▸ hpaths) name
  exact ⟨c, _, hload, htree.hasTrees,
    hasTrees_ofSource (htext.embeds_withBodies hcontents (some rootFile) hlen htexts) name⟩

/-- The file of a module declares a module that is in another file. -/
theorem load_hasTrees_inlined_nested :
    let t : FileTree := ⟨[], [([Bytes.ofString "l.rs"], .file (Bytes.ofString "mod a;fn f();") false),
      ([Bytes.ofString "a.rs"], .file (Bytes.ofString "mod b;") false),
      ([Bytes.ofString "a"], .directory),
      ([Bytes.ofString "a", Bytes.ofString "b.rs"], .file (Bytes.ofString "type T;") false)]⟩
    let layout : Layout := .file (.ofString "./a.rs") (.ofString "./a") "mod b;"
      (.file (.ofString "./a/b.rs") (.ofString "./a/b") "type T;" .none .none) .none
    t.readText (.ofString "l.rs") = .ok "mod a;fn f();" ∧ WellFormed "mod a;fn f();" ∧
      layout.Holds t ⟨.ofString "l.rs", 0, .ofString "."⟩ "mod a;fn f();" (modulesOf "mod a;fn f();") ∧
      (Path.ofString "l.rs" :: layout.paths).Pairwise (¬ ·.isSame ·) ∧
      withBodies "mod a;fn f();" layout.texts = "mod a\x7b\nmod b\x7b\ntype T;\n\x7d\n\x7dfn f();" ∧
      ∃ c trees, load t (.ofString "l.rs") "c" = .ok c ∧ HasTrees c.outline.face? [c.root] trees ∧
        HasTrees (ofSource "c" (withBodies "mod a;fn f();" layout.texts)).outline.face?
          [(ofSource "c" (withBodies "mod a;fn f();" layout.texts)).root] trees := by
  intro t layout
  have hread : t.readText (.ofString "l.rs") = .ok "mod a;fn f();" := by decide +kernel
  have hroot' : Lexed.ofString "mod a;fn f();" = ⟨[] ++ [⟨.keyword .modKw, ⟨0, 3⟩⟩, ⟨.name "a", ⟨4, 5⟩⟩,
      ⟨.symbol .semi, ⟨5, 6⟩⟩, ⟨.keyword .fnKw, ⟨6, 8⟩⟩, ⟨.name "f", ⟨9, 10⟩⟩, ⟨.opening .paren, ⟨10, 11⟩⟩,
      ⟨.closing .paren, ⟨11, 12⟩⟩, ⟨.symbol .semi, ⟨12, 13⟩⟩] ++ [⟨.eof, ⟨13, 13⟩⟩], []⟩ := by decide +kernel
  have hroot : WellFormed "mod a;fn f();" := by
    refine .of_lexed hroot' (by decide +kernel) .nil ?_ (by simp [Complete])
    refine .plain rfl (by simp) (.plain rfl (by simp) (.plain rfl (by simp) (.plain rfl (by simp)
      (.plain rfl (by simp) ?_))))
    exact @Balanced.group _ .paren _ _ [] _ rfl (by simp) .nil rfl (.plain rfl (by simp) .nil)
  have hinside' : Lexed.ofString "mod b;" = ⟨[] ++ [⟨.keyword .modKw, ⟨0, 3⟩⟩, ⟨.name "b", ⟨4, 5⟩⟩,
      ⟨.symbol .semi, ⟨5, 6⟩⟩] ++ [⟨.eof, ⟨6, 6⟩⟩], []⟩ := by decide +kernel
  have hinside : WellFormed "mod b;" :=
    .of_lexed hinside' (by decide +kernel) .nil
      (.plain rfl (by simp) (.plain rfl (by simp) (.plain rfl (by simp) .nil))) (by simp [Complete])
  have hinner' : Lexed.ofString "type T;" = ⟨[] ++ [⟨.keyword .typeKw, ⟨0, 4⟩⟩, ⟨.name "T", ⟨5, 6⟩⟩,
      ⟨.symbol .semi, ⟨6, 7⟩⟩] ++ [⟨.eof, ⟨7, 7⟩⟩], []⟩ := by decide +kernel
  have hinner : WellFormed "type T;" :=
    .of_lexed hinner' (by decide +kernel) .nil
      (.plain rfl (by simp) (.plain rfl (by simp) (.plain rfl (by simp) .nil))) (by simp [Complete])
  have hmodules : modulesOf "mod a;fn f();" = [⟨1, "a", [], ⟨4, 5⟩⟩] ∧
      modulesOf "mod b;" = [⟨1, "b", [], ⟨4, 5⟩⟩] ∧ modulesOf "type T;" = [] := by
    simp only [modulesOf, Outline.ofSource, readSource, hroot', hinside', hinner']
    decide +kernel
  have hlayout : layout.Holds t ⟨.ofString "l.rs", 0, .ofString "."⟩ "mod a;fn f();"
      (modulesOf "mod a;fn f();") := by
    rw [hmodules.1]
    refine .file (by decide +kernel) (by decide +kernel) hinside ?_ .none
    rw [hmodules.2.1]
    refine .file (by decide +kernel) (by decide +kernel) hinner ?_ .none
    rw [hmodules.2.2]
    exact .none
  have hpaths : (Path.ofString "l.rs" :: layout.paths).Pairwise (¬ ·.isSame ·) := by decide +kernel
  have htexts : withBodies "mod a;fn f();" layout.texts =
      "mod a\x7b\nmod b\x7b\ntype T;\n\x7d\n\x7dfn f();" := by
    simp only [layout, Layout.texts, withBodies, hmodules, hroot', hinside', hinner']
    decide +kernel
  exact ⟨hread, hroot, hlayout, hpaths, htexts,
    load_hasTrees_inlined hread hroot hlayout hpaths "c"⟩

end Doctest.LoadedCrate
