import Doctest.Crate.Load
import Doctest.Proofs.Outline.ModuleNames
import Doctest.Proofs.Text.Lines
import Doctest.Proofs.Unit.Names

/-! How deep the files of a crate are nested. The file of a module stands at least one name deeper in the
tree than the directory of the file that declares it, so the height of the tree bounds the nesting. -/
namespace Doctest

open Text

namespace Path

/-- What names an entry of a directory. -/
structure IsPart (part : Bytes) : Prop where
  ne_nil : part ≠ []
  slash_notMem : slash ∉ part
  ne_dot : part ≠ [dot]
  ne_parent : part ≠ FileTree.parentName

/-- The last `count` parts of the path are names. -/
def Below (count : Nat) (p : Path) : Prop :=
  ∃ front names, splitOn slash p.bytes = front ++ names ∧ names.length = count ∧ ∀ part ∈ names, IsPart part

theorem Below.zero (p : Path) : p.Below 0 :=
  ⟨_, [], (List.append_nil _).symm, rfl, by simp⟩

theorem Below.join {count : Nat} {p q : Path} (h : p.Below count) (hq : IsPart q.bytes) :
    (p.join q).Below (count + 1) := by
  obtain ⟨front, names, hsplit, rfl, hnames⟩ := h
  have habs : q.isAbsolute = false := by
    obtain ⟨b, bs, hb⟩ := List.exists_cons_of_ne_nil hq.ne_nil
    have hne : b ≠ slash := fun heq => hq.slash_notMem (by rw [hb, heq]; exact List.mem_cons_self)
    simp [isAbsolute, hb, hne]
  have hlast : splitOn slash q.bytes = [q.bytes] := splitOn_of_notMem hq.slash_notMem
  by_cases hend : p.isEmpty || p.bytes.getLast? == some slash
  · -- The path ends in an empty part, in which the name is put.
    obtain ⟨before, hbefore, hafter⟩ : ∃ before, splitOn slash p.bytes = before ++ [[]] ∧
        splitOn slash (p.bytes ++ q.bytes) = before ++ [q.bytes] := by
      rcases Bool.or_eq_true _ _ ▸ hend with hempty | hslash
      · have hnil : p.bytes = [] := by simpa [isEmpty] using hempty
        exact ⟨[], by rw [hnil]; rfl, by rw [hnil, List.nil_append, hlast]; rfl⟩
      · obtain ⟨bs, hbs⟩ := List.getLast?_eq_some_iff.mp (eq_of_beq hslash)
        refine ⟨splitOn slash bs, ?_, ?_⟩
        · rw [hbs, splitOn_append_cons]
          rfl
        · rw [hbs, List.append_assoc, List.singleton_append, splitOn_append_cons, hlast]
    obtain rfl : names = [] := by
      by_contra hne
      have hnil : names.getLast hne = [] := by
        have heq := congrArg List.getLast? (hsplit.symm.trans hbefore)
        rw [List.getLast?_append_of_ne_nil _ hne, List.getLast?_concat,
          List.getLast?_eq_some_getLast hne] at heq
        exact Option.some.inj heq
      exact (hnames _ (List.getLast_mem hne)).ne_nil hnil
    refine ⟨before, [q.bytes], ?_, rfl, by simpa using hq⟩
    rw [Path.join, habs, if_neg Bool.false_ne_true, if_pos hend, hafter]
  · refine ⟨front, names ++ [q.bytes], ?_, by simp, fun part hpart => ?_⟩
    · rw [Path.join, habs, if_neg Bool.false_ne_true, if_neg hend, splitOn_append_cons, hsplit, hlast,
        List.append_assoc]
    · rcases List.mem_append.mp hpart with hpart | hpart
      · exact hnames part hpart
      · exact List.mem_singleton.mp hpart ▸ hq

theorem Below.mono {count few : Nat} {p : Path} (h : p.Below count) (hle : few ≤ count) : p.Below few := by
  obtain ⟨front, names, hsplit, rfl, hnames⟩ := h
  refine ⟨front ++ names.take (names.length - few), names.drop (names.length - few), ?_, ?_,
    fun part hpart => hnames part (List.mem_of_mem_drop hpart)⟩
  · rw [hsplit, List.append_assoc, List.take_append_drop]
  · rw [List.length_drop]
    omega

theorem Below.foldl_join {count : Nat} {p : Path} (h : p.Below count) {names : List String}
    (hnames : ∀ name ∈ names, IsPart (ofString name).bytes) :
    (names.foldl (fun p name => p.join (ofString name)) p).Below count := by
  induction names generalizing p with
  | nil => exact h
  | cons name names ih =>
    exact ih ((h.join (hnames name List.mem_cons_self)).mono (Nat.le_succ _))
      fun other hother => hnames other (List.mem_cons_of_mem _ hother)

end Path

namespace FileTree

/-- Names lead down. -/
theorem eq_append_of_walk (t : FileTree) {here names parts : List Bytes}
    (hparts : ∀ part ∈ parts, Path.IsPart part) (h : t.walk here parts = .ok names) :
    names = here ++ parts := by
  induction parts generalizing here with
  | nil =>
    rw [walk] at h
    rw [List.append_nil, Except.ok.inj h]
  | cons part parts ih =>
    obtain ⟨hpart, hparts⟩ := List.forall_mem_cons.mp hparts
    rw [walk] at h
    split at h
    · simp at h
    · rw [if_neg (not_or.mpr ⟨hpart.ne_nil, hpart.ne_dot⟩), if_neg hpart.ne_parent] at h
      split at h
      · simp at h
      · rw [ih hparts h, List.append_assoc]
        rfl
    · simp at h

theorem exists_walk_of_append (t : FileTree) {here names front parts : List Bytes}
    (h : t.walk here (front ++ parts) = .ok names) : ∃ place, t.walk place parts = .ok names := by
  induction front generalizing here with
  | nil => exact ⟨here, h⟩
  | cons part front ih =>
    rw [List.cons_append, walk] at h
    split at h
    · simp at h
    · split_ifs at h with hsame hparent hlong
      · exact ih h
      · exact ih h
      · exact ih h
    · simp at h

theorem length_le_height {t : FileTree} {names : List Bytes} {e : FileEntry}
    (h : t.entries.lookup names = some e) : names.length ≤ t.height := by
  obtain ⟨before, after, hentries, -⟩ := List.lookup_eq_some_iff.mp h
  have hmem : names.length ∈ t.entries.map (·.1.length) :=
    List.mem_map.mpr ⟨(names, e), by simp [hentries], rfl⟩
  rw [height, List.foldl_max]
  exact (List.le_max?_getD_of_mem hmem).trans (Nat.le_max_right _ _)

/-- A file stands as deep in the tree as its path has names at the end. -/
theorem le_height_of_isFile {t : FileTree} {p : Path} {count : Nat} (hp : p.Below count)
    (h : t.isFile p) : count ≤ t.height := by
  obtain ⟨front, parts, hsplit, rfl, hparts⟩ := hp
  unfold isFile find at h
  cases hresolve : t.resolve p with
  | error e => simp [hresolve, bind, Except.bind] at h
  | ok names =>
    have hwalk : ∃ here, t.walk here (front ++ parts) = .ok names := by
      unfold resolve at hresolve
      rw [hsplit] at hresolve
      split_ifs at hresolve
      · exact ⟨[], hresolve⟩
      · exact ⟨t.home, hresolve⟩
    obtain ⟨here, hwalk⟩ := hwalk
    obtain ⟨place, hwalk⟩ := t.exists_walk_of_append hwalk
    have hlen : parts.length ≤ names.length := by
      rw [t.eq_append_of_walk hparts hwalk]
      simp
    refine hlen.trans ?_
    simp only [hresolve, bind, Except.bind, at?] at h
    by_cases hnil : names = []
    · simp [hnil] at h
    · cases hentry : t.entries.lookup names with
      | none => simp [hnil, hentry] at h
      | some e => exact length_le_height hentry

end FileTree

/-- A name that is a word names an entry of a directory, with what may be put behind it. -/
theorem IsWord.isPart {name : String} (h : IsWord name) {ending : String}
    (hending : ∀ c ∈ ending.toList, c ≠ '/') : Path.IsPart (Path.ofString (name ++ ending)).bytes := by
  obtain ⟨hne, hword⟩ := h
  have hslash : isNameChar '/' = false := by decide +kernel
  have hdot : isNameChar '.' = false := by decide +kernel
  obtain ⟨c, cs, hcs⟩ := List.exists_cons_of_ne_nil hne
  have hbytes : (Path.ofString (name ++ ending)).bytes =
      String.utf8EncodeChar c ++ (cs ++ ending.toList).flatMap String.utf8EncodeChar := by
    rw [Path.ofString, Bytes.ofString_eq_flatMap, String.toList_append, hcs, List.cons_append,
      List.flatMap_cons]
  have hfirst : c ≠ '.' := fun heq => by
    have hc := hword c (hcs ▸ List.mem_cons_self)
    rw [heq, hdot] at hc
    simp at hc
  -- A part that is all dots would begin with one.
  have hlead {rest : Bytes} (heq : (Path.ofString (name ++ ending)).bytes = Path.dot :: rest) : False := by
    obtain ⟨b, bs, hb⟩ : ∃ b bs, String.utf8EncodeChar c = b :: bs := by
      refine List.exists_cons_of_ne_nil fun hnil => ?_
      have := congrArg List.length hnil
      rw [String.length_utf8EncodeChar] at this
      have := c.utf8Size_pos
      simp_all
    rw [hbytes, hb, List.cons_append] at heq
    obtain ⟨rfl, -⟩ := List.cons.inj heq
    have hc := Bytes.toNat_eq_of_mem_utf8EncodeChar (c := c) (b := Path.dot) (hb ▸ List.mem_cons_self)
      (by decide)
    exact hfirst (Char.toNat_inj.mp hc)
  refine ⟨fun hnil => ?_, ?_, fun heq => hlead heq, fun heq => hlead heq⟩
  · have := congrArg List.length hnil
    rw [hbytes, List.length_append, String.length_utf8EncodeChar] at this
    have := c.utf8Size_pos
    simp_all
  · refine Bytes.notMem_ofString (by decide) fun d hd heq => ?_
    obtain rfl : d = '/' := Char.toNat_inj.mp heq
    rw [String.toList_append, List.mem_append] at hd
    rcases hd with hd | hd
    · simpa [hslash] using hword _ hd
    · exact hending _ hd rfl

namespace LoadedCrate

open Outline

/-- The two places of a module's file, and the directory of its own modules, are at least one name deeper
than the directory of the declaring file. -/
theorem below_candidates {dir : Path} {count : Nat} (hdir : dir.Below count) {m : OutsideModule}
    (hm : m.IsNamed) : (candidates dir m).1.Below (count + 1) ∧
      (candidates dir m).2.1.Below (count + 1) ∧ (candidates dir m).2.2.Below (count + 1) := by
  have hpart {name : String} (h : IsWord name) : Path.IsPart (Path.ofString name).bytes := by
    have hempty : Path.IsPart (Path.ofString (name ++ "")).bytes := h.isPart (by simp)
    rwa [String.append_empty] at hempty
  have hbase := hdir.foldl_join fun name hname => hpart (hm.2 name hname)
  have hinner := hbase.join (hpart hm.1)
  have hmod : Path.IsPart (Path.ofString "mod.rs").bytes := by
    refine ⟨?_, ?_, ?_, ?_⟩ <;> decide +kernel
  exact ⟨hbase.join (hm.1.isPart (by simp)), (hinner.join hmod).mono (Nat.le_succ _), hinner⟩

/-- A module's file stands in the tree, so the height of the tree bounds how deep it is. -/
theorem below_of_locate {t : FileTree} {lines : LineMap} {s s' : Source} {m : OutsideModule}
    (h : locate t lines s m = .ok s') {count : Nat} (hdir : s.dir.Below count) (hm : m.IsNamed) :
    s'.file.Below (count + 1) ∧ s'.dir.Below (count + 1) ∧ t.isFile s'.file := by
  obtain ⟨hflat, hnested, hinner⟩ := below_candidates hdir hm
  unfold locate at h
  split at h
  split_ifs at h with hisFlat hisNested
  · obtain rfl := Except.ok.inj h
    simp_all
  · obtain rfl := Except.ok.inj h
    simp_all

end LoadedCrate

end Doctest
