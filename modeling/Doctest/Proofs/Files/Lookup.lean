import Doctest.Files.Tree
import Doctest.Proofs.Text.Lines

/-! What paths lead to. When one file changes or goes away, all paths but those to that file lead to what
they led to before. -/
namespace Doctest.FileTree

variable {t t' : FileTree} {names : List Bytes} {p q : Path}

/-- The tree without one of its entries. -/
def erase (t : FileTree) (names : List Bytes) : FileTree :=
  { t with entries := t.entries.filter (·.1 != names) }

theorem at?_erase_self (t : FileTree) (h : names ≠ []) : (t.erase names).at? names = none := by
  rw [at?, if_neg h, List.lookup_eq_none_iff]
  intro e he
  have hne := (List.mem_filter.mp he).2
  simp only [bne_iff_ne] at hne
  simpa using hne.symm

theorem at?_erase_of_ne (t : FileTree) {other : List Bytes} (h : other ≠ names) :
    (t.erase names).at? other = t.at? other := by
  have hlookup : (t.entries.filter (·.1 != names)).lookup other = t.entries.lookup other := by
    induction t.entries with
    | nil => rfl
    | cons e es ih =>
      by_cases he : e.1 = names
      · have hne : (other == e.1) = false := by simpa [he] using h
        rw [List.filter_cons_of_neg (by simp [he]), ih, List.lookup_cons, hne]
      · rw [List.filter_cons_of_pos (by simpa using he), List.lookup_cons, List.lookup_cons, ih]
  rw [at?, at?, erase, hlookup]

/-- The trees differ in one entry at most, and that is no directory. -/
structure AgreeBut (t t' : FileTree) (names : List Bytes) : Prop where
  home_eq : t'.home = t.home
  at_eq : ∀ other, other ≠ names → t'.at? other = t.at? other
  ne_directory : t.at? names ≠ some .directory
  ne_directory' : t'.at? names ≠ some .directory

theorem not_walk_of_ne_directory {here parts result : List Bytes} {part : Bytes}
    (h : t.at? here ≠ some .directory) : t.walk here (part :: parts) ≠ .ok result := by
  rw [walk]
  split
  · simp
  · next hat => exact absurd hat h
  · simp

namespace AgreeBut

theorem walk_eq_ok_iff (h : AgreeBut t t' names) {here parts result : List Bytes} :
    t'.walk here parts = .ok result ↔ t.walk here parts = .ok result := by
  induction parts generalizing here with
  | nil => rw [walk, walk]
  | cons part parts ih =>
    by_cases hhere : here = names
    · subst hhere
      exact ⟨fun hwalk => absurd hwalk (not_walk_of_ne_directory h.ne_directory'),
        fun hwalk => absurd hwalk (not_walk_of_ne_directory h.ne_directory)⟩
    · rw [walk, walk, h.at_eq here hhere]
      split
      · rfl
      · split_ifs <;> first | exact ih | rfl
      · rfl

theorem resolve_eq_ok_iff (h : AgreeBut t t' names) {result : List Bytes} :
    t'.resolve p = .ok result ↔ t.resolve p = .ok result := by
  rw [resolve, resolve, h.home_eq]
  split_ifs <;> first | rfl | exact h.walk_eq_ok_iff

theorem find_eq (h : AgreeBut t t' names) {result : List Bytes} (hp : t.resolve p = .ok result)
    (hne : result ≠ names) : t'.find p = t.find p := by
  rw [find, find, hp, h.resolve_eq_ok_iff.mpr hp]
  simp only [bind, Except.bind, h.at_eq result hne]

theorem isFile_eq (h : AgreeBut t t' names) (hp : t.resolve p ≠ .ok names) : t'.isFile p = t.isFile p := by
  cases hresolve : t.resolve p with
  | ok result =>
    have hne : result ≠ names := fun heq => hp (heq ▸ hresolve)
    rw [isFile, isFile, h.find_eq hresolve hne]
  | error e =>
    cases hresolve' : t'.resolve p with
    | ok result => simp [h.resolve_eq_ok_iff.mp hresolve'] at hresolve
    | error e' => simp [isFile, find, hresolve, hresolve', bind, Except.bind]

end AgreeBut

theorem exists_resolve_of_isFile (h : t.isFile p) : ∃ result contents isExecutable,
    t.resolve p = .ok result ∧ t.at? result = some (.file contents isExecutable) := by
  unfold isFile find at h
  cases hresolve : t.resolve p with
  | error e => simp [hresolve, bind, Except.bind] at h
  | ok result =>
    simp only [hresolve, bind, Except.bind] at h
    cases hat : t.at? result with
    | none => simp [hat] at h
    | some e =>
      cases e with
      | file contents isExecutable => exact ⟨result, contents, isExecutable, rfl, hat⟩
      | _ => simp [hat] at h

theorem find_of_resolve {e : FileEntry} (hp : t.resolve p = .ok names) (hat : t.at? names = some e) :
    t.find p = .ok e := by
  simp only [find, hp, bind, Except.bind, hat]

theorem isFile_of_resolve {contents : Bytes} {isExecutable : Bool} (hp : t.resolve p = .ok names)
    (hat : t.at? names = some (.file contents isExecutable)) : t.isFile p := by
  rw [isFile, find_of_resolve hp hat]

theorem readText_of_resolve {contents : Bytes} {isExecutable : Bool} (hp : t.resolve p = .ok names)
    (hat : t.at? names = some (.file contents isExecutable)) :
    t.readText p = contents.toString?.elim (.error ⟨p, .notText⟩) .ok := by
  have hread : t.read p = .ok contents := by
    rw [read, find_of_resolve hp hat]
    rfl
  rw [readText, hread]
  dsimp only
  cases contents.toString? <;> rfl

theorem exists_resolve_of_readText {text : String} (h : t.readText p = .ok text) :
    ∃ result, t.resolve p = .ok result := by
  cases hresolve : t.resolve p with
  | ok result => exact ⟨result, rfl⟩
  | error e => simp [readText, read, find, hresolve, bind, Except.bind] at h

theorem AgreeBut.readText_eq (h : AgreeBut t t' names) {result : List Bytes} (hp : t.resolve p = .ok result)
    (hne : result ≠ names) : t'.readText p = t.readText p := by
  rw [readText, readText, read, read, h.find_eq hp hne]

theorem AgreeBut.erase {contents : Bytes} {isExecutable : Bool}
    (h : t.at? names = some (.file contents isExecutable)) : AgreeBut t (t.erase names) names := by
  have hne : names ≠ [] := fun hnil => by simp [at?, hnil] at h
  exact ⟨rfl, fun other hother => t.at?_erase_of_ne hother, by simp [h], by simp [t.at?_erase_self hne]⟩

theorem AgreeBut.set {contents contents' : Bytes} {isExecutable isExecutable' : Bool}
    (h : t.at? names = some (.file contents isExecutable)) :
    AgreeBut t (t.set names (.file contents' isExecutable')) names := by
  have hne : names ≠ [] := fun hnil => by simp [at?, hnil] at h
  exact ⟨rfl, fun other hother => t.at?_set_of_ne hother _, by simp [h], by simp [t.at?_set_self hne]⟩

/-- Parts that name nothing lead nowhere else. -/
theorem walk_filter {here parts result : List Bytes} (h : t.walk here parts = .ok result) :
    t.walk here (parts.filter Path.isName) = .ok result := by
  induction parts generalizing here with
  | nil => exact h
  | cons part parts ih =>
    have hdir : t.at? here = some .directory := by
      by_contra hne
      exact not_walk_of_ne_directory hne h
    rw [walk, hdir] at h
    dsimp only at h
    by_cases hpart : part = [] ∨ part = [Path.dot]
    · rw [if_pos hpart] at h
      rw [List.filter_cons_of_neg (by rcases hpart with rfl | rfl <;> decide)]
      exact ih h
    · rw [if_neg hpart] at h
      have hname : Path.isName part := by
        simpa [Path.isName, not_or] using hpart
      rw [List.filter_cons_of_pos hname, walk, hdir]
      dsimp only
      rw [if_neg hpart]
      split_ifs at h ⊢ <;> exact ih h

theorem filter_splitOn_bytes (p : Path) : (Text.splitOn Path.slash p.bytes).filter Path.isName = p.names := by
  have hempty : Path.isName [] = false := rfl
  have hdot : Path.isName [Path.dot] = false := rfl
  obtain ⟨bytes⟩ := p
  cases bytes with
  | nil => rfl
  | cons b rest =>
    by_cases hslash : b = Path.slash
    · subst hslash
      simp [Path.names, Path.parts, Path.lead, Text.splitOn_cons_self, hempty]
    · by_cases hb : b = Path.dot ∧ rest.head?.all (· == Path.slash)
      · obtain ⟨rfl, hrest⟩ := hb
        cases rest with
        | nil => rfl
        | cons c cs =>
          obtain rfl : c = Path.slash := by simpa using hrest
          have hsingle : Text.splitOn Path.slash [Path.dot] = [[Path.dot]] := rfl
          have hsplit : Text.splitOn Path.slash (Path.dot :: Path.slash :: cs) =
              [Path.dot] :: Text.splitOn Path.slash cs :=
            (Text.splitOn_append_cons Path.slash [Path.dot] cs).trans (by rw [hsingle]; rfl)
          rw [hsplit, List.filter_cons_of_neg (by simp [hdot])]
          simp [Path.names, Path.parts, Path.lead, hslash, Text.splitOn_cons_self, hempty]
      · simp [Path.names, Path.parts, Path.lead, hslash, hb]

theorem isAbsolute_iff (p : Path) : p.isAbsolute ↔ p.lead = [Path.slash] := by
  obtain ⟨bytes⟩ := p
  have hne : Path.dot ≠ Path.slash := by decide
  cases bytes with
  | nil => simp [Path.isAbsolute, Path.lead]
  | cons b rest =>
    simp only [Path.isAbsolute, Path.lead, List.head?_cons]
    split_ifs <;> simp_all

/-- Paths that are alike lead to one place. -/
theorem eq_of_isSame {a b : List Bytes} (hp : t.resolve p = .ok a) (hq : t.resolve q = .ok b)
    (h : p.isSame q) : a = b := by
  have hwalk {p : Path} {result : List Bytes} (h : t.resolve p = .ok result) :
      t.walk (if p.isAbsolute then [] else t.home) p.names = .ok result := by
    unfold resolve at h
    rw [← filter_splitOn_bytes]
    split_ifs at h <;> simp_all [walk_filter]
  obtain ⟨hlead, hnames⟩ : p.lead = q.lead ∧ p.names = q.names := by simpa [Path.isSame] using h
  have habsolute : p.isAbsolute = q.isAbsolute := by
    rw [Bool.eq_iff_iff, isAbsolute_iff, isAbsolute_iff, hlead]
  have heq := hwalk hp
  rw [habsolute, hnames, hwalk hq] at heq
  exact (Except.ok.inj heq).symm

end Doctest.FileTree
