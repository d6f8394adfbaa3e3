import Doctest.Proofs.Outline.Cursors
import Doctest.Proofs.Outline.ModuleNames
import Doctest.Unit.Basic

/-! The first import of a test unit, which opens the nearest namespace of the documented element. The names
on its way come from the source, and the import is to be read as the way that these names make. -/
namespace Doctest

namespace Outline

/-- No trait and no impl has a module in it. -/
def NamespacesNested (t : Outline) : Prop :=
  ∀ e ∈ t.elements, e.kind.isNamespace → ∀ above ∈ e.parent.bind t.get?, above.kind.isNamespace

instance (t : Outline) : Decidable t.NamespacesNested :=
  inferInstanceAs (Decidable (∀ e ∈ t.elements, e.kind.isNamespace →
    ∀ above ∈ e.parent.bind t.get?, above.kind.isNamespace))

/-- On the way up from the element no namespace comes before this one. -/
def NearestNamespace (t : Outline) (id space : Nat) : Prop :=
  ∃ inner e, t.ancestors id = inner ++ t.ancestors space ∧ (∀ a ∈ inner, a.kind.isNamespace = false) ∧
    t.get? space = some e ∧ e.kind.isNamespace

namespace Header

theorem declared?_of_mem_ofHeader {doc d : Option DocRun} {header : Header} {kind : Element.Kind} {name : String}
    (h : .enter kind name d ∈ Mark.ofHeader doc header) : header.declared? = some (kind, name) := by
  cases header <;> simp_all [Mark.ofHeader, declared?]

end Header

/-- An element begins with the header that declares it. -/
theorem Event.exists_item_of_enter_mem {lines : LineMap} {doc d : Option DocRun} {es : List Event}
    {kind : Element.Kind} {name : String} (h : .enter kind name d ∈ marks lines doc es) :
    ∃ header, .item header ∈ es ∧ header.declared? = some (kind, name) := by
  induction es generalizing doc with
  | nil => simp [marks] at h
  | cons e es ih =>
    have hrest {doc : Option DocRun} (h : .enter kind name d ∈ marks lines doc es) :
        ∃ header, .item header ∈ e :: es ∧ header.declared? = some (kind, name) := by
      obtain ⟨header, hmem, hdeclared⟩ := ih h
      exact ⟨header, List.mem_cons_of_mem _ hmem, hdeclared⟩
    cases e with
    | item header =>
      rcases List.mem_append.mp h with h | h
      · exact ⟨header, List.mem_cons_self, Header.declared?_of_mem_ofHeader h⟩
      · exact hrest h
    | comment text span => exact hrest h
    | attr => exact hrest h
    | inner docs => exact hrest (by simpa [marks] using h)
    | close => exact hrest (by simpa [marks] using h)
    | unmatched span => exact hrest (by simpa [marks] using h)
    | unclosed span => exact hrest (by simpa [marks] using h)

theorem isName_of_enter_mem {source : String} {lines : LineMap} {depth faults : Nat} {doc : Option DocRun}
    {kind : Element.Kind} {name : String}
    (h : .enter kind name doc ∈ Mark.ofTokens source lines depth none faults (Lexed.ofString source).tokens)
    (hkind : kind ≠ .impl) : IsName name := by
  rw [← Event.marks_ofTokens] at h
  obtain ⟨header, hmem, hdeclared⟩ := Event.exists_item_of_enter_mem h
  obtain ⟨ts, hts, rfl⟩ := Event.exists_read_of_mem hmem
  obtain ⟨t, ht, hname⟩ := Header.exists_name_of_read hdeclared hkind
  exact Lexed.isName_of_mem_tokens (hts.subset ht) hname

namespace Cursor

/-- Nothing but the beginning of an element adds one. -/
theorem exists_enter_or_size_step (c : Cursor) (file : Option Path) (mark : Mark) :
    (∃ kind name doc, mark = .enter kind name doc) ∨ (c.step file mark).outline.size = c.outline.size := by
  cases mark with
  | enter kind name doc => exact .inl ⟨kind, name, doc, rfl⟩
  | leave => exact .inr rfl
  | doc run => exact .inr (size_attach c c.here file (some run))
  | outside span =>
    obtain ⟨modules, heq⟩ := c.step_outside file span
    exact .inr (by rw [heq])
  | fault f => exact .inr rfl

/-- What is new after some marks was begun by one of them, in an element that was there. -/
theorem Sound.exists_enter_of_label? {c : Cursor} (h : c.Sound) (file : Option Path) {marks : List Mark}
    {id : Nat} (hid : c.outline.size ≤ id) {l : Label}
    (hl : (marks.foldl (Cursor.step file) c).outline.label? id = some l) :
    l.parent.isSome ∧ ∃ doc, .enter l.kind l.name doc ∈ marks := by
  induction marks generalizing c with
  | nil =>
    have hnone : c.outline.label? id = none := by
      rw [label?, (get?_eq_none_iff _ _).mpr hid, Option.map_none]
    simp [hnone] at hl
  | cons mark marks ih =>
    have hstep := h.step file mark
    rw [List.foldl_cons] at hl
    -- The element is there after this mark, and was added by it, or it is added later.
    by_cases hlt : id < (c.step file mark).outline.size
    · rw [(hstep.extends_foldl file marks).label_eq id hlt] at hl
      rcases c.exists_enter_or_size_step file mark with ⟨kind, name, doc, rfl⟩ | hsize
      · rw [size_step_enter] at hlt
        rw [h.label?_step_enter, if_pos (by omega)] at hl
        obtain rfl := Option.some.inj hl
        exact ⟨rfl, doc, List.mem_cons_self⟩
      · omega
    · obtain ⟨hparent, doc, hmem⟩ := ih hstep (Nat.le_of_not_lt hlt) hl
      exact ⟨hparent, doc, List.mem_cons_of_mem _ hmem⟩

end Cursor

/-- The outline of one source, with its elements as their names and links have them. -/
structure Rooted (t : Outline) (crateName : String) : Prop where
  forest : t.IsForest
  root : t.label? 0 = some ⟨.crate, crateName, none⟩
  named : ∀ id ≠ 0, ∀ l, t.label? id = some l → l.parent.isSome ∧ (l.kind ≠ .impl → IsName l.name)

theorem rooted_ofSource (crateName : String) (file : Option Path) (source : String) :
    (ofSource crateName file source).outline.Rooted crateName := by
  have hstart : Cursor.Sound ⟨⟨#[⟨0, .crate, crateName, none, [], []⟩], [0]⟩, 0, [], [], []⟩ :=
    ⟨IsForest.empty.addRoot .crate crateName, Nat.zero_lt_one, by simp⟩
  let marks := Mark.ofTokens source (.ofString source) 0 none 0 (Lexed.ofString source).tokens
  refine ⟨(hstart.foldl file marks).forest, ?_, fun id hid l hl => ?_⟩
  · exact (hstart.extends_foldl file marks).label_eq 0 Nat.zero_lt_one
  · obtain ⟨hparent, doc, hmem⟩ := hstart.exists_enter_of_label? file (Nat.one_le_iff_ne_zero.mpr hid) hl
    exact ⟨hparent, isName_of_enter_mem hmem⟩

namespace Rooted

variable {t : Outline} {crateName : String}

/-- An element is the crate or stands in an older one. -/
theorem cases_get? (h : t.Rooted crateName) {id : Nat} {e : Element} (he : t.get? id = some e) :
    (e.kind = .crate ∧ e.name = crateName ∧ e.parent = none) ∨
      ∃ p above, e.parent = some p ∧ p < id ∧ t.get? p = some above ∧ (e.kind ≠ .impl → IsName e.name) := by
  have hlabel : t.label? id = some ⟨e.kind, e.name, e.parent⟩ := congrArg (Option.map _) he
  by_cases hid : id = 0
  · subst hid
    rw [h.root] at hlabel
    obtain ⟨hkind, hname, hparent⟩ := Label.mk.inj (Option.some.inj hlabel)
    exact .inl ⟨hkind.symm, hname.symm, hparent.symm⟩
  · obtain ⟨hsome, hname⟩ := h.named id hid _ hlabel
    obtain ⟨p, hp⟩ := Option.isSome_iff_exists.mp hsome
    have hparent : t.parent? id = some p := by rw [parent?, he]; exact hp
    exact .inr ⟨p, _, hp, h.forest.parent_lt hparent,
      Array.getElem?_eq_getElem (h.forest.parent_lt_size hparent), hname⟩

/-- Every element has a nearest namespace, since the crate is one. -/
theorem exists_nearest (h : t.Rooted crateName) {id : Nat} {e : Element} (he : t.get? id = some e) :
    ∃ space, t.enclosingNamespace? id = some space ∧ t.NearestNamespace id space := by
  induction id using Nat.strongRecOn generalizing e with
  | _ id ih =>
    rw [h.forest.enclosingNamespace?_eq he]
    by_cases hspace : e.kind.isNamespace
    · exact ⟨id, by rw [if_pos hspace], [], e, rfl, by simp, he, hspace⟩
    · rcases h.cases_get? he with ⟨hkind, -, -⟩ | ⟨p, above, hp, hlt, habove, -⟩
      · simp [hkind, Element.Kind.isNamespace] at hspace
      · obtain ⟨space, hspace', inner, e', hinner, hnone, he', hkind⟩ := ih p hlt habove
        refine ⟨space, by rw [if_neg hspace, hp]; exact hspace', e :: inner, e', ?_, ?_, he', hkind⟩
        · rw [h.forest.ancestors_eq he, hp, List.cons_append, ← hinner]
          rfl
        · exact List.forall_mem_cons.mpr ⟨by simpa using hspace, hnone⟩

/-- On the way to a namespace there are namespaces only, and their names are those of modules and the crate. -/
theorem isName_of_mem_path (h : t.Rooted crateName) (hcrate : IsName crateName) (hnested : t.NamespacesNested)
    {id : Nat} {e : Element} (he : t.get? id = some e) (hspace : e.kind.isNamespace) :
    ∀ name ∈ t.path id, IsName name := by
  -- The induction goes up the way: what encloses an element is older than it.
  induction id using Nat.strongRecOn generalizing e with
  | _ id ih =>
    rw [h.forest.path_eq he]
    rcases h.cases_get? he with ⟨-, hname, hp⟩ | ⟨p, above, hp, hlt, habove, hname⟩
    · simpa [hp, hname] using hcrate
    · have hmem : e ∈ t.elements := Array.mem_of_getElem? he
      have habove' : above.kind.isNamespace := hnested e hmem hspace above (by rw [hp]; exact habove)
      have himpl : e.kind ≠ .impl := fun heq => by simp [heq, Element.Kind.isNamespace] at hspace
      intro name hmem
      rw [hp] at hmem
      rcases List.mem_append.mp hmem with hmem | hmem
      · exact ih p hlt habove habove' name hmem
      · rw [List.mem_singleton.mp hmem]
        exact hname himpl

end Rooted

end Outline

namespace TestUnit

open Outline

/-- **The first import opens the nearest namespace**, and it is read as the names on the way to that namespace
exactly if none of them is spelled like a keyword. A raw name may be, for the mark that it has in the source is
not written again. -/
theorem glob_read_iff {crateName : String} (hcrate : IsName crateName) (file : Option Path) {source : String}
    (hnested : (ofSource crateName file source).outline.NamespacesNested) {id : Nat}
    (hid : id < (ofSource crateName file source).outline.size) (s : Snippet) :
    let t := (ofSource crateName file source).outline
    ∃ space glob, t.NearestNamespace id space ∧ (importsOf t id s).head? = some glob ∧
      (((Lexed.ofString glob).errors = [] ∧ (Lexed.ofString glob).tokens.map Token.kind =
          pathKinds (t.path space) ++ [.punct '*'] ++ [.eof]) ↔
        ∀ name ∈ t.path space, Keyword.ofString? name = none) := by
  intro t
  have hrooted : t.Rooted crateName := rooted_ofSource crateName file source
  obtain ⟨e, he⟩ : ∃ e, t.get? id = some e := ⟨_, Array.getElem?_eq_getElem hid⟩
  obtain ⟨space, henclosing, hnearest⟩ := hrooted.exists_nearest he
  have ⟨_, _, _, _, hfound, hspace⟩ := hnearest
  have hne : t.path space ≠ [] := by
    rw [hrooted.forest.path_eq hfound]
    exact List.concat_ne_nil _ _
  have hnames := hrooted.isName_of_mem_path hcrate hnested hfound hspace
  refine ⟨space, "::".intercalate (t.path space) ++ "::*", hnearest, ?_, Lexed.ofString_glob_iff hne hnames⟩
  simp [importsOf, henclosing]

/-- A method in a module, whose impl is passed over. -/
theorem glob_read_method :
    let t := (ofSource "c" none "mod m\x7bimpl S\x7bfn f()\x7b\x7d\x7d\x7d").outline
    ∃ space glob, t.NearestNamespace 3 space ∧ (importsOf t 3 ⟨"", [], 1⟩).head? = some glob ∧
      (Lexed.ofString glob).errors = [] ∧
      (Lexed.ofString glob).tokens.map Token.kind = pathKinds (t.path space) ++ [.punct '*'] ++ [.eof] := by
  intro t
  have ht : t = ⟨#[⟨0, .crate, "c", none, [1], []⟩, ⟨1, .module, "m", some 0, [2], []⟩,
      ⟨2, .impl, "S", some 1, [3], []⟩, ⟨3, .function, "f", some 2, [], []⟩], [0]⟩ := by
    decide +kernel
  have hcrate : IsName "c" := ⟨'c', [], rfl, by decide +kernel, by simp⟩
  have hnested : t.NamespacesNested := by
    rw [ht]
    decide
  have hlt : 3 < t.size := by
    rw [ht]
    decide
  obtain ⟨space, glob, hnearest, hglob, hread⟩ := glob_read_iff hcrate none hnested hlt ⟨"", [], 1⟩
  have hnames : ∀ name ∈ (t.ancestors 3).map (·.name), Keyword.ofString? name = none := by
    rw [ht]
    decide +kernel
  refine ⟨space, glob, hnearest, hglob, hread.mpr fun name hname => hnames name ?_⟩
  obtain ⟨inner, -, hinner, -⟩ := hnearest
  rw [hinner, List.map_append]
  exact List.mem_append_right _ (List.mem_reverse.mp hname)

/-- A module whose raw name is a keyword. In the import the keyword stands for itself. -/
theorem glob_read_type :
    let source := "mod r#type\x7bfn f()\x7b\x7d\x7d"
    let t := (ofSource "c" none source).outline
    (Lexed.ofString source).errors = [] ∧ (ofSource "c" none source).faults = [] ∧ IsName "c" ∧
      t.NamespacesNested ∧ t.NearestNamespace 2 1 ∧ t.path 1 = ["c", "type"] ∧
      importsOf t 2 ⟨"", [], 1⟩ = ["c::type::*"] ∧
      (Lexed.ofString "c::type::*").tokens.map Token.kind =
        [.name "c", .symbol .pathSep, .keyword .typeKw, .symbol .pathSep, .punct '*', .eof] := by
  intro source t
  have hsource : ofSource "c" none source = ⟨⟨#[⟨0, .crate, "c", none, [1], []⟩,
      ⟨1, .module, "type", some 0, [2], []⟩, ⟨2, .function, "f", some 1, [], []⟩], [0]⟩, [], []⟩ := by
    decide +kernel
  have ht : t = _ := congrArg Reading.outline hsource
  have hcrate : IsName "c" := ⟨'c', [], rfl, by decide +kernel, by simp⟩
  rw [hsource, ht]
  refine ⟨by decide +kernel, rfl, hcrate, by decide, ?_, by decide +kernel, by decide +kernel, by decide +kernel⟩
  exact ⟨[⟨2, .function, "f", some 1, [], []⟩], ⟨1, .module, "type", some 0, [2], []⟩, by decide +kernel⟩

end TestUnit

end Doctest
