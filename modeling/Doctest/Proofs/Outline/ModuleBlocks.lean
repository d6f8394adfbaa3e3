import Doctest.Proofs.Outline.Containment
import Doctest.Proofs.Outline.Cursors

/-! Modules as containers. What stands in the braces of a module becomes elements below it and no others,
and an item after the braces becomes a child of the element that the module is in. -/
namespace Doctest.Outline

namespace Event

/-- After some events, the comments that have not been put on an item yet may document the next one. -/
theorem exists_marks_append (lines : LineMap) (doc : Option DocRun) (as : List Event) :
    ∃ next, ∀ bs, marks lines doc (as ++ bs) = marks lines doc as ++ marks lines next bs := by
  induction as generalizing doc with
  | nil => exact ⟨doc, fun _ => rfl⟩
  | cons e as ih =>
    cases e with
    | comment text span => exact ih _
    | attr => exact ih doc
    | inner docs =>
      obtain ⟨next, h⟩ := ih doc
      exact ⟨next, fun bs => by simp [marks, h]⟩
    | unmatched span =>
      obtain ⟨next, h⟩ := ih doc
      exact ⟨next, fun bs => by simp [marks, h]⟩
    | _ =>
      obtain ⟨next, h⟩ := ih none
      exact ⟨next, fun bs => by simp [marks, h]⟩

/-- Nothing from before the end of a block documents an item after it. -/
theorem marks_append_close (lines : LineMap) (doc : Option DocRun) (as bs : List Event) :
    marks lines doc (as ++ .close :: bs) = marks lines doc as ++ .leave :: marks lines none bs := by
  obtain ⟨next, h⟩ := exists_marks_append lines doc as
  exact h _

end Event

open Cursor in
/-- Whole elements are added below the element that is open. -/
theorem Enclosed.fills {es : List Event} (hes : Enclosed es) (file : Option Path) (lines : LineMap)
    (doc : Option DocRun) {c : Cursor} (hc : c.Sound) :
    Fills c ((Event.marks lines doc es).foldl (Cursor.step file) c) := by
  induction hes generalizing doc c with
  | nil => exact .refl hc
  | @event e es hopens hunclosed hclose _ ih =>
    have after (d : Cursor) (doc : Option DocRun) (h : Fills c d) :
        Fills c ((Event.marks lines doc es).foldl (Cursor.step file) d) := h.trans (ih doc h.sound)
    have entered (kind : Element.Kind) (name : String) := hc.step file (.enter kind name doc)
    cases e with
    | comment text span => exact ih _ hc
    | attr => exact ih doc hc
    | inner docs =>
      rw [Event.marks, List.foldl_append]
      refine after _ doc ?_
      cases docRun lines none docs with
      | none => exact .refl hc
      | some run => exact .attach hc c.here file (some run)
    | item header =>
      rw [Event.marks, List.foldl_append]
      refine after _ none ?_
      cases header with
      | nothing => exact .refl hc
      | leaf kind name => exact .block hc (.refl (entered kind name))
      | body kind name => cases hopens
      | outside name span => exact .block hc (.outside (entered .module name) span)
      | fault f => exact .fault hc file f
      | bareModule name f =>
        have hblock : Fills c _ := .block hc (.refl (entered .module name))
        exact hblock.trans (.fault hblock.sound file f)
    | close => exact absurd rfl hclose
    | unmatched span => exact after _ doc (.fault hc file _)
    | unclosed span => exact absurd rfl (hunclosed span)
  | @block e inside es hopens _ _ ihinside ih =>
    cases e with
    | item header =>
      cases header with
      | body kind name =>
        rw [Event.marks, Event.marks_append_close, List.foldl_append, List.foldl_append]
        have hinside := ihinside none (hc.step file (.enter kind name doc))
        have hblock := Fills.block hc hinside
        exact hblock.trans (ih none hblock.sound)
      | _ => cases hopens
    | _ => cases hopens

def Mark.fault? : Mark → Option SyntaxFault
  | fault f => some f
  | _ => none

theorem Cursor.faults_foldl (file : Option Path) (marks : List Mark) (c : Cursor) :
    (marks.foldl (Cursor.step file) c).faults = c.faults ++ marks.filterMap Mark.fault? := by
  induction marks generalizing c with
  | nil => exact (List.append_nil _).symm
  | cons mark marks ih =>
    rw [List.foldl_cons, ih]
    cases mark with
    | enter kind name doc => exact congrArg (· ++ _) (faults_attach _ _ _ _)
    | doc run => exact congrArg (· ++ _) (faults_attach _ _ _ _)
    | outside span =>
      obtain ⟨modules, heq⟩ := c.step_outside file span
      rw [heq]
      rfl
    | leave => rfl
    | fault f => exact List.append_assoc _ _ _

/-- Each event that is a fault is reported once. -/
theorem Event.length_fault?_marks (lines : LineMap) (doc : Option DocRun) (es : List Event) :
    ((marks lines doc es).filterMap Mark.fault?).length = faults es := by
  induction es generalizing doc with
  | nil => rfl
  | cons e es ih =>
    cases e with
    | inner docs =>
      rw [marks, List.filterMap_append, List.length_append, ih]
      cases docRun lines none docs <;> simp [Mark.fault?, faults, isFault]
    | item header =>
      rw [marks, List.filterMap_append, List.length_append, ih, faults, faults, List.countP_cons]
      cases header <;>
        simp [Mark.ofHeader, List.filterMap_cons, Mark.fault?, isFault, Header.isFault, Nat.add_comm]
    | _ => simp [marks, List.filterMap_cons, Mark.fault?, ih, faults, List.countP_cons, isFault]

/-- The cursor after these events of a file. -/
def cursorOf (t : Outline) (parent : Nat) (file : Option Path) (source : String) (es : List Event) :
    Cursor :=
  (Event.marks (.ofString source) none es).foldl (Cursor.step file) ⟨t, parent, [], [], []⟩

theorem readTokens_eq_cursorOf (t : Outline) (parent : Nat) (file : Option Path) (source : String)
    (tokens : List Token) :
    let c := t.cursorOf parent file source (Event.ofTokens source 0 0 tokens)
    t.readTokens parent file source tokens = ⟨c.outline, c.modules, c.faults⟩ := by
  simp only [readTokens, cursorOf, Event.marks_ofTokens]

/-- An element is below another one, or is that one, if the way up from it meets that one. -/
theorem IsForest.mem_ancestors_iff {t : Outline} (h : t.IsForest) {first last : Nat}
    (hlt : first < last) (hle : last ≤ t.size)
    (hin : ∀ id, first < id → id < last → ∃ p, t.parent? id = some p ∧ first ≤ p)
    (hout : ∀ id p, last ≤ id → t.parent? id = some p → p ∉ Set.Ico first last) (id : Nat) :
    first ∈ (t.ancestors id).map (·.id) ↔ id ∈ Set.Ico first last := by
  induction id using Nat.strongRecOn with
  | _ id ih =>
    by_cases hid : id < t.size
    · obtain ⟨e, he⟩ : ∃ e, t.get? id = some e := ⟨_, Array.getElem?_eq_getElem hid⟩
      have hparent : t.parent? id = e.parent := by rw [parent?, he]; rfl
      rw [h.ancestors_eq he, List.map_cons, List.mem_cons, h.id_eq he]
      cases hp : e.parent with
      | none =>
        rw [hp] at hparent
        have hnot : ¬(first < id ∧ id < last) := fun hmem => by
          obtain ⟨p, hsome, -⟩ := hin id hmem.1 hmem.2
          simp [hparent] at hsome
        simp only [Option.elim, List.map_nil, List.not_mem_nil, or_false, Set.mem_Ico]
        omega
      | some p =>
        rw [hp] at hparent
        have hlt := h.parent_lt hparent
        simp only [Option.elim, ih p hlt, Set.mem_Ico]
        have hin (hgt : first < id) (hlt : id < last) : first ≤ p := by
          obtain ⟨q, hq, hle⟩ := hin id hgt hlt
          exact Option.some.inj (hparent.symm.trans hq) ▸ hle
        have hout := fun hge => hout id p hge hparent
        simp only [Set.mem_Ico] at hout
        omega
    · have hnil : t.ancestors id = [] := by
        rw [ancestors, (get?_eq_none_iff t id).mpr (Nat.le_of_not_lt hid)]
      rw [hnil]
      simp only [List.map_nil, List.not_mem_nil, Set.mem_Ico, false_iff]
      omega

/-- Whatever is read later, the elements below one that is closed are those that were added before. -/
theorem Cursor.Seals.mem_ancestors_iff {c : Cursor} {first : Nat} (h : c.Seals first c.outline.size)
    (hlt : first < c.outline.size)
    (hin : ∀ id, first < id → id < c.outline.size → ∃ p, c.outline.parent? id = some p ∧ first ≤ p)
    (file : Option Path) (marks : List Mark) (id : Nat) :
    first ∈ ((marks.foldl (Cursor.step file) c).outline.ancestors id).map (·.id) ↔
      id ∈ Set.Ico first c.outline.size := by
  have hextends := h.sound.extends_foldl file marks
  have hforest := (h.sound.foldl file marks).forest
  refine hforest.mem_ancestors_iff hlt hextends.size_le (fun id hgt hlt => ?_) (fun id p hge hp hmem => ?_) id
  · obtain ⟨p, hp, hle⟩ := hin id hgt hlt
    rw [parent?_eq_label?, hextends.label_eq id hlt, ← parent?_eq_label?]
    exact ⟨p, hp, hle⟩
  · have hbefore := (h.foldl file marks).2.parent_notMem id p hp hmem
    rw [parent?_eq_none _ _ hge] at hbefore
    cases hbefore

section

variable (t : Outline) (parent : Nat) (file : Option Path) (source : String)

variable {t parent} in
theorem sound_cursorOf (ht : t.IsForest) (hparent : parent < t.size) (es : List Event) :
    (t.cursorOf parent file source es).Sound := by
  have hstart : (⟨t, parent, [], [], []⟩ : Cursor).Sound := ⟨ht, hparent, by simp⟩
  exact hstart.foldl file _

/-- A file is read on from where some of its events have led. -/
theorem exists_cursorOf_append (as : List Event) : ∃ doc, ∀ bs,
    t.cursorOf parent file source (as ++ bs) = (Event.marks (.ofString source) doc bs).foldl (Cursor.step file)
      (t.cursorOf parent file source as) := by
  obtain ⟨doc, h⟩ := Event.exists_marks_append (.ofString source) none as
  exact ⟨doc, fun bs => by rw [cursorOf, h, List.foldl_append, cursorOf]⟩

theorem cursorOf_append_close (as bs : List Event) : t.cursorOf parent file source (as ++ .close :: bs) =
    (Event.marks (.ofString source) none bs).foldl (Cursor.step file)
      (t.cursorOf parent file source (as ++ [.close])) := by
  simp only [cursorOf, Event.marks_append_close, List.foldl_append]
  rfl

variable {t parent}

/-- An item becomes a child of the element that is open. -/
theorem label?_cursorOf_item (ht : t.IsForest) (hparent : parent < t.size) (as bs : List Event)
    {header : Header} {kind : Element.Kind} {name : String} (hheader : header.declared? = some (kind, name)) :
    let c := t.cursorOf parent file source as
    (t.cursorOf parent file source (as ++ .item header :: bs)).outline.label? c.outline.size =
      some ⟨kind, name, some c.here⟩ := by
  intro c
  obtain ⟨doc, happend⟩ := exists_cursorOf_append t parent file source as
  have hc : c.Sound := sound_cursorOf file source ht hparent as
  obtain ⟨marks, hmarks⟩ : ∃ marks, Event.marks (.ofString source) doc (.item header :: bs) =
      .enter kind name doc :: marks := by
    cases header <;> cases hheader <;> exact ⟨_, rfl⟩
  rw [happend, hmarks]
  exact hc.label?_foldl_enter file kind name doc marks

/-- An element with a block is closed at the end of the block, and what the block adds is below it. -/
theorem cursorOf_block (ht : t.IsForest) (hparent : parent < t.size) (before : List Event)
    (kind : Element.Kind) (name : String) {es : List Event} (hes : Enclosed es) :
    let entered := t.cursorOf parent file source before
    let left := t.cursorOf parent file source (before ++ .item (.body kind name) :: (es ++ [.close]))
    Cursor.Fills entered left ∧ left.Seals entered.outline.size left.outline.size ∧
      entered.outline.size < left.outline.size ∧
      ∀ id, entered.outline.size < id → id < left.outline.size →
        ∃ p, left.outline.parent? id = some p ∧ entered.outline.size ≤ p := by
  intro entered left
  have hentered : entered.Sound := sound_cursorOf file source ht hparent before
  obtain ⟨doc, happend⟩ := exists_cursorOf_append t parent file source before
  have hfills := hes.fills file (.ofString source) none (hentered.step file (.enter kind name doc))
  have hleft : left = Cursor.step file ((Event.marks (.ofString source) none es).foldl (Cursor.step file)
      (entered.step file (.enter kind name doc))) .leave := by
    simp only [left, happend, Event.marks, Mark.ofHeader, Event.marks_append_close, List.cons_append,
      List.nil_append, List.foldl_cons, List.foldl_append, List.foldl_nil]
    rfl
  rw [hleft]
  refine ⟨.block hentered hfills, hfills.seals_block hentered, ?_, fun id => hfills.exists_parent_block⟩
  exact (Cursor.size_step_enter entered file kind name doc).ge.trans hfills.size_le

/-- **A module holds what stands in its braces, and no more.** Where the reading of a file enters a module,
the tokens up to the brace that closes it are read into events of their own, whatever comes after them. The
elements below the module are those that these events add. An item after the brace, with any number of
others in between, becomes a child of the element that the module is in. All this needs that no impl is met
in the module whose header runs over the end of its block. -/
theorem readTokens_contains_module (ht : t.IsForest) (hparent : parent < t.size)
    {tokens inside after : List Token} {close : Token} {before : List Event} {name : String} {depth : Nat}
    (hread : Event.ofTokens source 0 0 tokens = before ++ .item (.body .module name) ::
      Event.ofTokens source (depth + 1) (Event.faults before) (inside ++ close :: after))
    (hinside : Closed [] inside) (hclose : close.kind = .closing .brace) (hstays : ¬Escapes source inside)
    (hfaults : (t.readTokens parent file source tokens).faults.length < Mark.maxFaults) :
    let cursor := t.cursorOf parent file source
    let outline := (t.readTokens parent file source tokens).outline
    let entered := cursor before
    let module := entered.outline.size
    outline.label? module = some ⟨.module, name, some entered.here⟩ ∧
    ∃ es, ReadsTo source close inside es ∧
      let rest := Event.ofTokens source depth (Event.faults before + Event.faults es) after
      let left := cursor (before ++ .item (.body .module name) :: (es ++ [.close]))
      Event.ofTokens source 0 0 tokens = before ++ .item (.body .module name) :: (es ++ .close :: rest) ∧
      (∀ id, module ∈ (outline.ancestors id).map (·.id) ↔ id ∈ Set.Ico module left.outline.size) ∧
      (∀ id ∈ Set.Ico module left.outline.size, outline.get? id = left.outline.get? id) ∧
      ∀ siblings header more kind name', rest = siblings ++ .item header :: more → Enclosed siblings →
        header.declared? = some (kind, name') →
          outline.label? (cursor (before ++ .item (.body .module name) ::
            (es ++ .close :: siblings))).outline.size = some ⟨kind, name', some entered.here⟩ := by
  intro cursor outline entered module
  obtain ⟨es, hes, hreads⟩ := hinside.exists_readsTo rfl hstays hclose
  have houtline : outline = (cursor (Event.ofTokens source 0 0 tokens)).outline := by
    simp only [outline, readTokens_eq_cursorOf, cursor]
  -- There are not so many faults that the block is left early.
  obtain ⟨hfew, hmany⟩ := hreads depth (Event.faults before) after
  have hcount : (t.readTokens parent file source tokens).faults.length = Event.faults before +
      Event.faults (Event.ofTokens source (depth + 1) (Event.faults before) (inside ++ close :: after)) := by
    simp only [readTokens_eq_cursorOf, cursorOf, Cursor.faults_foldl, List.nil_append,
      Event.length_fault?_marks, hread]
    simp [Event.faults, Event.isFault, Header.isFault]
  have hlt : Event.faults before + Event.faults es < Mark.maxFaults :=
    Nat.lt_of_not_le fun hle => Nat.not_lt.mpr (hmany hle) (hcount ▸ hfaults)
  have hevents := hread.trans (congrArg (before ++ .item (.body .module name) :: ·) (hfew hlt))
  have hlabel : outline.label? module = some ⟨.module, name, some entered.here⟩ := by
    rw [houtline, hread]
    exact label?_cursorOf_item file source ht hparent before _ rfl
  refine ⟨hlabel, es, hreads, ?_⟩
  intro rest left
  obtain ⟨hblock, hseals, hlt, hin⟩ : Cursor.Fills entered left ∧ left.Seals module left.outline.size ∧
      module < left.outline.size ∧
        ∀ id, module < id → id < left.outline.size → ∃ p, left.outline.parent? id = some p ∧ module ≤ p :=
    cursorOf_block file source ht hparent before .module name hes
  have hafter (bs : List Event) : cursor (before ++ .item (.body .module name) :: (es ++ .close :: bs)) =
      (Event.marks (.ofString source) none bs).foldl (Cursor.step file) left := by
    have happend := cursorOf_append_close t parent file source
      (before ++ .item (.body .module name) :: es) bs
    simpa using happend
  have hfinal : outline =
      ((Event.marks (.ofString source) none rest).foldl (Cursor.step file) left).outline := by
    rw [houtline, hevents]
    exact congrArg Cursor.outline (hafter rest)
  refine ⟨hevents, fun id => ?_, fun id => ?_,
    fun siblings header more kind name' hsplit hsiblings hdeclared => ?_⟩
  · exact hfinal ▸ hseals.mem_ancestors_iff hlt hin file _ id
  · exact hfinal ▸ (hseals.foldl file _).2.same id
  · have hsib := hsiblings.fills file (.ofString source) none hblock.sound
    rw [← hafter] at hsib
    have hhere := hsib.here_eq.trans hblock.here_eq
    have hlabel := label?_cursorOf_item file source ht hparent
      (before ++ .item (.body .module name) :: (es ++ .close :: siblings)) more hdeclared
    rw [houtline, hevents, ← hhere]
    simpa [rest, hsplit] using hlabel

end

deriving instance DecidableEq for Event

/-- A module with a malformed function in it, and a function after it. -/
theorem readTokens_contains_module_malformed :
    let source := "mod m \x7b fn ; struct A; \x7d fn g() \x7b\x7d"
    let inside : List Token := [⟨.keyword .fnKw, ⟨8, 10⟩⟩, ⟨.symbol .semi, ⟨11, 12⟩⟩,
      ⟨.keyword .structKw, ⟨13, 19⟩⟩, ⟨.name "A", ⟨20, 21⟩⟩, ⟨.symbol .semi, ⟨21, 22⟩⟩]
    let after : List Token := [⟨.keyword .fnKw, ⟨25, 27⟩⟩, ⟨.name "g", ⟨28, 29⟩⟩,
      ⟨.opening .paren, ⟨29, 30⟩⟩, ⟨.closing .paren, ⟨30, 31⟩⟩, ⟨.opening .brace, ⟨32, 33⟩⟩,
      ⟨.closing .brace, ⟨33, 34⟩⟩, ⟨.eof, ⟨34, 34⟩⟩]
    let tokens : List Token := ⟨.keyword .modKw, ⟨0, 3⟩⟩ :: ⟨.name "m", ⟨4, 5⟩⟩ ::
      ⟨.opening .brace, ⟨6, 7⟩⟩ :: (inside ++ ⟨.closing .brace, ⟨23, 24⟩⟩ :: after)
    let r := (empty.addRoot .crate "c").2.readTokens 0 none source tokens
    Closed [] inside ∧ ¬Escapes source inside ∧ r.faults.length = 1 ∧
      r.outline.label? 1 = some ⟨.module, "m", some 0⟩ ∧
      (∃ last, ∀ id, 1 ∈ (r.outline.ancestors id).map (·.id) ↔ id ∈ Set.Ico 1 last) ∧
      r.outline.label? 2 = some ⟨.struct, "A", some 1⟩ ∧
      r.outline.label? 3 = some ⟨.function, "g", some 0⟩ := by
  intro source inside after tokens r
  have hforest : (empty.addRoot .crate "c").2.IsForest := IsForest.empty.addRoot .crate "c"
  have hread : Event.ofTokens source 0 0 tokens = [] ++ .item (.body .module "m") ::
      Event.ofTokens source (0 + 1) (Event.faults []) (inside ++ ⟨.closing .brace, ⟨23, 24⟩⟩ :: after) := by
    decide +kernel
  have hinside : Closed [] inside :=
    .plain rfl (.plain rfl (.plain rfl (.plain rfl (.plain rfl .nil))))
  have hstays : ¬Escapes source inside := fun hescapes => by
    obtain ⟨t, hmem, ht⟩ := hescapes.exists_impl
    revert t
    decide
  have hfaults : r.faults.length = 1 := by decide +kernel
  obtain ⟨hmodule, es, -, -, hbelow, -⟩ := readTokens_contains_module none source hforest
    (by decide : 0 < (empty.addRoot .crate "c").2.size) hread hinside rfl hstays
    (hfaults.trans_lt (by decide))
  exact ⟨hinside, hstays, hfaults, hmodule, ⟨_, hbelow⟩, by decide +kernel, by decide +kernel⟩

/-- The header of an impl without a body runs over the end of the module that it is in, and takes what comes
after the module into its name. -/
theorem ofSource_impl_without_body :
    let r := ofSource "c" none "mod m \x7b impl Foo \x7d fn g() \x7b\x7d"
    (r.outline.elements.toList.map fun e => (e.kind, e.name, e.parent)) =
        [(.crate, "c", none), (.module, "m", some 0), (.impl, "Foo \x7d fn g()", some 1)] ∧
      r.faults.map (·.cause) = [.unclosedBody] := by
  decide +kernel

end Doctest.Outline
