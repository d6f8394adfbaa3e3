import Mathlib.Order.Interval.Set.Defs
import Doctest.Proofs.Outline.Building
import Doctest.Proofs.Outline.Growth

/-! Cursors whose outlines are forests. Reading keeps them so, and what an element is and where it stands do
not change after it has been added. -/
namespace Doctest.Outline

/-- What an element keeps from when it was added. -/
structure Label where
  kind : Element.Kind
  name : String
  parent : Option Nat
deriving DecidableEq, Repr

def label? (t : Outline) (id : Nat) : Option Label :=
  (t.get? id).map fun e => ⟨e.kind, e.name, e.parent⟩

theorem parent?_eq_label? (t : Outline) (id : Nat) : t.parent? id = (t.label? id).bind (·.parent) := by
  rw [parent?, label?, Option.bind_map]
  rfl

namespace Cursor

variable {c d e : Cursor} {file : Option Path}

section Attach

variable (c) (target : Nat) (file : Option Path) (doc : Option DocRun) (id : Nat)

theorem get?_attach (h : target ≠ id) :
    (c.attach target file doc).outline.get? id = c.outline.get? id := by
  cases doc with
  | none => rfl
  | some run => exact (get?_attachDoc _ _ _ _).trans (if_neg h)

@[simp]
theorem label?_attach : (c.attach target file doc).outline.label? id = c.outline.label? id := by
  cases doc with
  | none => rfl
  | some run =>
    unfold attach label?
    rw [get?_attachDoc]
    split <;> simp [Function.comp_def]

end Attach

/-- The links of the outline agree, and what is open is in it. -/
structure Sound (c : Cursor) : Prop where
  forest : c.outline.IsForest
  base_lt : c.base < c.outline.size
  frames_lt : ∀ frame ∈ c.frames, frame.id < c.outline.size

theorem here_mem (c : Cursor) : c.here = c.base ∨ ∃ frame ∈ c.frames, c.here = frame.id := by
  unfold here
  cases c.frames with
  | nil => exact .inl rfl
  | cons frame frames => exact .inr ⟨frame, List.mem_cons_self, rfl⟩

theorem Sound.here_lt (h : c.Sound) : c.here < c.outline.size := by
  rcases c.here_mem with heq | ⟨frame, hmem, heq⟩
  · exact heq ▸ h.base_lt
  · exact heq ▸ h.frames_lt frame hmem

theorem Sound.attach (h : c.Sound) (target : Nat) (file : Option Path) (doc : Option DocRun) :
    (c.attach target file doc).Sound := by
  refine ⟨?_, by simpa using h.base_lt, by simpa using h.frames_lt⟩
  cases doc with
  | none => exact h.forest
  | some run => exact h.forest.attachDoc _ _

theorem Sound.enter (h : c.Sound) (kind : Element.Kind) (name : String) : (c.enter kind name).Sound := by
  refine ⟨h.forest.addChild h.here_lt kind name, ?_, ?_⟩
  · simpa [Cursor.enter] using Nat.lt_succ_of_lt h.base_lt
  · simpa [Cursor.enter] using fun frame hmem => Nat.lt_succ_of_lt (h.frames_lt frame hmem)

/-- The declaration of a module in another file is only noted down. -/
theorem step_outside (c : Cursor) (file : Option Path) (span : Span) :
    ∃ modules, c.step file (.outside span) = { c with modules } := by
  obtain ⟨outline, base, frames, modules, faults⟩ := c
  cases frames with
  | nil => exact ⟨modules, rfl⟩
  | cons frame above => exact ⟨_, rfl⟩

theorem Sound.step (h : c.Sound) (file : Option Path) (mark : Mark) : (c.step file mark).Sound := by
  cases mark with
  | enter kind name doc => exact (h.enter kind name).attach c.outline.size file doc
  | leave => exact ⟨h.forest, h.base_lt, fun frame hmem => h.frames_lt frame (List.mem_of_mem_tail hmem)⟩
  | doc run => exact h.attach c.here file (some run)
  | outside span =>
    obtain ⟨modules, heq⟩ := c.step_outside file span
    exact heq ▸ ⟨h.forest, h.base_lt, h.frames_lt⟩
  | fault f => exact ⟨h.forest, h.base_lt, h.frames_lt⟩

theorem Sound.foldl (h : c.Sound) (file : Option Path) (marks : List Mark) :
    (marks.foldl (Cursor.step file) c).Sound := by
  induction marks generalizing c with
  | nil => exact h
  | cons mark marks ih => exact ih (h.step file mark)

theorem Sound.label?_enter (h : c.Sound) (kind : Element.Kind) (name : String) (id : Nat) :
    (c.enter kind name).outline.label? id =
      if id = c.outline.size then some ⟨kind, name, some c.here⟩ else c.outline.label? id := by
  unfold label? Cursor.enter
  rw [get?_addChild _ _ h.here_lt]
  split_ifs <;> simp [Function.comp_def]

theorem Sound.label?_step_enter (h : c.Sound) (file : Option Path) (kind : Element.Kind) (name : String)
    (doc : Option DocRun) (id : Nat) :
    (c.step file (.enter kind name doc)).outline.label? id =
      if id = c.outline.size then some ⟨kind, name, some c.here⟩ else c.outline.label? id :=
  (label?_attach _ _ _ _ _).trans (h.label?_enter kind name id)

/-- What was added later: the elements that were there keep their labels. -/
structure Extends (c d : Cursor) : Prop where
  size_le : c.outline.size ≤ d.outline.size
  label_eq : ∀ id < c.outline.size, d.outline.label? id = c.outline.label? id

theorem Extends.trans (h : Extends c d) (h' : Extends d e) : Extends c e where
  size_le := h.size_le.trans h'.size_le
  label_eq id hid := (h'.label_eq id (hid.trans_le h.size_le)).trans (h.label_eq id hid)

theorem Sound.extends_step (h : c.Sound) (file : Option Path) (mark : Mark) :
    Extends c (c.step file mark) := by
  cases mark with
  | enter kind name doc =>
    refine ⟨?_, fun id hid => ?_⟩
    · rw [size_step_enter]
      exact Nat.le_succ _
    · rw [h.label?_step_enter, if_neg (Nat.ne_of_lt hid)]
  | doc run => exact ⟨(size_attach c c.here file (some run)).ge, fun id _ => label?_attach _ _ _ _ _⟩
  | outside span =>
    obtain ⟨modules, heq⟩ := c.step_outside file span
    exact heq ▸ ⟨Nat.le_refl _, fun _ _ => rfl⟩
  | _ => exact ⟨Nat.le_refl _, fun _ _ => rfl⟩

theorem Sound.extends_foldl (h : c.Sound) (file : Option Path) (marks : List Mark) :
    Extends c (marks.foldl (Cursor.step file) c) := by
  induction marks generalizing c with
  | nil => exact ⟨Nat.le_refl _, fun _ _ => rfl⟩
  | cons mark marks ih => exact (h.extends_step file mark).trans (ih (h.step file mark))

/-- What an element is does not change after it has begun. -/
theorem Sound.label?_foldl_enter (h : c.Sound) (file : Option Path) (kind : Element.Kind) (name : String)
    (doc : Option DocRun) (marks : List Mark) :
    ((Mark.enter kind name doc :: marks).foldl (Cursor.step file) c).outline.label? c.outline.size =
      some ⟨kind, name, some c.here⟩ := by
  have hsize : c.outline.size < (c.step file (.enter kind name doc)).outline.size := by
    rw [size_step_enter]
    exact Nat.lt_succ_self _
  rw [List.foldl_cons, ((h.step file _).extends_foldl file marks).label_eq _ hsize, h.label?_step_enter,
    if_pos rfl]

/-- The same elements are open as before, and what was added is below the innermost of them. -/
structure Fills (c d : Cursor) : Prop where
  sound : d.Sound
  frames_eq : d.frames = c.frames
  base_eq : d.base = c.base
  size_le : c.outline.size ≤ d.outline.size
  label_eq : ∀ id < c.outline.size, d.outline.label? id = c.outline.label? id
  exists_parent : ∀ id, c.outline.size ≤ id → id < d.outline.size →
    ∃ p, d.outline.parent? id = some p ∧ (p = c.here ∨ c.outline.size ≤ p)

namespace Fills

theorem here_eq (h : Fills c d) : d.here = c.here := by
  rw [here, here, h.frames_eq, h.base_eq]

/-- What adds no element. -/
theorem of_size_eq (hsound : d.Sound) (hframes : d.frames = c.frames) (hbase : d.base = c.base)
    (hsize : d.outline.size = c.outline.size)
    (hlabel : ∀ id < c.outline.size, d.outline.label? id = c.outline.label? id) : Fills c d :=
  ⟨hsound, hframes, hbase, hsize.ge, hlabel, fun _ hle hlt => absurd (hsize ▸ hlt) (Nat.not_lt.mpr hle)⟩

theorem refl (h : c.Sound) : Fills c c :=
  of_size_eq h rfl rfl rfl fun _ _ => rfl

theorem trans (h : Fills c d) (h' : Fills d e) : Fills c e := by
  refine ⟨h'.sound, h'.frames_eq.trans h.frames_eq, h'.base_eq.trans h.base_eq,
    h.size_le.trans h'.size_le, fun id hid => ?_, fun id hle hlt => ?_⟩
  · exact (h'.label_eq id (hid.trans_le h.size_le)).trans (h.label_eq id hid)
  · by_cases hid : id < d.outline.size
    · rw [parent?_eq_label?, h'.label_eq id hid, ← parent?_eq_label?]
      exact h.exists_parent id hle hid
    · obtain ⟨p, hp, hplace⟩ := h'.exists_parent id (Nat.le_of_not_lt hid) hlt
      exact ⟨p, hp, hplace.imp (·.trans h.here_eq) h.size_le.trans⟩

theorem attach (h : c.Sound) (target : Nat) (file : Option Path) (doc : Option DocRun) :
    Fills c (c.attach target file doc) :=
  of_size_eq (h.attach target file doc) (by simp) (by simp) (by simp) (by simp)

theorem fault (h : c.Sound) (file : Option Path) (f : SyntaxFault) : Fills c (c.step file (.fault f)) :=
  of_size_eq (h.step file _) rfl rfl rfl fun _ _ => rfl

theorem outside (h : c.Sound) (span : Span) : Fills c (c.step file (.outside span)) := by
  have hsound := h.step file (.outside span)
  obtain ⟨modules, heq⟩ := c.step_outside file span
  rw [heq] at hsound ⊢
  exact of_size_eq hsound rfl rfl rfl fun _ _ => rfl

/-- An element with all that is in it. -/
theorem block (hc : c.Sound) {kind : Element.Kind} {name : String} {doc : Option DocRun}
    (h : Fills (c.step file (.enter kind name doc)) d) : Fills c (d.step file .leave) := by
  have hsize := size_step_enter c file kind name doc
  have hhere := here_step_enter c file kind name doc
  have hle := h.size_le
  refine ⟨h.sound.step file .leave, ?_, h.base_eq.trans (base_attach _ _ _ _), ?_, fun id hid => ?_,
    fun id hle hlt => ?_⟩
  · change d.frames.tail = c.frames
    rw [h.frames_eq, frames_step_enter, List.tail_cons]
  · change c.outline.size ≤ d.outline.size
    omega
  · refine (h.label_eq id (by omega)).trans ?_
    rw [hc.label?_step_enter, if_neg (Nat.ne_of_lt hid)]
  · by_cases hid : id = c.outline.size
    · refine ⟨c.here, ?_, .inl rfl⟩
      change d.outline.parent? id = some c.here
      rw [parent?_eq_label?, h.label_eq id (by omega), hc.label?_step_enter, if_pos hid]
      rfl
    · obtain ⟨p, hp, hplace⟩ := h.exists_parent id (by omega) hlt
      exact ⟨p, hp, .inr (by omega)⟩

end Fills

section Seals

variable {first last : Nat}

/-- The elements from one number up to another are closed: nothing that is open is among them. -/
structure Seals (c : Cursor) (first last : Nat) : Prop where
  sound : c.Sound
  last_le : last ≤ c.outline.size
  base_notMem : c.base ∉ Set.Ico first last
  frames_notMem : ∀ frame ∈ c.frames, frame.id ∉ Set.Ico first last

/-- Closed elements stay as they are, and none is added below them. -/
structure Leaves (c d : Cursor) (first last : Nat) : Prop where
  same : ∀ id ∈ Set.Ico first last, d.outline.get? id = c.outline.get? id
  parent_notMem : ∀ id p, d.outline.parent? id = some p → p ∈ Set.Ico first last →
    c.outline.parent? id = some p

theorem Leaves.trans (h : Leaves c d first last) (h' : Leaves d e first last) : Leaves c e first last where
  same id hid := (h'.same id hid).trans (h.same id hid)
  parent_notMem id p hp hmem := h.parent_notMem id p (h'.parent_notMem id p hp hmem) hmem

theorem Seals.here_notMem (h : c.Seals first last) : c.here ∉ Set.Ico first last := by
  rcases c.here_mem with heq | ⟨frame, hmem, heq⟩
  · exact heq ▸ h.base_notMem
  · exact heq ▸ h.frames_notMem frame hmem

theorem Seals.step (h : c.Seals first last) (file : Option Path) (mark : Mark) :
    (c.step file mark).Seals first last ∧ Leaves c (c.step file mark) first last := by
  have hsound := h.sound.step file mark
  have hhere := h.here_notMem
  have hlast := h.last_le
  have attach (d : Cursor) (target : Nat) (doc : Option DocRun) (htarget : target ∉ Set.Ico first last) :
      Leaves d (d.attach target file doc) first last := by
    refine ⟨fun id hid => get?_attach _ _ _ _ _ fun heq => htarget (heq ▸ hid), fun id p hp _ => ?_⟩
    rwa [parent?_eq_label?, label?_attach, ← parent?_eq_label?] at hp
  have same {d : Cursor} (heq : d.outline = c.outline) : Leaves c d first last := by
    refine ⟨fun id _ => by rw [heq], fun id p hp _ => heq ▸ hp⟩
  cases mark with
  | enter kind name doc =>
    have hnew : c.outline.size ∉ Set.Ico first last := fun hmem => Nat.not_lt.mpr hlast hmem.2
    refine ⟨⟨hsound, ?_, ?_, ?_⟩, Leaves.trans ⟨fun id hid => ?_, fun id p hp hmem => ?_⟩
      (attach (c.enter kind name) c.outline.size doc hnew)⟩
    · exact hlast.trans (h.sound.extends_step file _).size_le
    · rw [show (c.step file (.enter kind name doc)).base = c.base from base_attach _ _ _ _]
      exact h.base_notMem
    · rw [frames_step_enter]
      exact List.forall_mem_cons.mpr ⟨hnew, h.frames_notMem⟩
    · refine (get?_addChild _ _ h.sound.here_lt kind name).trans ?_
      rw [if_neg (ne_of_mem_of_not_mem hid hnew), if_neg (ne_of_mem_of_not_mem hid hhere).symm]
    · rw [parent?_eq_label?, h.sound.label?_enter] at hp
      split_ifs at hp with hid
      · exact absurd (Option.some.inj hp ▸ hmem) hhere
      · rwa [← parent?_eq_label?] at hp
  | leave =>
    exact ⟨⟨hsound, hlast, h.base_notMem, fun frame hmem =>
      h.frames_notMem frame (List.mem_of_mem_tail hmem)⟩, same rfl⟩
  | doc run =>
    refine ⟨⟨hsound, ?_, h.base_notMem, h.frames_notMem⟩, attach c c.here (some run) hhere⟩
    exact hlast.trans (h.sound.extends_step file _).size_le
  | outside span =>
    obtain ⟨modules, heq⟩ := c.step_outside file span
    rw [heq] at hsound ⊢
    exact ⟨⟨hsound, hlast, h.base_notMem, h.frames_notMem⟩, same rfl⟩
  | fault f => exact ⟨⟨hsound, hlast, h.base_notMem, h.frames_notMem⟩, same rfl⟩

theorem Seals.foldl (h : c.Seals first last) (file : Option Path) (marks : List Mark) :
    (marks.foldl (Cursor.step file) c).Seals first last ∧
      Leaves c (marks.foldl (Cursor.step file) c) first last := by
  induction marks generalizing c with
  | nil => exact ⟨h, fun _ _ => rfl, fun _ _ hp _ => hp⟩
  | cons mark marks ih =>
    obtain ⟨hseals, hleaves⟩ := h.step file mark
    exact ⟨(ih hseals).1, hleaves.trans (ih hseals).2⟩

/-- An element is closed after what it encloses. -/
theorem Fills.seals_block (hc : c.Sound) {file : Option Path} {kind : Element.Kind} {name : String}
    {doc : Option DocRun} (h : Fills (c.step file (.enter kind name doc)) d) :
    (d.step file .leave).Seals c.outline.size (d.step file .leave).outline.size := by
  have hblock := Fills.block hc h
  refine ⟨hblock.sound, Nat.le_refl _, ?_, ?_⟩
  · rw [hblock.base_eq]
    exact fun hmem => Nat.not_lt.mpr hmem.1 hc.base_lt
  · rw [hblock.frames_eq]
    exact fun frame hframe hmem => Nat.not_lt.mpr hmem.1 (hc.frames_lt frame hframe)

/-- What is in an element has a parent in it. -/
theorem Fills.exists_parent_block {file : Option Path} {kind : Element.Kind} {name : String}
    {doc : Option DocRun} (h : Fills (c.step file (.enter kind name doc)) d) {id : Nat}
    (hgt : c.outline.size < id) (hlt : id < d.outline.size) :
    ∃ p, d.outline.parent? id = some p ∧ c.outline.size ≤ p := by
  have hsize := size_step_enter c file kind name doc
  obtain ⟨p, hp, hplace⟩ := h.exists_parent id (by omega) hlt
  rw [here_step_enter] at hplace
  exact ⟨p, hp, by omega⟩

end Seals

end Cursor

end Doctest.Outline
