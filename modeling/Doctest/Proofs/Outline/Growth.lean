import Doctest.Proofs.Outline.Building
import Doctest.Proofs.Outline.Filling

/-! How an outline grows while a file is read. The contents of the file become elements below the one that was
open, with their comments, and what was there before stays as it was. -/
namespace Doctest.Outline

@[simp]
theorem size_addChild (t : Outline) (parent : Nat) (kind : Element.Kind) (name : String) :
    (t.addChild parent kind name).2.size = t.size + 1 := by
  simp [addChild, push, modify, size]

@[simp]
theorem size_attachDoc (t : Outline) (target : Nat) (doc : DocComment) :
    (t.attachDoc target doc).size = t.size := by
  simp [attachDoc, modify, size]

/-- An element with more children and comments. -/
def DocFace.receive (ids : List Nat) (docs : List DocComment) (e : DocFace) : DocFace :=
  { e with children := e.children ++ ids, docs := attachAll e.docs docs }

theorem DocFace.receive_nil (e : DocFace) : e.receive [] [] = e := by
  simp [receive, attachAll]

theorem DocFace.receive_receive (ids more : List Nat) (docs others : List DocComment) (e : DocFace) :
    (e.receive ids docs).receive more others = e.receive (ids ++ more) (docs ++ others) := by
  simp [receive, attachAll]

theorem docFace?_addChild (t : Outline) (id : Nat) {parent : Nat} (h : parent < t.size) (kind : Element.Kind)
    (name : String) : (t.addChild parent kind name).2.docFace? id =
      if id = t.size then some ⟨kind, name, [], []⟩
      else (t.docFace? id).map (if id = parent then DocFace.receive [t.size] [] else fun e => e) := by
  simp only [docFace?, get?_addChild t id h, eq_comm (a := parent)]
  split_ifs <;> simp [Function.comp_def, DocFace.receive, attachAll]

theorem docFace?_attachDoc (t : Outline) (id target : Nat) (doc : DocComment) :
    (t.attachDoc target doc).docFace? id =
      (t.docFace? id).map (if id = target then DocFace.receive [] [doc] else fun e => e) := by
  simp only [docFace?, get?_attachDoc, eq_comm (a := target)]
  split_ifs <;> simp [Function.comp_def, DocFace.receive, attachAll]

namespace Cursor

/-- The outline with one more element, which is open now. -/
def enter (c : Cursor) (kind : Element.Kind) (name : String) : Cursor :=
  { c with
    outline := (c.outline.addChild c.here kind name).2
    frames := ⟨c.outline.size, kind, name⟩ :: c.frames }

section Attach

variable (c : Cursor) (target : Nat) (file : Option Path) (doc : Option DocRun)

@[simp]
theorem frames_attach : (c.attach target file doc).frames = c.frames := by
  cases doc <;> rfl

@[simp]
theorem base_attach : (c.attach target file doc).base = c.base := by
  cases doc <;> rfl

@[simp]
theorem faults_attach : (c.attach target file doc).faults = c.faults := by
  cases doc <;> rfl

@[simp]
theorem size_attach : (c.attach target file doc).outline.size = c.outline.size := by
  cases doc with
  | none => rfl
  | some run => exact size_attachDoc _ _ _

end Attach

section Enter

variable (c : Cursor) (file : Option Path) (kind : Element.Kind) (name : String) (doc : Option DocRun)

theorem size_step_enter : (c.step file (.enter kind name doc)).outline.size = c.outline.size + 1 :=
  (size_attach _ _ _ _).trans (size_addChild _ _ _ _)

theorem frames_step_enter :
    (c.step file (.enter kind name doc)).frames = ⟨c.outline.size, kind, name⟩ :: c.frames :=
  frames_attach _ _ _ _

theorem here_step_enter : (c.step file (.enter kind name doc)).here = c.outline.size := by
  rw [here, frames_step_enter]
  rfl

end Enter

theorem moduleNames_frame (id : Nat) (kind : Element.Kind) (name : String) (frames : List Frame) :
    moduleNames (⟨id, kind, name⟩ :: frames) =
      if kind = .module then moduleNames frames ++ [name] else moduleNames frames := by
  by_cases hkind : kind = .module <;> simp [moduleNames, hkind]

theorem docFace?_step_enter (c : Cursor) (file : Option Path) (h : c.here < c.outline.size)
    (kind : Element.Kind) (name : String) (doc : Option DocRun) (id : Nat) :
    (c.step file (.enter kind name doc)).outline.docFace? id =
      if id = c.outline.size then some ⟨kind, name, [], headDocs file doc⟩
      else (c.outline.docFace? id).map (if id = c.here then DocFace.receive [c.outline.size] [] else fun e => e) := by
  have henter := docFace?_addChild c.outline id h kind name
  cases doc with
  | none => exact henter
  | some run =>
    have hattach : (c.step file (.enter kind name (some run))).outline.docFace? id =
        ((c.outline.addChild c.here kind name).2.docFace? id).map
          (if id = c.outline.size then DocFace.receive [] [run.toComment file] else fun e => e) :=
      docFace?_attachDoc _ _ _ _
    rw [hattach, henter]
    by_cases hnew : id = c.outline.size
    · rw [if_pos hnew, if_pos hnew, if_pos hnew]
      rfl
    · rw [if_neg hnew, if_neg hnew, if_neg hnew]
      exact Option.map_id'

/-- What is added to the element that is open, between two places of a reading. The children are numbered `ids`,
and all elements number `count`. -/
structure Gains (count : Nat) (ids : List Nat) (docs : List DocComment) (modules : List OutsideModule)
    (faults : List SyntaxFault) (c d : Cursor) : Prop where
  size_eq : d.outline.size = c.outline.size + count
  base_eq : d.base = c.base
  frames_eq : d.frames = c.frames
  modules_eq : d.modules = c.modules ++ modules
  faults_eq : d.faults = c.faults ++ faults
  here_eq : d.outline.docFace? c.here = (c.outline.docFace? c.here).map (DocFace.receive ids docs)
  same : ∀ id < c.outline.size, id ≠ c.here → d.outline.docFace? id = c.outline.docFace? id

namespace Gains

variable {count count' : Nat} {ids ids' : List Nat} {docs docs' : List DocComment}
  {modules modules' : List OutsideModule} {faults faults' : List SyntaxFault} {c d e : Cursor}

theorem here_here (h : Gains count ids docs modules faults c d) : d.here = c.here := by
  rw [here, here, h.base_eq, h.frames_eq]

theorem nil (c : Cursor) : Gains 0 [] [] [] [] c c := by
  have hid : DocFace.receive [] [] = id := funext DocFace.receive_nil
  refine ⟨rfl, rfl, rfl, (List.append_nil _).symm, (List.append_nil _).symm, ?_, fun _ _ _ => rfl⟩
  rw [hid, Option.map_id, id]

theorem trans (h : Gains count ids docs modules faults c d) (h' : Gains count' ids' docs' modules' faults' d e) :
    Gains (count + count') (ids ++ ids') (docs ++ docs') (modules ++ modules') (faults ++ faults') c e := by
  refine ⟨?_, h'.base_eq.trans h.base_eq, h'.frames_eq.trans h.frames_eq, ?_, ?_, ?_, fun id hid hne => ?_⟩
  · rw [h'.size_eq, h.size_eq, Nat.add_assoc]
  · rw [h'.modules_eq, h.modules_eq, List.append_assoc]
  · rw [h'.faults_eq, h.faults_eq, List.append_assoc]
  · have hhere := h'.here_eq
    rw [h.here_here] at hhere
    rw [hhere, h.here_eq, Option.map_map]
    exact congrArg (Option.map · _) (funext fun e => DocFace.receive_receive ids ids' docs docs' e)
  · rw [h'.same id (by rw [h.size_eq]; omega) (by rw [h.here_here]; exact hne), h.same id hid hne]

theorem doc (c : Cursor) (file : Option Path) (run : DocRun) :
    Gains 0 [] [run.toComment file] [] [] c (c.step file (.doc run)) := by
  have hface (id : Nat) := docFace?_attachDoc c.outline id c.here (run.toComment file)
  refine ⟨size_attach c c.here file (some run), rfl, rfl, (List.append_nil _).symm, (List.append_nil _).symm,
    (hface c.here).trans (by rw [if_pos rfl]), fun id _ hne => (hface id).trans ?_⟩
  rw [if_neg hne]
  exact Option.map_id'

theorem fault (c : Cursor) (file : Option Path) (f : SyntaxFault) :
    Gains 0 [] [] [] [f] c (c.step file (.fault f)) :=
  ⟨rfl, rfl, rfl, (List.append_nil _).symm, rfl, (nil c).here_eq, fun _ _ _ => rfl⟩

theorem outside {frame : Frame} {above : List Frame} (file : Option Path) (h : c.frames = frame :: above)
    (span : Span) : Gains 0 [] [] [⟨frame.id, frame.name, moduleNames above, span⟩] [] c
      (c.step file (.outside span)) := by
  obtain ⟨outline, base, frames, modules, faults⟩ := c
  obtain rfl : frames = frame :: above := h
  exact ⟨rfl, rfl, rfl, rfl, (List.append_nil _).symm, (nil _).here_eq, fun _ _ _ => rfl⟩

/-- An element with what is read while it is open. -/
theorem block {file : Option Path} (hc : c.here < c.outline.size) {kind : Element.Kind} {name : String}
    {run : Option DocRun} (h : Gains count ids docs modules faults (c.step file (.enter kind name run)) d) :
    Gains (1 + count) [c.outline.size] [] modules faults c (d.step file .leave) ∧
      d.outline.docFace? c.outline.size = some ⟨kind, name, ids, attachAll (headDocs file run) docs⟩ := by
  have hface := c.docFace?_step_enter file hc kind name run
  have hhere := here_step_enter c file kind name run
  have hsize := size_step_enter c file kind name run
  have hself := h.here_eq
  rw [hhere, hface, if_pos rfl] at hself
  have hopen : (c.step file (.enter kind name run)).modules = c.modules ∧
      (c.step file (.enter kind name run)).faults = c.faults := by
    cases run <;> exact ⟨rfl, rfl⟩
  refine ⟨⟨?_, h.base_eq.trans (base_attach _ _ _ _), ?_, ?_, ?_, ?_, fun id hid hne => ?_⟩, hself⟩
  · have := h.size_eq
    rw [hsize] at this
    exact this.trans (Nat.add_assoc _ _ _)
  · exact (congrArg List.tail h.frames_eq).trans (congrArg List.tail (frames_step_enter c file kind name run))
  · exact h.modules_eq.trans (congrArg (· ++ modules) hopen.1)
  · exact h.faults_eq.trans (congrArg (· ++ faults) hopen.2)
  · refine (h.same c.here (by omega) (by omega)).trans ?_
    rw [hface, if_neg (by omega), if_pos rfl]
  · refine (h.same id (by omega) (by omega)).trans ?_
    rw [hface, if_neg (by omega), if_neg hne]
    exact Option.map_id'

/-- An element with what is read while it is open, and the contents after it. -/
theorem block_append {file : Option Path} (hc : c.here < c.outline.size) {kind : Element.Kind} {name : String}
    {run : Option DocRun} (h : Gains count ids docs modules faults (c.step file (.enter kind name run)) d)
    (h' : Gains count' ids' docs' modules' faults' (d.step file .leave) e) :
    Gains (1 + count + count') (c.outline.size :: ids') docs' (modules ++ modules') (faults ++ faults') c e ∧
      e.outline.docFace? c.outline.size = some ⟨kind, name, ids, attachAll (headDocs file run) docs⟩ ∧
      ∀ id, c.outline.size + 1 ≤ id → id < c.outline.size + 1 + count →
        e.outline.docFace? id = d.outline.docFace? id := by
  obtain ⟨hblock, hface⟩ := h.block hc
  have hsize := hblock.size_eq
  have hsame (id : Nat) (hle : c.outline.size ≤ id) (hlt : id < c.outline.size + 1 + count) :=
    h'.same id (by omega) (by rw [hblock.here_here]; omega)
  exact ⟨hblock.trans h', (hsame _ (Nat.le_refl _) (by omega)).trans hface,
    fun id hle hlt => hsame id (by omega) hlt⟩

end Gains

/-- What the contents of a file add. -/
def Reads (file : Option Path) (contents : Contents) (c d : Cursor) : Prop :=
  Gains contents.size (contents.ids c.outline.size) (contents.docs file)
      (contents.modules (moduleNames c.frames) c.outline.size) contents.faults c d ∧
    contents.Stands file d.outline.docFace? c.outline.size

/-- **An outline grows by the contents of a file**, with their comments and faults. -/
theorem reads_contents (file : Option Path) (contents : Contents) (c : Cursor)
    (hc : c.here < c.outline.size) : c.Reads file contents (contents.marks.foldl (Cursor.step file) c) := by
  induction contents generalizing c with
  | nil => exact ⟨.nil c, trivial⟩
  | inner run rest ih =>
    have hdoc := Gains.doc c file run
    have hsize : (c.step file (.doc run)).outline.size = c.outline.size := hdoc.size_eq
    obtain ⟨hrest, hstands⟩ := ih (c.step file (.doc run)) (by rw [hdoc.here_here, hsize]; exact hc)
    rw [hsize] at hrest hstands
    have hall := hdoc.trans hrest
    rw [Nat.zero_add] at hall
    exact ⟨hall, hstands⟩
  | fault f rest ih =>
    obtain ⟨hrest, hstands⟩ := ih (c.step file (.fault f)) hc
    have hall := (Gains.fault c file f).trans hrest
    rw [Nat.zero_add] at hall
    exact ⟨hall, hstands⟩
  | item kind name run members rest ihm ih =>
    have hsize := size_step_enter c file kind name run
    have hhere := here_step_enter c file kind name run
    obtain ⟨hmembers, hstands⟩ := ihm (c.step file (.enter kind name run)) (by omega)
    rw [hsize, frames_step_enter, moduleNames_frame] at hmembers
    rw [hsize] at hstands
    obtain ⟨hblock, -⟩ := hmembers.block hc
    obtain ⟨hrest, hafter⟩ := ih _ (by rw [hblock.here_here, hblock.size_eq]; omega)
    rw [hblock.size_eq, hblock.frames_eq, ← Nat.add_assoc] at hrest
    rw [hblock.size_eq, ← Nat.add_assoc] at hafter
    rw [Contents.marks, List.foldl_cons, List.foldl_append, List.foldl_cons]
    obtain ⟨hall, hface, hsame⟩ := hmembers.block_append hc hrest
    exact ⟨hall, hface, hstands.congr hsame, hafter⟩
  | outside name run span rest ih =>
    have hopen := Gains.outside file (frames_step_enter c file .module name run) span
    obtain ⟨hblock, -⟩ := hopen.block hc
    obtain ⟨hrest, hafter⟩ := ih _ (by rw [hblock.here_here, hblock.size_eq]; omega)
    rw [hblock.size_eq, hblock.frames_eq] at hrest
    rw [hblock.size_eq] at hafter
    obtain ⟨hall, hface, -⟩ := hopen.block_append hc hrest
    exact ⟨hall, hface, hafter⟩

end Cursor

/-- A file is read below an element that is there. -/
theorem readTokens_of_isOf {t : Outline} {parent : Nat} (hparent : parent < t.size) (file : Option Path)
    {text : String} {contents : Contents} (h : contents.IsOf text) :
    let r := t.readTokens parent file text (Lexed.ofString text).tokens
    r.outline.size = t.size + contents.size ∧ r.modules = contents.modules [] t.size ∧
      r.faults = contents.faults ∧ contents.Stands file r.outline.docFace? t.size ∧
      r.outline.docFace? parent =
        (t.docFace? parent).map (DocFace.receive (contents.ids t.size) (contents.docs file)) ∧
      ∀ id < t.size, id ≠ parent → r.outline.docFace? id = t.docFace? id := by
  have hread := Cursor.reads_contents file contents ⟨t, parent, [], [], []⟩ hparent
  rw [← h] at hread
  obtain ⟨hgains, hstands⟩ := hread
  exact ⟨hgains.size_eq, hgains.modules_eq, hgains.faults_eq, hstands, hgains.here_eq, hgains.same⟩

end Doctest.Outline
