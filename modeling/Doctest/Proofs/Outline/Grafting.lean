import Doctest.Proofs.Outline.ForestMarks

/-! Reading of a forest: the outline gets the elements of the forest below the parent and nothing else,
and the modules in other files are found in the order in which they are declared. -/
namespace Doctest.Outline

theorem modify_append_of_lt {α : Type} (f : α → α) {as : List α} {i : Nat} (h : i < as.length)
    (bs : List α) : (as ++ bs).modify i f = as.modify i f ++ bs := by
  induction as generalizing i with
  | nil => simp at h
  | cons a as ih =>
    cases i with
    | zero => rfl
    | succ i => simpa using ih (by simpa using h)

theorem modify_length_append {α : Type} (f : α → α) (as : List α) (b : α) (bs : List α) :
    (as ++ b :: bs).modify as.length f = as ++ f b :: bs := by
  induction as with
  | nil => rfl
  | cons a as ih => simpa using ih

theorem eq_of_toList_elements_eq {t u : Outline} (he : t.elements.toList = u.elements.toList)
    (hr : t.roots = u.roots) : t = u := by
  cases t
  cases u
  simp_all [Array.toList_inj]

def addChildren (ids : List Nat) (e : Element) : Element :=
  { e with children := e.children ++ ids }

/-- The outline with more elements, of which those with the numbers `ids` are children of `parent`. -/
def adopt (t : Outline) (parent : Nat) (ids : List Nat) (es : List Element) : Outline :=
  { t with elements := t.elements.modify parent (addChildren ids) ++ es.toArray }

@[simp]
theorem toList_elements_adopt (t : Outline) (parent : Nat) (ids : List Nat) (es : List Element) :
    (t.adopt parent ids es).elements.toList =
      t.elements.toList.modify parent (addChildren ids) ++ es := by
  simp [adopt]

@[simp]
theorem size_adopt (t : Outline) (parent : Nat) (ids : List Nat) (es : List Element) :
    (t.adopt parent ids es).size = t.size + es.length := by
  simp [adopt, size]

theorem adopt_nil (t : Outline) (parent : Nat) : t.adopt parent [] [] = t := by
  have hid : addChildren [] = id := by
    funext e
    simp [addChildren]
  refine eq_of_toList_elements_eq ?_ rfl
  rw [toList_elements_adopt, hid, List.modify_id, List.append_nil]

theorem adopt_adopt (t : Outline) {parent : Nat} (h : parent < t.size) (is js : List Nat)
    (es fs : List Element) :
    (t.adopt parent is es).adopt parent js fs = t.adopt parent (is ++ js) (es ++ fs) := by
  have hchildren : addChildren js ∘ addChildren is = addChildren (is ++ js) := by
    funext e
    simp [addChildren]
  refine eq_of_toList_elements_eq ?_ rfl
  simp only [toList_elements_adopt]
  rw [modify_append_of_lt _ (by simpa [size] using h), List.modify_modify_eq, hchildren,
    List.append_assoc]

/-- An element that is itself new gets its children when these are adopted. -/
theorem adopt_adopt_size (t : Outline) (parent : Nat) (is js : List Nat) (e : Element)
    (es : List Element) : (t.adopt parent is [e]).adopt t.size js es =
      t.adopt parent is (addChildren js e :: es) := by
  refine eq_of_toList_elements_eq ?_ rfl
  have hsize : t.size = (t.elements.toList.modify parent (addChildren is)).length := by
    simp [size]
  simp only [toList_elements_adopt]
  rw [hsize, modify_length_append, List.append_assoc, List.singleton_append]

theorem addChild_eq_adopt (t : Outline) {parent : Nat} (h : parent < t.size) (kind : Element.Kind)
    (name : String) : t.addChild parent kind name =
      (t.size, t.adopt parent [t.size] [⟨t.size, kind, name, some parent, [], []⟩]) := by
  refine Prod.ext rfl (eq_of_toList_elements_eq ?_ rfl)
  rw [toList_elements_adopt]
  simp only [addChild, push, modify, Array.toList_modify, Array.toList_push]
  exact modify_append_of_lt _ (by simpa [size] using h) _

theorem attachDoc_adopt (t : Outline) (parent : Nat) (ids : List Nat) (e : Element)
    (doc : DocComment) : (t.adopt parent ids [e]).attachDoc t.size doc =
      t.adopt parent ids [{ e with docs := DocComment.attach e.docs doc }] := by
  refine eq_of_toList_elements_eq ?_ rfl
  have hsize : t.size = (t.elements.toList.modify parent (addChildren ids)).length := by
    simp [size]
  simp only [attachDoc, modify, Array.toList_modify, toList_elements_adopt]
  rw [hsize, modify_length_append]

namespace Cursor

variable (file : Option Path)

/-- An element that begins is the last child of the innermost element that is open. -/
theorem step_enter (c : Cursor) (h : c.here < c.outline.size) (kind : Element.Kind) (name : String)
    (doc : Option DocRun) : c.step file (.enter kind name doc) =
      { c with
        outline := c.outline.adopt c.here [c.outline.size]
          [⟨c.outline.size, kind, name, some c.here, [], (doc.map (·.toComment file)).toList⟩]
        frames := ⟨c.outline.size, kind, name⟩ :: c.frames } := by
  simp only [step, addChild_eq_adopt _ h]
  cases doc with
  | none => rfl
  | some run =>
    simp only [attach, attachDoc_adopt]
    rfl

/-- The cursor after items that declare these elements and modules. -/
def grafted (c : Cursor) (ids : List Nat) (es : List Element) (modules : List OutsideModule) :
    Cursor :=
  { c with outline := c.outline.adopt c.here ids es, modules := c.modules ++ modules }

theorem grafted_nil (c : Cursor) : c.grafted [] [] [] = c := by
  simp [grafted, adopt_nil]

theorem grafted_grafted (c : Cursor) (h : c.here < c.outline.size) (is js : List Nat)
    (es fs : List Element) (ms ns : List OutsideModule) :
    (c.grafted is es ms).grafted js fs ns = c.grafted (is ++ js) (es ++ fs) (ms ++ ns) := by
  have hadopt := c.outline.adopt_adopt h is js es fs
  simpa [grafted, here] using hadopt

theorem here_grafted_lt {c : Cursor} (h : c.here < c.outline.size) (ids : List Nat)
    (es : List Element) (modules : List OutsideModule) :
    (c.grafted ids es modules).here < (c.grafted ids es modules).outline.size := by
  simpa [grafted, here] using Nat.lt_add_right es.length h

theorem docs_eq_docRun (source : String) {first : Token.Kind} (front : Front first) :
    ((front.docRun (.ofString source)).map (·.toComment file)).toList = front.docs source file := by
  rw [Front.docRun, docRun_none]
  rfl

/-- An item without members adds what it declares. -/
theorem foldl_leaf (source : String) (c : Cursor) (h : c.here < c.outline.size) (item : Leaf)
    (front : Front item.first) :
    (Mark.ofHeader (front.docRun (.ofString source)) item.header).foldl (Cursor.step file) c =
      c.grafted (item.declared?.toList.map fun _ => c.outline.size)
        (item.declared?.toList.map fun (kind, name) =>
          ⟨c.outline.size, kind, name, some c.here, [], front.docs source file⟩)
        (item.outside?.toList.map fun name =>
          ⟨c.outline.size, name.text, Cursor.moduleNames c.frames, name.span⟩) := by
  have hdocs := docs_eq_docRun file source front
  have henter (kind : Element.Kind) (name : String) :=
    c.step_enter file h kind name (front.docRun (.ofString source))
  rw [hdocs] at henter
  have hleave (kind : Element.Kind) (name : String) :
      [Mark.enter kind name (front.docRun (.ofString source)), .leave].foldl (Cursor.step file) c =
        c.grafted [c.outline.size]
          [⟨c.outline.size, kind, name, some c.here, [], front.docs source file⟩] [] := by
    rw [List.foldl_cons, henter]
    simp [step, grafted]
  cases item with
  | macroCall => exact (grafted_nil c).symm
  | use => exact (grafted_nil c).symm
  | outside span name semi =>
    rw [Leaf.header, Leaf.outside?, Mark.ofHeader, List.foldl_cons, henter]
    rfl
  | _ => exact hleave _ _

theorem moduleNames_cons (head : Head) (source : String) (id : Nat) (frames : List Frame) :
    moduleNames (⟨id, head.kind, head.name source⟩ :: frames) =
      head.pathBelow (moduleNames frames) := by
  cases head <;> simp [moduleNames, Head.kind, Head.name, Head.pathBelow]

/-- What is between the beginning and the end of an element is added below it. -/
theorem foldl_members (source : String) (c : Cursor) (h : c.here < c.outline.size) (kind : Element.Kind)
    (name : String) {first : Token.Kind} (front : Front first) (members : Forest)
    (hmembers : ∀ c : Cursor, c.here < c.outline.size →
      (members.marks source (.ofString source)).foldl (Cursor.step file) c =
        c.grafted (members.ids c.outline.size) (members.elements source file c.here c.outline.size)
          (members.outside (moduleNames c.frames) c.outline.size)) :
    (.enter kind name (front.docRun (.ofString source)) ::
      (members.marks source (.ofString source) ++ [.leave])).foldl (Cursor.step file) c =
      c.grafted [c.outline.size]
        (⟨c.outline.size, kind, name, some c.here, members.ids (c.outline.size + 1),
          front.docs source file⟩ :: members.elements source file c.outline.size (c.outline.size + 1))
        (members.outside (moduleNames (⟨c.outline.size, kind, name⟩ :: c.frames)) (c.outline.size + 1)) := by
  have henter := c.step_enter file h kind name (front.docRun (.ofString source))
  rw [docs_eq_docRun file source front] at henter
  rw [List.foldl_cons, henter, List.foldl_append, hmembers]
  · simp [grafted, here, step, adopt_adopt_size, addChildren]
  · simp [here]

/-- The elements and modules of a forest are added in its order. -/
theorem foldl_marks (source : String) (f : Forest) (c : Cursor) (h : c.here < c.outline.size) :
    (f.marks source (.ofString source)).foldl (Cursor.step file) c =
      c.grafted (f.ids c.outline.size) (f.elements source file c.here c.outline.size)
        (f.outside (moduleNames c.frames) c.outline.size) := by
  induction f generalizing c with
  | nil => exact (grafted_nil c).symm
  | leaf item front rest ih =>
    rw [Forest.marks, List.foldl_append, foldl_leaf file source c h item front,
      ih _ (here_grafted_lt h _ _ _), grafted_grafted c h]
    simp [grafted, here, Forest.ids, Forest.elements, Forest.outside]
  | block head front opening inner members closing rest ihm ih =>
    have hmarks : (Forest.block head front opening inner members closing rest).marks source
        (.ofString source) = (.enter head.kind (head.name source) (front.docRun (.ofString source)) ::
          (members.marks source (.ofString source) ++ [.leave])) ++
          rest.marks source (.ofString source) := by
      simp [Forest.marks]
    have hsize : c.outline.size + (members.size + 1) = c.outline.size + 1 + members.size := by
      omega
    rw [hmarks, List.foldl_append, foldl_members file source c h _ _ front members ihm,
      moduleNames_cons, ih _ (here_grafted_lt h _ _ _), grafted_grafted c h]
    simp [grafted, here, Forest.ids, Forest.elements, Forest.outside, hsize]

theorem mem_faults_step {fault : SyntaxFault} (c : Cursor) (mark : Mark) :
    fault ∈ (c.step file mark).faults ↔ fault ∈ c.faults ∨ mark = .fault fault := by
  cases mark with
  | enter kind name doc => cases doc <;> simp [step, attach]
  | leave => simp [step]
  | doc run => simp [step, attach]
  | outside span =>
    simp only [step]
    split <;> simp
  | fault f => simp [step, eq_comm]

theorem mem_faults_foldl {fault : SyntaxFault} (marks : List Mark) (c : Cursor) :
    fault ∈ (marks.foldl (Cursor.step file) c).faults ↔
      fault ∈ c.faults ∨ .fault fault ∈ marks := by
  induction marks generalizing c with
  | nil => simp
  | cons mark marks ih =>
    rw [List.foldl_cons, ih, mem_faults_step, List.mem_cons, or_assoc, eq_comm]

end Cursor

/-- **Items are read as they are written.** Below the parent the outline gets the elements of the
forest, the modules in other files are those that the forest declares, and there is no fault. This is
so exactly if no constant and no immutable static item of the forest is named `mut`. -/
theorem readTokens_eq_forest_iff (t : Outline) (parent : Fin t.size) (file : Option Path)
    (source : String) (f : Forest) (stop : Span) :
    t.readTokens parent file source (f.tokens ++ [⟨.eof, stop⟩]) =
      ⟨t.adopt parent (f.ids t.size) (f.elements source file parent t.size), f.outside [] t.size, []⟩ ↔
      f.namedMut = false := by
  have heof : kindOf [⟨.eof, stop⟩] ≠ .symbol .semi := by simp
  constructor
  · intro heq
    by_contra hmut
    obtain ⟨fault, hmem⟩ :=
      f.exists_fault_mem source (.ofString source) (by simpa using hmut) 0 0 heof
    have hfault : fault ∈
        (t.readTokens parent file source (f.tokens ++ [⟨.eof, stop⟩])).faults :=
      (Cursor.mem_faults_foldl file _ _).mpr (.inr hmem)
    simp [heq] at hfault
  · intro hmut
    have hmarks := f.ofTokens_tokens source (.ofString source) hmut 0 0 heof
    have hend : Mark.ofTokens source (.ofString source) 0 none 0 [⟨.eof, stop⟩] = [] := by
      rw [Mark.ofTokens.eq_def]
      rfl
    have hfold := Cursor.foldl_marks file source f ⟨t, parent, [], [], []⟩ parent.2
    rw [hend, List.append_nil] at hmarks
    simp only [readTokens, hmarks, hfold]
    rfl

/-- The raw identifier is a name like any other, but as the name of a constant it is not read. -/
theorem ofSource_const_named_mut : ∃ f : Forest,
    (Lexed.ofString "const r#mut: u8 = 0;").errors = [] ∧
      (Lexed.ofString "const r#mut: u8 = 0;").tokens = f.tokens ++ [⟨.eof, ⟨20, 20⟩⟩] ∧
      f.elements "const r#mut: u8 = 0;" none 0 1 = [⟨1, .constant, "mut", some 0, [], []⟩] ∧
      ofSource "c" none "const r#mut: u8 = 0;" =
        ⟨⟨#[⟨0, .crate, "c", none, [], []⟩], [0]⟩, [],
          [⟨.expectedName (.symbol .colon), ⟨11, 12⟩⟩]⟩ := by
  let rest : List Token :=
    [⟨.symbol .colon, ⟨11, 12⟩⟩, ⟨.name "u8", ⟨13, 15⟩⟩, ⟨.symbol .eq, ⟨16, 17⟩⟩, ⟨.literal, ⟨18, 19⟩⟩]
  have hrest : Balanced [.symbol .semi] rest :=
    .plain rfl (by decide) (.plain rfl (by decide) (.plain rfl (by decide)
      (.plain rfl (by decide) .nil)))
  have htokens : (Lexed.ofString "const r#mut: u8 = 0;").tokens =
      ⟨.keyword .constKw, ⟨0, 5⟩⟩ :: ⟨.name "mut", ⟨6, 11⟩⟩ ::
        (rest ++ [⟨.symbol .semi, ⟨19, 20⟩⟩, ⟨.eof, ⟨20, 20⟩⟩]) := by
    decide +kernel
  refine ⟨.leaf (.assigned .constant ⟨0, 5⟩ ⟨"mut", ⟨6, 11⟩⟩ ⟨rest, hrest⟩ ⟨19, 20⟩ ?_)
    ⟨[], [], trivial⟩ .nil, ?_, htokens, rfl, ?_⟩
  · simp [rest]
  · decide +kernel
  · decide +kernel

end Doctest.Outline
