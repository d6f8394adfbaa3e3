import Doctest.Proofs.Outline.ModuleBlocks

/-! The limit on faults. The fault that reaches it ends the block that it is in, and only outside of all blocks
does it end the reading, so that a file whose blocks are malformed gives more faults, and elements after them. -/
namespace Doctest.Outline

namespace Mark

/-- A mark on the element that is open. -/
def isNote : Mark → Bool
  | doc _ | outside _ => true
  | _ => false

/-- The marks of a reading in which `depth` elements are open and `faults` faults have been met. Below the limit
a fault is passed over. Any other fault ends the block that it is in, and with no block open the reading. -/
inductive Limited : (depth faults : Nat) → List Mark → Prop
  | nil {faults : Nat} : Limited 0 faults []
  | note {depth faults : Nat} {mark : Mark} {ms : List Mark} :
    mark.isNote → Limited depth faults ms → Limited depth faults (mark :: ms)
  | enter {depth faults : Nat} {kind : Element.Kind} {name : String} {doc : Option DocRun}
    {ms : List Mark} : Limited (depth + 1) faults ms → Limited depth faults (enter kind name doc :: ms)
  | leave {depth faults : Nat} {ms : List Mark} :
    Limited depth faults ms → Limited (depth + 1) faults (leave :: ms)
  | passed {depth faults : Nat} {f : SyntaxFault} {ms : List Mark} : faults + 1 < maxFaults →
    Limited depth (faults + 1) ms → Limited depth faults (fault f :: ms)
  | ends {depth faults : Nat} {f : SyntaxFault} {ms : List Mark} :
    Limited depth (faults + 1) ms → Limited (depth + 1) faults (fault f :: .leave :: ms)
  | last {faults : Nat} {f : SyntaxFault} : maxFaults ≤ faults + 1 → Limited 0 faults [fault f]

theorem limited_unclosed (span : Span) (depth faults : Nat) : Limited depth faults (unclosed span depth) := by
  induction depth generalizing faults with
  | zero => exact .nil
  | succ depth ih => exact .ends (ih (faults + 1))

/-- Comments on the element that is open. -/
theorem Limited.docs {depth faults : Nat} {ms : List Mark} (h : Limited depth faults ms)
    (run : Option DocRun) : Limited depth faults (run.toList.map .doc ++ ms) := by
  cases run with
  | none => exact h
  | some run => exact .note rfl h

end Mark

/-- A faulty item is followed by what comes after it, or by the end of its block. -/
theorem Event.limited_fault {source : String} {lines : LineMap} {rest : List Token}
    (h : ∀ us, us <:+ rest → ∀ depth faults,
      Mark.Limited depth faults (marks lines none (ofTokens source depth faults us)))
    (depth faults : Nat) (f : SyntaxFault) : Mark.Limited depth faults
      (.fault f :: marks lines none (following source depth faults rest (.fault f))) := by
  unfold following
  dsimp only
  split
  · next hlt => exact .passed hlt (h _ (skipItem_suffix 0 rest) depth (faults + 1))
  · next hle =>
    cases depth with
    | zero => exact .last (Nat.not_lt.mp hle)
    | succ above => exact .ends (h rest (List.suffix_refl rest) above (faults + 1))

/-- **The marks of any tokens keep to the limit.** -/
theorem Mark.limited_ofTokens (source : String) (lines : LineMap) (depth faults : Nat)
    (doc : Option DocRun) (ts : List Token) : Limited depth faults (ofTokens source lines depth doc faults ts) := by
  rw [← Event.marks_ofTokens]
  induction ts using Event.tokens_induction source generalizing depth faults doc with
  | nil =>
    rw [Event.ofTokens.eq_def, Event.marks_replicate_unclosed]
    exact limited_unclosed _ depth faults
  | eof t ts ht =>
    rw [Event.ofTokens_eof source depth faults ts ht, Event.marks_replicate_unclosed]
    exact limited_unclosed _ depth faults
  | closing t ts ht ih =>
    cases depth with
    | zero =>
      rw [Event.ofTokens_unmatched source faults ts ht, Event.marks]
      split
      · next hlt => exact .passed hlt (ih 0 (faults + 1) doc)
      · next hle => exact .last (Nat.not_lt.mp hle)
    | succ depth =>
      rw [Event.ofTokens_closing source depth faults ts ht]
      exact .leave (ih depth faults none)
  | comment t ts text ht ih =>
    rw [Event.ofTokens_comment source depth faults ts ht]
    exact ih depth faults _
  | inner t ts text ht ih =>
    rw [Event.ofTokens_inner source depth faults ts ht]
    exact (ih depth faults doc).docs _
  | attr t ts ht ih =>
    rw [Event.ofTokens_attr source depth faults ts ht]
    exact ih depth faults doc
  | item t ts ht ih =>
    obtain ⟨header, rest, hread⟩ : ∃ header rest, Header.read source (t :: ts) = (header, rest) :=
      ⟨_, _, rfl⟩
    rw [hread] at ih
    rw [Event.ofTokens_item source depth faults ts ht, hread, Event.marks]
    have hrest (depth faults : Nat) :
        Limited depth faults (Event.marks lines none (Event.ofTokens source depth faults rest)) :=
      ih rest (List.suffix_refl _) depth faults none
    have hfault := Event.limited_fault (fun us hus depth faults => ih us hus depth faults none) depth faults
    cases header with
    | nothing => exact hrest depth faults
    | leaf kind name => exact .enter (.leave (hrest depth faults))
    | body kind name => exact .enter (hrest (depth + 1) faults)
    | outside name span => exact .enter (.note rfl (.leave (hrest depth faults)))
    | fault f => exact hfault f
    | bareModule name f => exact .enter (.leave (hfault f))

namespace Mark

/-- How many elements are open after these marks, if `depth` were open before. -/
def level (depth : Nat) : List Mark → Nat
  | [] => depth
  | enter _ _ _ :: ms => level (depth + 1) ms
  | leave :: ms => level (depth - 1) ms
  | _ :: ms => level depth ms

/-- What follows a fault keeps to the limit. If the fault ends a block, the block is open up to its end. -/
theorem Limited.tail_of_fault {depth faults : Nat} {f : SyntaxFault} {ms : List Mark}
    (h : Limited depth faults (fault f :: ms)) : ms = [] ∨ Limited depth (faults + 1) ms := by
  cases h with
  | note hnote _ => cases hnote
  | passed _ h => exact .inr h
  | ends h => exact .inr (.leave h)
  | last _ => exact .inl rfl

/-- What follows some marks keeps to the limit from where they leave off. -/
theorem Limited.drop {depth faults : Nat} {before after : List Mark} {f : SyntaxFault}
    (h : Limited depth faults (before ++ fault f :: after)) :
    Limited (level depth before) (faults + (before.filterMap fault?).length) (fault f :: after) := by
  induction before generalizing depth faults with
  | nil => exact h
  | cons mark before ih =>
    cases mark with
    | enter kind name doc =>
      cases h with
      | note hnote _ => cases hnote
      | enter h => exact ih h
    | leave =>
      cases h with
      | note hnote _ => cases hnote
      | leave h => exact ih h
    | doc run =>
      cases h with
      | note _ h => exact ih h
    | outside span =>
      cases h with
      | note _ h => exact ih h
    | fault g =>
      have hcount : faults + ((fault g :: before).filterMap fault?).length =
          faults + 1 + (before.filterMap fault?).length := by
        simp [fault?, Nat.add_assoc, Nat.add_comm 1]
      rw [hcount]
      exact ih (h.tail_of_fault.resolve_left (by simp))

/-- A fault at the limit is the last mark if no element is open, and else the innermost one that is open ends. -/
theorem Limited.after_limit {depth faults : Nat} {after : List Mark} {f : SyntaxFault}
    (h : Limited depth faults (fault f :: after)) (hmax : maxFaults ≤ faults + 1) :
    (depth = 0 → after = []) ∧ (depth ≠ 0 → ∃ rest, after = .leave :: rest) := by
  cases h with
  | note hnote _ => cases hnote
  | passed hlt _ => omega
  | ends _ => exact ⟨fun h => by omega, fun _ => ⟨_, rfl⟩⟩
  | last _ => exact ⟨fun _ => rfl, fun h => absurd rfl h⟩

def isEnter : Mark → Bool
  | enter _ _ _ => true
  | _ => false

theorem counts_fault (f : SyntaxFault) (ms : List Mark) :
    ((fault f :: ms).filterMap fault?).length = (ms.filterMap fault?).length + 1 ∧
      (fault f :: ms).countP isEnter = ms.countP isEnter :=
  ⟨rfl, List.countP_cons_of_neg Bool.false_ne_true⟩

theorem counts_of_fault?_eq_none {mark : Mark} (h : fault? mark = none) (ms : List Mark) :
    ((mark :: ms).filterMap fault?).length = (ms.filterMap fault?).length ∧
      (mark :: ms).countP isEnter = ms.countP isEnter + (isEnter mark).toNat := by
  rw [List.filterMap_cons_none h, List.countP_cons]
  refine ⟨rfl, ?_⟩
  cases isEnter mark <;> rfl

/-- Each fault beyond the limit is paid for with an element that was begun. -/
theorem Limited.length_faults_le {depth faults : Nat} {ms : List Mark} (h : Limited depth faults ms) :
    (ms.filterMap fault?).length + faults ≤ max (faults + 1) maxFaults + depth + ms.countP isEnter := by
  have hnil : (([] : List Mark).filterMap fault?).length = 0 ∧ ([] : List Mark).countP isEnter = 0 := ⟨rfl, rfl⟩
  induction h with
  | nil => omega
  | @note _ _ mark ms hnote _ ih =>
    have hmark : fault? mark = none := by cases mark <;> first | rfl | cases hnote
    have hcounts := counts_of_fault?_eq_none hmark ms
    omega
  | @enter _ _ kind name doc ms _ ih =>
    have hcounts := counts_of_fault?_eq_none (rfl : fault? (Mark.enter kind name doc) = none) ms
    have hone : (isEnter (Mark.enter kind name doc)).toNat = 1 := rfl
    omega
  | @leave _ _ ms _ ih =>
    have hcounts := counts_of_fault?_eq_none (rfl : fault? Mark.leave = none) ms
    omega
  | @passed _ _ f ms _ _ ih =>
    have hcounts := counts_fault f ms
    omega
  | @ends _ _ f ms _ ih =>
    have hcounts := counts_fault f (Mark.leave :: ms)
    have hleave := counts_of_fault?_eq_none (rfl : fault? Mark.leave = none) ms
    omega
  | @last _ f _ =>
    have hcounts := counts_fault f []
    omega

end Mark

namespace Cursor

variable (file : Option Path)

theorem length_frames_foldl (marks : List Mark) (c : Cursor) :
    (marks.foldl (Cursor.step file) c).frames.length = Mark.level c.frames.length marks := by
  induction marks generalizing c with
  | nil => rfl
  | cons mark marks ih =>
    rw [List.foldl_cons, ih]
    cases mark with
    | enter kind name doc =>
      rw [frames_step_enter]
      rfl
    | leave => simp [step, Mark.level]
    | doc run => rfl
    | outside span =>
      obtain ⟨modules, heq⟩ := c.step_outside file span
      rw [heq]
      rfl
    | fault f => rfl

theorem size_foldl (marks : List Mark) (c : Cursor) :
    (marks.foldl (Cursor.step file) c).outline.size = c.outline.size + marks.countP Mark.isEnter := by
  induction marks generalizing c with
  | nil => rfl
  | cons mark marks ih =>
    rw [List.foldl_cons, ih]
    cases mark with
    | enter kind name doc =>
      rw [size_step_enter, List.countP_cons]
      simp [Mark.isEnter, Nat.add_assoc, Nat.add_comm 1]
    | leave => rfl
    | doc run => exact congrArg (· + _) (size_attach _ _ _ _)
    | outside span =>
      obtain ⟨modules, heq⟩ := c.step_outside file span
      rw [heq]
      rfl
    | fault f => rfl

end Cursor

/-- Marks with this many faults have one that is preceded by all others but those after it. -/
theorem Mark.exists_split {n : Nat} {ms : List Mark} (h : n < (ms.filterMap fault?).length) :
    ∃ before f after, ms = before ++ fault f :: after ∧ (before.filterMap fault?).length = n := by
  induction ms generalizing n with
  | nil => simp at h
  | cons mark ms ih =>
    by_cases hfault : ∃ f, mark = fault f
    · obtain ⟨f, rfl⟩ := hfault
      cases n with
      | zero => exact ⟨[], f, ms, rfl, rfl⟩
      | succ n =>
        obtain ⟨before, g, after, rfl, hn⟩ := ih (n := n) (by simpa [fault?] using h)
        exact ⟨fault f :: before, g, after, rfl, by simp [fault?, hn]⟩
    · have hnone : fault? mark = none := by
        cases mark <;> first | rfl | exact absurd ⟨_, rfl⟩ hfault
      rw [List.filterMap_cons_none hnone] at h
      obtain ⟨before, g, after, rfl, hn⟩ := ih h
      exact ⟨mark :: before, g, after, rfl, by rw [List.filterMap_cons_none hnone, hn]⟩

/-- **What the limit on faults guarantees.** Beyond the limit there is at most one fault for each element that is
added. A reading with fewer faults does not reach the limit. In any other there is a fault that reaches it. If no
element is open there, the reading ends with this fault, and nothing more is added. Otherwise the innermost
element that is open ends, and the reading goes on. -/
theorem readTokens_at_limit (t : Outline) (parent : Nat) (file : Option Path) (source : String)
    (tokens : List Token) :
    let marks := Mark.ofTokens source (.ofString source) 0 none 0 tokens
    let cursor (ms : List Mark) : Cursor := ms.foldl (Cursor.step file) ⟨t, parent, [], [], []⟩
    let r := t.readTokens parent file source tokens
    r.faults.length + t.size ≤ Mark.maxFaults + r.outline.size ∧
      (Mark.maxFaults ≤ r.faults.length → ∃ before f after, marks = before ++ .fault f :: after ∧
        (cursor before).faults.length + 1 = Mark.maxFaults ∧
        ((cursor before).frames = [] → after = [] ∧
          r = ⟨(cursor before).outline, (cursor before).modules, (cursor before).faults ++ [f]⟩) ∧
        ((cursor before).frames ≠ [] → ∃ rest, after = .leave :: rest)) := by
  intro marks cursor r
  have hlimited : Mark.Limited 0 0 marks := Mark.limited_ofTokens source (.ofString source) 0 0 none tokens
  have hfaults (ms : List Mark) : (cursor ms).faults = ms.filterMap Mark.fault? :=
    (Cursor.faults_foldl file ms _).trans (List.nil_append _)
  have hr : r = ⟨(cursor marks).outline, (cursor marks).modules, (cursor marks).faults⟩ := rfl
  constructor
  · have hle := hlimited.length_faults_le
    have hsize : (cursor marks).outline.size = t.size + marks.countP Mark.isEnter :=
      Cursor.size_foldl file marks _
    have hmax : max (0 + 1) Mark.maxFaults = Mark.maxFaults := rfl
    rw [hr, hfaults]
    dsimp only
    omega
  · intro hmax
    have hcount : Mark.maxFaults - 1 < (marks.filterMap Mark.fault?).length := by
      rw [hr, hfaults] at hmax
      exact hmax
    obtain ⟨before, f, after, hmarks, hbefore⟩ := Mark.exists_split hcount
    have hlevel : (cursor before).frames.length = Mark.level 0 before :=
      Cursor.length_frames_foldl file before _
    rw [hmarks] at hlimited
    obtain ⟨hend, hleave⟩ := hlimited.drop.after_limit (by rw [hbefore]; decide)
    refine ⟨before, f, after, hmarks, by rw [hfaults, hbefore]; rfl, fun hnone => ?_, fun hsome => ?_⟩
    · obtain rfl : after = [] := hend (by rw [← hlevel, hnone]; rfl)
      have hlast : cursor marks = Cursor.step file (cursor before) (.fault f) := by
        simp only [cursor, hmarks, List.foldl_append, List.foldl_cons, List.foldl_nil]
      refine ⟨rfl, ?_⟩
      rw [hr, hlast]
      rfl
    · exact hleave fun hzero => hsome (List.eq_nil_of_length_eq_zero (hlevel.trans hzero))

/-- Twenty faults in a module end the module, but neither the reading nor its faults. The function after them
becomes an item of the crate. -/
theorem ofSource_faults_in_module :
    let fns := "fn;fn;fn;fn;fn;fn;fn;fn;fn;fn;fn;fn;fn;fn;fn;fn;fn;fn;fn;fn;"
    let r := ofSource "c" none ("mod a \x7b" ++ fns ++ "fn g() \x7b\x7d \x7d")
    r.faults.length = 21 ∧ (r.faults[19]?.map (·.span.stop)) = some ("mod a \x7b" ++ fns).length ∧
      (r.outline.elements.toList.map fun e => (e.kind, e.name, e.parent)) =
        [(.crate, "c", none), (.module, "a", some 0), (.function, "g", some 0)] := by
  decide +kernel

end Doctest.Outline
