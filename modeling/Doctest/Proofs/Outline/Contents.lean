import Doctest.Proofs.Outline.Continuation
import Doctest.Proofs.Outline.Events

/-! What a source file holds, with all comments and faults: every sequence of tokens is read into whole items
with their members. The elements that they make are told here without the outline they are put into. -/
namespace Doctest.Outline

/-- The contents of a block, in their order. A comment here documents what the block belongs to. A module in
another file has the place of its name. -/
inductive Contents
  | nil
  | inner (run : DocRun) (rest : Contents)
  | fault (f : SyntaxFault) (rest : Contents)
  | item (kind : Element.Kind) (name : String) (doc : Option DocRun) (members rest : Contents)
  | outside (name : String) (doc : Option DocRun) (span : Span) (rest : Contents)
deriving DecidableEq, Repr

namespace Contents

def marks : Contents → List Mark
  | nil => []
  | inner run rest => .doc run :: rest.marks
  | fault f rest => .fault f :: rest.marks
  | item kind name doc members rest => .enter kind name doc :: (members.marks ++ .leave :: rest.marks)
  | outside name doc span rest => .enter .module name doc :: .outside span :: .leave :: rest.marks

/-- The contents of a source text. -/
def IsOf (contents : Contents) (text : String) : Prop :=
  Mark.ofTokens text (.ofString text) 0 none 0 (Lexed.ofString text).tokens = contents.marks

instance (contents : Contents) (text : String) : Decidable (contents.IsOf text) :=
  inferInstanceAs (Decidable (_ = _))

/-- The elements that the contents make. -/
def size : Contents → Nat
  | nil => 0
  | inner _ rest => rest.size
  | fault _ rest => rest.size
  | item _ _ _ members rest => 1 + members.size + rest.size
  | outside _ _ _ rest => 1 + rest.size

/-- The elements at the top, where all are numbered from `n` on. -/
def ids : Contents → (n : Nat) → List Nat
  | nil, _ => []
  | inner _ rest, n => rest.ids n
  | fault _ rest, n => rest.ids n
  | item _ _ _ members rest, n => n :: rest.ids (n + 1 + members.size)
  | outside _ _ _ rest, n => n :: rest.ids (n + 1)

/-- The comments on what the block belongs to. -/
def docs (file : Option Path) : Contents → List DocComment
  | nil => []
  | inner run rest => run.toComment file :: rest.docs file
  | fault _ rest => rest.docs file
  | item _ _ _ _ rest => rest.docs file
  | outside _ _ _ rest => rest.docs file

/-- The faults of the block and of all that is in it. -/
def faults : Contents → List SyntaxFault
  | nil => []
  | inner _ rest => rest.faults
  | fault f rest => f :: rest.faults
  | item _ _ _ members rest => members.faults ++ rest.faults
  | outside _ _ _ rest => rest.faults

/-- The modules in other files, where `above` are the names of the inline modules around the block. -/
def modules (above : List String) : Contents → (n : Nat) → List OutsideModule
  | nil, _ => []
  | inner _ rest, n => rest.modules above n
  | fault _ rest, n => rest.modules above n
  | item kind name _ members rest, n =>
    members.modules (if kind = .module then above ++ [name] else above) (n + 1) ++
      rest.modules above (n + 1 + members.size)
  | outside name _ span rest, n => ⟨n, name, above, span⟩ :: rest.modules above (n + 1)

theorem mem_modules {contents : Contents} {above : List String} {n : Nat} {m : OutsideModule}
    (hm : m ∈ contents.modules above n) : n ≤ m.id ∧ m.id < n + contents.size := by
  induction contents generalizing above n with
  | nil => simp [modules] at hm
  | inner run rest ih => exact ih hm
  | fault f rest ih => exact ih hm
  | item kind name doc members rest ihm ih =>
    rw [size]
    rcases List.mem_append.mp hm with hm | hm
    · have := ihm hm
      omega
    · have := ih hm
      omega
  | outside name doc span rest ih =>
    rw [size]
    rcases List.mem_cons.mp hm with rfl | hm
    · dsimp only
      omega
    · have := ih hm
      omega

theorem pairwise_modules (contents : Contents) (above : List String) (n : Nat) :
    (contents.modules above n).Pairwise (·.id < ·.id) := by
  induction contents generalizing above n with
  | nil => exact .nil
  | inner run rest ih => exact ih above n
  | fault f rest ih => exact ih above n
  | item kind name doc members rest ihm ih =>
    refine List.pairwise_append.mpr ⟨ihm _ _, ih _ _, fun m hm m' hm' => ?_⟩
    have := mem_modules hm
    have := mem_modules hm'
    omega
  | outside name doc span rest ih =>
    exact List.pairwise_cons.mpr ⟨fun m hm => (mem_modules hm).1, ih _ _⟩

/-- The marks of contents, then those from the ends of `depth` blocks on that were open before. -/
inductive Closes : (depth : Nat) → List Mark → Prop
  | whole (contents : Contents) : Closes 0 contents.marks
  | block {depth : Nat} {more : List Mark} (contents : Contents) : Closes depth more →
    Closes (depth + 1) (contents.marks ++ .leave :: more)

namespace Closes

variable {depth : Nat} {more : List Mark}

theorem prepend (h : Closes depth more) (front : List Mark) (f : Contents → Contents)
    (hf : ∀ c, (f c).marks = front ++ c.marks) : Closes depth (front ++ more) := by
  cases h with
  | whole contents =>
    rw [← hf]
    exact .whole (f contents)
  | block contents h =>
    rw [← List.append_assoc, ← hf]
    exact .block (f contents) h

theorem inner (run : DocRun) (h : Closes depth more) : Closes depth (.doc run :: more) :=
  h.prepend [.doc run] (.inner run) fun _ => rfl

theorem fault (f : SyntaxFault) (h : Closes depth more) : Closes depth (.fault f :: more) :=
  h.prepend [.fault f] (.fault f) fun _ => rfl

theorem leave (h : Closes depth more) : Closes (depth + 1) (.leave :: more) :=
  .block .nil h

theorem enter (kind : Element.Kind) (name : String) (doc : Option DocRun) (h : Closes (depth + 1) more) :
    Closes depth (.enter kind name doc :: more) := by
  cases h with
  | block members h =>
    have hitem := h.prepend (.enter kind name doc :: (members.marks ++ [.leave])) (.item kind name doc members)
      fun _ => by simp [marks]
    simpa using hitem

theorem outside (name : String) (doc : Option DocRun) (span : Span) (h : Closes depth more) :
    Closes depth (.enter .module name doc :: .outside span :: .leave :: more) :=
  h.prepend [.enter .module name doc, .outside span, .leave] (.outside name doc span) fun _ => rfl

theorem ofHeader (doc : Option DocRun) {header : Header} (h : Closes (depth + header.blocks) more) :
    Closes depth (Mark.ofHeader doc header ++ more) := by
  cases header with
  | nothing => exact h
  | leaf kind name => exact h.leave.enter kind name doc
  | body kind name => exact h.enter kind name doc
  | outside name span => exact h.outside name doc span
  | fault f => exact h.fault f
  | bareModule name f => exact (h.fault f).leave.enter .module name doc

theorem unclosed (span : Span) (depth : Nat) : Closes depth (Mark.unclosed span depth) := by
  induction depth with
  | zero => exact .whole .nil
  | succ depth ih => exact ih.leave.fault _

end Closes

/-- All blocks are closed at the end. -/
theorem closes_ofTokens (source : String) (lines : LineMap) (depth faults : Nat) (doc : Option DocRun)
    (ts : List Token) : Closes depth (Event.marks lines doc (Event.ofTokens source depth faults ts)) := by
  induction ts using Event.tokens_induction source generalizing depth faults doc with
  | nil =>
    rw [Event.ofTokens.eq_def, Event.marks_replicate_unclosed]
    exact .unclosed _ depth
  | eof t ts ht =>
    rw [Event.ofTokens_eof source depth faults ts ht, Event.marks_replicate_unclosed]
    exact .unclosed _ depth
  | closing t ts ht ih =>
    cases depth with
    | zero =>
      rw [Event.ofTokens_unmatched source faults ts ht]
      split
      · exact (ih 0 (faults + 1) doc).fault _
      · exact .whole (.fault _ .nil)
    | succ depth =>
      rw [Event.ofTokens_closing source depth faults ts ht]
      exact (ih depth faults none).leave
  | comment t ts text ht ih =>
    rw [Event.ofTokens_comment source depth faults ts ht]
    exact ih depth faults _
  | inner t ts text ht ih =>
    rw [Event.ofTokens_inner source depth faults ts ht, Event.marks]
    cases docRun lines none _ with
    | none => exact ih depth faults doc
    | some run => exact (ih depth faults doc).inner run
  | attr t ts ht ih =>
    rw [Event.ofTokens_attr source depth faults ts ht]
    exact ih depth faults doc
  | item t ts ht ih =>
    rw [Event.ofTokens_item source depth faults ts ht, Event.marks]
    generalize Header.read source (t :: ts) = read at ih
    obtain ⟨header, rest⟩ := read
    have hrest (depth faults : Nat) := ih rest (List.suffix_refl _) depth faults none
    refine .ofHeader doc ?_
    -- After too many faults the block ends where the item was.
    have hfault (name : String) (f : SyntaxFault) : Closes depth (Event.marks lines none
        (Event.following source depth faults rest (.bareModule name f))) := by
      unfold Event.following
      dsimp only
      split
      · exact ih _ (skipItem_suffix 0 rest) depth (faults + 1) none
      · cases depth with
        | zero => exact .whole .nil
        | succ depth => exact (hrest depth (faults + 1)).leave
    cases header with
    | fault f => exact hfault "" f
    | bareModule name f => exact hfault name f
    | body kind name => exact hrest (depth + 1) faults
    | _ => exact hrest depth faults

/-- Every sequence of tokens is read into contents. -/
theorem exists_ofTokens_eq (source : String) (lines : LineMap) (tokens : List Token) :
    ∃ contents : Contents, Mark.ofTokens source lines 0 none 0 tokens = contents.marks := by
  have h := closes_ofTokens source lines 0 0 none tokens
  rw [Event.marks_ofTokens] at h
  generalize hmarks : Mark.ofTokens source lines 0 none 0 tokens = marks at h
  cases h with
  | whole contents => exact ⟨contents, rfl⟩

/-- **Every source text has contents**, whatever its faults are. -/
theorem exists_isOf (text : String) : ∃ contents : Contents, contents.IsOf text :=
  exists_ofTokens_eq text (.ofString text) (Lexed.ofString text).tokens

end Contents

end Doctest.Outline
