import Doctest.Proofs.Outline.Bodies
import Doctest.Proofs.Outline.Grafting
import Doctest.Proofs.Outline.Growth

/-! Files that are sequences of complete items without faults. Their modules in other files can be given
bodies in place of the semicolons, and the tree of such a text has the trees of the bodies in it. -/
namespace Doctest.Outline

open Text Lexeme

/-- The modules in other files that a text declares. -/
def modulesOf (text : String) : List OutsideModule :=
  (ofSource "" none text).modules

/-- The text with each of these texts in braces, in place of the semicolon of a module in another file. -/
def withBodies (text : String) (bodies : List String) : String :=
  let tokens := (Lexed.ofString text).tokens
  let semis := (modulesOf text).map fun m => semicolon tokens m.span.stop
  replace text 0 (semis.zip (bodies.map inBraces))

/-- A text that is a sequence of complete items, after comments and attributes of its own, and that is
read without errors. -/
structure WellFormed (text : String) : Prop where
  errors_eq : (Lexed.ofString text).errors = []
  faults_eq : (ofSource "" none text).faults = []
  complete : ∃ front items stop, (Lexed.ofString text).tokens = front ++ items ++ [⟨.eof, stop⟩] ∧
    Preamble front ∧ Balanced [] items ∧ Complete items

theorem modulesOf_eq {text : String} {contents : Contents} (h : contents.IsOf text) :
    modulesOf text = contents.modules [] 1 :=
  (readTokens_of_isOf (by decide : 0 < (empty.addRoot .crate "").2.size) none h).2.1

namespace Contents

/-- The marks of the contents without the comments. -/
def bare (contents : Contents) : List Mark :=
  contents.marks.filterMap Mark.bare?

theorem bare_item (kind : Element.Kind) (name : String) (doc : Option DocRun) (members rest : Contents) :
    (item kind name doc members rest).bare = .enter kind name none :: (members.bare ++ .leave :: rest.bare) :=
  congrArg _ List.filterMap_append

theorem IsOf.skeleton_eq {contents : Contents} {text : String} (h : contents.IsOf text) :
    skeleton text 0 (Lexed.ofString text).tokens = contents.bare := by
  rw [← filterMap_bare?_ofTokens text (.ofString text), h]
  rfl

theorem fault_mem_bare {contents : Contents} {f : SyntaxFault} (h : f ∈ contents.faults) :
    .fault f ∈ contents.bare := by
  induction contents with
  | nil => simp [faults] at h
  | inner run rest ih => exact ih h
  | fault g rest ih =>
    rcases List.mem_cons.mp h with rfl | h
    · exact List.mem_cons_self
    · exact List.mem_cons_of_mem _ (ih h)
  | item kind name doc members rest ihm ih =>
    rw [bare_item]
    refine List.mem_cons_of_mem _ (List.mem_append.mpr ?_)
    exact (List.mem_append.mp h).imp ihm fun h => List.mem_cons_of_mem _ (ih h)
  | outside name doc span rest ih =>
    exact List.mem_cons_of_mem _ (List.mem_cons_of_mem _ (List.mem_cons_of_mem _ (ih h)))

theorem outsides_bare (contents : Contents) (above : List String) (n : Nat) :
    outsides contents.bare = (contents.modules above n).map (·.span) := by
  induction contents generalizing above n with
  | nil => rfl
  | inner run rest ih => exact ih above n
  | fault f rest ih => exact ih above n
  | item kind name doc members rest ihm ih =>
    rw [bare_item, modules, List.map_append, ← ihm, ← ih]
    exact outsides_append members.bare _
  | outside name doc span rest ih => exact congrArg (span :: ·) (ih above (n + 1))

theorem length_outsides_bare (contents : Contents) : (outsides contents.bare).length = contents.holes := by
  rw [contents.outsides_bare [] 0, List.length_map, contents.length_modules]

/-- The marks of the filled contents are the filled marks of the contents, if there are no faults. -/
theorem marks_fill (contents : Contents) (file : Option Path) (bodies : List Body) (h : contents.faults = []) :
    (contents.fill file bodies).trees.marks = fillMarks (bodies.map (·.trees.trees.marks)) contents.bare := by
  induction contents generalizing bodies with
  | nil => rfl
  | inner run rest ih => exact ih bodies h
  | fault f rest ih => simp [faults] at h
  | item kind name doc members rest ihm ih =>
    obtain ⟨hmembers, hrest⟩ := List.append_eq_nil_iff.mp h
    have hparts := fillMarks_append (bodies.map (·.trees.trees.marks)) members.bare (.leave :: rest.bare)
    rw [members.length_outsides_bare, ← List.map_take, ← List.map_drop, ← ihm _ hmembers] at hparts
    rw [fill, DocTrees.trees, Trees.marks, ih _ hrest, bare_item]
    exact congrArg _ hparts.symm
  | outside name doc span rest ih =>
    have hhead : (bodies.headD .empty).trees.trees.marks = (bodies.map (·.trees.trees.marks)).headD [] := by
      cases bodies <;> rfl
    have htail : bodies.tail.map (·.trees.trees.marks) = (bodies.map (·.trees.trees.marks)).tail := by
      cases bodies <;> rfl
    rw [fill, DocTrees.trees, Trees.marks, ih _ h, hhead, htail]
    rfl

end Contents

/-- A text as a whole source. -/
theorem Embeds.skeleton_eq {text : String} {marks : List Mark} (h : Embeds text.toList marks) :
    skeleton text 0 (Lexed.ofString text).tokens = marks := by
  obtain ⟨xs, us, hsplit, hus, hread⟩ := h text [] [] (by simp) (.inl rfl)
  obtain rfl : split text.toList = xs := by simpa [split_nil] using hsplit
  have hlexed : Lexed.ofLexemes Lexed.maxErrors 0 (split text.toList) = ⟨us, []⟩ :=
    (Lexed.Spells.iff_ofLexemes 19).mp hus
  have hmarks := hread 0 [⟨.eof, ⟨byteLength text.toList, byteLength text.toList⟩⟩] (.inl rfl)
  rw [skeleton_eof _ _ _ rfl, List.replicate_zero, List.flatten_nil, List.append_nil] at hmarks
  rw [Lexed.ofString, hlexed]
  exact hmarks

namespace WellFormed

variable {text : String}

theorem exists_tokens (h : WellFormed text) : ∃ ts stop, (Lexed.ofString text).tokens = ts ++ [stop] ∧
    stop.kind = .eof ∧ Lexed.Spells 0 (split text.toList) ts ∧ Closed [] ts ∧ FileTokens ts := by
  obtain ⟨ts, htokens, hspells⟩ := Lexed.Spells.of_ofString h.errors_eq
  obtain ⟨front, items, stop, heq, hfront, hbalanced, hcomplete⟩ := h.complete
  obtain ⟨rfl, -⟩ := List.append_inj' (htokens.symm.trans heq) rfl
  have hclosed := hfront.closed (hbalanced.closed .nil)
  rw [List.append_nil] at hclosed
  exact ⟨_, _, htokens, rfl, hspells, hclosed, front, items, rfl, hfront, hcomplete⟩

/-- A text with these tokens. -/
theorem of_lexed {front items : List Token} {stop : Span}
    (hlexed : Lexed.ofString text = ⟨front ++ items ++ [⟨.eof, stop⟩], []⟩)
    (hfaults : ((empty.addRoot .crate "").2.readTokens 0 none text
      (front ++ items ++ [⟨.eof, stop⟩])).faults = [])
    (hfront : Preamble front) (hitems : Balanced [] items) (hcomplete : Complete items) :
    WellFormed text where
  errors_eq := by rw [hlexed]
  faults_eq := by
    simp only [ofSource, readSource, hlexed]
    exact hfaults
  complete := ⟨front, items, stop, by rw [hlexed], hfront, hitems, hcomplete⟩

theorem faults_eq_nil (h : WellFormed text) {contents : Contents} (hcontents : contents.IsOf text) :
    contents.faults = [] := by
  obtain ⟨-, -, hfaults, -⟩ :=
    readTokens_of_isOf (by decide : 0 < (empty.addRoot .crate "").2.size) none hcontents
  exact hfaults.symm.trans h.faults_eq

theorem fault_notMem (h : WellFormed text) (fault : SyntaxFault) :
    .fault fault ∉ skeleton text 0 (Lexed.ofString text).tokens := by
  rw [← filterMap_bare?_ofTokens text (.ofString text)]
  intro hmem
  obtain ⟨mark, hmark, hbare⟩ := List.mem_filterMap.mp hmem
  obtain rfl : mark = .fault fault := by
    cases mark <;> simp_all [Mark.bare?]
  have hfault : fault ∈ (ofSource "" none text).faults :=
    (Cursor.mem_faults_foldl none _ _).mpr (.inr hmark)
  simp [h.faults_eq] at hfault

/-- **A text with bodies in it is read into its own contents with those of the bodies.** -/
theorem embeds_withBodies (h : WellFormed text) {contents : Contents} (hcontents : contents.IsOf text)
    (file : Option Path) {texts : List String} {bodies : List Body} (hlen : texts.length = contents.holes)
    (hbodies : List.Forall₂ (fun text body => Embeds text.toList body.trees.trees.marks) texts bodies) :
    Embeds (withBodies text texts).toList (contents.fill file bodies).trees.marks := by
  intro source front back hsource hback
  obtain ⟨ts, stop, htokens, hstop, hspells, hclosed, hfile⟩ := h.exists_tokens
  have hmarks := hcontents.skeleton_eq
  have hfault := h.fault_notMem
  rw [htokens] at hmarks hfault
  obtain ⟨f, rfl, hnames, hfill⟩ :=
    (exists_steps hclosed (Nat.zero_le _) hfile hstop hfault).exists_holed
  rw [hmarks] at hnames hfill
  have hsemis : (modulesOf text).map (fun m => semicolon (Lexed.ofString text).tokens m.span.stop) =
      f.semis := by
    have hsorted := Lexed.pairwise_tokens_ofString text
    rw [htokens, ← List.nil_append (f.tokens ++ [stop])] at hsorted
    have hfound := f.semis_eq hsorted (hspells.start_lt_stop fun x hx => text_ne_nil_of_mem_split hx)
    rw [List.nil_append, ← htokens, hnames, contents.outsides_bare [] 1, List.map_map] at hfound
    rw [modulesOf_eq hcontents]
    exact hfound
  have hlen' : texts.length = f.semis.length := by
    rw [← hsemis, List.length_map, modulesOf_eq hcontents, contents.length_modules, hlen]
  have hkids : List.Forall₂ (fun text marks => Embeds text.toList marks) texts
      (bodies.map (·.trees.trees.marks)) := List.forall₂_map_right_iff.mpr hbodies
  have hfilled : (replace text (byteLength []) (f.semis.zip (texts.map inBraces))).toList =
      (withBodies text texts).toList := by
    rw [withBodies, hsemis]
    rfl
  have htext : text.toList = [] ++ text.toList := rfl
  obtain ⟨xs, us, read, hsplit, hus, hread, hmore⟩ :=
    f.exists_filled htext hspells hfile.getLast_ne_punct hlen' hkids hfilled hsource hback
  rw [contents.marks_fill file bodies (h.faults_eq_nil hcontents)]
  exact ⟨xs, us, hsplit, hus, hfill source us read _ hread hmore⟩

end WellFormed

end Doctest.Outline
