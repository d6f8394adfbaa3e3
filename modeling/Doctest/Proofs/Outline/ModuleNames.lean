import Doctest.Proofs.Outline.Comments
import Doctest.Proofs.Outline.Growth
import Doctest.Proofs.Token.Names

/-! The names of the modules that a file declares are names of its source, and so they hold nothing but
characters of names. -/
namespace Doctest

namespace Outline

/-- The module that a header declares. -/
def Header.module? : Header → Option String
  | .body .module name | .outside name _ | .bareModule name _ => some name
  | _ => none

theorem Header.declared?_of_module? {header : Header} {name : String} (h : header.module? = some name) :
    header.declared? = some (.module, name) := by
  unfold module? at h
  split at h <;> simp_all [declared?]

/-- All names but those of impls are tokens of the header. -/
theorem Header.exists_name_of_read {source : String} {ts : List Token} {kind : Element.Kind} {name : String}
    (h : (read source ts).1.declared? = some (kind, name)) (hkind : kind ≠ .impl) :
    ∃ t ∈ ts, t.kind = .name name := by
  have hsuffix := qualifiers_suffix ts
  have hnamed {us : List Token} {go : String → List Token → Header × List Token}
      (hgo : ∀ word rest, (go word rest).1.declared? = some (kind, name) → word = name) (hus : us <:+ ts)
      (h : (named us go).1.declared? = some (kind, name)) : ∃ t ∈ ts, t.kind = .name name := by
    unfold named at h
    split at h
    · next word span rest =>
      obtain rfl := hgo word rest h
      exact ⟨_, hus.subset List.mem_cons_self, rfl⟩
    · simp [declared?] at h
  unfold read at h
  split at h
  · simp [declared?] at h
  · simp [declared?] at h
  · next t rest heq =>
    rw [heq] at hsuffix
    have hrest : rest <:+ ts := (List.suffix_cons t rest).trans hsuffix
    have hleaf {what : Element.Kind} {skip : List Token → List Token} {us : List Token} (hus : us <:+ rest)
        (h : (named us fun word rest => (.leaf what word, skip rest)).1.declared? = some (kind, name)) :
        ∃ t ∈ ts, t.kind = .name name :=
      hnamed (fun word us hword => by simp_all [declared?]) (hus.trans hrest) h
    have hmut : dropMut rest <:+ rest := (consumes_dropMut rest).suffix
    have hmembers {what : Element.Kind} {word : String} {us : List Token}
        (h : (withMembers what word us).1.declared? = some (kind, name)) : what = kind ∧ word = name := by
      unfold withMembers at h
      dsimp only at h
      split at h <;> simpa [declared?] using h
    unfold ofKeyword at h
    split at h
    · refine hnamed (fun word us hword => ?_) hrest h
      split at hword <;> exact (Prod.mk.inj (Option.some.inj hword)).2
    · exact hleaf (List.suffix_refl _) h
    · exact hleaf (List.suffix_refl _) h
    · exact hleaf (List.suffix_refl _) h
    · exact hleaf (List.suffix_refl _) h
    · exact hnamed (fun word us hword => (hmembers hword).2) hrest h
    · exact absurd (hmembers h).1.symm hkind
    · exact hleaf hmut h
    · exact hleaf hmut h
    · exact hleaf (List.suffix_refl _) h
    · split at h
      · exact hleaf (List.drop_suffix _ _) h
      · simp [declared?] at h
    · simp [declared?] at h
    · simp [declared?] at h

/-- Every header is read from some of the tokens. -/
theorem Event.exists_read_of_mem {source : String} {depth faults : Nat} {ts : List Token}
    {header : Header} (h : item header ∈ ofTokens source depth faults ts) :
    ∃ us, us <:+ ts ∧ (Header.read source us).1 = header := by
  obtain ⟨t, us, hsuffix, hnext⟩ := exists_next_of_mem h rfl
  unfold next at hnext
  split at hnext
  · cases hnext
  · cases hnext
  · cases hnext
  · exact ⟨t :: us, hsuffix, Event.item.inj hnext⟩

/-- A module in another file whose path is made of words. -/
def OutsideModule.IsNamed (m : OutsideModule) : Prop :=
  IsWord m.name ∧ ∀ name ∈ m.inlinePath, IsWord name

/-- The modules that are open and those that have been found have words as names. -/
structure Cursor.Named (c : Cursor) : Prop where
  frames : ∀ f ∈ c.frames, f.kind = .module → IsWord f.name
  modules : ∀ m ∈ c.modules, m.IsNamed

namespace Cursor

theorem isWord_of_mem_moduleNames {frames : List Frame}
    (h : ∀ f ∈ frames, f.kind = .module → IsWord f.name) {name : String}
    (hname : name ∈ moduleNames frames) : IsWord name := by
  rw [moduleNames, List.mem_reverse] at hname
  obtain ⟨f, hf, rfl⟩ := List.mem_map.mp hname
  obtain ⟨hf, hkind⟩ := List.mem_filter.mp hf
  exact h f hf (by simpa using hkind)

theorem Named.attach {c : Cursor} (h : c.Named) (id : Nat) (file : Option Path) (doc : Option DocRun) :
    (c.attach id file doc).Named := by
  cases doc with
  | none => exact h
  | some run => exact ⟨h.frames, h.modules⟩

theorem Named.enter {c : Cursor} (h : c.Named) (file : Option Path) {kind : Element.Kind} {name : String}
    (doc : Option DocRun) (hname : kind = .module → IsWord name) :
    (c.step file (.enter kind name doc)).Named := by
  refine ⟨fun f hf => ?_, ?_⟩
  · rw [frames_step_enter] at hf
    rcases List.mem_cons.mp hf with rfl | hf
    · exact hname
    · exact h.frames f hf
  · cases doc <;> exact h.modules

theorem Named.leave {c : Cursor} (h : c.Named) (file : Option Path) : (c.step file .leave).Named :=
  ⟨fun f hf => h.frames f (List.mem_of_mem_tail hf), h.modules⟩

/-- A header names modules by words, if it does so at all. -/
theorem Named.ofHeader {c : Cursor} (h : c.Named) (file : Option Path) (doc : Option DocRun)
    {header : Header} (hname : ∀ name, header.module? = some name → IsWord name) :
    ((Mark.ofHeader doc header).foldl (Cursor.step file) c).Named := by
  cases header with
  | nothing => exact h
  | leaf kind name =>
    -- The element ends at once, so its frame does not stay.
    refine ⟨fun f hf => ?_, ?_⟩
    · have hframes : ((Mark.ofHeader doc (.leaf kind name)).foldl (Cursor.step file) c).frames =
          c.frames := by
        have hopen := frames_step_enter c file kind name doc
        simp only [Mark.ofHeader, List.foldl_cons, List.foldl_nil]
        exact congrArg List.tail hopen
      exact h.frames f (hframes ▸ hf)
    · cases doc <;> exact h.modules
  | body kind name =>
    exact h.enter file doc fun hkind => hname name (by subst hkind; rfl)
  | outside name span =>
    have hword := hname name rfl
    have hopen : (c.step file (.enter .module name doc)).Named := h.enter file doc fun _ => hword
    refine Named.leave ⟨?_, fun m hm => ?_⟩ file
    · simp only [Cursor.step.eq_def _ _ (.outside span), frames_step_enter]
      simpa only [frames_step_enter] using hopen.frames
    · simp only [Cursor.step.eq_def _ _ (.outside span), frames_step_enter] at hm
      rcases List.mem_append.mp hm with hm | hm
      · exact hopen.modules m hm
      · obtain rfl := List.mem_singleton.mp hm
        exact ⟨hword, fun name hname => isWord_of_mem_moduleNames h.frames hname⟩
  | fault f => exact ⟨h.frames, h.modules⟩
  | bareModule name f =>
    have hopen : (c.step file (.enter .module name doc)).Named := h.enter file doc fun _ => hname name rfl
    exact ⟨(hopen.leave file).frames, (hopen.leave file).modules⟩

theorem Named.foldl {c : Cursor} (h : c.Named) (file : Option Path) (lines : LineMap)
    (doc : Option DocRun) {es : List Event}
    (hes : ∀ header, .item header ∈ es → ∀ name, header.module? = some name → IsWord name) :
    ((Event.marks lines doc es).foldl (Cursor.step file) c).Named := by
  induction es generalizing c doc with
  | nil => exact h
  | cons e es ih =>
    have hrest {c : Cursor} (h : c.Named) (doc : Option DocRun) :=
      ih h doc fun header hmem => hes header (List.mem_cons_of_mem _ hmem)
    cases e with
    | comment text span => exact hrest h _
    | inner docs =>
      rw [Event.marks, List.foldl_append]
      refine hrest ?_ _
      cases docRun lines none docs with
      | none => exact h
      | some run => exact h.attach c.here file (some run)
    | attr => exact hrest h doc
    | item header =>
      rw [Event.marks, List.foldl_append]
      exact hrest (h.ofHeader file doc (hes header List.mem_cons_self)) _
    | close => exact hrest (h.leave file) _
    | unmatched span => exact hrest (c := c.step file (.fault ⟨.unmatchedBrace, span⟩)) ⟨h.frames, h.modules⟩ _
    | unclosed span =>
      have hfault : (c.step file (.fault ⟨.unclosedBody, span⟩)).Named := ⟨h.frames, h.modules⟩
      exact hrest (hfault.leave file) _

end Cursor

/-- **Modules in other files are named by words**, whatever the source of the file that declares them. -/
theorem isNamed_of_mem_modules {t : Outline} {parent : Nat} {file : Option Path} {source : String}
    {m : OutsideModule}
    (h : m ∈ (t.readTokens parent file source (Lexed.ofString source).tokens).modules) : m.IsNamed := by
  have hstart : Cursor.Named ⟨t, parent, [], [], []⟩ := ⟨by simp, by simp⟩
  have hnamed : ((Event.marks (.ofString source) none (Event.ofTokens source 0 0
      (Lexed.ofString source).tokens)).foldl (Cursor.step file) ⟨t, parent, [], [], []⟩).Named :=
    hstart.foldl file (.ofString source) none fun header hmem name hname => by
      obtain ⟨us, hus, rfl⟩ := Event.exists_read_of_mem hmem
      obtain ⟨t, ht, hkind⟩ := Header.exists_name_of_read (Header.declared?_of_module? hname) (by decide)
      exact (Lexed.isName_of_mem_tokens (hus.subset ht) hkind).isWord
  rw [Event.marks_ofTokens] at hnamed
  exact hnamed.modules m h

end Outline

end Doctest
