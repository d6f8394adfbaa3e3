import Mathlib.Data.Bool.AllAny
import Doctest.Proofs.Snippet.Blocks

/-! Attributes as they are written. A value may hold the marks that part attributes from each other, the
name from the value, and bare names among themselves: it is read back from its quotation marks whole, and
nothing of it comes into a name. -/
namespace Doctest

namespace Text

theorem splitFirst?_append {sep : Char} {before : List Char} (h : sep ∉ before) (after : List Char) :
    splitFirst? sep (before ++ sep :: after) = some (before, after) := by
  induction before with
  | nil => simp [splitFirst?]
  | cons c before ih =>
    have hc : c ≠ sep := fun heq => h (heq ▸ List.mem_cons_self)
    rw [List.cons_append, splitFirst?, if_neg hc, ih fun hmem => h (List.mem_cons_of_mem _ hmem),
      Option.map_some]

theorem splitFirst?_of_notMem {sep : Char} {cs : List Char} (h : sep ∉ cs) :
    splitFirst? sep cs = none := by
  induction cs with
  | nil => rfl
  | cons c cs ih =>
    have hc : c ≠ sep := fun heq => h (heq ▸ List.mem_cons_self)
    rw [splitFirst?, if_neg hc, ih fun hmem => h (List.mem_cons_of_mem _ hmem), Option.map_none]

theorem trim_of_forall {cs : List Char} (h : ∀ c ∈ cs, isBlank c = false) : trim cs = cs := by
  obtain ⟨as, bs, heq, has, hbs⟩ := exists_append_trim cs
  have hnone {ds : List Char} (hds : ∀ c ∈ ds, isBlank c) (hsub : ds ⊆ cs) : ds = [] :=
    List.eq_nil_iff_forall_not_mem.mpr fun c hc => by simpa [h c (hsub hc)] using hds c hc
  obtain rfl : as = [] := hnone has fun c hc => heq ▸ List.mem_append_left _ hc
  obtain rfl : bs = [] :=
    hnone hbs fun c hc => heq ▸ List.mem_append_right _ (List.mem_append_right _ hc)
  simpa using heq.symm

end Text

namespace Attribute

open Text

/-- A quotation mark. -/
def IsMark (c : Char) : Prop :=
  c = '"' ∨ c = '\''

/-- A character that in writing stands for itself, outside quotation marks too. -/
def IsPlain (c : Char) : Prop :=
  isBlank c = false ∧ ¬ IsMark c

instance : DecidablePred IsMark := fun c => inferInstanceAs (Decidable (c = '"' ∨ c = '\''))

instance : DecidablePred IsPlain := fun c =>
  inferInstanceAs (Decidable (isBlank c = false ∧ ¬ IsMark c))

/-- The attributes that can be written: names go without quotation marks, values within them. -/
structure Writable (a : Attribute) : Prop where
  name_ne : a.name ≠ ""
  plain : ∀ c ∈ a.name.toList, IsPlain c ∧ c ≠ '='
  comma : a.value = none → ',' ∉ a.name.toList

/-- A value in writing is runs between quotation marks. A run holds any character but its own mark. -/
inductive Quoted : List Char → List Char → Prop
  | nil : Quoted [] []
  | run {mark : Char} {run value text : List Char} : IsMark mark → mark ∉ run → Quoted value text →
    Quoted (run ++ value) (mark :: (run ++ mark :: text))

/-- An attribute in writing. -/
inductive Written : Attribute → List Char → Prop
  | bare (name : String) : Written ⟨name, none⟩ name.toList
  | valued (name : String) {value : String} {text : List Char} : Quoted value.toList text →
    Written ⟨name, some value⟩ (name.toList ++ '=' :: text)

/-- Attributes in writing, with blanks between them. -/
inductive Listed : List Attribute → List Char → Prop
  | nil : Listed [] []
  | last {a : Attribute} {text : List Char} : Written a text → Listed [a] text
  | cons {a : Attribute} {as : List Attribute} {text blanks rest : List Char} : Written a text →
    blanks ≠ [] → (∀ c ∈ blanks, isBlank c) → Listed as rest →
    Listed (a :: as) (text ++ (blanks ++ rest))

/-- The word that an attribute is read from. -/
def token (a : Attribute) : List Char :=
  a.name.toList ++ (a.value.map ('=' :: ·.toList)).getD []

theorem exists_mark_ne (c : Char) : ∃ mark, IsMark mark ∧ mark ≠ c := by
  by_cases hc : c = '"'
  · subst hc
    exact ⟨'\'', .inr rfl, by decide⟩
  · exact ⟨'"', .inl rfl, Ne.symm hc⟩

/-- No value is out of reach: each character can stand between marks of the other kind. -/
theorem exists_quoted (value : List Char) : ∃ text, Quoted value text := by
  induction value with
  | nil => exact ⟨[], .nil⟩
  | cons c value ih =>
    obtain ⟨text, htext⟩ := ih
    obtain ⟨mark, hmark, hne⟩ := exists_mark_ne c
    have hrun : mark ∉ [c] := by simpa using hne
    exact ⟨_, .run hmark hrun htext⟩

theorem exists_written : ∀ a : Attribute, ∃ text, Written a text
  | ⟨name, none⟩ => ⟨_, .bare name⟩
  | ⟨name, some value⟩ =>
    have ⟨_, htext⟩ := exists_quoted value.toList
    ⟨_, .valued name htext⟩

theorem exists_listed (as : List Attribute) : ∃ text, Listed as text := by
  induction as with
  | nil => exact ⟨[], .nil⟩
  | cons a as ih =>
    obtain ⟨rest, hrest⟩ := ih
    obtain ⟨text, htext⟩ := exists_written a
    have hblank : ∀ c ∈ [' '], isBlank c := List.forall_mem_singleton.mpr (by decide)
    exact ⟨_, .cons htext (List.cons_ne_nil _ _) hblank hrest⟩

/-! How each piece of writing is read, with the rest of the text behind it. -/

theorem tokens_cons_plain {c : Char} (h : IsPlain c) (word : Option (List Char)) (cs : List Char) :
    tokens none word (c :: cs) = tokens none (some (word.getD [] ++ [c])) cs := by
  have hmark : ¬ (c = '"' ∨ c = '\'') := h.2
  rw [tokens, if_neg hmark, if_neg (by simp [h.1])]

theorem tokens_cons_blank {c : Char} (h : isBlank c) (word : Option (List Char)) (cs : List Char) :
    tokens none word (c :: cs) = word.toList ++ tokens none none cs := by
  have hmark : ¬ (c = '"' ∨ c = '\'') := by
    rintro (rfl | rfl) <;> exact absurd h (by decide)
  rw [tokens, if_neg hmark, if_pos h]

theorem tokens_cons_mark {c : Char} (h : IsMark c) (word : Option (List Char)) (cs : List Char) :
    tokens none word (c :: cs) = tokens (some c) (some (word.getD [])) cs := by
  have hmark : c = '"' ∨ c = '\'' := h
  rw [tokens, if_pos hmark]

theorem tokens_plain {cs : List Char} (h : ∀ c ∈ cs, IsPlain c) (word rest : List Char) :
    tokens none (some word) (cs ++ rest) = tokens none (some (word ++ cs)) rest := by
  induction cs generalizing word with
  | nil => simp
  | cons c cs ih =>
    have hcs : ∀ d ∈ cs, IsPlain d := fun d hd => h d (List.mem_cons_of_mem _ hd)
    rw [List.cons_append, tokens_cons_plain (h c List.mem_cons_self), Option.getD_some, ih hcs,
      List.append_assoc, List.singleton_append]

/-- The first character of a word opens it. -/
theorem tokens_open {cs : List Char} (hne : cs ≠ []) (h : ∀ c ∈ cs, IsPlain c) (rest : List Char) :
    tokens none none (cs ++ rest) = tokens none (some cs) rest := by
  obtain ⟨c, cs, rfl⟩ := List.exists_cons_of_ne_nil hne
  rw [List.cons_append, tokens_cons_plain (h c List.mem_cons_self)]
  exact tokens_plain (fun d hd => h d (List.mem_cons_of_mem _ hd)) [c] rest

theorem tokens_run {mark : Char} {run : List Char} (h : mark ∉ run) (word rest : List Char) :
    tokens (some mark) (some word) (run ++ mark :: rest) = tokens none (some (word ++ run)) rest := by
  induction run generalizing word with
  | nil => simp [tokens]
  | cons c run ih =>
    have hc : c ≠ mark := fun heq => h (heq ▸ List.mem_cons_self)
    have hrun : mark ∉ run := fun hmem => h (List.mem_cons_of_mem _ hmem)
    rw [List.cons_append, tokens, if_neg hc, Option.getD_some, ih hrun, List.append_assoc,
      List.singleton_append]

theorem Quoted.tokens_eq {value text : List Char} (h : Quoted value text) (word rest : List Char) :
    tokens none (some word) (text ++ rest) = tokens none (some (word ++ value)) rest := by
  induction h generalizing word with
  | nil => simp
  | run hmark hrun _ ih =>
    rw [List.cons_append, tokens_cons_mark hmark, Option.getD_some, List.append_assoc,
      List.cons_append, tokens_run hrun, ih, List.append_assoc]

theorem tokens_blanks {blanks : List Char} (h : ∀ c ∈ blanks, isBlank c) (rest : List Char) :
    tokens none none (blanks ++ rest) = tokens none none rest := by
  induction blanks with
  | nil => rfl
  | cons c blanks ih =>
    rw [List.cons_append, tokens_cons_blank (h c List.mem_cons_self), Option.toList_none,
      List.nil_append]
    exact ih fun d hd => h d (List.mem_cons_of_mem _ hd)

/-- The first blank ends a word. -/
theorem tokens_close {blanks : List Char} (hne : blanks ≠ []) (h : ∀ c ∈ blanks, isBlank c)
    (word rest : List Char) :
    tokens none (some word) (blanks ++ rest) = word :: tokens none none rest := by
  obtain ⟨c, blanks, rfl⟩ := List.exists_cons_of_ne_nil hne
  rw [List.cons_append, tokens_cons_blank (h c List.mem_cons_self),
    tokens_blanks fun d hd => h d (List.mem_cons_of_mem _ hd), Option.toList_some,
    List.singleton_append]

theorem Writable.toList_ne {a : Attribute} (h : a.Writable) : a.name.toList ≠ [] := fun hnil =>
  h.name_ne (String.toList_injective hnil)

theorem Written.tokens_eq {a : Attribute} {text : List Char} (h : Written a text) (ha : a.Writable)
    (rest : List Char) : tokens none none (text ++ rest) = tokens none (some a.token) rest := by
  have hname := fun c hc => (ha.plain c hc).1
  cases h with
  | bare name =>
    rw [tokens_open ha.toList_ne hname, token, Option.map_none, Option.getD_none, List.append_nil]
  | @valued name value text hvalue =>
    have heq : ∀ c ∈ ['='], IsPlain c := List.forall_mem_singleton.mpr (by decide)
    rw [List.append_assoc, tokens_open ha.toList_ne hname, List.cons_append, ← List.singleton_append,
      tokens_plain heq, hvalue.tokens_eq]
    simp [token]

theorem Listed.tokens_eq {as : List Attribute} {text : List Char} (h : Listed as text)
    (has : ∀ a ∈ as, a.Writable) : tokens none none text = as.map token := by
  -- After each attribute no word is open, so the rest is read as if nothing stood before it.
  induction h with
  | nil => rfl
  | last htext => simpa [tokens] using htext.tokens_eq (has _ List.mem_cons_self) []
  | cons htext hne hblanks _ ih =>
    rw [htext.tokens_eq (has _ List.mem_cons_self), tokens_close hne hblanks,
      ih fun a ha => has a (List.mem_cons_of_mem _ ha), List.map_cons]

/-! A word is taken apart into its name and its value. -/

theorem Writable.ofToken_token {a : Attribute} (h : a.Writable) : ofToken a.token = [a] := by
  have heq : '=' ∉ a.name.toList := fun hmem => (h.plain _ hmem).2 rfl
  obtain ⟨name, value⟩ := a
  cases value with
  | none =>
    have hcomma := h.comma rfl
    have hblank := fun c hc => (h.plain c hc).1.1
    have htoken : token ⟨name, none⟩ = name.toList := by simp [token]
    have hne : name.toList ≠ [] := h.toList_ne
    rw [htoken, ofToken, splitFirst?_of_notMem heq]
    simp [splitOn_of_notMem hcomma, trim_of_forall hblank, hne]
  | some value =>
    have htoken : token ⟨name, some value⟩ = name.toList ++ '=' :: value.toList := by simp [token]
    obtain ⟨c, cs, hname⟩ := List.exists_cons_of_ne_nil h.toList_ne
    have hlist : String.ofList (c :: cs) = name := by rw [← hname, String.ofList_toList]
    rw [htoken, ofToken, splitFirst?_append heq, hname]
    simp [hlist]

theorem Listed.parse_eq {as : List Attribute} {text : List Char} (h : Listed as text)
    (has : ∀ a ∈ as, a.Writable) : parse text = as := by
  have hwords : ∀ a ∈ as, ofToken a.token = [a] := fun a ha => (has a ha).ofToken_token
  rw [parse, h.tokens_eq has, List.flatMap_map, List.flatMap_congr hwords]
  simp

end Attribute

namespace Snippet

open Text

/-- A block has the attributes of the fence that opens it. -/
theorem attributes_eq_parse {text : String} {firstLine : Nat} {s : Snippet}
    (hs : s ∈ ofText text firstLine) {opening : List Char}
    (hopening : (lines text.toList)[s.line - firstLine]? = some opening) {f : Fence}
    (hf : f.Opens opening) : s.attributes = Attribute.parse f.info := by
  obtain ⟨before, g, line, inside, after, hlines, hg, rfl⟩ := exists_block_of_mem_ofText hs
  obtain rfl : line = opening := by simpa [hlines] using hopening
  rw [hf.unique hg]

end Snippet

/-- **Attributes are read as they are written.** Any attributes with plain names can be written, in each
writing they are read back, and a block whose fence holds the writing has exactly these: it is a test if
one of them has that name, and nothing in a value makes it one. -/
theorem Attribute.parse_listed {as : List Attribute} (has : ∀ a ∈ as, a.Writable) :
    (∃ info, Listed as info) ∧ ∀ info, Listed as info → parse info = as ∧
      ∀ (text : String) (firstLine : Nat), ∀ s ∈ Snippet.ofText text firstLine, ∀ opening f,
        (Text.lines text.toList)[s.line - firstLine]? = some opening → Fence.Opens f opening →
        f.info = info → s.attributes = as ∧ (s.isTest ↔ ∃ a ∈ as, a.name = "test") ∧
          (s.isIgnored ↔ ∃ a ∈ as, a.name = "ignore") := by
  refine ⟨exists_listed as, fun info hinfo => ⟨hinfo.parse_eq has, ?_⟩⟩
  rintro text firstLine s hs opening f hopening hf rfl
  have hattributes : s.attributes = as :=
    (Snippet.attributes_eq_parse hs hopening hf).trans (hinfo.parse_eq has)
  exact ⟨hattributes, by simp [Snippet.isTest, Snippet.has, hattributes],
    by simp [Snippet.isIgnored, Snippet.has, hattributes]⟩

/-- The value has quotation marks of both kinds, blanks, a comma and an equals sign, and the word `test`. -/
theorem Attribute.parse_listed_marks :
    parse "note='say \"test\" = '\"it's, ok\"\tprofile".toList =
      [⟨"note", some "say \"test\" = it's, ok"⟩, ⟨"profile", none⟩] := by
  have hwritable : ∀ a ∈ [Attribute.mk "note" (some "say \"test\" = it's, ok"), ⟨"profile", none⟩],
      a.Writable := by
    refine List.forall_mem_cons.mpr ⟨⟨by decide, List.all_iff_forall_prop.mp (by decide), by decide⟩, ?_⟩
    exact List.forall_mem_singleton.mpr ⟨by decide, List.all_iff_forall_prop.mp (by decide), by decide⟩
  have hfirst : '\'' ∉ "say \"test\" = ".toList := by decide
  have hsecond : '"' ∉ "it's, ok".toList := by decide
  have hquoted : Quoted "say \"test\" = it's, ok".toList "'say \"test\" = '\"it's, ok\"".toList :=
    .run (.inr rfl) hfirst (.run (.inl rfl) hsecond .nil)
  have hblank : ∀ c ∈ ['\t'], Text.isBlank c := List.forall_mem_singleton.mpr (by decide)
  exact ((parse_listed hwritable).2 _ (.cons (.valued "note" hquoted) (List.cons_ne_nil _ _) hblank
    (.last (.bare "profile")))).1

end Doctest
