import Doctest.Proofs.Token.Copies

/-! The names that an item may have, and how they are read. A name is one token whatever letters it is made of, but
two words that are no keywords of the language are read as keywords all the same. -/
namespace Doctest

/-- The words of the 2021 edition that are no identifiers: strict keywords, reserved ones and the underscore. -/
def reservedWords : List String :=
  ["as", "break", "const", "continue", "crate", "else", "enum", "extern", "false", "fn", "for", "if", "impl", "in",
    "let", "loop", "match", "mod", "move", "mut", "pub", "ref", "return", "self", "Self", "static", "struct", "super",
    "trait", "true", "type", "unsafe", "use", "where", "while", "async", "await", "dyn", "abstract", "become", "box",
    "do", "final", "macro", "override", "priv", "typeof", "unsized", "virtual", "yield", "try", "_"]

/-- The words that are no identifiers after a raw mark either. -/
def pathWords : List String :=
  ["crate", "self", "super", "Self", "_"]

structure Identifier where
  raw : Bool
  first : Char
  rest : List Char
  hfirst : Text.isNameStart first
  hrest : ∀ c ∈ rest, Text.isNameChar c
  hfree : String.ofList (first :: rest) ∉ if raw then pathWords else reservedWords

namespace Identifier

open Lexeme Text

def name (id : Identifier) : String :=
  String.ofList (id.first :: id.rest)

def text (id : Identifier) : List Char :=
  if id.raw then 'r' :: '#' :: id.first :: id.rest else id.first :: id.rest

def lexeme (id : Identifier) : Lexeme :=
  ⟨if id.raw then .rawName else .word, id.text⟩

/-- The words that are keywords in some places only, and that are read as keywords in all. -/
def Contextual (id : Identifier) : Prop :=
  id.raw = false ∧ id.name ∈ ["union", "macro_rules"]

theorem meaning_word (cs : List Char) : Lexed.meaning ⟨.word, cs⟩ =
    some (.ok ((Keyword.ofString? (String.ofList cs)).elim (.name (String.ofList cs)) .keyword)) := rfl

theorem meaning_of_not_contextual {id : Identifier} (h : ¬id.Contextual) :
    Lexed.meaning id.lexeme = some (.ok (.name id.name)) := by
  obtain ⟨raw, first, rest, hfirst, hrest, hfree⟩ := id
  cases raw with
  | true => rfl
  | false =>
    have hspellings : ∀ k ∈ Keyword.all, k.spelling ∈ reservedWords ++ ["union", "macro_rules"] := by decide
    have hnone : Keyword.ofString? (String.ofList (first :: rest)) = none := by
      refine List.find?_eq_none.mpr fun k hk heq => ?_
      have hspelling := hspellings k hk
      rw [eq_of_beq heq] at hspelling
      rcases List.mem_append.mp hspelling with hmem | hmem
      · exact hfree hmem
      · exact h ⟨rfl, hmem⟩
    change Lexed.meaning ⟨.word, first :: rest⟩ = some (.ok (.name (String.ofList (first :: rest))))
    rw [meaning_word, hnone]
    rfl

theorem meaning_of_contextual {id : Identifier} (h : id.Contextual) :
    ∃ k, Lexed.meaning id.lexeme = some (.ok (.keyword k)) := by
  obtain ⟨raw, first, rest, hfirst, hrest, hfree⟩ := id
  obtain ⟨hraw, hname⟩ := h
  obtain rfl : raw = false := hraw
  have hwords : ∀ word ∈ ["union", "macro_rules"], ∃ k, Keyword.ofString? word = some k := by
    simp [Keyword.ofString?, Keyword.all, Keyword.spelling]
  obtain ⟨k, hk⟩ := hwords _ hname
  refine ⟨k, ?_⟩
  change Keyword.ofString? (String.ofList (first :: rest)) = some k at hk
  change Lexed.meaning ⟨.word, first :: rest⟩ = some (.ok (.keyword k))
  rw [meaning_word, hk]
  rfl

end Identifier

namespace Lexeme

open Text

/-- What may come right after the name of a function. -/
def nameEnds : List Char :=
  ['(', '<', ' ', '\t', '\r', '\n', '\x0c']

/-- A character that ends a name and makes no string of what stands before it. -/
structure EndsName (c : Char) : Prop where
  not_isNameChar : isNameChar c = false
  not_hasNameByte : hasNameByte c = false
  ne_hash : c ≠ '#'
  ne_quote : c ≠ '"'

theorem endsName_of_mem_nameEnds {c : Char} (hc : c ∈ nameEnds) : EndsName c := by
  have hchars : ∀ c ∈ nameEnds, isNameChar c = false := List.all_iff_forall_prop.mp (by decide +kernel)
  have hbytes : ∀ c ∈ nameEnds, hasNameByte c = false := List.all_iff_forall_prop.mp (by decide +kernel)
  have hmarks : ∀ c ∈ nameEnds, c ≠ '#' ∧ c ≠ '"' := List.all_iff_forall_prop.mp (by decide)
  exact ⟨hchars c hc, hbytes c hc, (hmarks c hc).1, (hmarks c hc).2⟩

/-- A run of name characters ends where nothing follows that a name could go on with. -/
theorem run_isNameChar_append {cs : List Char} (hcs : ∀ c ∈ cs, isNameChar c) {next : List Char}
    (hnext : ∀ c ∈ next.head?, EndsName c) : run isNameChar (cs ++ next) = cs.length := by
  rw [run_append_of_head _ fun c hc => (hnext c hc).not_isNameChar, run, List.takeWhile_eq_self_iff.mpr hcs]

theorem word_append {cs : List Char} (hcs : ∀ c ∈ cs, isNameChar c) {next : List Char}
    (hnext : ∀ c ∈ next.head?, EndsName c) : word (cs ++ next) = (.word, cs.length) := by
  have hrun := run_isNameChar_append hcs hnext
  have hbyte : (cs ++ next)[cs.length]?.any hasNameByte = false := by
    cases next with
    | nil => simp
    | cons d ds => simp [(hnext d rfl).not_hasNameByte]
  simp [word, hrun, hbyte]

/-- No raw string begins with a character of a name. -/
theorem rawString?_eq_none {enough : Nat} (hpos : 0 < enough) {cs : List Char}
    (h : ∀ c ∈ cs.head?, c ≠ '#' ∧ c ≠ '"') : rawString? enough cs = none := by
  cases cs with
  | nil => simp [rawString?, run]; omega
  | cons c cs =>
    obtain ⟨hhash, hquote⟩ := h c rfl
    simp [rawString?, run, hhash, hquote]
    omega

theorem afterLetter_append {first : Char} {rest : List Char} (hrest : ∀ c ∈ rest, isNameChar c)
    {next : List Char} (hnext : ∀ c ∈ next.head?, EndsName c) :
    afterLetter first (rest ++ next) = (.word, rest.length) := by
  have hnot {cs : List Char} (hcs : ∀ c ∈ cs, isNameChar c) : ∀ c ∈ (cs ++ next).head?, c ≠ '#' ∧ c ≠ '"' := by
    intro c hc
    cases cs with
    | nil => exact ⟨(hnext c hc).ne_hash, (hnext c hc).ne_quote⟩
    | cons d ds =>
      obtain rfl : d = c := by simpa using hc
      have hchar := hcs d List.mem_cons_self
      constructor <;> (rintro rfl; revert hchar; decide +kernel)
  have hword : afterLetter first (rest ++ next) = word (rest ++ next) := by
    by_cases hr : first = 'r'
    · subst hr
      have hraw : rawString? 2 (rest ++ next) = none := rawString?_eq_none (by decide) (hnot hrest)
      refine afterLetter_r_eq_word hraw fun heq => ?_
      exact absurd rfl (hnot hrest '#' (by rw [heq]; rfl)).1
    by_cases hb : first = 'b' ∧ 'r' ∈ (rest ++ next).head?
    · obtain ⟨rfl, hmem⟩ := hb
      cases rest with
      | nil => exact absurd (hnext 'r' hmem).not_isNameChar (by decide +kernel)
      | cons d ds =>
        obtain rfl : d = 'r' := by simpa using hmem
        have hraw : rawString? 1 (ds ++ next) = none :=
          rawString?_eq_none (by decide) (hnot fun c hc => hrest c (List.mem_cons_of_mem _ hc))
        simp only [List.cons_append, afterLetter, hraw]
    · exact afterLetter_eq_word hr fun hc hmem => hb ⟨hc, hmem⟩
  rw [hword, word_append hrest hnext]

theorem afterLetter_raw {first : Char} {rest : List Char} (hfirst : isNameStart first)
    (hrest : ∀ c ∈ rest, isNameChar c) {next : List Char} (hnext : ∀ c ∈ next.head?, EndsName c) :
    afterLetter 'r' ('#' :: first :: (rest ++ next)) = (.rawName, rest.length + 2) := by
  have hnot : first ≠ '#' ∧ first ≠ '"' := by
    constructor <;> (rintro rfl; exact absurd hfirst (by decide +kernel))
  have hraw : rawString? 2 ('#' :: first :: (rest ++ next)) = none := by
    simp [rawString?, run, hnot]
  simp [afterLetter, hraw, hfirst, run_isNameChar_append hrest hnext]

/-- A name is one lexeme, raw or not. -/
theorem split_identifier (id : Identifier) {next : List Char} (hnext : ∀ c ∈ next.head?, c ∈ nameEnds) :
    split (id.text ++ next) = id.lexeme :: split next := by
  have hnext : ∀ c ∈ next.head?, EndsName c := fun c hc => endsName_of_mem_nameEnds (hnext c hc)
  obtain ⟨raw, first, rest, hfirst, hrest, hfree⟩ := id
  cases raw with
  | false =>
    have hword : after first (rest ++ next) = (.word, rest.length) := by
      rw [after_of_isNameStart hfirst, afterLetter_append hrest hnext]
    exact split_append_of_after hword
  | true =>
    have hname : after 'r' ('#' :: first :: rest ++ next) = (.rawName, ('#' :: first :: rest).length) := by
      rw [after_of_isNameStart (by decide +kernel)]
      exact afterLetter_raw hfirst hrest hnext
    exact split_append_of_after hname

/-- No name begins with a blank. -/
theorem not_isSkipped_identifier (id : Identifier) {next : List Char} {c : Char}
    (hc : c ∈ (id.text ++ next).head?) : isSkipped c = false := by
  obtain ⟨raw, first, rest, hfirst, hrest, hfree⟩ := id
  cases raw with
  | false =>
    obtain rfl : first = c := by simpa [Identifier.text] using hc
    exact not_isSkipped_of_isNameStart hfirst
  | true =>
    obtain rfl : 'r' = c := by simpa [Identifier.text] using hc
    decide

theorem mem_nameEnds_of_isSkipped {c : Char} (h : isSkipped c) : c ∈ nameEnds := by
  simp only [isSkipped, Bool.or_eq_true, decide_eq_true_eq] at h
  simp only [nameEnds, List.mem_cons]
  tauto

/-- The word `fn` and the blanks after it. -/
theorem split_fn {gap : List Char} (hgap : ∀ c ∈ gap, isSkipped c) (hne : gap ≠ []) {rest : List Char}
    (hrest : ∀ c ∈ rest.head?, isSkipped c = false) :
    split ('f' :: 'n' :: (gap ++ rest)) = ⟨.word, ['f', 'n']⟩ :: ⟨.blank, gap⟩ :: split rest := by
  obtain ⟨c, cs, rfl⟩ := List.exists_cons_of_ne_nil hne
  have hc := hgap c List.mem_cons_self
  have hword : after 'f' (['n'] ++ (c :: cs ++ rest)) = (.word, 1) := by
    rw [after_of_isNameStart (by decide +kernel)]
    refine afterLetter_append (List.forall_mem_singleton.mpr (by decide +kernel)) fun d hd => ?_
    obtain rfl : c = d := by simpa using hd
    exact endsName_of_mem_nameEnds (mem_nameEnds_of_isSkipped hc)
  have hblank : after c (cs ++ rest) = (.blank, cs.length) := by
    have hcs : ∀ d ∈ cs, isSkipped d := fun d hd => hgap d (List.mem_cons_of_mem c hd)
    rw [after, if_pos hc, run_append_of_head _ hrest, run, List.takeWhile_eq_self_iff.mpr hcs]
  have hfn : split ('f' :: ['n'] ++ (c :: cs ++ rest)) = ⟨.word, ['f', 'n']⟩ :: split (c :: cs ++ rest) :=
    split_append_of_after hword
  rw [split_append_of_after hblank] at hfn
  exact hfn

end Lexeme

end Doctest
