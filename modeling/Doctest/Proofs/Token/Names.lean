import Doctest.Proofs.Token.Identifiers
import Doctest.Proofs.Token.PlainComments

/-! The names that are read from a source, and how they are read again where they are written as a path. -/
namespace Doctest

open Text

/-- A name of characters that names may have. -/
def IsWord (name : String) : Prop :=
  name.toList ≠ [] ∧ ∀ c ∈ name.toList, isNameChar c

/-- A name that a letter or an underscore begins. -/
def IsName (name : String) : Prop :=
  ∃ first rest, name.toList = first :: rest ∧ isNameStart first ∧ ∀ c ∈ rest, isNameChar c

theorem IsName.isWord {name : String} (h : IsName name) : IsWord name := by
  obtain ⟨first, rest, hname, hfirst, hrest⟩ := h
  rw [IsWord, hname]
  exact ⟨List.cons_ne_nil _ _, List.forall_mem_cons.mpr ⟨isNameChar_of_isNameStart hfirst, hrest⟩⟩

namespace Lexeme

/-- A run of name characters after the first one. -/
theorem isName_run {c : Char} (hc : isNameStart c) (cs : List Char) :
    IsName (String.ofList (c :: cs.take (run isNameChar cs))) := by
  refine ⟨c, cs.take (run isNameChar cs), String.toList_ofList, hc, fun d hd => ?_⟩
  rw [take_run] at hd
  exact List.mem_takeWhile_imp hd

/-- A letter begins a word, a raw string or a raw name. -/
theorem afterLetter_cases (c : Char) (cs : List Char) : afterLetter c cs = word cs ∨
    (afterLetter c cs).1 ∈ [.literal, .unclosedRawString] ∨ ∃ first rest, cs = '#' :: first :: rest ∧
      isNameStart first ∧ afterLetter c cs = (.rawName, run isNameChar rest + 2) := by
  unfold afterLetter
  split
  · split
    · next cls n heq =>
      have hcls := rawString?_cls heq
      exact .inr (.inl hcls)
    · exact .inl rfl
  · split
    · next heq => exact .inr (.inl (rawString?_cls heq))
    · split
      · next first rest _ =>
        split
        · next hfirst => exact .inr (.inr ⟨first, rest, rfl, hfirst, rfl⟩)
        · exact .inl rfl
      · exact .inl rfl
  · exact .inl rfl

/-- Only a letter begins a word or a name. -/
theorem after_eq_afterLetter {c : Char} {cs : List Char} (h : (after c cs).1 ∈ [.word, .name, .rawName]) :
    isNameStart c ∧ after c cs = afterLetter c cs := by
  have apart {cls : Class} {others : List Class} (h : cls ∈ [.word, .name, .rawName])
      (hcls : cls ∈ others) (hothers : ∀ k ∈ others, k ∉ [Class.word, .name, .rawName]) : False :=
    hothers cls hcls h
  revert h
  refine after_cases (motive := fun f => (f cs).1 ∈ [.word, .name, .rawName] →
    isNameStart c ∧ f cs = afterLetter c cs) c ?blank ?slash ?quote ?doubleQuote ?digit ?letter ?mark
  case slash => exact fun _ h => (apart h (afterSlash_cls cs) (by decide)).elim
  case quote => exact fun _ h => (apart h (afterQuote_cls cs) (by decide)).elim
  case doubleQuote => exact fun _ h => (apart h (afterDoubleQuote_cls cs) (by decide)).elim
  case letter => exact fun hc _ => ⟨hc, rfl⟩
  case mark =>
    intro h
    have hmark := afterMark_cls c cs
    simp only [List.mem_cons, List.not_mem_nil, or_false, not_or] at h hmark
    tauto
  all_goals simp

/-- The text of a word or a name, and that of a raw name after its mark. -/
theorem isName_text {cs : List Char} {before rest : List Lexeme} {x : Lexeme}
    (h : split cs = before ++ x :: rest) :
    (x.cls ∈ [.word, .name] → IsName (String.ofList x.text)) ∧
      (x.cls = .rawName → IsName (String.ofList (x.text.drop 2))) := by
  obtain ⟨c, ds, rfl, -⟩ := exists_after_of_split h
  constructor
  · intro hcls
    obtain ⟨hc, hafter⟩ := after_eq_afterLetter
      (List.mem_append_left [Class.rawName] hcls : (after c ds).1 ∈ [.word, .name, .rawName])
    dsimp only at hcls
    rw [hafter] at hcls ⊢
    rcases afterLetter_cases c ds with hword | hraw | ⟨first, rest, -, -, hraw⟩
    · rw [hword]
      exact isName_run hc ds
    · simp only [List.mem_cons, List.not_mem_nil, or_false] at hcls hraw
      rcases hcls with hcls | hcls <;> simp [hcls] at hraw
    · simp [hraw] at hcls
  · intro hcls
    have hmem : (after c ds).1 ∈ [.word, .name, .rawName] := by
      dsimp only at hcls
      simp [hcls]
    obtain ⟨-, hafter⟩ := after_eq_afterLetter hmem
    dsimp only at hcls
    rw [hafter] at hcls ⊢
    rcases afterLetter_cases c ds with hword | hraw | ⟨first, rest, rfl, hfirst, hraw⟩
    · have hword' := word_cls ds
      simp [← hword, hcls] at hword'
    · simp [hcls] at hraw
    · rw [hraw]
      exact isName_run hfirst rest

end Lexeme

namespace Lexed

/-- A name is read from a word, a name or a raw name. -/
theorem cases_of_meaning_name {x : Lexeme} {name : String}
    (h : meaning x = some (.ok (.name name))) :
    x.cls ∈ [.word, .name] ∧ name = String.ofList x.text ∨
      x.cls = .rawName ∧ name = String.ofList (x.text.drop 2) := by
  unfold meaning at h
  split at h
  case h_2 =>
    have hdoc : DocText.ofLineComment? x.text = some (.name name) := by simpa using h
    unfold DocText.ofLineComment? at hdoc
    split at hdoc <;> simp at hdoc
  case h_3 =>
    have hdoc : DocText.ofBlockComment? x.text = some (.name name) := by simpa using h
    unfold DocText.ofBlockComment? at hdoc
    dsimp only at hdoc
    split at hdoc <;> simp at hdoc
  case h_9 hcls =>
    cases hword : Keyword.ofString? (String.ofList x.text) with
    | none => exact .inl ⟨by simp [hcls], by simpa [hword, eq_comm] using h⟩
    | some word => simp [hword] at h
  case h_10 hcls => exact .inl ⟨by simp [hcls], by simpa [eq_comm] using h⟩
  case h_11 hcls => exact .inr ⟨hcls, by simpa [eq_comm] using h⟩
  all_goals simp at h

/-- A name token holds a name. -/
theorem isName_of_mem_tokens {source : String} {t : Token} (ht : t ∈ (ofString source).tokens)
    {name : String} (hname : t.kind = .name name) : IsName name := by
  have heof : t.kind ≠ .eof := by simp [hname]
  obtain ⟨before, x, after, hsplit, hmeaning, -⟩ := exists_lexeme_of_mem_ofString ht heof
  rw [hname] at hmeaning
  obtain ⟨hword, hraw⟩ := Lexeme.isName_text hsplit
  rcases cases_of_meaning_name hmeaning with ⟨hcls, rfl⟩ | ⟨hcls, rfl⟩
  · exact hword hcls
  · exact hraw hcls

end Lexed

/-! A path of names, with the separator after each of them and an asterisk at the end. -/

/-- The tokens of the names of a path, with the separator after each. -/
def pathKinds (path : List String) : List Token.Kind :=
  path.flatMap fun name => [.name name, .symbol .pathSep]

theorem toList_glob {path : List String} (h : path ≠ []) :
    ("::".intercalate path ++ "::*").toList = path.flatMap (·.toList ++ [':', ':']) ++ ['*'] := by
  rw [String.toList_append, String.toList_intercalate]
  induction path with
  | nil => contradiction
  | cons name path ih =>
    cases path with
    | nil => simp [List.intercalate]
    | cons next path =>
      have hnext := ih (List.cons_ne_nil next path)
      rw [List.flatMap_cons, List.append_assoc, ← hnext]
      simp [List.intercalate]

namespace Lexeme

theorem after_pathSep (cs : List Char) : after ':' (':' :: cs) = (.symbol .pathSep, 1) := by
  rw [after_of_mark (by decide +kernel)]
  rfl

theorem split_asterisk : split ['*'] = [⟨.punct, ['*']⟩] := by
  have hafter : after '*' [] = (.punct, 0) := by
    rw [after_of_mark (by decide +kernel)]
    decide +kernel
  rw [split_cons, hafter, List.take_nil, List.drop_nil, split_nil]

/-- A colon ends a name, so the name is one word, whatever it spells. -/
theorem split_name_pathSep {name : String} (h : IsName name) (cs : List Char) :
    split (name.toList ++ [':', ':'] ++ cs) =
      ⟨.word, name.toList⟩ :: ⟨.symbol .pathSep, [':', ':']⟩ :: split cs := by
  obtain ⟨first, rest, hname, hfirst, hrest⟩ := h
  have hcolon : EndsName ':' := ⟨by decide +kernel, by decide +kernel, by decide, by decide⟩
  have hword : after first (rest ++ ([':', ':'] ++ cs)) = (.word, rest.length) := by
    rw [after_of_isNameStart hfirst]
    refine afterLetter_append hrest fun c hc => ?_
    obtain rfl : ':' = c := by simpa using hc
    exact hcolon
  have hsep : split (':' :: [':'] ++ cs) = ⟨.symbol .pathSep, [':', ':']⟩ :: split cs :=
    split_append_of_after (after_pathSep cs)
  rw [hname, List.append_assoc, split_append_of_after hword, ← hsep]

end Lexeme

namespace Lexed

/-- The names of a path are read again but for those that are spelled like keywords. -/
theorem meanings_path_iff {path : List String} (h : ∀ name ∈ path, IsName name) :
    meanings (Lexeme.split (path.flatMap (·.toList ++ [':', ':']) ++ ['*'])) =
      (pathKinds path ++ [Token.Kind.punct '*']).map .ok ↔ ∀ name ∈ path, Keyword.ofString? name = none := by
  induction path with
  | nil => simp [Lexeme.split_asterisk, meanings, meaning, pathKinds]
  | cons name path ih =>
    obtain ⟨hname, hpath⟩ := List.forall_mem_cons.mp h
    rw [List.forall_mem_cons, ← ih hpath, List.flatMap_cons, List.append_assoc,
      Lexeme.split_name_pathSep hname]
    have hword : meaning ⟨.word, name.toList⟩ =
        some (.ok ((Keyword.ofString? name).elim (.name name) .keyword)) := by
      rw [Identifier.meaning_word, String.ofList_toList]
    have hsep : meaning ⟨.symbol .pathSep, [':', ':']⟩ = some (.ok (.symbol .pathSep)) := rfl
    cases hkeyword : Keyword.ofString? name with
    | none => simp [meanings, hword, hsep, hkeyword, pathKinds]
    | some k => simp [meanings, hword, hsep, hkeyword, pathKinds]

/-- **A glob is read as the path that it was written from** exactly if no name of the path is spelled like a
keyword. -/
theorem ofString_glob_iff {path : List String} (hne : path ≠ []) (h : ∀ name ∈ path, IsName name) :
    ((ofString ("::".intercalate path ++ "::*")).errors = [] ∧
      (ofString ("::".intercalate path ++ "::*")).tokens.map Token.kind = pathKinds path ++ [.punct '*'] ++ [.eof]) ↔
      ∀ name ∈ path, Keyword.ofString? name = none := by
  rw [ofString_kinds_iff, toList_glob hne, meanings_path_iff h]

end Lexed

end Doctest
