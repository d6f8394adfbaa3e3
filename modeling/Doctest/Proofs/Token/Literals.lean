import Doctest.Proofs.Token.Openers

/-! Rows of literals and commas. Each literal of a row is one token, and nothing inside it is read as a token of its
own. The exceptions are characters written as `\xHH`, and as a code point with underscores among its digits. -/
namespace Doctest

open Lexeme

/-- A longer escape goes on with characters that stand for themselves. -/
inductive StringPart
  | plain (c : Char) (hc : c ≠ '"' ∧ c ≠ '\\')
  | escape (c : Char)

def StringPart.text : StringPart → List Char
  | plain c _ => [c]
  | escape c => ['\\', c]

/-- How a character is written between single quotes. A code point has up to six hex digits, and underscores may
follow the first of them. -/
inductive CharBody
  | plain (c : Char) (hc : c ∉ ['\'', '\\', '\n'])
  | escape (c : Char) (hc : c ∈ ['n', 'r', 't', '\\', '0', '\'', '"'])
  | byte (high low : Char) (hhigh : isHexDigit high) (hlow : isHexDigit low)
  | codePoint (first : Char) (rest : List Char) (hfirst : isHexDigit first)
    (hrest : ∀ c ∈ rest, isHexDigit c ∨ c = '_') (hsix : rest.countP isHexDigit ≤ 5)

namespace CharBody

def text : CharBody → List Char
  | plain c _ => [c]
  | escape c _ => ['\\', c]
  | byte high low _ _ => ['\\', 'x', high, low]
  | codePoint first rest _ _ _ => '\\' :: 'u' :: '\x7b' :: first :: (rest ++ ['\x7d'])

def Readable : CharBody → Prop
  | plain _ _ | escape _ _ => True
  | byte _ _ _ _ => False
  | codePoint _ rest _ _ _ => '_' ∉ rest

instance (b : CharBody) : Decidable b.Readable := by
  cases b <;> unfold Readable <;> infer_instance

end CharBody

/-- A complete literal. No shorter text at the place of a raw string is one, and a number has no point and no sign. -/
inductive Literal
  | string (parts : List StringPart)
  | rawString (byte : Bool) (hashes : Nat) (body : List Char)
    (hbody : ∀ front, front ++ '"' :: List.replicate hashes '#' <+: body ++ '"' :: List.replicate hashes '#' →
      front = body)
  | char (body : CharBody)
  | number (first : Char) (rest : List Char) (hfirst : isDigit first) (hrest : ∀ c ∈ rest, isWordChar c)

namespace Literal

def text : Literal → List Char
  | string parts => '"' :: (parts.flatMap StringPart.text ++ ['"'])
  | rawString byte hashes body _ => (Opener.rawString byte hashes).text ++ (body ++ '"' :: List.replicate hashes '#')
  | char body => '\'' :: (body.text ++ ['\''])
  | number first rest _ _ => first :: rest

def Readable : Literal → Prop
  | char body => body.Readable
  | _ => True

end Literal

/-- What a row is made of. The letter in front of a byte or C string is a piece of its own, and so is a point or sign
inside a decimal number. -/
inductive RowPiece
  | literal (l : Literal)
  | comma
  | letter (c : Char) (hc : c ∈ ['b', 'c'])
  | mark (c : Char) (hc : c ∈ ['.', '+', '-'])

namespace RowPiece

def text : RowPiece → List Char
  | literal l => l.text
  | comma => [',']
  | letter c _ | mark c _ => [c]

def kind : RowPiece → Token.Kind
  | literal _ => .literal
  | comma => .symbol .comma
  | letter c _ => .name (String.ofList [c])
  | mark c _ => .punct c

def Readable : RowPiece → Prop
  | literal l => l.Readable
  | _ => True

/-- What follows a number begins with no character that would go on with it, and a quote follows a letter. -/
def MayPrecede : RowPiece → RowPiece → Prop
  | literal (.number _ _ _ _), q => ∀ c ∈ q.text.head?, isWordChar c = false
  | letter _ _, q => ∀ c ∈ q.text.head?, c = '"' ∨ c = '\''
  | _, _ => True

end RowPiece

namespace Lexeme

theorem stringTail?_parts (parts : List StringPart) (cs : List Char) :
    stringTail? (parts.flatMap StringPart.text ++ '"' :: cs) =
      some ((parts.flatMap StringPart.text).length + 1) := by
  induction parts with
  | nil => rfl
  | cons p parts ih =>
    rw [List.flatMap_cons, List.append_assoc]
    cases p with
    | plain c hc =>
      rw [StringPart.text, List.singleton_append, stringTail?.eq_def]
      split
      · next heq => simp at heq
      · next heq => exact absurd (List.cons.inj heq).1 hc.1
      · next heq => exact absurd (List.cons.inj heq).1 hc.2
      · next heq => exact absurd (List.cons.inj heq).1 hc.2
      · next heq =>
        rw [← (List.cons.inj heq).2, ih]
        rfl
    | escape c =>
      simp only [StringPart.text, List.cons_append, List.nil_append, stringTail?, ih]
      rfl

theorem charTail?_of_readable {body : CharBody} (h : body.Readable) (cs : List Char) :
    charTail? (body.text ++ '\'' :: cs) = some (body.text.length + 1) := by
  cases body with
  | plain c hc =>
    obtain ⟨hquote, hslash, hline⟩ : c ≠ '\'' ∧ c ≠ '\\' ∧ c ≠ '\n' := by simpa using hc
    rw [CharBody.text, List.singleton_append]
    unfold charTail?
    split <;> simp_all
  | escape c hc =>
    have hline : c ≠ '\n' := by
      rintro rfl
      revert hc
      decide
    simp [CharBody.text, charTail?, hline]
  | byte => exact h.elim
  | codePoint first rest hfirst hrest hsix =>
    have hhex : ∀ c ∈ rest, isHexDigit c := fun c hc =>
      (hrest c hc).resolve_right fun heq => h (heq ▸ hc)
    have hrun : run isHexDigit (first :: (rest ++ '\x7d' :: '\'' :: cs)) = rest.length + 1 := by
      rw [← List.cons_append, run_append_of_head _ (by simp [isHexDigit, isDigit]), run,
        List.takeWhile_eq_self_iff.mpr (by simpa [hfirst] using hhex), List.length_cons]
    have hclosed : ['\x7d', '\''].isPrefixOf ((first :: (rest ++ '\x7d' :: '\'' :: cs)).drop (rest.length + 1)) := by
      simp
    have hlength : rest.length + 1 ≤ 6 := by
      rw [List.countP_eq_length.mpr hhex] at hsix
      omega
    have htext : (CharBody.codePoint first rest hfirst hrest hsix).text ++ '\'' :: cs =
        '\\' :: 'u' :: '\x7b' :: first :: (rest ++ '\x7d' :: '\'' :: cs) := by
      simp [CharBody.text]
    simp only [htext, charTail?, hrun]
    rw [if_pos ⟨Nat.le_add_left 1 _, hlength, hclosed⟩]
    simp [CharBody.text]

/-- No form of a character literal goes on where a second digit or an underscore stands. -/
theorem charTail?_of_not_readable {body : CharBody} (h : ¬body.Readable) (cs : List Char) :
    charTail? (body.text ++ '\'' :: cs) = none := by
  cases body with
  | plain => exact absurd trivial h
  | escape => exact absurd trivial h
  | byte high low hhigh hlow =>
    have hquote : high ≠ '\'' := by
      rintro rfl
      exact absurd hhigh (by decide)
    simp only [CharBody.text, List.cons_append, List.nil_append]
    unfold charTail?
    split <;> simp_all
  | codePoint first rest hfirst hrest hsix =>
    obtain ⟨digits, more, rfl, hdigits⟩ := List.eq_append_cons_of_mem (not_not.mp h)
    have hhex : ∀ c ∈ digits, isHexDigit c := fun c hc =>
      (hrest c (List.mem_append_left _ hc)).resolve_right fun heq => hdigits (heq ▸ hc)
    have hrun (ds : List Char) : run isHexDigit (first :: (digits ++ '_' :: ds)) = digits.length + 1 := by
      have hunderscore : ∀ c ∈ ('_' :: ds).head?, isHexDigit c = false := by simp [isHexDigit, isDigit]
      rw [← List.cons_append, run_append_of_head _ hunderscore, run,
        List.takeWhile_eq_self_iff.mpr (by simpa [hfirst] using hhex), List.length_cons]
    simp [CharBody.text, charTail?, hrun]

theorem after_string (parts : List StringPart) (cs : List Char) :
    after '"' (parts.flatMap StringPart.text ++ '"' :: cs) =
      (.literal, (parts.flatMap StringPart.text).length + 1) := by
  have hskip : isSkipped '"' = false := by decide
  simp [after, hskip, afterDoubleQuote, stringTail?_parts]

theorem after_quote (cs : List Char) : after '\'' cs = afterQuote cs := by
  have hskip : isSkipped '\'' = false := by decide
  simp [after, hskip]

theorem after_digit {c : Char} (hc : isDigit c) (cs : List Char) : after c cs = (.literal, run isWordChar cs) := by
  have hnone : ∀ c ∈ seamChars, ¬isDigit c := List.all_iff_forall_prop.mp (by decide)
  have hskip : ¬isSkipped c := fun hskip => hnone c (mem_seamChars_of_isSkipped hskip) hc
  have hmarks : c ≠ '/' ∧ c ≠ '\'' ∧ c ≠ '"' := by
    refine ⟨?_, ?_, ?_⟩ <;> (rintro rfl; exact absurd hc (by decide))
  obtain ⟨hslash, hquote, hdouble⟩ := hmarks
  rw [after, if_neg hskip, if_neg hslash, if_neg hquote, if_neg hdouble, if_pos hc]

theorem after_comma (cs : List Char) : after ',' cs = (.symbol .comma, 0) := by
  rw [after_of_mark (by decide +kernel)]
  rfl

theorem after_numberMark {c : Char} (hc : c ∈ ['.', '+', '-']) {cs : List Char} (hcs : '>' ∉ cs.head?) :
    after c cs = (.punct, 0) := by
  have hclass : ∀ c ∈ ['.', '+', '-'], isSkipped c = false ∧ c ∉ ['/', '\'', '"'] ∧ isDigit c = false ∧
      Text.isNameStart c = false := List.all_iff_forall_prop.mp (by decide +kernel)
  have hplain : ∀ c ∈ ['.', '+', '-'], (Text.isBlank c || Text.isNameChar c) = false :=
    List.all_iff_forall_prop.mp (by decide +kernel)
  have hmark := hplain c hc
  rw [after_of_mark (hclass c hc)]
  unfold afterMark
  split <;> simp_all

theorem after_letter {c : Char} (hc : c ∈ ['b', 'c']) {cs : List Char} (hcs : ∀ d ∈ cs.head?, d = '"' ∨ d = '\'') :
    after c cs = (.word, 0) := by
  have hstart : ∀ c ∈ ['b', 'c'], Text.isNameStart c := List.all_iff_forall_prop.mp (by decide +kernel)
  have hr : c ≠ 'r' := by
    rintro rfl
    exact absurd hc (by decide)
  have hraw : c = 'b' → 'r' ∉ cs.head? := by
    intro _ hr
    rcases hcs 'r' hr with heq | heq <;> exact absurd heq (by decide)
  have hquotes : ∀ d ∈ ['"', '\''], Text.isNameChar d = false ∧ Text.hasNameByte d = false :=
    List.all_iff_forall_prop.mp (by decide +kernel)
  rw [after_of_isNameStart (hstart c hc), afterLetter_eq_word hr hraw]
  cases cs with
  | nil => rfl
  | cons d cs =>
    obtain ⟨hname, hbyte⟩ := hquotes d (by simpa using hcs d rfl)
    simp [word, run, hname, hbyte]

end Lexeme

namespace Literal

open Text

/-- No shorter raw string stands in a text without quotes. -/
theorem eq_of_notMem {hashes : Nat} {body : List Char} (h : '"' ∉ body) (front : List Char)
    (hfront : front ++ '"' :: List.replicate hashes '#' <+: body ++ '"' :: List.replicate hashes '#') :
    front = body := by
  obtain ⟨rest, hrest⟩ := hfront
  rw [List.append_assoc] at hrest
  rcases List.append_eq_append_iff.mp hrest with ⟨more, rfl, hmore⟩ | ⟨more, rfl, hmore⟩
  · cases more with
    | nil => simp
    | cons c more =>
      obtain rfl := (List.cons.inj hmore).1
      exact absurd (List.mem_append_right front List.mem_cons_self) h
  · have hlength := congrArg List.length hmore
    simp only [List.length_append, List.length_cons] at hlength
    have hnil : more = [] := List.eq_nil_of_length_eq_zero (by omega)
    simp [hnil]

/-- A raw string ends where its own text does. -/
theorem ends_rawString {byte : Bool} {hashes : Nat} {body : List Char}
    (hbody : ∀ front, front ++ '"' :: List.replicate hashes '#' <+: body ++ '"' :: List.replicate hashes '#' →
      front = body) (after : List Char) :
    (Opener.rawString byte hashes).Ends (rawString byte hashes body hbody).text after := by
  constructor
  · exact ⟨body, rfl⟩
  · rintro p hp ⟨front, rfl⟩
    rw [text, List.append_assoc] at hp
    have hinner := (List.prefix_append_right_inj _).mp hp
    by_contra hshort
    have hlength : (front ++ '"' :: List.replicate hashes '#').length ≤
        (body ++ '"' :: List.replicate hashes '#').length := by
      simp only [text, List.length_append, List.length_cons] at hshort ⊢
      omega
    have hfront := hbody front (List.prefix_of_prefix_length_le hinner (List.prefix_append _ _) hlength)
    rw [hfront] at hshort
    exact hshort (Nat.le_refl _)

/-- A literal that is read takes up its own text, unless it is a number that goes on. -/
theorem split_append {l : Literal} (h : l.Readable) {cs : List Char}
    (hcs : ∀ first rest hfirst hrest, l = number first rest hfirst hrest → ∀ c ∈ cs.head?, isWordChar c = false) :
    split (l.text ++ cs) = ⟨.literal, l.text⟩ :: split cs := by
  cases l with
  | string parts =>
    refine split_append_of_after ?_
    rw [List.append_assoc, List.singleton_append, after_string, List.length_append, List.length_singleton]
  | rawString byte hashes body hbody => exact (ends_rawString hbody cs).split_eq
  | char body =>
    refine split_append_of_after ?_
    rw [List.append_assoc, List.singleton_append, after_quote]
    unfold afterQuote
    rw [charTail?_of_readable h, List.length_append, List.length_singleton]
  | number first rest hfirst hrest =>
    refine split_append_of_after ?_
    rw [after_digit hfirst, run_append_of_head _ (hcs first rest hfirst hrest rfl), run,
      List.takeWhile_eq_self_iff.mpr hrest]

/-- The quote of a character that is not read stands alone. -/
theorem split_append_of_not_readable {l : Literal} (h : ¬l.Readable) (cs : List Char) :
    ∃ rest, split (l.text ++ cs) = ⟨.punct, ['\'']⟩ :: rest := by
  cases l with
  | string => exact absurd trivial h
  | rawString => exact absurd trivial h
  | number => exact absurd trivial h
  | char body =>
    have hnone := charTail?_of_not_readable h cs
    have hquote : afterQuote (body.text ++ '\'' :: cs) = (.punct, 0) := by
      unfold afterQuote
      rw [hnone]
      cases body with
      | plain => exact absurd trivial h
      | escape => exact absurd trivial h
      | byte => rfl
      | codePoint => rfl
    refine ⟨split (body.text ++ '\'' :: cs), ?_⟩
    rw [text, List.cons_append, List.append_assoc, List.singleton_append, split_cons, after_quote, hquote]
    rfl

end Literal

namespace RowPiece

open Text Lexed

/-- One token for each piece, from where it begins to where it ends. -/
def tokens : Nat → List RowPiece → List Token
  | _, [] => []
  | offset, p :: ps => ⟨p.kind, ⟨offset, offset + byteLength p.text⟩⟩ :: tokens (offset + byteLength p.text) ps

theorem exists_head (p : RowPiece) : ∃ c ∈ p.text.head?, c ≠ '>' := by
  cases p with
  | literal l =>
    cases l with
    | string => exact ⟨'"', rfl, by decide⟩
    | rawString byte => cases byte <;> exact ⟨_, rfl, by decide⟩
    | char => exact ⟨'\'', rfl, by decide⟩
    | number first rest hfirst => exact ⟨first, rfl, by rintro rfl; exact absurd hfirst (by decide)⟩
  | comma => exact ⟨',', rfl, by decide⟩
  | letter c hc => exact ⟨c, rfl, by rintro rfl; exact absurd hc (by decide)⟩
  | mark c hc => exact ⟨c, rfl, by rintro rfl; exact absurd hc (by decide)⟩

/-- What follows a piece begins as the next piece does. -/
theorem exists_next {ps : List RowPiece} {c : Char} (h : c ∈ (ps.flatMap text).head?) :
    ∃ q ∈ ps.head?, c ∈ q.text.head? ∧ c ≠ '>' := by
  cases ps with
  | nil => simp at h
  | cons q ps =>
    obtain ⟨d, hd, hne⟩ := q.exists_head
    obtain ⟨ds, hds⟩ := List.head?_eq_some_iff.mp hd
    obtain rfl : d = c := by simpa [hds] using h
    exact ⟨q, rfl, hd, hne⟩

/-- A piece that is read is one lexeme, whatever follows it in the row. -/
theorem split_flatMap_cons {p : RowPiece} {ps : List RowPiece} (h : p.Readable) (hps : (p :: ps).IsChain MayPrecede) :
    ∃ x, meaning x = some (.ok p.kind) ∧ x.text = p.text ∧
      split ((p :: ps).flatMap text) = x :: split (ps.flatMap text) := by
  have hnext (c : Char) (hc : c ∈ (ps.flatMap text).head?) : ∃ q, MayPrecede p q ∧ c ∈ q.text.head? ∧ c ≠ '>' := by
    obtain ⟨q, hq, hhead⟩ := exists_next hc
    obtain ⟨rest, rfl⟩ := List.head?_eq_some_iff.mp hq
    exact ⟨q, (List.isChain_cons_cons.mp hps).1, hhead⟩
  rw [List.flatMap_cons]
  cases p with
  | literal l =>
    refine ⟨⟨.literal, l.text⟩, rfl, rfl, Literal.split_append h ?_⟩
    rintro first rest hfirst hrest rfl c hc
    obtain ⟨q, hq, hhead, -⟩ := hnext c hc
    exact hq c hhead
  | comma => exact ⟨⟨.symbol .comma, [',']⟩, rfl, rfl, split_append_of_after (after_comma _)⟩
  | letter c hc =>
    have hname : ∀ c ∈ ['b', 'c'], meaning ⟨.word, [c]⟩ = some (.ok (.name (String.ofList [c]))) :=
      List.all_iff_forall_prop.mp (by decide)
    refine ⟨⟨.word, [c]⟩, hname c hc, rfl, split_append_of_after (after_letter hc fun d hd => ?_)⟩
    obtain ⟨q, hq, hhead, -⟩ := hnext d hd
    exact hq d hhead
  | mark c hc =>
    refine ⟨⟨.punct, [c]⟩, rfl, rfl, split_append_of_after (after_numberMark hc fun hd => ?_)⟩
    obtain ⟨q, -, -, hne⟩ := hnext '>' hd
    exact hne rfl

theorem tokens_cons_eq_iff {read : Lexed} {t : Token} {ts : List Token} :
    ({ read with tokens := t :: read.tokens } : Lexed) = ⟨t :: ts, []⟩ ↔ read = ⟨ts, []⟩ := by
  cases read
  simp

/-- A row is read piece by piece up to the first piece that is not read, and there it begins with punctuation. -/
theorem ofLexemes_row_iff (left offset : Nat) {ps : List RowPiece} (hps : ps.IsChain MayPrecede) :
    ofLexemes (left + 1) offset (split (ps.flatMap text)) = ⟨tokens offset ps, []⟩ ↔ ∀ p ∈ ps, p.Readable := by
  induction ps generalizing offset with
  | nil => simp [split, ofLexemes, tokens]
  | cons p ps ih =>
    rw [List.forall_mem_cons]
    by_cases h : p.Readable
    · obtain ⟨x, hx, htext, hsplit⟩ := split_flatMap_cons h hps
      have hrest := ih (offset + byteLength p.text) hps.of_cons
      rw [hsplit, ofLexemes, hx, htext, tokens, ← hrest]
      exact tokens_cons_eq_iff.trans (iff_and_self.mpr fun _ => h)
    · obtain ⟨l, rfl⟩ : ∃ l, p = literal l := by
        cases p with
        | literal l => exact ⟨l, rfl⟩
        | comma => exact absurd trivial h
        | letter => exact absurd trivial h
        | mark => exact absurd trivial h
      obtain ⟨rest, hsplit⟩ := Literal.split_append_of_not_readable h (ps.flatMap text)
      have hpunct : meaning ⟨.punct, ['\'']⟩ = some (.ok (.punct '\'')) := rfl
      constructor
      · intro heq
        have htokens := congrArg Lexed.tokens heq
        rw [List.flatMap_cons, text, hsplit, ofLexemes, hpunct, tokens] at htokens
        have hkind := congrArg Token.kind (List.cons.inj htokens).1
        simp [kind] at hkind
      · intro hread
        exact absurd hread.1 h

/-- **Each literal of a row is one token**, so is each comma, letter and mark between literals, and there is no other
token and no error, exactly if every character literal is read. -/
theorem ofString_row_iff {ps : List RowPiece} (h : ps.IsChain MayPrecede) :
    let source := String.ofList (ps.flatMap text)
    let size := byteLength source.toList
    ofString source = ⟨tokens 0 ps ++ [⟨.eof, ⟨size, size⟩⟩], []⟩ ↔ ∀ p ∈ ps, p.Readable := by
  intro source size
  have hrow := ofLexemes_row_iff 19 0 h
  have hsource : source.toList = ps.flatMap text := String.toList_ofList
  rw [← hrow, ← hsource]
  unfold ofString
  constructor
  · intro heq
    obtain ⟨htokens, herrors⟩ := Lexed.mk.inj heq
    exact congrArg₂ Lexed.mk (List.append_cancel_right htokens) herrors
  · intro heq
    simp only [maxErrors]
    rw [heq]

/-- A row with a literal of every sort, most with a mark inside. -/
theorem ofString_row_marks :
    let ps : List RowPiece := [.literal (.string [.escape '"', .plain '\x7b' (by decide)]), .comma,
      .literal (.char (.plain '\x7d' (by decide))), .literal (.char (.escape '\'' (by decide))),
      .literal (.char (.codePoint '7' ['b'] rfl (List.forall_mem_singleton.mpr (.inl rfl)) (by decide))), .comma,
      .literal (.number '1' ['e'] rfl (List.forall_mem_singleton.mpr rfl)), .mark '-' (by decide),
      .literal (.number '5' [] rfl (List.forall_mem_nil _)), .comma,
      .letter 'b' (by decide), .literal (.string [.plain '[' (by decide)]), .comma,
      .literal (.rawString true 1 ['('] (Literal.eq_of_notMem (by decide)))]
    let source := "\"\\\"\x7b\",'\x7d''\\'''\\u\x7b7b\x7d',1e-5,b\"[\",br#\"(\"#"
    ps.IsChain MayPrecede ∧ source = String.ofList (ps.flatMap text) ∧
      ofString source = ⟨tokens 0 ps ++ [⟨.eof, ⟨39, 39⟩⟩], []⟩ := by
  intro ps source
  have hchain : ps.IsChain MayPrecede := by
    simp [ps, MayPrecede, text, Literal.text]
    decide
  have hsource : source = String.ofList (ps.flatMap text) := by decide +kernel
  have hread : ∀ p ∈ ps, p.Readable := by
    simp [ps, Readable, Literal.Readable, CharBody.Readable]
  have hsize : byteLength source.toList = 39 := by decide
  have hrow := (ofString_row_iff hchain).mpr hread
  rw [← hsource, hsize] at hrow
  exact ⟨hchain, hsource, hrow⟩

/-- The quotes about a character written with `\x` stay open, and the second of them makes a literal of the comma. The
brace of the next literal is then a bracket. -/
theorem ofString_row_byte :
    let ps : List RowPiece := [.literal (.char (.byte '4' '1' rfl rfl)), .comma,
      .literal (.char (.plain '\x7b' (by decide)))]
    let source := "'\\x41','\x7b'"
    ps.IsChain MayPrecede ∧ source = String.ofList (ps.flatMap text) ∧
      tokens 0 ps = [⟨.literal, ⟨0, 6⟩⟩, ⟨.symbol .comma, ⟨6, 7⟩⟩, ⟨.literal, ⟨7, 10⟩⟩] ∧
      ofString source = ⟨[⟨.punct '\'', ⟨0, 1⟩⟩, ⟨.punct '\\', ⟨1, 2⟩⟩, ⟨.name "x41", ⟨2, 5⟩⟩, ⟨.literal, ⟨5, 8⟩⟩,
        ⟨.opening .brace, ⟨8, 9⟩⟩, ⟨.punct '\'', ⟨9, 10⟩⟩, ⟨.eof, ⟨10, 10⟩⟩], []⟩ := by
  intro ps source
  refine ⟨?_, ?_, ?_, ?_⟩
  · simp [ps, MayPrecede]
  · decide +kernel
  · decide +kernel
  · decide +kernel

end RowPiece

end Doctest
