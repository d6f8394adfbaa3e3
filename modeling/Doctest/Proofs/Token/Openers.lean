import Doctest.Proofs.Token.Edges

/-! Where block comments and raw strings end. A comment ends at the first mark that leaves none open, and a raw
string at the first quote with enough hash signs after it. Without such a place the rest of the source is one
error. -/
namespace Doctest

namespace Lexeme

open Text

inductive CommentMark
  | opening | closing
deriving DecidableEq, Repr

/-- The marks of comments in a text, scanned from its front. Two marks never share a character. -/
def commentMarks : List Char → List CommentMark
  | [] => []
  | '/' :: '*' :: cs => .opening :: commentMarks cs
  | '*' :: '/' :: cs => .closing :: commentMarks cs
  | _ :: cs => commentMarks cs

def opened (cs : List Char) : Nat :=
  (commentMarks cs).count .opening

def closed (cs : List Char) : Nat :=
  (commentMarks cs).count .closing

/-- What begins a piece of source that lasts up to its own closing mark, whatever stands between them. -/
inductive Opener
  | comment
  | rawString (byte : Bool) (hashes : Nat)
deriving DecidableEq, Repr

namespace Opener

def text : Opener → List Char
  | comment => ['/', '*']
  | rawString byte hashes => (if byte then ['b', 'r'] else ['r']) ++ (List.replicate hashes '#' ++ ['"'])

/-- The piece begins with the opener, and at its end everything is closed: a comment has as many closing marks as
opening ones, and a raw string ends with a quote before its hash signs. -/
def Complete : Opener → List Char → Prop
  | comment, piece => comment.text <+: piece ∧ opened piece = closed piece
  | rawString byte hashes, piece =>
    ∃ body, piece = (rawString byte hashes).text ++ (body ++ '"' :: List.replicate hashes '#')

/-- The piece is complete, and nothing shorter at its place is. -/
structure Ends (o : Opener) (piece after : List Char) : Prop where
  complete : o.Complete piece
  first : ∀ p, p <+: piece ++ after → o.Complete p → piece.length ≤ p.length

def tail? : Opener → List Char → Option Nat
  | comment, cs => commentTail? 0 cs
  | rawString _ hashes, cs => rawTail? hashes cs

def closedClass : Opener → Class
  | comment => .blockComment
  | rawString _ _ => .literal

def unclosedClass : Opener → Class
  | comment => .unclosedComment
  | rawString _ _ => .unclosedRawString

end Opener

theorem commentMarks_cons {c : Char} {cs : List Char} (hopen : ¬['/', '*'] <+: c :: cs)
    (hclose : ¬['*', '/'] <+: c :: cs) : commentMarks (c :: cs) = commentMarks cs := by
  rw [commentMarks.eq_def]
  split
  · next heq => simp at heq
  · next ds heq => exact absurd ⟨ds, heq.symm⟩ hopen
  · next ds heq => exact absurd ⟨ds, heq.symm⟩ hclose
  · next heq => rw [(List.cons.inj heq).2]

theorem commentMarks_cons_take {c : Char} {cs : List Char} (hopen : ¬['/', '*'] <+: c :: cs)
    (hclose : ¬['*', '/'] <+: c :: cs) (k : Nat) : commentMarks (c :: cs.take k) = commentMarks (cs.take k) := by
  have hfront : c :: cs.take k <+: c :: cs := List.take_prefix (k + 1) (c :: cs)
  exact commentMarks_cons (fun h => hopen (h.trans hfront)) (fun h => hclose (h.trans hfront))

@[simp]
theorem opened_nil : opened [] = 0 := rfl

@[simp]
theorem closed_nil : closed [] = 0 := rfl

@[simp]
theorem opened_opening (cs : List Char) : opened ('/' :: '*' :: cs) = opened cs + 1 := by
  simp [opened, commentMarks]

@[simp]
theorem closed_opening (cs : List Char) : closed ('/' :: '*' :: cs) = closed cs := by
  simp [closed, commentMarks]

@[simp]
theorem opened_closing (cs : List Char) : opened ('*' :: '/' :: cs) = opened cs := by
  simp [opened, commentMarks]

@[simp]
theorem closed_closing (cs : List Char) : closed ('*' :: '/' :: cs) = closed cs + 1 := by
  simp [closed, commentMarks]

theorem opened_singleton (c : Char) : opened [c] = 0 := by
  rw [opened, commentMarks_cons (by simp) (by simp)]
  rfl

theorem closed_singleton (c : Char) : closed [c] = 0 := by
  rw [closed, commentMarks_cons (by simp) (by simp)]
  rfl

/-- Before the end of a comment, if it has one, there are too few closing marks. -/
theorem closed_lt_of_commentTail? {depth : Nat} {cs : List Char} {m : Nat}
    (h : ∀ n ∈ commentTail? depth cs, m < n) : closed (cs.take m) < opened (cs.take m) + depth + 1 := by
  fun_induction commentTail? depth cs generalizing m with
  | case1 => simp
  | case2 depth cs ih =>
    rcases m with - | - | k
    · simp
    · simp [opened_singleton, closed_singleton]
    · have hbefore := ih (m := k) fun n hn => by
        have := h (n + 2) (by simp [Option.mem_def.mp hn])
        omega
      simp only [List.take_succ_cons, opened_opening, closed_opening]
      omega
  | case3 cs =>
    rcases m with - | - | k
    · simp
    · simp [opened_singleton, closed_singleton]
    · exact absurd (h 2 rfl) (by omega)
  | case4 depth cs ih =>
    rcases m with - | - | k
    · simp
    · simp [opened_singleton, closed_singleton]
    · have hbefore := ih (m := k) fun n hn => by
        have := h (n + 2) (by simp [Option.mem_def.mp hn])
        omega
      simp only [List.take_succ_cons, opened_closing, closed_closing]
      omega
  | case5 depth c cs hopen hclose hdeep ih =>
    rcases m with - | k
    · simp
    · have hbefore := ih (m := k) fun n hn => by
        have := h (n + 1) (by simp [Option.mem_def.mp hn])
        omega
      obtain ⟨hno, hnc⟩ := not_marks_of_patterns hopen hclose hdeep
      rw [List.take_succ_cons, opened, closed, commentMarks_cons_take hno hnc]
      exact hbefore

/-- At the end of a comment there are enough closing marks. -/
theorem closed_eq_of_commentTail? {depth : Nat} {cs : List Char} {n : Nat} (h : commentTail? depth cs = some n) :
    closed (cs.take n) = opened (cs.take n) + depth + 1 := by
  fun_induction commentTail? depth cs generalizing n with
  | case1 => simp at h
  | case2 depth cs ih =>
    obtain ⟨k, hk, rfl⟩ := Option.map_eq_some_iff.mp h
    have hend := ih hk
    simp only [List.take_succ_cons, opened_opening, closed_opening]
    omega
  | case3 cs =>
    obtain rfl := Option.some.inj h
    rfl
  | case4 depth cs ih =>
    obtain ⟨k, hk, rfl⟩ := Option.map_eq_some_iff.mp h
    have hend := ih hk
    simp only [List.take_succ_cons, opened_closing, closed_closing]
    omega
  | case5 depth c cs hopen hclose hdeep ih =>
    obtain ⟨k, hk, rfl⟩ := Option.map_eq_some_iff.mp h
    obtain ⟨hno, hnc⟩ := not_marks_of_patterns hopen hclose hdeep
    rw [List.take_succ_cons, opened, closed, commentMarks_cons_take hno hnc]
    exact ih hk

theorem exists_body_of_rawTail? {hashes : Nat} {cs : List Char} {n : Nat} (h : rawTail? hashes cs = some n) :
    ∃ body, cs.take n = body ++ '"' :: List.replicate hashes '#' := by
  induction cs generalizing n with
  | nil => simp [rawTail?] at h
  | cons c cs ih =>
    unfold rawTail? at h
    split at h
    · next hquote =>
      obtain rfl := Option.some.inj h
      obtain ⟨rfl, hhashes⟩ := hquote
      obtain ⟨ds, rfl⟩ := List.isPrefixOf_iff_prefix.mp hhashes
      exact ⟨[], by simp⟩
    · obtain ⟨k, hk, rfl⟩ := Option.map_eq_some_iff.mp h
      obtain ⟨body, hbody⟩ := ih hk
      exact ⟨c :: body, by rw [List.take_succ_cons, hbody, List.cons_append]⟩

/-- A raw string does not go on after a quote with enough hash signs. -/
theorem exists_rawTail?_le {hashes : Nat} {cs body : List Char}
    (h : body ++ '"' :: List.replicate hashes '#' <+: cs) :
    ∃ n ∈ rawTail? hashes cs, n ≤ (body ++ '"' :: List.replicate hashes '#').length := by
  induction cs generalizing body with
  | nil => simp at h
  | cons c cs ih =>
    unfold rawTail?
    by_cases hquote : c = '"' ∧ (List.replicate hashes '#').isPrefixOf cs
    · rw [if_pos hquote]
      exact ⟨hashes + 1, rfl, by simp⟩
    · rw [if_neg hquote]
      cases body with
      | nil =>
        obtain ⟨hc, hhashes⟩ := List.cons_prefix_cons.mp h
        exact absurd ⟨hc.symm, List.isPrefixOf_iff_prefix.mpr hhashes⟩ hquote
      | cons b body =>
        obtain ⟨n, hn, hle⟩ := ih (List.cons_prefix_cons.mp h).2
        rw [Option.mem_def] at hn
        exact ⟨n + 1, by simp [hn], by simpa using hle⟩

namespace Opener

variable {o : Opener} {cs : List Char} {n : Nat}

theorem complete_of_tail? (h : o.tail? cs = some n) : n ≤ cs.length ∧ o.Complete (o.text ++ cs.take n) := by
  cases o with
  | comment =>
    have hend := closed_eq_of_commentTail? h
    exact ⟨(commentTail?_take h).2.1, List.prefix_append _ _, by simpa [text] using hend.symm⟩
  | rawString byte hashes =>
    obtain ⟨body, hbody⟩ := exists_body_of_rawTail? h
    exact ⟨(rawTail?_take h).2.1, body, by rw [hbody]⟩

/-- Where the text has something complete, it is found at the latest. -/
theorem exists_tail?_le {p : List Char} (hp : p <+: o.text ++ cs) (hcomplete : o.Complete p) :
    ∃ n ∈ o.tail? cs, (o.text ++ cs.take n).length ≤ p.length := by
  cases o with
  | comment =>
    obtain ⟨⟨q, rfl⟩, hcounts⟩ := hcomplete
    have hq : q = cs.take q.length := List.prefix_iff_eq_take.mp ((List.prefix_append_right_inj _).mp hp)
    by_contra hnone
    have hlt : ∀ n ∈ commentTail? 0 cs, q.length < n := by
      intro n hn
      by_contra hle
      exact hnone ⟨n, hn, by simp; omega⟩
    have hbefore := closed_lt_of_commentTail? hlt
    rw [← hq] at hbefore
    simp only [text, List.cons_append, List.nil_append, opened_opening, closed_opening] at hcounts
    omega
  | rawString byte hashes =>
    obtain ⟨body, rfl⟩ := hcomplete
    obtain ⟨n, hn, hle⟩ := exists_rawTail?_le ((List.prefix_append_right_inj _).mp hp)
    refine ⟨n, hn, ?_⟩
    rw [List.length_append, List.length_append]
    have := List.length_take_le n cs
    omega

theorem after_comment (cs : List Char) : after '/' ('*' :: cs) =
    match commentTail? 0 cs with
    | some n => (.blockComment, n + 1)
    | none => (.unclosedComment, cs.length + 1) := by
  have hskip : isSkipped '/' = false := by decide
  simp only [after, hskip, afterSlash]
  rfl

theorem rawString?_opener {enough : Nat} (hashes : Nat) (cs : List Char) :
    rawString? enough (List.replicate hashes '#' ++ '"' :: cs) =
      match rawTail? hashes cs with
      | some n => some (.literal, hashes + 1 + n)
      | none => some (.unclosedRawString, hashes + 1 + cs.length) := by
  have hrun : run (· = '#') (List.replicate hashes '#' ++ '"' :: cs) = hashes := by
    rw [run_append_of_head _ (by simp), run, List.takeWhile_eq_self_iff.mpr (by simp [List.mem_replicate])]
    simp
  have hdrop : (List.replicate hashes '#' ++ '"' :: cs).drop (hashes + 1) = cs := by
    simp [List.drop_append]
  have hlength : (List.replicate hashes '#' ++ '"' :: cs).length = hashes + 1 + cs.length := by
    simp
    omega
  have hquote : (List.replicate hashes '#' ++ '"' :: cs)[hashes]? = some '"' := by
    simp
  unfold rawString?
  simp only [hrun, hdrop, hlength]
  exact if_pos hquote

theorem after_rawString {byte : Bool} {hashes : Nat} {cs ds : List Char} {c : Char}
    (h : (rawString byte hashes).text ++ cs = c :: ds) : after c ds =
      match rawTail? hashes cs with
      | some n => (.literal, (rawString byte hashes).text.length - 1 + n)
      | none => (.unclosedRawString, ds.length) := by
  cases byte with
  | false =>
    obtain ⟨rfl, rfl⟩ : c = 'r' ∧ ds = List.replicate hashes '#' ++ '"' :: cs := by
      simpa [text, eq_comm] using h
    rw [after_of_isNameStart (by decide +kernel)]
    simp only [afterLetter, rawString?_opener]
    cases rawTail? hashes cs <;> simp [text]
    omega
  | true =>
    obtain ⟨rfl, rfl⟩ : c = 'b' ∧ ds = 'r' :: (List.replicate hashes '#' ++ '"' :: cs) := by
      simpa [text, eq_comm] using h
    rw [after_of_isNameStart (by decide +kernel)]
    simp only [afterLetter, rawString?_opener]
    cases rawTail? hashes cs <;> simp [text] <;> omega

/-- The lexeme of an opener, and what is read after it. -/
theorem split_append (o : Opener) (cs : List Char) : split (o.text ++ cs) =
    match o.tail? cs with
    | some n => ⟨o.closedClass, o.text ++ cs.take n⟩ :: split (cs.drop n)
    | none => [⟨o.unclosedClass, o.text ++ cs⟩] := by
  cases o with
  | comment =>
    rw [text, List.cons_append, List.singleton_append, split_cons, after_comment, tail?]
    cases commentTail? 0 cs <;> simp [closedClass, unclosedClass, split_nil]
  | rawString byte hashes =>
    obtain ⟨c, front, htext⟩ : ∃ c front, (rawString byte hashes).text = c :: front := by
      cases byte <;> exact ⟨_, _, rfl⟩
    have hfront : (rawString byte hashes).text ++ cs = c :: (front ++ cs) := by rw [htext, List.cons_append]
    have hafter := after_rawString hfront
    rw [htext, List.cons_append, split_cons, hafter, tail?]
    cases rawTail? hashes cs with
    | none =>
      dsimp only
      rw [List.take_length, List.drop_length, split_nil]
      rfl
    | some n =>
      have hlength : (rawString byte hashes).text.length - 1 + n = front.length + n := by simp [htext]
      dsimp only
      rw [hlength, List.take_length_add_append, List.drop_length_add_append]
      rfl

/-- A piece that ends first is one lexeme. -/
theorem Ends.split_eq {piece after : List Char} (h : o.Ends piece after) :
    split (piece ++ after) = ⟨o.closedClass, piece⟩ :: split after := by
  obtain ⟨inner, rfl⟩ : o.text <+: piece := by
    cases o with
    | comment => exact h.complete.1
    | rawString byte hashes =>
      obtain ⟨body, hbody⟩ := h.complete
      exact ⟨_, hbody.symm⟩
  have hfront : o.text ++ inner <+: o.text ++ (inner ++ after) := ⟨after, by rw [List.append_assoc]⟩
  obtain ⟨n, hn, hle⟩ := exists_tail?_le hfront h.complete
  rw [Option.mem_def] at hn
  obtain ⟨hlen, hcomplete⟩ := complete_of_tail? hn
  have hge := h.first _ (by rw [List.append_assoc]; exact (List.prefix_append_right_inj _).mpr (List.take_prefix _ _))
    hcomplete
  obtain rfl : n = inner.length := by
    simp only [List.length_append, List.length_take] at hle hge hlen
    omega
  rw [List.append_assoc, split_append, hn]
  simp

end Opener

end Lexeme

namespace Lexed

open Text Lexeme

/-- What is read of some lexemes, and then of those after them. -/
theorem ofLexemes_append {left offset : Nat} {xs : List Lexeme} (h : (ofLexemes left offset xs).errors.length < left)
    (ys : List Lexeme) : ofLexemes left offset (xs ++ ys) =
      let read := ofLexemes left offset xs
      let tail := ofLexemes (left - read.errors.length) (offset + byteLength (xs.flatMap text)) ys
      ⟨read.tokens ++ tail.tokens, read.errors ++ tail.errors⟩ := by
  fun_induction ofLexemes left offset xs with
  | case1 => simp at h
  | case2 => rfl
  | case3 left offset x xs stop hx ih =>
    have hrest := ih h
    simp only [List.cons_append, ofLexemes, hx]
    simpa [stop, Nat.add_assoc] using hrest
  | case4 left offset x xs stop kind hx rest ih =>
    have hrest := ih h
    simp only [List.cons_append, ofLexemes, hx]
    rw [hrest]
    simp [stop, rest, Nat.add_assoc]
  | case5 left offset x xs stop cause hx rest ih =>
    have hrest := ih (by simpa using h)
    simp only [List.cons_append, ofLexemes, hx]
    rw [hrest]
    simp [stop, rest, Nat.add_assoc]

/-- A lexeme begins between these two parts of a source, and this much is read before it. There is room for an
error more. -/
structure Reaches (source : String) (before rest : List Char) (read : Lexed) : Prop where
  exists_lexemes : ∃ xs, split source.toList = xs ++ split rest ∧ xs.flatMap text = before ∧
    ofLexemes maxErrors 0 xs = read
  errors_lt : read.errors.length < maxErrors

theorem Reaches.source_eq {source : String} {before rest : List Char} {read : Lexed}
    (h : Reaches source before rest read) : source.toList = before ++ rest := by
  obtain ⟨⟨xs, hsplit, rfl, -⟩, -⟩ := h
  rw [← flatMap_text_split source.toList, hsplit, List.flatMap_append, flatMap_text_split]

/-- What is read from a place on comes after what is read before it. -/
theorem Reaches.ofString_eq {source : String} {before rest : List Char} {read : Lexed}
    (h : Reaches source before rest read) : ofString source =
      let tail := ofLexemes (maxErrors - read.errors.length) (byteLength before) (split rest)
      let size := byteLength source.toList
      ⟨read.tokens ++ (tail.tokens ++ [⟨.eof, ⟨size, size⟩⟩]), read.errors ++ tail.errors⟩ := by
  obtain ⟨⟨xs, hsplit, rfl, rfl⟩, herrors⟩ := h
  rw [ofString, hsplit, ofLexemes_append herrors]
  simp

end Lexed

namespace Lexeme.Opener

/-- The token of a complete piece. A comment without documentation has none. -/
def kind? : Opener → List Char → Option Token.Kind
  | comment, piece => DocText.ofBlockComment? piece
  | rawString _ _, _ => some .literal

def unclosedCause : Opener → LexError.Cause
  | comment => .unclosedComment
  | rawString _ _ => .unclosedRawString

def unclosedMessage : Opener → String
  | comment => "Unterminated block comment"
  | rawString _ _ => "Unterminated raw string"

end Lexeme.Opener

namespace Lexed

open Text Lexeme

theorem ofLexemes_closed (o : Opener) (left start : Nat) (piece : List Char) (xs : List Lexeme) :
    ofLexemes (left + 1) start (⟨o.closedClass, piece⟩ :: xs) =
      let stop := start + byteLength piece
      let rest := ofLexemes (left + 1) stop xs
      { rest with tokens := (o.kind? piece).toList.map (fun kind => ⟨kind, ⟨start, stop⟩⟩) ++ rest.tokens } := by
  have hmeaning : meaning ⟨o.closedClass, piece⟩ = (o.kind? piece).map .ok := by
    cases o <;> rfl
  rw [ofLexemes, hmeaning]
  cases o.kind? piece <;> rfl

theorem ofLexemes_unclosed (o : Opener) (left start : Nat) (piece : List Char) :
    ofLexemes (left + 1) start [⟨o.unclosedClass, piece⟩] =
      ⟨[], [⟨o.unclosedCause, ⟨start, start + byteLength piece⟩⟩]⟩ := by
  have hnil : ofLexemes left (start + byteLength piece) [] = ⟨[], []⟩ := by
    cases left <;> rfl
  cases o <;> simp [ofLexemes, meaning, Opener.unclosedClass, Opener.unclosedCause, hnil]

/-- **Comments and raw strings end at their first end.** From an opener on, the first piece of the source that is
complete is one lexeme, and the reading goes on right after it. If nothing is complete, the rest of the source is
one error. -/
theorem ofString_of_opener {source : String} {before rest : List Char} {read : Lexed}
    (h : Reaches source before rest read) (o : Opener) (ho : o.text <+: rest) :
    let start := byteLength before
    let size := byteLength source.toList
    (∀ piece after, rest = piece ++ after → o.Ends piece after →
      let stop := start + byteLength piece
      let own := (o.kind? piece).toList.map fun kind => (⟨kind, ⟨start, stop⟩⟩ : Token)
      let tail := ofLexemes (maxErrors - read.errors.length) stop (split after)
      ofString source =
        ⟨read.tokens ++ (own ++ (tail.tokens ++ [⟨.eof, ⟨size, size⟩⟩])), read.errors ++ tail.errors⟩) ∧
    ((∀ p, p <+: rest → ¬o.Complete p) →
      let error : LexError := ⟨o.unclosedCause, ⟨start, size⟩⟩
      error.message = o.unclosedMessage ∧
        ofString source = ⟨read.tokens ++ [⟨.eof, ⟨size, size⟩⟩], read.errors ++ [error]⟩) := by
  intro start size
  have hread := h.ofString_eq
  have hleft : maxErrors - read.errors.length = maxErrors - read.errors.length - 1 + 1 := by
    have := h.errors_lt
    omega
  constructor
  · rintro piece after rfl hends stop own tail
    have hpiece := ofLexemes_closed o (maxErrors - read.errors.length - 1) start piece (split after)
    rw [← hleft] at hpiece
    rw [hends.split_eq] at hread
    dsimp only at hread
    rw [hread, hpiece]
    simp only [own, tail, stop, size, List.append_assoc]
  · intro hnone error
    obtain ⟨cs, rfl⟩ := ho
    have htail : o.tail? cs = none := by
      by_contra hsome
      obtain ⟨n, hn⟩ := Option.ne_none_iff_exists'.mp hsome
      exact hnone _ ((List.prefix_append_right_inj _).mpr (List.take_prefix n cs)) (Opener.complete_of_tail? hn).2
    have hsize : start + byteLength (o.text ++ cs) = size := by
      rw [← byteLength_append, ← h.source_eq]
    have herror := ofLexemes_unclosed o (maxErrors - read.errors.length - 1) start (o.text ++ cs)
    rw [← hleft, hsize] at herror
    rw [Opener.split_append, htail] at hread
    dsimp only at hread
    rw [herror] at hread
    exact ⟨by cases o <;> rfl, hread⟩

/-- A comment in which marks share characters, and a raw string whose quotes lack a hash sign. -/
theorem ofString_of_opener_overlap :
    let source := "ü/*/ é /**/ **/r#\"é\"ü"
    let read : Lexed := ⟨[⟨.name "ü", ⟨0, 2⟩⟩], []⟩
    let comment := "/*/ é /**/ **/".toList
    let string := "r#\"é\"ü".toList
    Reaches source ['ü'] (comment ++ string) read ∧ Opener.comment.Ends comment string ∧
      Reaches source ('ü' :: comment) string read ∧ (∀ p, p <+: string → ¬(Opener.rawString false 1).Complete p) ∧
      ofString source = ⟨read.tokens ++ ((ofLexemes 20 17 (split string)).tokens ++ [⟨.eof, ⟨25, 25⟩⟩]),
        (ofLexemes 20 17 (split string)).errors⟩ ∧
      ofString source = ⟨read.tokens ++ [⟨.eof, ⟨25, 25⟩⟩], [⟨.unclosedRawString, ⟨17, 25⟩⟩]⟩ := by
  intro source read comment string
  have hcomment : Reaches source ['ü'] (comment ++ string) read :=
    ⟨⟨[⟨.word, ['ü']⟩], by decide +kernel, rfl, by decide +kernel⟩, by decide⟩
  have hstring : Reaches source ('ü' :: comment) string read :=
    ⟨⟨[⟨.word, ['ü']⟩, ⟨.blockComment, comment⟩], by decide +kernel, rfl, by decide +kernel⟩, by decide⟩
  have hends : Opener.comment.Ends comment string := by
    refine ⟨⟨⟨_, rfl⟩, by decide⟩, fun p hp hcomplete => ?_⟩
    obtain ⟨n, hn, hle⟩ := Opener.exists_tail?_le (o := .comment) hp hcomplete
    obtain rfl : 12 = n := Option.some.inj hn
    exact hle
  have hnone : ∀ p, p <+: string → ¬(Opener.rawString false 1).Complete p := by
    intro p hp hcomplete
    have hfront : p <+: (Opener.rawString false 1).text ++ "é\"ü".toList := hp
    obtain ⟨n, hn, -⟩ := Opener.exists_tail?_le hfront hcomplete
    exact absurd hn (by simp [Opener.tail?, rawTail?])
  have hread := (ofString_of_opener hcomment .comment ⟨_, rfl⟩).1 comment string rfl hends
  have herror := (ofString_of_opener hstring (.rawString false 1) ⟨_, rfl⟩).2 hnone
  have hplain : Opener.comment.kind? comment = none := by decide +kernel
  have hstop : byteLength ['ü'] + byteLength comment = 17 := by decide
  have hstart : byteLength ('ü' :: comment) = 17 := by decide
  have hsize : byteLength source.toList = 25 := by decide
  simp only [hplain, hstop, hsize] at hread
  simp only [hstart, hsize] at herror
  exact ⟨hcomment, hends, hstring, hnone, hread, herror.2⟩

end Lexed

end Doctest
