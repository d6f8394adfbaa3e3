import Doctest.Outline.Reading
import Doctest.Proofs.Outline.Holes

/-! The text of a file with the texts of others in braces where it declares modules in other files. It is
split into the lexemes of the file and of the others, and so its tokens are those of the file, filled. -/
namespace Doctest

open Text Lexeme

namespace Outline

/-- The first semicolon at or after an offset. -/
def semicolon (tokens : List Token) (offset : Nat) : Span :=
  ((tokens.find? fun t => t.kind = .symbol .semi ∧ offset ≤ t.span.start).map (·.span)).getD
    ⟨offset, offset⟩

/-- The source from an offset on, with a text in place of each span. -/
def replace (source : String) (offset : Nat) : List (Span × String) → String
  | [] => ((Span.mk offset (byteLength source.toList)).text? source).getD ""
  | (span, text) :: rest =>
    ((Span.mk offset span.start).text? source).getD "" ++ text ++ replace source span.stop rest

def inBraces (text : String) : String :=
  "\x7b\n" ++ text ++ "\n\x7d"

theorem replace_nil {source : String} {before cs : List Char} (h : source.toList = before ++ cs) :
    (replace source (byteLength before) []).toList = cs := by
  have htext := Span.text?_append before cs []
  rw [List.append_nil, ← h, String.ofList_toList] at htext
  rw [replace, h, byteLength_append, htext, Option.getD_some, String.toList_ofList]

theorem replace_cons {source : String} {before bs cs : List Char}
    (h : source.toList = before ++ (bs ++ cs)) (stop : Nat) (text : String)
    (rest : List (Span × String)) :
    (replace source (byteLength before)
      ((⟨byteLength before + byteLength bs, stop⟩, text) :: rest)).toList =
      bs ++ (text.toList ++ (replace source stop rest).toList) := by
  have htext := Span.text?_append before bs cs
  rw [← h, String.ofList_toList] at htext
  rw [replace, htext, Option.getD_some, String.toList_append, String.toList_append,
    String.toList_ofList, List.append_assoc]

/-- What may stand behind a text: nothing, or a newline and the brace that ends a block. -/
def Ends (back : List Char) : Prop :=
  back = [] ∨ ∃ cs, back = '\n' :: '}' :: cs

/-- A text that is read into these marks, be it the end of a source or in braces. -/
def Embeds (text : List Char) (marks : List Mark) : Prop :=
  ∀ (source : String) (front back : List Char), source.toList = front ++ (text ++ back) → Ends back →
    ∃ xs us, split (text ++ back) = xs ++ split (back.drop 1) ∧
      Lexed.Spells (byteLength front) xs us ∧ ReadAs source 0 us marks

namespace Holed

def semis : Holed → List Span
  | last _ => []
  | hole _ _ semi rest => semi :: rest.semis

theorem semicolon_eq {front after : List Token} {word : Token} {semi : Span}
    (hsorted : (front ++ word :: ⟨.symbol .semi, semi⟩ :: after).Pairwise (·.span.stop ≤ ·.span.start))
    (hspan : ∀ t ∈ front ++ [word], t.span.start < t.span.stop) :
    semicolon (front ++ word :: ⟨.symbol .semi, semi⟩ :: after) word.span.stop = semi := by
  obtain ⟨-, hrest, hfront⟩ := List.pairwise_append.mp hsorted
  have hsemi : word.span.stop ≤ semi.start :=
    List.rel_of_pairwise_cons hrest List.mem_cons_self
  have hword := hspan word (by simp)
  have hnone : front.find? (fun t => t.kind = .symbol .semi ∧ word.span.stop ≤ t.span.start) = none := by
    refine List.find?_eq_none.mpr fun t ht => ?_
    have := hspan t (List.mem_append_left _ ht)
    have := hfront t ht word List.mem_cons_self
    simp only [decide_eq_true_eq, not_and]
    omega
  rw [semicolon, List.find?_append, hnone, Option.none_or, List.find?_cons_of_neg (by simp; omega),
    List.find?_cons_of_pos (by simpa using hsemi)]
  rfl

/-- The semicolons are found from the names before them. -/
theorem semis_eq (f : Holed) {pre post : List Token}
    (hsorted : (pre ++ (f.tokens ++ post)).Pairwise (·.span.stop ≤ ·.span.start))
    (hspan : ∀ t ∈ pre ++ f.tokens, t.span.start < t.span.stop) :
    f.names.map (fun name => semicolon (pre ++ (f.tokens ++ post)) name.stop) = f.semis := by
  induction f generalizing pre with
  | last ts => rfl
  | hole before word semi rest ih =>
    have hshape : pre ++ ((hole before word semi rest).tokens ++ post) =
        (pre ++ before) ++ word :: ⟨.symbol .semi, semi⟩ :: (rest.tokens ++ post) := by simp [tokens]
    have hshape' : pre ++ ((hole before word semi rest).tokens ++ post) =
        (pre ++ (before ++ [word, ⟨.symbol .semi, semi⟩])) ++ (rest.tokens ++ post) := by simp [tokens]
    have hfirst := semicolon_eq (hshape ▸ hsorted) fun t ht => hspan t (by
      simp only [tokens, List.mem_append, List.mem_cons] at ht ⊢
      tauto)
    have hrest := ih (hshape' ▸ hsorted) fun t ht => hspan t (by
      simp only [tokens, List.mem_append, List.mem_cons] at ht ⊢
      tauto)
    rw [← hshape] at hfirst
    rw [← hshape'] at hrest
    exact congrArg₂ List.cons hfirst hrest

variable {source other : String} {before cs front back : List Char}

/-- The tokens at the end of a file stand as they are. -/
theorem exists_copies_of_end {ts : List Token} (hsource : source.toList = before ++ cs)
    (hts : Lexed.Spells (byteLength before) (split cs) ts)
    (hlast : ∀ t ∈ ts.getLast?, ∀ c, t.kind ≠ .punct c) (hother : other.toList = front ++ (cs ++ back))
    (hback : Ends back) : ∃ xs us, split (cs ++ back) = xs ++ split (back.drop 1) ∧
      Lexed.Spells (byteLength front) xs us ∧ Copies source other ts us := by
  rcases hback with rfl | ⟨ds, rfl⟩
  · obtain ⟨us, hus⟩ := hts.exists_at (byteLength front)
    have hsource : source.toList = before ++ ((split cs).flatMap text ++ []) := by
      rw [flatMap_text_split, List.append_nil, hsource]
    have hother : other.toList = front ++ ((split cs).flatMap text ++ []) := by
      rw [flatMap_text_split, hother]
    exact ⟨split cs, us, by simp [split_nil], hus, .of_spells hsource hother hts hus⟩
  · obtain ⟨xs, blanks, hblank, hsplit, hstop⟩ :=
      exists_split_append_stop (fun x hx => hts.notMem_unfinished hx) (hts.cls_getLast hlast) ds
    have hcs : cs = xs.flatMap text ++ blanks := by
      have htext := flatMap_text_split cs
      rw [hsplit, List.flatMap_append, flatMap_text_split] at htext
      exact htext.symm
    rw [hsplit] at hts
    obtain ⟨ts, none, rfl, hxs, hnone⟩ := hts.exists_of_lexemes_append
    obtain rfl := hnone.eq_nil_of_skipped hblank
    obtain ⟨us, hus⟩ := hxs.exists_at (byteLength front)
    have hspells : Lexed.Spells (byteLength front) (xs ++ [⟨.blank, blanks ++ ['\n']⟩]) (us ++ []) :=
      hus.append (.gap rfl .nil)
    rw [List.append_nil] at hspells ⊢
    rw [hcs, List.append_assoc] at hother
    exact ⟨_, us, by simp [hstop], hspells, .of_spells (hcs ▸ hsource) hother hxs hus⟩

/-- A text in braces is read between them. -/
theorem exists_body {text : List Char} {marks : List Mark} (h : Embeds text marks) {more : List Char}
    (hother : other.toList = front ++ '{' :: '\n' :: (text ++ '\n' :: '}' :: more)) : ∃ xs us,
      split ('\n' :: (text ++ '\n' :: '}' :: more)) = xs ++ split ('}' :: more) ∧
        Lexed.Spells (byteLength front + 1) xs us ∧ ReadAs other 0 us marks := by
  have hother : other.toList = (front ++ ['{', '\n']) ++ (text ++ '\n' :: '}' :: more) := by
    simp [hother]
  obtain ⟨xs, us, hsplit, hus, hread⟩ := h other _ _ hother (.inr ⟨more, rfl⟩)
  have hlen : byteLength (front ++ ['{', '\n']) = byteLength front + 1 + 1 := byteLength_append _ _
  rw [hlen] at hus
  obtain ⟨ys, hys, hus⟩ := hus.exists_newline hsplit
  exact ⟨ys, us, hys, hus, hread⟩

/-- **A text is read with the bodies that stand in it.** -/
theorem exists_filled {source other : String} (f : Holed) {before cs front back : List Char}
    (hsource : source.toList = before ++ cs)
    (hts : Lexed.Spells (byteLength before) (split cs) f.tokens)
    (hlast : ∀ t ∈ f.tokens.getLast?, ∀ c, t.kind ≠ .punct c) {texts : List String}
    {kids : List (List Mark)} (hlen : texts.length = f.semis.length)
    (hkids : List.Forall₂ (fun text marks => Embeds text.toList marks) texts kids)
    {filled : List Char}
    (hfilled : (replace source (byteLength before) (f.semis.zip (texts.map inBraces))).toList = filled)
    (hother : other.toList = front ++ (filled ++ back)) (hback : Ends back) : ∃ xs us bodies,
      split (filled ++ back) = xs ++ split (back.drop 1) ∧ Lexed.Spells (byteLength front) xs us ∧
        f.Filled source other bodies us ∧ List.Forall₂ (ReadAs other 0) bodies kids := by
  induction f generalizing before cs front texts kids filled with
  | last ts =>
    obtain rfl : texts = [] := List.eq_nil_of_length_eq_zero hlen
    cases hkids
    obtain rfl : cs = filled := (replace_nil hsource).symm.trans hfilled
    obtain ⟨xs, us, hsplit, hus, hcopies⟩ := exists_copies_of_end hsource hts hlast hother hback
    exact ⟨xs, us, [], hsplit, hus, .last hcopies, .nil⟩
  | hole pre word semi rest ih =>
    obtain ⟨text, texts, rfl⟩ : ∃ text more, texts = text :: more := by
      cases texts with
      | nil => simp [semis] at hlen
      | cons text texts => exact ⟨text, texts, rfl⟩
    cases hkids with
    | @cons _ kid _ kids hkid hkids =>
      have htokens : (Holed.hole pre word semi rest).tokens =
          (pre ++ [word]) ++ ⟨.symbol .semi, semi⟩ :: rest.tokens := by simp [tokens]
      rw [htokens] at hts hlast
      obtain ⟨xs, ds, rfl, hsplit, hxs, rfl, hrest⟩ := hts.exists_of_semi
      -- The rest of the file begins behind the semicolon.
      have hsource' : source.toList = (before ++ (xs.flatMap Lexeme.text ++ [';'])) ++ ds := by
        simp [hsource]
      have hlen' : byteLength (before ++ (xs.flatMap Lexeme.text ++ [';'])) =
          byteLength before + byteLength (xs.flatMap Lexeme.text) + 1 := by
        rw [byteLength_append, byteLength_append, Nat.add_assoc]
        rfl
      obtain ⟨more, hmore⟩ : ∃ more, (replace source (byteLength before +
          byteLength (xs.flatMap Lexeme.text) + 1) (rest.semis.zip (texts.map inBraces))).toList = more :=
        ⟨_, rfl⟩
      have hshape : filled ++ back = xs.flatMap Lexeme.text ++
          '{' :: '\n' :: (text.toList ++ '\n' :: '}' :: (more ++ back)) := by
        have hcons := replace_cons hsource (byteLength before + byteLength (xs.flatMap Lexeme.text) + 1)
          (inBraces text) (rest.semis.zip (texts.map inBraces))
        rw [← hfilled, semis, List.map_cons, List.zip_cons_cons, hcons, hmore]
        simp [inBraces]
      rw [hshape, ← List.append_assoc] at hother
      obtain ⟨ys, body, hys, hbody, hread⟩ := exists_body hkid hother
      rw [← hlen'] at hrest hmore
      have hlast' : ∀ t ∈ rest.tokens.getLast?, ∀ c, t.kind ≠ .punct c := fun t ht =>
        hlast t (mem_getLast?_of_suffix ((List.suffix_cons _ _).trans (List.suffix_append _ _)) ht)
      have hother' : other.toList = (front ++ (xs.flatMap Lexeme.text ++ '{' :: '\n' ::
          (text.toList ++ ['\n', '}']))) ++ (more ++ back) := by simp [hother]
      obtain ⟨zs, vs, bodies, hzs, hvs, hfill, hbodies⟩ :=
        ih hsource' hrest hlast' (Nat.succ.inj hlen) hkids hmore hother'
      obtain ⟨us, hus⟩ := hxs.exists_at (byteLength front)
      have htext : ys.flatMap Lexeme.text = '\n' :: (text.toList ++ ['\n']) := by
        have hflat := flatMap_text_split ('\n' :: (text.toList ++ '\n' :: '}' :: (more ++ back)))
        rw [hys, List.flatMap_append, flatMap_text_split] at hflat
        refine List.append_cancel_right (hflat.trans ?_)
        simp
      rw [byteLength_append] at hbody
      have hplace : byteLength (front ++ (xs.flatMap Lexeme.text ++ '{' :: '\n' ::
          (text.toList ++ ['\n', '}']))) = byteLength front + byteLength (xs.flatMap Lexeme.text) + 1 +
            byteLength (ys.flatMap Lexeme.text) + 1 := by
        have hone : '{'.utf8Size = 1 ∧ '}'.utf8Size = 1 := by decide
        simp only [htext, byteLength_append, byteLength_cons, byteLength_nil, hone]
        omega
      rw [hplace] at hvs
      obtain ⟨opening, closing, hopening, hclosing, hspells⟩ := hus.exists_braces hbody hvs
      rw [List.append_assoc] at hother
      have hcopies : Copies source other (pre ++ [word]) us := .of_spells hsource hother hxs hus
      refine ⟨_, _, body :: bodies, ?_, hspells, .hole hcopies hopening hclosing hfill, .cons hread hbodies⟩
      rw [hshape, split_append_semi hsplit (fun x hx => hxs.notMem_unfinished hx), hys, split_closing, hzs]
      simp

end Holed

end Outline

end Doctest
