import Doctest.Proofs.Outline.Events

/-! The comments that the documentation of an element is made of. The reading of a file is followed with
the comments that each mark came from, and an element has the documentation that its comments make. -/
namespace Doctest.Outline

namespace Event

/-- Of the marks of an item, the one that begins it is made of the comments before the item. -/
def credit (docs : Comments) : Mark → Mark × Comments
  | .enter kind name run => (.enter kind name run, docs)
  | m => (m, [])

/-- The marks of the events, each with the comments that it is made of, where `docs` are the comments
before the item that comes next. -/
def credited (lines : LineMap) (docs : Comments) : List Event → List (Mark × Comments)
  | [] => []
  | comment text span :: es => credited lines (docs ++ [(text, span)]) es
  | inner cs :: es => (docRun lines none cs).toList.map (.doc ·, cs) ++ credited lines docs es
  | attr :: es => credited lines docs es
  | item header :: es =>
    (Mark.ofHeader (docRun lines none docs) header).map (credit docs) ++ credited lines [] es
  | close :: es => (.leave, []) :: credited lines [] es
  | unmatched span :: es => (.fault ⟨.unmatchedBrace, span⟩, []) :: credited lines docs es
  | unclosed span :: es =>
    (.fault ⟨.unclosedBody, span⟩, []) :: (.leave, []) :: credited lines [] es

/-- The doc comments among the tokens of an event. -/
def comments : Event → Comments
  | comment text span => [(text, span)]
  | inner cs => cs
  | _ => []

theorem map_fst_credit (docs : Comments) (ms : List Mark) : (ms.map (credit docs)).map (·.1) = ms := by
  rw [List.map_map]
  exact List.map_id'' (fun m => by cases m <;> rfl) ms

/-- Without the comments the marks are those of the reading. -/
theorem map_fst_credited (lines : LineMap) (docs : Comments) (es : List Event) :
    (credited lines docs es).map (·.1) = marks lines (docRun lines none docs) es := by
  induction es generalizing docs with
  | nil => rfl
  | cons e es ih =>
    cases e with
    | comment text span =>
      rw [credited, marks, ih]
      exact congrArg (marks lines · es) List.foldl_append
    | inner cs =>
      rw [credited, marks, List.map_append, List.map_map, ih]
      rfl
    | attr => exact ih docs
    | item header =>
      rw [credited, marks, List.map_append, map_fst_credit, ih]
      rfl
    | close => exact congrArg _ (ih [])
    | unmatched span => exact congrArg _ (ih docs)
    | unclosed span => exact congrArg (fun ms => _ :: _ :: ms) (ih [])

/-- Where the comments of a mark come from: from the events, or they wait for the next item. Those on an
enclosing element stand there together. -/
def Credited (lines : LineMap) (docs : Comments) (es : List Event) (m : Mark) (cs : Comments) : Prop :=
  cs.Sublist (docs ++ es.flatMap comments) ∧
    match m with
    | .enter _ _ run => run = docRun lines none cs
    | .doc _ => inner cs ∈ es
    | _ => cs = []

theorem Credited.cons {lines : LineMap} {docs : Comments} {e : Event} {es : List Event} {m : Mark}
    {cs : Comments} (h : Credited lines docs es m cs) : Credited lines docs (e :: es) m cs := by
  obtain ⟨hsub, hm⟩ := h
  refine ⟨hsub.trans ((List.Sublist.refl docs).append ?_), ?_⟩
  · rw [List.flatMap_cons]
    exact List.sublist_append_right _ _
  · cases m with
    | doc run => exact List.mem_cons_of_mem _ hm
    | _ => exact hm

theorem Credited.weaken {lines : LineMap} {docs : Comments} {es : List Event} {m : Mark}
    {cs : Comments} (h : Credited lines [] es m cs) : Credited lines docs es m cs :=
  ⟨h.1.trans (List.sublist_append_right _ _), h.2⟩

theorem credited_header {lines : LineMap} {docs : Comments} {header : Header} {m : Mark} {cs : Comments}
    (h : (m, cs) ∈ (Mark.ofHeader (docRun lines none docs) header).map (credit docs))
    (es : List Event) : Credited lines docs es m cs := by
  obtain ⟨m', hm, heq⟩ := List.mem_map.mp h
  cases m' with
  | enter kind name run =>
    obtain ⟨rfl, rfl⟩ := Prod.mk.inj heq
    refine ⟨List.sublist_append_left _ _, ?_⟩
    cases header <;> simp_all [Mark.ofHeader]
  | doc run => cases header <;> simp [Mark.ofHeader] at hm
  | _ =>
    obtain ⟨rfl, rfl⟩ := Prod.mk.inj heq
    exact ⟨List.nil_sublist _, rfl⟩

theorem of_mem_credited {lines : LineMap} {docs : Comments} {es : List Event} {m : Mark}
    {cs : Comments} (h : (m, cs) ∈ credited lines docs es) : Credited lines docs es m cs := by
  induction es generalizing docs with
  | nil => simp [credited] at h
  | cons e es ih =>
    cases e with
    | comment text span =>
      obtain ⟨hsub, hm⟩ := (ih h).cons (e := comment text span)
      have hdocs : docs ++ (comment text span :: es).flatMap comments =
          (docs ++ [(text, span)]) ++ es.flatMap comments := by
        simp [comments]
      exact ⟨hdocs ▸ (ih h).1, hm⟩
    | inner ds =>
      rcases List.mem_append.mp h with h | h
      · obtain ⟨run, -, heq⟩ := List.mem_map.mp h
        obtain ⟨rfl, rfl⟩ := Prod.mk.inj heq
        refine ⟨?_, List.mem_cons_self⟩
        rw [List.flatMap_cons, ← List.append_assoc]
        exact (List.sublist_append_right docs ds).trans (List.sublist_append_left _ _)
      · exact (ih h).cons
    | attr => exact (ih h).cons
    | item header =>
      rcases List.mem_append.mp h with h | h
      · exact credited_header h _
      · exact (ih h).weaken.cons
    | close =>
      rcases List.mem_cons.mp h with heq | h
      · obtain ⟨rfl, rfl⟩ := Prod.mk.inj heq
        exact ⟨List.nil_sublist _, rfl⟩
      · exact (ih h).weaken.cons
    | unmatched span =>
      rcases List.mem_cons.mp h with heq | h
      · obtain ⟨rfl, rfl⟩ := Prod.mk.inj heq
        exact ⟨List.nil_sublist _, rfl⟩
      · exact (ih h).cons
    | unclosed span =>
      rcases List.mem_cons.mp h with heq | h
      · obtain ⟨rfl, rfl⟩ := Prod.mk.inj heq
        exact ⟨List.nil_sublist _, rfl⟩
      · rcases List.mem_cons.mp h with heq | h
        · obtain ⟨rfl, rfl⟩ := Prod.mk.inj heq
          exact ⟨List.nil_sublist _, rfl⟩
        · exact (ih h).weaken.cons

theorem eq_unclosed_of_mem_end {source : String} {depth faults : Nat} {e : Event} {ts : List Token}
    (hend : ts = [] ∨ kindOf ts = .eof) (h : e ∈ ofTokens source depth faults ts) :
    ∃ span, e = unclosed span := by
  cases ts with
  | nil =>
    rw [ofTokens.eq_def] at h
    exact ⟨_, List.eq_of_mem_replicate h⟩
  | cons t ts =>
    rw [ofTokens_eof source depth faults ts (by simpa using hend)] at h
    exact ⟨_, List.eq_of_mem_replicate h⟩

/-- What follows a header are the events of tokens after it, with at most the end of a block before. -/
theorem exists_following (source : String) (depth faults : Nat) (rest : List Token)
    (header : Header) : ∃ es us depth' faults', us <:+ rest ∧ (es = [] ∨ es = [close]) ∧
      (following source depth faults rest header = es ++ ofTokens source depth' faults' us ∨
        following source depth faults rest header = []) := by
  have same := List.suffix_refl rest
  have hfault : ∃ es us depth' faults', us <:+ rest ∧ (es = [] ∨ es = [close]) ∧
      (following source depth faults rest (.fault ⟨.unclosedBody, ⟨0, 0⟩⟩) =
          es ++ ofTokens source depth' faults' us ∨
        following source depth faults rest (.fault ⟨.unclosedBody, ⟨0, 0⟩⟩) = []) := by
    unfold following
    dsimp only
    split
    · exact ⟨[], _, _, _, skipItem_suffix 0 rest, .inl rfl, .inl rfl⟩
    · cases depth with
      | zero => exact ⟨[], rest, 0, 0, same, .inl rfl, .inr rfl⟩
      | succ depth => exact ⟨[close], rest, _, _, same, .inr rfl, .inl rfl⟩
  cases header with
  | fault f => exact hfault
  | bareModule name f => exact hfault
  | _ => exact ⟨[], rest, _, _, same, .inl rfl, .inl rfl⟩

/-- The comments of the events are doc comments of the tokens, in their order. -/
theorem comments_sublist (source : String) (depth faults : Nat) (ts : List Token) :
    ((ofTokens source depth faults ts).flatMap comments).Sublist (ts.filterMap (·.comment?)) := by
  have later {t : Token} {us ts : List Token} {cs : Comments} (h : us <:+ t :: ts)
      (hcs : cs.Sublist (us.filterMap (·.comment?))) : cs.Sublist ((t :: ts).filterMap (·.comment?)) :=
    hcs.trans (h.sublist.filterMap _)
  have hend {ts : List Token} (h : ts = [] ∨ kindOf ts = .eof) (depth faults : Nat) :
      (ofTokens source depth faults ts).flatMap comments = [] := by
    refine List.flatMap_eq_nil_iff.mpr fun e he => ?_
    obtain ⟨span, rfl⟩ := eq_unclosed_of_mem_end h he
    rfl
  induction ts using tokens_induction source generalizing depth faults with
  | nil =>
    rw [hend (.inl rfl)]
    exact List.nil_sublist _
  | eof t ts ht =>
    rw [hend (.inr (by rwa [kindOf_cons]))]
    exact List.nil_sublist _
  | closing t ts ht ih =>
    cases depth with
    | zero =>
      rw [ofTokens_unmatched source faults ts ht, List.flatMap_cons]
      split
      · exact later (List.suffix_cons _ _) (ih 0 (faults + 1))
      · exact List.nil_sublist _
    | succ depth =>
      rw [ofTokens_closing source depth faults ts ht]
      exact later (List.suffix_cons _ _) (ih depth faults)
  | comment t ts text ht ih =>
    have hcomment : t.comment? = some (text, t.span) := by simp [Token.comment?, ht]
    rw [ofTokens_comment source depth faults ts ht, List.filterMap_cons_some hcomment]
    exact (ih depth faults).cons_cons _
  | inner t ts text ht ih =>
    have hcomment : t.comment? = some (text, t.span) := by simp [Token.comment?, ht]
    have hts := List.takeWhile_append_dropWhile (p := isInner) (l := ts)
    rw [ofTokens_inner source depth faults ts ht, List.filterMap_cons_some hcomment, ← hts,
      List.filterMap_append, hts]
    exact ((List.Sublist.refl _).append (ih depth faults)).cons_cons _
  | attr t ts ht ih =>
    rw [ofTokens_attr source depth faults ts ht]
    exact later ((skipAttribute_suffix ts).trans (List.suffix_cons _ _)) (ih depth faults)
  | item t ts ht ih =>
    rw [ofTokens_item source depth faults ts ht, List.flatMap_cons]
    obtain ⟨es, us, depth', faults', hus, hes, heq⟩ :=
      exists_following source depth faults (Header.read source (t :: ts)).2
        (Header.read source (t :: ts)).1
    rcases heq with heq | heq
    · have hclose : es.flatMap comments = [] := by rcases hes with rfl | rfl <;> rfl
      rw [heq, List.flatMap_append, hclose]
      exact later (hus.trans (Header.read_suffix source _)) (ih us hus depth' faults')
    · rw [heq]
      exact List.nil_sublist _

/-- Whether the event is a piece of a block. Others end blocks, or are braces that close none. -/
def isPiece : Event → Bool
  | close | unmatched _ | unclosed _ => false
  | _ => true

/-- Every piece is read from some of the tokens. -/
theorem exists_next_of_mem {source : String} {depth faults : Nat} {ts : List Token} {e : Event}
    (h : e ∈ ofTokens source depth faults ts) (he : e.isPiece) :
    ∃ t us, t :: us <:+ ts ∧ (next source t us).1 = e := by
  have later {us ts : List Token} (hus : us <:+ ts) (h : ∃ t vs, t :: vs <:+ us ∧ (next source t vs).1 = e) :
      ∃ t vs, t :: vs <:+ ts ∧ (next source t vs).1 = e := by
    obtain ⟨t, vs, hvs, hnext⟩ := h
    exact ⟨t, vs, hvs.trans hus, hnext⟩
  induction ts using tokens_induction source generalizing depth faults with
  | nil =>
    obtain ⟨span, rfl⟩ := eq_unclosed_of_mem_end (.inl rfl) h
    cases he
  | eof t ts ht =>
    obtain ⟨span, rfl⟩ := eq_unclosed_of_mem_end (.inr (by rwa [kindOf_cons])) h
    cases he
  | closing t ts ht ih =>
    cases depth with
    | zero =>
      rw [ofTokens_unmatched source faults ts ht] at h
      rcases List.mem_cons.mp h with rfl | h
      · cases he
      · split at h
        · exact later (List.suffix_cons _ _) (ih h)
        · simp at h
    | succ depth =>
      rw [ofTokens_closing source depth faults ts ht] at h
      rcases List.mem_cons.mp h with rfl | h
      · cases he
      · exact later (List.suffix_cons _ _) (ih h)
  | comment t ts text ht ih =>
    rw [ofTokens_comment source depth faults ts ht] at h
    rcases List.mem_cons.mp h with rfl | h
    · exact ⟨t, ts, List.suffix_refl _, congrArg Prod.fst (next_comment source ts ht)⟩
    · exact later (List.suffix_cons _ _) (ih h)
  | inner t ts text ht ih =>
    rw [ofTokens_inner source depth faults ts ht] at h
    rcases List.mem_cons.mp h with rfl | h
    · exact ⟨t, ts, List.suffix_refl _, congrArg Prod.fst (next_inner source ts ht)⟩
    · exact later ((List.dropWhile_suffix _).trans (List.suffix_cons _ _)) (ih h)
  | attr t ts ht ih =>
    rw [ofTokens_attr source depth faults ts ht] at h
    rcases List.mem_cons.mp h with rfl | h
    · exact ⟨t, ts, List.suffix_refl _, congrArg Prod.fst (next_attr source ts ht)⟩
    · exact later ((skipAttribute_suffix ts).trans (List.suffix_cons _ _)) (ih h)
  | item t ts ht ih =>
    rw [ofTokens_item source depth faults ts ht] at h
    rcases List.mem_cons.mp h with rfl | h
    · exact ⟨t, ts, List.suffix_refl _, congrArg Prod.fst (next_item source ts ht)⟩
    · obtain ⟨es, us, depth', faults', hus, hes, heq⟩ :=
        exists_following source depth faults (Header.read source (t :: ts)).2
          (Header.read source (t :: ts)).1
      rcases heq with heq | heq
      · rw [heq] at h
        have hclose : e ∉ es := by
          rcases hes with rfl | rfl
          · exact List.not_mem_nil
          · rintro hmem
            obtain rfl := List.mem_singleton.mp hmem
            cases he
        have hmem := (List.mem_append.mp h).resolve_left hclose
        exact later (hus.trans (Header.read_suffix source _)) (ih us hus hmem)
      · simp [heq] at h

/-- Comments on what encloses them are such tokens that follow each other. -/
theorem exists_suffix_of_inner_mem {source : String} {depth faults : Nat} {ts : List Token} {cs : Comments}
    (h : inner cs ∈ ofTokens source depth faults ts) :
    ∃ t us, t :: us <:+ ts ∧ isInner t ∧ cs = (t :: us.takeWhile isInner).filterMap (·.comment?) := by
  obtain ⟨t, us, hsuffix, hnext⟩ := exists_next_of_mem h rfl
  unfold next at hnext
  split at hnext
  · cases hnext
  · next text ht => exact ⟨t, us, hsuffix, by simp [isInner, ht], (Event.inner.inj hnext).symm⟩
  · cases hnext
  · cases hnext

/-- Comments on what encloses them are there only if one of the tokens is such a comment. -/
theorem exists_inner_of_mem {source : String} {depth faults : Nat} {ts : List Token} {cs : Comments}
    (h : inner cs ∈ ofTokens source depth faults ts) :
    ∃ t ∈ ts, ∃ text, t.kind = .innerDoc text ∧ (text, t.span) ∈ cs := by
  obtain ⟨t, us, hsuffix, ht, rfl⟩ := exists_suffix_of_inner_mem h
  refine ⟨t, hsuffix.subset List.mem_cons_self, ?_⟩
  unfold isInner at ht
  split at ht
  · next text hkind => exact ⟨text, hkind, by simp [Token.comment?, hkind]⟩
  · simp at ht

/-- A comment on the element that is open is made of such comments. -/
theorem exists_inner_of_doc_mem {lines : LineMap} {doc : Option DocRun} {es : List Event} {run : DocRun}
    (h : .doc run ∈ marks lines doc es) : ∃ cs, inner cs ∈ es ∧ docRun lines none cs = some run := by
  induction es generalizing doc with
  | nil => simp [marks] at h
  | cons e es ih =>
    have later (h : ∃ cs, inner cs ∈ es ∧ docRun lines none cs = some run) :
        ∃ cs, inner cs ∈ e :: es ∧ docRun lines none cs = some run := by
      obtain ⟨cs, hcs, hrun⟩ := h
      exact ⟨cs, List.mem_cons_of_mem e hcs, hrun⟩
    cases e with
    | inner cs =>
      rcases List.mem_append.mp h with h | h
      · exact ⟨cs, List.mem_cons_self, by simpa using h⟩
      · exact later (ih h)
    | item header =>
      rcases List.mem_append.mp h with h | h
      · cases header <;> simp [Mark.ofHeader] at h
      · exact later (ih h)
    | _ => exact later (ih (by simpa [marks] using h))

end Event

/-- The documentation of an element. -/
def docs? (t : Outline) (id : Nat) : Option (List DocComment) :=
  (t.get? id).map (·.docs)

theorem docs?_modify (t : Outline) (target : Nat) (f : Element → Element) (id : Nat) :
    (t.modify target f).docs? id =
      if target = id then (t.get? id).map (fun e => (f e).docs) else t.docs? id := by
  simp only [docs?, modify, get?, Array.getElem?_modify]
  split
  · rw [Option.map_map]
    rfl
  · rfl

theorem docs?_addChild (t : Outline) (parent : Nat) (kind : Element.Kind) (name : String) (id : Nat) :
    (t.addChild parent kind name).2.docs? id = if id = t.size then some [] else t.docs? id := by
  have hpush : (t.push kind name (some parent)).2.docs? id =
      if id = t.size then some [] else t.docs? id := by
    simp only [docs?, push, get?, size, Array.getElem?_push]
    split <;> simp_all
  rw [← hpush, addChild, docs?_modify]
  split <;> rfl

theorem docs?_attachDoc (t : Outline) (target : Nat) (doc : DocComment) (id : Nat) :
    (t.attachDoc target doc).docs? id =
      if target = id then (t.docs? id).map (DocComment.attach · doc) else t.docs? id := by
  rw [attachDoc, docs?_modify, docs?, Option.map_map]
  rfl

namespace Cursor

variable (file : Option Path)

/-- The element that a mark documents, if it documents one. -/
def documented (c : Cursor) : Mark → Nat
  | .enter _ _ _ => c.outline.size
  | _ => c.here

/-- The comments that the marks put on an element. -/
def commentsOn (id : Nat) : Cursor → List (Mark × Comments) → Comments
  | _, [] => []
  | c, (m, cs) :: ms =>
    (if c.documented m = id then cs else []) ++ commentsOn id (c.step file m) ms

theorem docs?_enter (c : Cursor) (kind : Element.Kind) (name : String) (run : Option DocRun) (id : Nat) :
    (c.step file (.enter kind name run)).outline.docs? id =
      if id = c.outline.size then some (run.map (·.toComment file)).toList else c.outline.docs? id := by
  cases run with
  | none => exact docs?_addChild c.outline c.here kind name id
  | some run =>
    have hattach := docs?_attachDoc (c.outline.addChild c.here kind name).2 c.outline.size
      (run.toComment file) id
    rw [docs?_addChild] at hattach
    refine hattach.trans ?_
    split
    · next h =>
      rw [if_pos h.symm, if_pos h.symm]
      rfl
    · next h => rw [if_neg (Ne.symm h), if_neg (Ne.symm h)]

/-- Where no comment on an enclosing element is among those of the element, it has no comment and the
documentation that it had, or it is new and has the documentation that the comments before it make. -/
theorem docs?_foldl {lines : LineMap} {docs : Comments} {es : List Event} {P : String × Span → Prop}
    (hinner : ∀ cs, .inner cs ∈ es → ∃ comment ∈ cs, ¬ P comment) {id : Nat}
    {found : List DocComment} (c : Cursor) {ms : List (Mark × Comments)}
    (hms : ∀ m cs, (m, cs) ∈ ms → Event.Credited lines docs es m cs)
    (hfound : ((ms.map (·.1)).foldl (step file) c).outline.docs? id = some found)
    (hP : ∀ comment ∈ commentsOn file id c ms, P comment) :
    (c.outline.docs? id = some found ∧ commentsOn file id c ms = []) ∨
      (c.outline.docs? id = none ∧ (commentsOn file id c ms).Sublist (docs ++ es.flatMap Event.comments) ∧
        found = (docComment? lines file (commentsOn file id c ms)).toList) := by
  induction ms generalizing c with
  | nil => exact .inl ⟨hfound, rfl⟩
  | cons x ms ih =>
    obtain ⟨m, cs⟩ := x
    have hlater : ∀ comment ∈ commentsOn file id (c.step file m) ms, P comment :=
      fun comment hmem => hP comment (List.mem_append_right _ hmem)
    have hrest := ih (c.step file m) (fun m cs hmem => hms m cs (List.mem_cons_of_mem _ hmem)) hfound
      hlater
    obtain ⟨hsub, hm⟩ := hms m cs List.mem_cons_self
    cases m with
    | enter kind name run =>
      rw [docs?_enter] at hrest
      by_cases hid : c.outline.size = id
      · have hnone : c.outline.docs? id = none := by
          simp [docs?, get?, ← hid, size]
        rw [if_pos hid.symm] at hrest
        rcases hrest with ⟨hnow, hcomments⟩ | ⟨hnow, -⟩
        · obtain rfl := Option.some.inj hnow
          refine .inr ⟨hnone, ?_⟩
          rw [commentsOn, documented, if_pos hid, hcomments, List.append_nil, hm, docRun_none]
          exact ⟨hsub, rfl⟩
        · simp at hnow
      · rw [if_neg (Ne.symm hid)] at hrest
        rw [commentsOn, documented, if_neg hid, List.nil_append]
        exact hrest
    | doc run =>
      have hattach := docs?_attachDoc c.outline c.here (run.toComment file) id
      by_cases hid : c.here = id
      · obtain ⟨comment, hmem, hnot⟩ := hinner cs hm
        refine absurd (hP comment (List.mem_append_left _ ?_)) hnot
        rw [documented, if_pos hid]
        · exact hmem
        · simp
      · rw [if_neg hid] at hattach
        rw [show (c.step file (.doc run)).outline = c.outline.attachDoc c.here (run.toComment file)
          from rfl, hattach] at hrest
        have hskip : commentsOn file id c ((.doc run, cs) :: ms) =
            commentsOn file id (c.step file (.doc run)) ms := by
          rw [commentsOn, documented, if_neg hid]
          · rfl
          · simp
        rw [hskip]
        exact hrest
    | outside span =>
      have hsame : (c.step file (.outside span)).outline = c.outline := by
        unfold step
        dsimp only
        split <;> rfl
      obtain rfl : cs = [] := hm
      rw [hsame] at hrest
      rw [commentsOn, ite_self, List.nil_append]
      exact hrest
    | _ =>
      obtain rfl : cs = [] := hm
      rw [commentsOn, ite_self, List.nil_append]
      exact hrest

end Cursor

/-- The comments on an element of a source below a crate. -/
def commentsOf (crateName : String) (file : Option Path) (source : String) (id : Nat) : Comments :=
  let (root, t) := empty.addRoot .crate crateName
  let events := Event.ofTokens source 0 0 (Lexed.ofString source).tokens
  Cursor.commentsOn file id ⟨t, root, [], [], []⟩ (Event.credited (.ofString source) [] events)

/-- An element whose comments are all line comments has the documentation that they make, and they stand
in the source in their order. -/
theorem docs_eq_docComment? {crateName : String} {file : Option Path} {source : String} {id : Nat}
    {e : Element} (he : (ofSource crateName file source).outline.get? id = some e)
    (hline : ∀ comment ∈ commentsOf crateName file source id, comment.2.IsLineDoc source) :
    e.docs = (docComment? (.ofString source) file (commentsOf crateName file source id)).toList ∧
      (commentsOf crateName file source id).Sublist
        ((Lexed.ofString source).tokens.filterMap (·.comment?)) := by
  let events := Event.ofTokens source 0 0 (Lexed.ofString source).tokens
  have hinner : ∀ cs, .inner cs ∈ events → ∃ comment ∈ cs, ¬ comment.2.IsLineDoc source := by
    intro cs hcs
    obtain ⟨t, ht, text, hkind, hmem⟩ := Event.exists_inner_of_mem hcs
    refine ⟨(text, t.span), hmem, fun hspan => ?_⟩
    have hcomment : t.comment? = some (text, t.span) := by simp [Token.comment?, hkind]
    simp [(Token.exists_endsLine ht hcomment hspan).1] at hkind
  have hmarks := Event.marks_ofTokens source (.ofString source) 0 0 none (Lexed.ofString source).tokens
  have herase := Event.map_fst_credited (.ofString source) [] events
  have hfound : (((Event.credited (.ofString source) [] events).map (·.1)).foldl (Cursor.step file)
      ⟨(empty.addRoot .crate crateName).2, 0, [], [], []⟩).outline.docs? id = some e.docs := by
    have hread : (ofSource crateName file source).outline.docs? id = some e.docs := by
      rw [docs?, he]
      rfl
    rw [herase, show docRun (.ofString source) none [] = none from rfl, hmarks]
    exact hread
  rcases Cursor.docs?_foldl file hinner _ (fun m cs => Event.of_mem_credited) hfound hline with
    ⟨hstart, hnil⟩ | ⟨-, hsub, hdocs⟩
  · have hroot : ((empty.addRoot .crate crateName).2.docs? id) = some e.docs → e.docs = [] := by
      intro h
      cases id with
      | zero => exact (Option.some.inj h).symm
      | succ id => simp [docs?, addRoot, push, get?, empty] at h
    have hcomments : commentsOf crateName file source id = [] := hnil
    rw [hroot hstart, hcomments]
    exact ⟨rfl, List.nil_sublist _⟩
  · exact ⟨hdocs, hsub.trans (Event.comments_sublist _ _ _ _)⟩

end Doctest.Outline
