import Doctest.Proofs.Outline.Continuation
import Doctest.Proofs.Outline.Events

/-! The reading of a file step by step. Each step reads some of the tokens and gives marks, and on copies
of these tokens it gives the same marks, at any depth and whatever follows. -/
namespace Doctest.Outline

/-- The marks of an event, without the comments. -/
def Event.bare : Event → List Mark
  | comment _ _ | inner _ | attr => []
  | item header => Mark.ofHeader none header
  | close => [.leave]
  | unmatched span => [.fault ⟨.unmatchedBrace, span⟩]
  | unclosed span => [.fault ⟨.unclosedBody, span⟩, .leave]

/-- The marks of the tokens without the comments, where `depth` blocks are open and no fault has been
met. -/
def skeleton (source : String) (depth : Nat) (ts : List Token) : List Mark :=
  (Event.ofTokens source depth 0 ts).flatMap Event.bare

/-- The mark without a comment, if it is no comment itself. -/
def Mark.bare? : Mark → Option Mark
  | .enter kind name _ => some (.enter kind name none)
  | .doc _ => none
  | mark => some mark

theorem Event.filterMap_bare?_marks (lines : LineMap) (doc : Option DocRun) (es : List Event) :
    (marks lines doc es).filterMap Mark.bare? = es.flatMap bare := by
  induction es generalizing doc with
  | nil => rfl
  | cons e es ih =>
    cases e with
    | comment text span => exact ih _
    | inner docs =>
      rw [marks, List.filterMap_append, ih]
      cases docRun lines none docs <;> rfl
    | item header =>
      rw [marks, List.filterMap_append, ih]
      cases header <;> rfl
    | attr => exact ih doc
    | close => exact congrArg _ (ih none)
    | unmatched span => exact congrArg _ (ih doc)
    | unclosed span => exact congrArg (Mark.fault ⟨.unclosedBody, span⟩ :: .leave :: ·) (ih none)

/-- These are the marks of the tokens, but for the comments. -/
theorem filterMap_bare?_ofTokens (source : String) (lines : LineMap) (depth : Nat) (ts : List Token) :
    (Mark.ofTokens source lines depth none 0 ts).filterMap Mark.bare? = skeleton source depth ts := by
  rw [← Event.marks_ofTokens, Event.filterMap_bare?_marks, skeleton]

section Skeleton

variable (source : String) (depth : Nat) {t : Token} (ts : List Token)

theorem skeleton_eof (ht : t.kind = .eof) : skeleton source depth (t :: ts) =
    (List.replicate depth [.fault ⟨.unclosedBody, t.span⟩, .leave]).flatten := by
  rw [skeleton, Event.ofTokens_eof source depth 0 ts ht, List.flatMap_replicate]
  rfl

theorem skeleton_closing (ht : t.kind = .closing .brace) :
    skeleton source (depth + 1) (t :: ts) = .leave :: skeleton source depth ts := by
  rw [skeleton, Event.ofTokens_closing source depth 0 ts ht]
  rfl

theorem skeleton_comment {text : String} (ht : t.kind = .outerDoc text) :
    skeleton source depth (t :: ts) = skeleton source depth ts := by
  rw [skeleton, Event.ofTokens_comment source depth 0 ts ht]
  rfl

theorem skeleton_attr (ht : t.kind = .symbol .pound) :
    skeleton source depth (t :: ts) = skeleton source depth (skipAttribute ts) := by
  rw [skeleton, Event.ofTokens_attr source depth 0 ts ht]
  rfl

theorem skeleton_inner {text : String} (ht : t.kind = .innerDoc text) :
    skeleton source depth (t :: ts) = skeleton source depth ts := by
  have hfirst {t : Token} {text : String} (ht : t.kind = .innerDoc text) (ts : List Token) :
      skeleton source depth (t :: ts) = skeleton source depth (ts.dropWhile isInner) := by
    rw [skeleton, Event.ofTokens_inner source depth 0 ts ht]
    rfl
  have hrest (ts : List Token) :
      skeleton source depth (ts.dropWhile isInner) = skeleton source depth ts := by
    cases ts with
    | nil => rfl
    | cons u us =>
      by_cases hu : isInner u = true
      · obtain ⟨text, hu'⟩ : ∃ text, u.kind = .innerDoc text := by
          unfold isInner at hu
          split at hu
          · exact ⟨_, ‹_›⟩
          · simp at hu
        rw [List.dropWhile_cons_of_pos hu, hfirst hu']
      · rw [List.dropWhile_cons_of_neg hu]
  rw [hfirst ht, hrest]

theorem skeleton_item {header : Header} {rest : List Token} (ht : t.kind.startsItem)
    (hread : Header.read source (t :: ts) = (header, rest)) (hfault : header.isFault = false) :
    skeleton source depth (t :: ts) =
      Mark.ofHeader none header ++ skeleton source (depth + header.blocks) rest := by
  rw [skeleton, Event.ofTokens_item source depth 0 ts ht, hread]
  cases header with
  | fault f => simp [Header.isFault] at hfault
  | bareModule name f => simp [Header.isFault] at hfault
  | _ => rfl

theorem exists_fault_of_item {header : Header} {rest : List Token} (ht : t.kind.startsItem)
    (hread : Header.read source (t :: ts) = (header, rest)) (hfault : header.isFault) :
    ∃ fault, .fault fault ∈ skeleton source depth (t :: ts) := by
  rw [skeleton, Event.ofTokens_item source depth 0 ts ht, hread]
  cases header with
  | fault f => exact ⟨f, List.mem_append_left _ (List.mem_singleton.mpr rfl)⟩
  | bareModule name f =>
    exact ⟨f, List.mem_append_left _ (by simp [Event.bare, Mark.ofHeader])⟩
  | _ => simp [Header.isFault] at hfault

end Skeleton

/-- Nothing but comments on the file and attributes. -/
inductive Preamble : List Token → Prop
  | nil : Preamble []
  | doc {t : Token} {ts : List Token} {text : String} : t.kind = .innerDoc text → Preamble ts →
    Preamble (t :: ts)
  | attr (a : Attribute) {ts : List Token} : Preamble ts → Preamble (a.tokens ++ ts)

namespace Preamble

variable {front ts : List Token} {bs : List Bracket}

theorem closed (h : Preamble front) (hts : Closed bs ts) : Closed bs (front ++ ts) := by
  induction h with
  | nil => exact hts
  | doc ht _ ih => exact .plain (by rw [ht]; rfl) ih
  | attr a _ ih =>
    obtain ⟨hash, bang, group⟩ := a
    have hgroup := Closed.opening (t := ⟨.opening .square, group.opening⟩) rfl
      (group.balanced.closed (.closing (t := ⟨.closing .square, group.closing⟩) rfl ih))
    refine .plain rfl ?_
    cases bang with
    | none => simpa [Group.tokens] using hgroup
    | some bang => exact .plain rfl (by simpa [Group.tokens] using hgroup)

theorem getLast_ne_punct (h : Preamble front) : ∀ t ∈ front.getLast?, ∀ c, t.kind ≠ .punct c := by
  induction h with
  | nil => simp
  | @doc t ts text ht _ ih =>
    cases ts with
    | nil => simp [ht]
    | cons u ts => simpa using ih
  | @attr a ts _ ih =>
    cases ts with
    | nil =>
      have hlast : a.tokens.getLast? = some ⟨.closing .square, a.group.closing⟩ :=
        List.getLast?_eq_some_iff.mpr ⟨⟨.symbol .pound, a.hash⟩ ::
          (a.bang.toList.map (⟨.symbol .bang, ·⟩) ++ ⟨.opening .square, a.group.opening⟩ :: a.group.inside),
          by simp [Attribute.tokens, Group.tokens]⟩
      simp [hlast]
    | cons u ts => rwa [List.getLast?_append_of_ne_nil _ (List.cons_ne_nil u ts)]

end Preamble

/-- The last of the tokens, if there are any, ends an item. -/
def Complete (ts : List Token) : Prop :=
  ∀ t ∈ ts.getLast?, t.kind ∈ [.symbol .semi, .closing .brace]

theorem mem_getLast?_of_suffix {α : Type} {as bs : List α} (h : bs <:+ as) {a : α} (ha : a ∈ bs.getLast?) :
    a ∈ as.getLast? := by
  obtain ⟨front, rfl⟩ := h
  rw [List.getLast?_append, ha]
  rfl

theorem Complete.suffix {ts us : List Token} (h : Complete ts) (hus : us <:+ ts) : Complete us :=
  fun t ht => h t (mem_getLast?_of_suffix hus ht)

/-- The tokens of a file: a preamble, and then items of which the last is complete. -/
def FileTokens (ts : List Token) : Prop :=
  ∃ front items, ts = front ++ items ∧ Preamble front ∧ Complete items

namespace FileTokens

variable {t : Token} {ts : List Token}

theorem getLast_ne_punct (h : FileTokens ts) : ∀ t ∈ ts.getLast?, ∀ c, t.kind ≠ .punct c := by
  obtain ⟨front, items, rfl, hfront, hitems⟩ := h
  by_cases hnil : items = []
  · rw [hnil, List.append_nil]
    exact hfront.getLast_ne_punct
  · rw [List.getLast?_append_of_ne_nil _ hnil]
    intro t ht c hc
    simpa [hc] using hitems t ht

theorem complete (h : FileTokens (t :: ts)) (hinner : ∀ text, t.kind ≠ .innerDoc text)
    (hpound : t.kind ≠ .symbol .pound) : Complete (t :: ts) := by
  obtain ⟨front, items, heq, hfront, hitems⟩ := h
  cases hfront with
  | nil => exact heq ▸ hitems
  | doc ht _ =>
    obtain ⟨rfl, -⟩ := List.cons.inj heq
    exact absurd ht (hinner _)
  | attr a _ =>
    obtain ⟨rfl, -⟩ := List.cons.inj heq
    exact absurd rfl hpound

theorem of_complete (h : Complete ts) : FileTokens ts :=
  ⟨[], ts, rfl, .nil, h⟩

theorem after_doc {text : String} (h : FileTokens (t :: ts)) (ht : t.kind = .innerDoc text) :
    FileTokens ts := by
  obtain ⟨front, items, heq, hfront, hitems⟩ := h
  cases hfront with
  | nil =>
    obtain rfl : t :: ts = items := heq
    exact of_complete (hitems.suffix (List.suffix_cons t ts))
  | doc _ hfront =>
    obtain ⟨-, rfl⟩ := List.cons.inj heq
    exact ⟨_, items, rfl, hfront, hitems⟩
  | attr a _ =>
    obtain ⟨rfl, -⟩ := List.cons.inj heq
    simp at ht

theorem after_attribute {rest : List Token} {stop : Token} (h : FileTokens (t :: ts))
    (ht : t.kind = .symbol .pound) (hrest : rest <:+ ts)
    (hskip : skipAttribute (ts ++ [stop]) = rest ++ [stop]) : FileTokens rest := by
  obtain ⟨front, items, heq, hfront, hitems⟩ := h
  cases hfront with
  | nil =>
    obtain rfl : t :: ts = items := heq
    exact of_complete (hitems.suffix (hrest.trans (List.suffix_cons t ts)))
  | doc ht' _ =>
    obtain ⟨rfl, -⟩ := List.cons.inj heq
    simp [ht] at ht'
  | @attr a front hfront =>
    obtain ⟨rfl, rfl⟩ := List.cons.inj heq
    have hpast := a.skipAttribute_tokens (front ++ (items ++ [stop]))
    refine ⟨front, items, List.append_cancel_right (hskip.symm.trans ?_), hfront, hitems⟩
    simpa [Attribute.tokens] using hpast

end FileTokens

/-- The reading of the tokens of a source, where `depth` blocks are open, and its marks. Each step is the
same on copies. -/
inductive Steps (source : String) : (depth : Nat) → List Token → List Mark → Prop
  | done : Steps source 0 [] []
  | step {depth next : Nat} {used rest : List Token} {marks more : List Mark}
    (hout : ∀ span, .outside span ∉ marks)
    (hlocal : ∀ other used' others above, Copies source other used used' → Follows rest others →
      skeleton other (above + depth) (used' ++ others) = marks ++ skeleton other (above + next) others)
    (hrest : Steps source next rest more) : Steps source depth (used ++ rest) (marks ++ more)
  | outside {depth : Nat} {used rest : List Token} {word semi : Token} {name : String}
    {more : List Mark} (hsemi : semi.kind = .symbol .semi)
    (hlocal : ∀ other used' opening others above, Copies source other (used ++ [word]) used' →
      opening.kind = .opening .brace → skeleton other (above + depth) (used' ++ opening :: others) =
        .enter .module name none :: skeleton other (above + depth + 1) others)
    (hrest : Steps source depth rest more) : Steps source depth (used ++ word :: semi :: rest)
      (.enter .module name none :: .outside word.span :: .leave :: more)

namespace Steps

variable {source : String} {depth : Nat} {t : Token} {ts : List Token} {more : List Mark}

/-- A token alone. -/
theorem token {next : Nat} {marks : List Mark} (hout : ∀ span, .outside span ∉ marks)
    (ht : ∀ other (u : Token) us above, u.kind = t.kind →
      skeleton other (above + depth) (u :: us) = marks ++ skeleton other (above + next) us)
    (h : Steps source next ts more) : Steps source depth (t :: ts) (marks ++ more) := by
  have hstep : Steps source depth ([t] ++ ts) (marks ++ more) := by
    refine .step hout (fun other used' others above hcopies _ => ?_) h
    obtain ⟨u, used', rfl, hu, hcopies⟩ := hcopies.exists_cons
    obtain rfl := hcopies.sameKinds.nil_left
    exact ht other u others above hu
  exact hstep

/-- Tokens that give no marks. -/
theorem silent {used : List Token} (hused : ∀ other used' others above, Copies source other used used' →
      Follows ts others → skeleton other (above + depth) (used' ++ others) =
        skeleton other (above + depth) others)
    (h : Steps source depth ts more) : Steps source depth (used ++ ts) more := by
  have hstep : Steps source depth (used ++ ts) ([] ++ more) :=
    .step (fun _ => List.not_mem_nil) hused h
  exact hstep

/-- The end of a block. -/
theorem leave (ht : t.kind = .closing .brace) (h : Steps source depth ts more) :
    Steps source (depth + 1) (t :: ts) (.leave :: more) := by
  have hstep : Steps source (depth + 1) (t :: ts) ([.leave] ++ more) :=
    h.token (by simp) fun other u us above hu => skeleton_closing other (above + depth) us (hu.trans ht)
  exact hstep

end Steps

theorem outside_notMem_ofHeader {header : Header} (hout : header.isOutside = false) (span : Span) :
    .outside span ∉ Mark.ofHeader none header := by
  cases header <;> simp_all [Mark.ofHeader, Header.isOutside]

/-- An item that is read from its own tokens is a step. -/
theorem Steps.of_reads {source : String} {depth : Nat} {header : Header} {t : Token}
    {used rest : List Token} {more : List Mark} (ht : t.kind.startsItem)
    (hfault : header.isFault = false) (hout : header.isOutside = false)
    (hread : ∀ other used' others, Copies source other (t :: used) used' → Follows rest others →
      Header.read other (used' ++ others) = (header, others))
    (h : Steps source (depth + header.blocks) rest more) :
    Steps source depth (t :: (used ++ rest)) (Mark.ofHeader none header ++ more) := by
  rw [← List.cons_append]
  refine .step (outside_notMem_ofHeader hout) (fun other used' others above hcopies hothers => ?_) h
  have hread := hread other used' others hcopies hothers
  obtain ⟨u, used', rfl, hu, -⟩ := hcopies.exists_cons
  rw [List.cons_append] at hread ⊢
  rw [skeleton_item other (above + depth) (used' ++ others) (hu ▸ ht) hread hfault, Nat.add_assoc]

theorem eq_zero_of_skeleton_eof {source : String} {depth : Nat} {stop : Token} (hstop : stop.kind = .eof)
    (hfault : ∀ fault, .fault fault ∉ skeleton source depth [stop]) : depth = 0 := by
  rw [skeleton_eof source depth [] hstop] at hfault
  cases depth with
  | zero => rfl
  | succ depth => exact absurd (by simp [List.replicate_succ]) (hfault ⟨.unclosedBody, stop.span⟩)

/-- An item at the front of a file is a step, if what follows it is read in steps. -/
theorem exists_steps_of_item {source : String} {bs : List Bracket} {t : Token} {ts : List Token}
    {depth : Nat} (h : Closed bs (t :: ts)) (hdepth : bs.count .brace ≤ depth) (ht : t.kind.startsItem)
    {stop : Token} (hstop : stop.kind = .eof)
    (hfault : ∀ fault, .fault fault ∉ skeleton source depth (t :: ts ++ [stop]))
    (hcomplete : Complete (t :: ts))
    (hafter : ∀ bs' rest next, rest.length ≤ ts.length → Closed bs' rest → bs'.count .brace ≤ next →
      rest <:+ t :: ts →
      skeleton source next (rest ++ [stop]) <:+ skeleton source depth (t :: ts ++ [stop]) →
        Steps source next rest (skeleton source next (rest ++ [stop]))) :
    Steps source depth (t :: ts) (skeleton source depth (t :: ts ++ [stop])) := by
  have he : t.kind ≠ .eof := Token.Kind.ne_of_startsItem ht rfl
  have hlen {header : Header} {rest : List Token}
      (hread : Header.read source (t :: ts ++ [stop]) = (header, rest ++ [stop])) :
      rest.length ≤ ts.length := by
    have hlt := Header.length_read_lt source (ts ++ [stop]) (Token.Kind.ne_of_startsItem ht rfl) he
    rw [← List.cons_append, hread] at hlt
    exact Nat.le_of_lt_succ (by simpa using hlt)
  cases Outcome.read source h with
  | fault hread =>
    obtain ⟨fault, hmem⟩ := exists_fault_of_item source depth (ts ++ [stop]) ht rfl (hread stop hstop)
    exact absurd hmem (hfault fault)
  | @reads header hheader hout hread =>
    obtain ⟨used, rest, bs', heq, hle, hrest, hlocal⟩ := hread
    have hread := hlocal source used _ (.refl source used) (follows_append_eof hstop rest)
    rw [← List.append_assoc, ← heq] at hread
    have hlen := hlen hread
    cases used with
    | nil =>
      rw [List.nil_append] at heq
      exact absurd (heq ▸ hlen) (Nat.not_succ_le_self _)
    | cons u used =>
      rw [List.cons_append] at heq
      obtain ⟨rfl, rfl⟩ := List.cons.inj heq
      have hmarks := skeleton_item source depth (used ++ rest ++ [stop]) ht hread hheader
      have hsteps := hafter bs' rest _ hlen hrest (by omega) (List.suffix_append (t :: used) rest)
        (hmarks ▸ List.suffix_append _ _)
      rw [List.cons_append, hmarks]
      exact .of_reads ht hheader hout hlocal hsteps
  | outside hread =>
    obtain ⟨used, word, semi, rest, bs', heq, rfl, hsemi, hle, hrest, hread, hbody⟩ := hread
    have hread := hread stop hstop
    have hmarks := skeleton_item source depth (ts ++ [stop]) ht hread rfl
    have hsteps := hafter bs' rest _ (hlen hread) hrest (by omega) ⟨used ++ [word, semi], by simp [heq]⟩
      (hmarks ▸ List.suffix_append _ _)
    rw [List.cons_append, hmarks, heq]
    refine .outside hsemi (fun other used' opening others above hcopies hopening => ?_) hsteps
    have hread := hbody other used' opening others hcopies hopening
    have hfollows : Follows (t :: ts) (used' ++ opening :: others) := by
      rw [heq]
      exact hcopies.sameKinds.follows_append
    obtain ⟨u, us, hus, hu⟩ := hfollows.exists_cons he
    rw [hus] at hread ⊢
    exact skeleton_item other (above + depth) us (hu ▸ ht) hread rfl
  | runsOut hread =>
    obtain ⟨-, hlast, hread⟩ := hread
    obtain ⟨name, hread⟩ := hread stop hstop
    have hmarks := skeleton_item source depth (ts ++ [stop]) ht hread rfl
    obtain rfl := eq_zero_of_skeleton_eof hstop fun fault hmem =>
      hfault fault (hmarks ▸ List.mem_append_right _ hmem)
    obtain ⟨last, hmem⟩ : ∃ last, last ∈ (t :: ts).getLast? :=
      ⟨_, List.getLast?_eq_some_getLast (List.cons_ne_nil t ts)⟩
    exact absurd (hcomplete last hmem) (hlast (by omega) last hmem)

/-- **A file without faults is read in steps.** -/
theorem exists_steps {source : String} {bs : List Bracket} {ts : List Token} {depth : Nat}
    (h : Closed bs ts) (hdepth : bs.count .brace ≤ depth) (hfile : FileTokens ts) {stop : Token}
    (hstop : stop.kind = .eof) (hfault : ∀ fault, .fault fault ∉ skeleton source depth (ts ++ [stop])) :
    Steps source depth ts (skeleton source depth (ts ++ [stop])) := by
  induction hn : ts.length using Nat.strong_induction_on generalizing bs ts depth with
  | _ n ih =>
    subst hn
    cases ts with
    | nil =>
      obtain rfl := eq_zero_of_skeleton_eof hstop hfault
      rw [List.nil_append, skeleton_eof source 0 [] hstop]
      exact .done
    | cons t ts =>
      -- What follows a step is shorter, and its marks are among those of the whole.
      have shorter {bs : List Bracket} {rest : List Token} {next : Nat} (hlen : rest.length ≤ ts.length)
          (h : Closed bs rest) (hdepth : bs.count .brace ≤ next) (hfile : FileTokens rest)
          (hsub : skeleton source next (rest ++ [stop]) <:+ skeleton source depth (t :: ts ++ [stop])) :
          Steps source next rest (skeleton source next (rest ++ [stop])) :=
        ih rest.length (Nat.lt_succ_of_le hlen) h hdepth hfile
          (fun fault hmem => hfault fault (hsub.subset hmem)) rfl
      have hafter (hinner : ∀ text, t.kind ≠ .innerDoc text) (hpound : t.kind ≠ .symbol .pound)
          {rest : List Token} (hrest : rest <:+ t :: ts) : FileTokens rest :=
        .of_complete ((hfile.complete hinner hpound).suffix hrest)
      have hsuffix := List.suffix_cons t ts
      have silent (hkind : t.kind.isPlain) (hfile : FileTokens ts)
          (ht : ∀ other (u : Token) us above, u.kind = t.kind →
            skeleton other (above + depth) (u :: us) = skeleton other (above + depth) us) :
          Steps source depth (t :: ts) (skeleton source depth (t :: ts ++ [stop])) := by
        have heq : skeleton source depth (t :: ts ++ [stop]) = skeleton source depth (ts ++ [stop]) := by
          simpa using ht source t (ts ++ [stop]) 0 rfl
        have hsteps := shorter (Nat.le_refl _) (h.tail hkind) hdepth hfile (heq ▸ List.suffix_refl _)
        rw [heq]
        exact hsteps.token (fun _ => List.not_mem_nil) ht
      rcases Event.kind_cases t with ht | ht | ⟨text, ht⟩ | ⟨text, ht⟩ | ht | ht
      · exact absurd ht h.ne_eof
      · obtain ⟨outer, rfl, houter⟩ := h.exists_outside ht
        obtain ⟨depth, rfl⟩ : ∃ below, depth = below + 1 := ⟨depth - 1, by simp at hdepth; omega⟩
        rw [List.cons_append, skeleton_closing source depth _ ht] at shorter ⊢
        have hsteps := shorter (Nat.le_refl _) houter (by simpa using hdepth)
          (hafter (by simp [ht]) (by simp [ht]) hsuffix) (List.suffix_cons _ _)
        exact hsteps.leave ht
      · exact silent (by rw [ht]; rfl) (hafter (by simp [ht]) (by simp [ht]) hsuffix)
          fun other u us above hu => skeleton_comment other _ us (hu.trans ht)
      · exact silent (by rw [ht]; rfl) (hfile.after_doc ht)
          fun other u us above hu => skeleton_inner other _ us (hu.trans ht)
      · obtain ⟨used, rest, bs', rfl, hle, hrest, hskip⟩ :=
          (h.tail (by rw [ht]; rfl)).skipAttribute
        have hleft : skipAttribute (used ++ rest ++ [stop]) = rest ++ [stop] := by
          rw [List.append_assoc, hskip used _ rfl (follows_append_eof hstop rest)]
        have heq : skeleton source depth (t :: (used ++ rest) ++ [stop]) =
            skeleton source depth (rest ++ [stop]) := by
          rw [List.cons_append, skeleton_attr source depth _ ht, hleft]
        have hsteps : Steps source depth rest _ := shorter (by simp) hrest (by omega)
          (hfile.after_attribute ht (List.suffix_append _ _) hleft) (heq ▸ List.suffix_refl _)
        rw [heq, ← List.cons_append]
        refine hsteps.silent fun other used' others above hcopies hothers => ?_
        obtain ⟨u, used', rfl, hu, hcopies⟩ := hcopies.exists_cons
        rw [List.cons_append, skeleton_attr other _ _ (hu.trans ht), hskip used' others hcopies.sameKinds hothers]
      · have hinner (text : String) : t.kind ≠ .innerDoc text := Token.Kind.ne_of_startsItem ht rfl
        have hpound : t.kind ≠ .symbol .pound := Token.Kind.ne_of_startsItem ht rfl
        exact exists_steps_of_item h hdepth ht hstop hfault (hfile.complete hinner hpound)
          fun bs' rest next hlen h hle hrest hsub => shorter hlen h hle (hafter hinner hpound hrest) hsub

end Doctest.Outline
