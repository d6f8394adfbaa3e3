import Doctest.Proofs.Outline.Cursors
import Doctest.Proofs.Outline.Grafting
import Doctest.Proofs.Token.HeaderNames

/-! Impls in which every bracket closes, also the angle brackets. The generics are passed over by their angle
brackets alone and what follows them by all other brackets alone, so a brace or a semicolon in the one and a
brace in angle brackets in the other ends them too early. -/
namespace Doctest.Outline

/-- Brackets of all kinds close in the order in which they open. -/
inductive Nested : List Token → Prop
  | nil : Nested []
  | plain {t : Token} {ts : List Token} :
    t.kind.isPlain → t.kind ∉ [.symbol .lt, .symbol .gt] → Nested ts → Nested (t :: ts)
  | group {b : Bracket} {o c : Token} {inside ts : List Token} :
    o.kind = .opening b → Nested inside → c.kind = .closing b → Nested ts →
      Nested (o :: (inside ++ c :: ts))
  | angles {o c : Token} {inside ts : List Token} :
    o.kind = .symbol .lt → Nested inside → c.kind = .symbol .gt → Nested ts →
      Nested (o :: (inside ++ c :: ts))

theorem Angled.append {as bs : List Token} (ha : Angled as) (hb : Angled bs) : Angled (as ++ bs) := by
  induction ha with
  | nil => exact hb
  | plain hn _ ih => exact .plain hn ih
  | angles ho hi hc _ _ ih =>
    rw [List.cons_append, List.append_assoc, List.cons_append]
    exact .angles ho hi hc ih

/-- Without some of the brackets the other ones still close. -/
theorem Nested.balanced {ts : List Token} (h : Nested ts) : Balanced [] ts := by
  induction h with
  | nil => exact .nil
  | plain hp _ _ ih => exact .plain hp List.not_mem_nil ih
  | group ho _ hc _ ihi ih => exact .group ho List.not_mem_nil ihi hc ih
  | angles ho _ hc _ ihi ih =>
    have hclosing : Balanced [] (_ :: _) := .plain (by rw [hc]; rfl) List.not_mem_nil ih
    exact .plain (by rw [ho]; rfl) List.not_mem_nil (ihi.append hclosing)

theorem Balanced.kind_ne_eof {stops : List Token.Kind} {ts : List Token} (h : Balanced stops ts) :
    ∀ t ∈ ts, t.kind ≠ .eof := by
  induction h with
  | nil => simp
  | plain hp _ _ ih =>
    exact List.forall_mem_cons.mpr ⟨Token.Kind.ne_of_isPlain hp rfl, ih⟩
  | group ho _ _ hc _ ihi ih =>
    refine List.forall_mem_cons.mpr ⟨by simp [ho], List.forall_mem_append.mpr ⟨ihi, ?_⟩⟩
    exact List.forall_mem_cons.mpr ⟨by simp [hc], ih⟩

theorem Nested.angled {ts : List Token} (h : Nested ts) (hstop : ∀ t ∈ ts, t.kind ∉ bodyOrSemi) :
    Angled ts := by
  induction h with
  | nil => exact .nil
  | plain hp hn _ ih =>
    obtain ⟨ht, hts⟩ := List.forall_mem_cons.mp hstop
    refine .plain ?_ (ih hts)
    intro hmem
    simp only [bodyOrSemi, List.mem_cons, List.not_mem_nil, or_false, not_or] at hmem hn ht
    rcases hmem with hk | hk | hk | hk | hk | hk <;> simp_all [Token.Kind.isPlain]
  | @group b o c inside ts ho _ hc _ ihi ih =>
    obtain ⟨hopen, hrest⟩ := List.forall_mem_cons.mp hstop
    obtain ⟨hinside, hclosed⟩ := List.forall_mem_append.mp hrest
    have hts := (List.forall_mem_cons.mp hclosed).2
    have hb : b ≠ .brace := by
      rintro rfl
      simp [ho, bodyOrSemi] at hopen
    have hclosing : Angled (c :: ts) := .plain (by simp [hc, hb]) (ih hts)
    exact .plain (by simp [ho, hb]) ((ihi hinside).append hclosing)
  | angles ho _ hc _ ihi ih =>
    obtain ⟨hinside, hclosed⟩ := List.forall_mem_append.mp (List.forall_mem_cons.mp hstop).2
    exact .angles ho (ihi hinside) hc (ih (List.forall_mem_cons.mp hclosed).2)

theorem skipAngles_lt {t : Token} (ht : t.kind = .symbol .lt) (depth : Nat) (ts : List Token) :
    skipAngles depth (t :: ts) = skipAngles (depth + 1) ts := by
  simp [skipAngles, ht]

theorem skipAngles_stop {t : Token} (ht : t.kind ∈ bodyOrSemi) (depth : Nat) (ts : List Token) :
    skipAngles depth (t :: ts) = t :: ts := by
  simp only [bodyOrSemi, List.mem_cons, List.not_mem_nil, or_false] at ht
  rcases ht with ht | ht <;> simp [skipAngles, ht]

/-- A brace or a semicolon among these tokens ends the generics that they are in, however deep it stands. -/
def StopsAngles (ts : List Token) : Prop :=
  (∃ s ∈ ts, s.kind ∈ bodyOrSemi) → ∀ (depth : Nat) (us : List Token),
    ∃ s rest, s.kind ∈ bodyOrSemi ∧ skipAngles (depth + 1) (ts ++ us) = s :: rest

/-- Tokens that do not end the generics are passed over. -/
theorem StopsAngles.append {as bs : List Token} (hnested : Nested as) (ha : StopsAngles as)
    (hb : StopsAngles bs) : StopsAngles (as ++ bs) := by
  intro hstop depth us
  rw [List.append_assoc]
  by_cases hfirst : ∃ s ∈ as, s.kind ∈ bodyOrSemi
  · exact ha hfirst depth (bs ++ us)
  · have hangled : Angled as := hnested.angled fun s hs hk => hfirst ⟨s, hs, hk⟩
    obtain ⟨s, hs, hk⟩ := hstop
    have hlater : s ∈ bs := (List.mem_append.mp hs).resolve_left fun has => hfirst ⟨s, has, hk⟩
    rw [hangled.skipAngles_append]
    exact hb ⟨s, hlater, hk⟩ depth us

theorem stopsAngles_group {b : Bracket} {o c : Token} {inside : List Token} (ho : o.kind = .opening b)
    (hc : c.kind = .closing b) (hinside : StopsAngles inside) : StopsAngles (o :: (inside ++ [c])) := by
  intro hstop depth us
  by_cases hopen : o.kind ∈ bodyOrSemi
  · exact ⟨o, _, hopen, skipAngles_stop hopen _ _⟩
  · have hplain : Angled [o] := .plain (by simpa [ho, bodyOrSemi] using hopen) .nil
    have hskip := hplain.skipAngles_append depth (inside ++ ([c] ++ us))
    have hclosing : c.kind ∉ bodyOrSemi := by simp [hc, bodyOrSemi]
    rw [List.singleton_append] at hskip
    rw [List.cons_append, List.append_assoc, hskip]
    exact hinside (by simpa [hopen, hclosing] using hstop) depth _

theorem stopsAngles_angles {o c : Token} {inside : List Token} (ho : o.kind = .symbol .lt)
    (hc : c.kind = .symbol .gt) (hinside : StopsAngles inside) : StopsAngles (o :: (inside ++ [c])) := by
  intro hstop depth us
  rw [List.cons_append, List.append_assoc, skipAngles_lt ho]
  exact hinside (by simpa [ho, hc, bodyOrSemi] using hstop) (depth + 1) _

theorem Nested.stopsAngles {ts : List Token} (h : Nested ts) : StopsAngles ts := by
  induction h with
  | nil => exact fun hstop => by simp at hstop
  | @plain t ts hp hn _ ih =>
    have hone : StopsAngles [t] := by
      intro hstop depth us
      have ht : t.kind ∈ bodyOrSemi := by simpa using hstop
      exact ⟨t, us, ht, skipAngles_stop ht _ _⟩
    exact .append (.plain hp hn .nil) hone ih
  | @group b o c inside ts ho hi hc _ ihi ih =>
    have hlist : o :: (inside ++ c :: ts) = (o :: (inside ++ [c])) ++ ts := by simp
    rw [hlist]
    exact .append (.group ho hi hc .nil) (stopsAngles_group ho hc ihi) ih
  | @angles o c inside ts ho hi hc _ ihi ih =>
    have hlist : o :: (inside ++ c :: ts) = (o :: (inside ++ [c])) ++ ts := by simp
    rw [hlist]
    exact .append (.angles ho hi hc .nil) (stopsAngles_angles ho hc ihi) ih

/-- Balanced tokens go on to their end, or up to the first one outside of all groups that stops. -/
theorem Balanced.or_exists_stop {allowed : List Token.Kind} {ts : List Token} (h : Balanced allowed ts)
    (stops : List Token.Kind) : Balanced stops ts ∨
      ∃ before s after, ts = before ++ s :: after ∧ Balanced stops before ∧ s.kind ∈ stops := by
  induction h with
  | nil => exact .inl .nil
  | @plain _ t ts hp _ _ ih =>
    by_cases ht : t.kind ∈ stops
    · exact .inr ⟨[], t, ts, rfl, .nil, ht⟩
    · rcases ih with hts | ⟨before, s, after, rfl, hbefore, hs⟩
      · exact .inl (.plain hp ht hts)
      · exact .inr ⟨t :: before, s, after, rfl, .plain hp ht hbefore, hs⟩
  | @group _ b o c inside ts ho _ hi hc _ _ ih =>
    by_cases hopen : o.kind ∈ stops
    · exact .inr ⟨[], o, _, rfl, .nil, hopen⟩
    · rcases ih with hts | ⟨before, s, after, rfl, hbefore, hs⟩
      · exact .inl (.group ho hopen hi hc hts)
      · exact .inr ⟨o :: (inside ++ c :: before), s, after, by simp, .group ho hopen hi hc hbefore, hs⟩

/-- A group in angle brackets. -/
structure AngleGroup where
  opening : Span
  inside : List Token
  closing : Span
  nested : Nested inside

def AngleGroup.tokens (g : AngleGroup) : List Token :=
  ⟨.symbol .lt, g.opening⟩ :: (g.inside ++ [⟨.symbol .gt, g.closing⟩])

/-- An impl with its generics, its header and its where clause. Angle brackets right after the keyword are
the generics. -/
structure Impl where
  front : Front (.keyword .implKw)
  span : Span
  generics : Option AngleGroup
  header : List Token
  nested : Nested header
  hheader : generics = none → kindOf header ≠ .symbol .lt
  bounds : Option (Span × List Token)
  opening : Span
  inner : List Attribute
  members : Forest
  closing : Span

namespace Impl

def boundsTokens (i : Impl) : List Token :=
  i.bounds.toList.flatMap fun (span, ts) => ⟨.keyword .whereKw, span⟩ :: ts

/-- The tokens after the opening brace. -/
def body (i : Impl) : List Token :=
  i.inner.flatMap (·.tokens) ++ (i.members.tokens ++ [⟨.closing .brace, i.closing⟩])

def tokens (i : Impl) : List Token :=
  i.front.tokens ++ ⟨.keyword .implKw, i.span⟩ :: (i.generics.toList.flatMap (·.tokens) ++
    (i.header ++ (i.boundsTokens ++ ⟨.opening .brace, i.opening⟩ :: i.body)))

/-- There is no brace and no semicolon in the generics, and in the header they and the word `where` stand only
inside of parentheses, square brackets and braces. -/
structure PlainHeader (i : Impl) : Prop where
  generics : ∀ g ∈ i.generics, ∀ t ∈ g.inside, t.kind ∉ bodyOrSemi
  header : Balanced bodyOrWhere i.header

/-- In the where clause braces and semicolons stand only inside of parentheses, square brackets and braces. -/
def PlainBounds (i : Impl) : Prop :=
  ∀ b ∈ i.bounds, Balanced bodyOrSemi b.2

/-- The impl as a new child of the element that is open, with the members as its own children. -/
def addTo (i : Impl) (source : String) (file : Option Path) (c : Cursor) : Cursor :=
  let n := c.outline.size
  c.grafted [n]
    (⟨n, .impl, Header.headerName source i.header, some c.here, i.members.ids (n + 1),
      i.front.docs source file⟩ :: i.members.elements source file n (n + 1))
    (i.members.outside (Cursor.moduleNames c.frames) (n + 1))

variable (source : String) (lines : LineMap) (file : Option Path) (depth faults : Nat) (i : Impl)

variable {i}

/-- Generics without braces and semicolons are passed over as a whole. -/
theorem exists_generics (h : ∀ g ∈ i.generics, ∀ t ∈ g.inside, t.kind ∉ bodyOrSemi) :
    ∃ generics : Option Generics,
      i.generics.toList.flatMap (·.tokens) = generics.toList.flatMap (·.tokens) ∧
        (generics = none → i.generics = none) := by
  cases hg : i.generics with
  | none => exact ⟨none, rfl, fun _ => rfl⟩
  | some g =>
    have hangled : Angled g.inside := g.nested.angled (h g hg)
    exact ⟨some ⟨g.opening, g.inside, g.closing, hangled⟩, rfl, fun hnone => by simp at hnone⟩

theorem ofKeyword_eq (hheader : i.PlainHeader) (hbounds : i.PlainBounds) (ts : List Token) :
    Header.ofKeyword source ⟨.keyword .implKw, i.span⟩ (i.generics.toList.flatMap (·.tokens) ++
      (i.header ++ (i.boundsTokens ++ ⟨.opening .brace, i.opening⟩ :: ts))) =
      (.body .impl (Header.headerName source i.header), ts) := by
  obtain ⟨generics, hgenerics, hnone⟩ := exists_generics hheader.generics
  have hread := Head.ofKeyword_impl source i.span hheader.header (fun h => i.hheader (hnone h))
  rw [hgenerics]
  cases hb : i.bounds with
  | none => simpa [boundsTokens, hb] using hread none i.opening ts
  | some b => simpa [boundsTokens, hb] using hread (some (b.1, ⟨b.2, hbounds b hb⟩)) i.opening ts

theorem qualifiers_eq (span : Span) (ts : List Token) :
    Header.qualifiers (⟨.keyword .implKw, span⟩ :: ts) = (false, ⟨.keyword .implKw, span⟩ :: ts) := by
  simp [Header.qualifiers]

/-- The marks of an impl whose header is read to its end. -/
theorem ofTokens_tokens (hheader : i.PlainHeader) (hbounds : i.PlainBounds)
    (hmut : i.members.namedMut = false) (rest : List Token) :
    Mark.ofTokens source lines depth none faults (i.tokens ++ rest) =
      .enter .impl (Header.headerName source i.header) (i.front.docRun lines) ::
        (i.members.marks source lines ++ .leave :: Mark.ofTokens source lines depth none faults rest) := by
  have hopen := Mark.ofTokens_front source lines depth faults rfl i.front (qualifiers_eq i.span _)
    (ofKeyword_eq source hheader hbounds (i.body ++ rest))
  have hclosing : kindOf (⟨.closing .brace, i.closing⟩ :: rest) ≠ .symbol .semi := by simp
  have hbody : Mark.ofTokens source lines (depth + 1) none faults (i.body ++ rest) =
      i.members.marks source lines ++ .leave :: Mark.ofTokens source lines depth none faults rest := by
    rw [body, List.append_assoc, Mark.ofTokens_attributes, List.append_assoc, List.singleton_append,
      i.members.ofTokens_tokens source lines hmut (depth + 1) faults hclosing, Mark.ofTokens_closing]
  rw [Mark.following, hbody] at hopen
  simpa [tokens, Mark.ofHeader] using hopen

variable (i) in
/-- The marks of an impl and its members add them, and then come the marks that follow. -/
theorem foldl_marks {c : Cursor} (h : c.here < c.outline.size) (marks : List Mark) :
    (.enter .impl (Header.headerName source i.header) (i.front.docRun (.ofString source)) ::
      (i.members.marks source (.ofString source) ++ .leave :: marks)).foldl (Cursor.step file) c =
      marks.foldl (Cursor.step file) (i.addTo source file c) := by
  have hmembers := c.foldl_members file source h .impl (Header.headerName source i.header) i.front i.members
    (Cursor.foldl_marks file source i.members)
  have hnames : Cursor.moduleNames (⟨c.outline.size, .impl, Header.headerName source i.header⟩ :: c.frames) =
      Cursor.moduleNames c.frames := by
    simp [Cursor.moduleNames]
  rw [hnames] at hmembers
  rw [addTo, ← hmembers, ← List.foldl_append]
  simp

/-- An impl is entered with the name of as much of its header as has been read. -/
theorem exists_ofTokens_eq_cons (front : Front (.keyword .implKw)) (span : Span) (ts : List Token) :
    ∃ marks, Mark.ofTokens source lines depth none faults (front.tokens ++ ⟨.keyword .implKw, span⟩ :: ts) =
      .enter .impl (Header.headerName source (splitHeader 0 (skipGenerics ts)).1) (front.docRun lines) ::
        marks := by
  rcases hfind : findBody 0 (splitHeader 0 (skipGenerics ts)).2 with ⟨found, rest⟩
  have hheader : Header.ofKeyword source ⟨.keyword .implKw, span⟩ ts =
      (if found then .body .impl (Header.headerName source (splitHeader 0 (skipGenerics ts)).1)
        else .leaf .impl (Header.headerName source (splitHeader 0 (skipGenerics ts)).1), rest) := by
    simp [Header.ofKeyword, Header.withMembers, hfind]
  rw [Mark.ofTokens_front source lines depth faults rfl front (qualifiers_eq span ts) hheader]
  cases found <;> exact ⟨_, rfl⟩

/-- Of any other header only a part is read. -/
theorem exists_splitHeader (hne : i.header ≠ []) (h : ¬i.PlainHeader) : ∃ before s after,
    i.header = before ++ s :: after ∧ ∀ ts, (splitHeader 0 (skipGenerics
      (i.generics.toList.flatMap (·.tokens) ++ (i.header ++ ts)))).1 = before := by
  by_cases hg : ∀ g ∈ i.generics, ∀ t ∈ g.inside, t.kind ∉ bodyOrSemi
  · have hbalanced : ¬Balanced bodyOrWhere i.header := fun hheader => h ⟨hg, hheader⟩
    obtain ⟨before, s, after, hheader, hbefore, hs⟩ :=
      (i.nested.balanced.or_exists_stop bodyOrWhere).resolve_left hbalanced
    obtain ⟨generics, hgenerics, hnone⟩ := exists_generics hg
    refine ⟨before, s, after, hheader, fun ts => ?_⟩
    have hlt : generics = none → kindOf (i.header ++ ts) ≠ .symbol .lt := by
      intro hempty
      obtain ⟨t, us, hcons⟩ := List.exists_cons_of_ne_nil hne
      have hkind := i.hheader (hnone hempty)
      rw [hcons] at hkind ⊢
      exact hkind
    rw [hgenerics, Head.skipGenerics_eq hlt, hheader, List.append_assoc, List.cons_append,
      splitHeader_balanced hbefore hs]
  · simp only [not_forall, not_not] at hg
    obtain ⟨g, hsome, t, ht, hstop⟩ := hg
    obtain ⟨s, after, hheader⟩ := List.exists_cons_of_ne_nil hne
    refine ⟨[], s, after, hheader, fun ts => ?_⟩
    obtain ⟨u, us, hu, hskip⟩ := g.nested.stopsAngles ⟨t, ht, hstop⟩ 0
      (⟨.symbol .gt, g.closing⟩ :: (i.header ++ ts))
    have hgenerics : skipGenerics (i.generics.toList.flatMap (·.tokens) ++ (i.header ++ ts)) = u :: us := by
      obtain hsome : i.generics = some g := hsome
      simpa [hsome, AngleGroup.tokens, skipGenerics, skipAngles_lt] using hskip
    have hwhere : u.kind ∈ bodyOrWhere := by
      simp only [bodyOrSemi, List.mem_cons, List.not_mem_nil, or_false] at hu
      rcases hu with hu | hu <;> simp [hu, bodyOrWhere]
    have hsplit := splitHeader_balanced .nil hwhere us
    rw [List.nil_append] at hsplit
    rw [hgenerics, hsplit]

end Impl

/-- **An impl is read with its members.** Wherever an impl stands in a source, it becomes one element with the
text of its header as its name and its members as its children, and the reading goes on after it, if neither its
header nor its where clause is ended early by a brace, a semicolon or the word `where`. If its header is ended
early, this is never so. -/
theorem Impl.foldl_ofTokens_eq_addTo {source : String} (file : Option Path) (depth faults : Nat) (i : Impl)
    {rest : List Token} (htokens : i.tokens ++ rest <:+ (Lexed.ofString source).tokens)
    (hmut : i.members.namedMut = false) {c : Cursor} (hc : c.Sound) :
    let read (ts : List Token) (c : Cursor) : Cursor :=
      (Mark.ofTokens source (.ofString source) depth none faults ts).foldl (Cursor.step file) c
    (i.PlainHeader → i.PlainBounds → read (i.tokens ++ rest) c = read rest (i.addTo source file c)) ∧
      (i.header ≠ [] → read (i.tokens ++ rest) c = read rest (i.addTo source file c) → i.PlainHeader) := by
  intro read
  let next := Mark.ofTokens source (.ofString source) depth none faults rest
  have hadd := i.foldl_marks source file hc.here_lt next
  constructor
  · intro hheader hbounds
    have hmarks := ofTokens_tokens source (.ofString source) depth faults hheader hbounds hmut rest
    simp only [read]
    rw [hmarks]
    exact hadd
  · intro hne heq
    by_contra hplain
    obtain ⟨before, s, after, hheader, hsplit⟩ := exists_splitHeader hne hplain
    let tail := i.boundsTokens ++ ⟨.opening .brace, i.opening⟩ :: (i.body ++ rest)
    have hcut : i.tokens ++ rest = i.front.tokens ++ ⟨.keyword .implKw, i.span⟩ ::
        (i.generics.toList.flatMap (·.tokens) ++ (i.header ++ tail)) := by
      simp [tokens, tail]
    obtain ⟨marks, hmarks⟩ := exists_ofTokens_eq_cons source (.ofString source) depth faults i.front i.span
      (i.generics.toList.flatMap (·.tokens) ++ (i.header ++ tail))
    rw [← hcut, hsplit] at hmarks
    -- Both readings enter an impl, which keeps its name.
    have hread := hc.label?_foldl_enter file .impl (Header.headerName source before)
      (i.front.docRun (.ofString source)) marks
    have hwritten := hc.label?_foldl_enter file .impl (Header.headerName source i.header)
      (i.front.docRun (.ofString source)) (i.members.marks source (.ofString source) ++ .leave :: next)
    simp only [read] at heq
    rw [← hmarks, heq, ← hadd, hwritten] at hread
    have hname : Header.headerName source i.header = Header.headerName source before := by
      simpa using hread
    have hpart : i.header <:+: (Lexed.ofString source).tokens := by
      refine List.IsInfix.trans ⟨i.front.tokens ++ ⟨.keyword .implKw, i.span⟩ ::
        i.generics.toList.flatMap (·.tokens), tail, ?_⟩ htokens.isInfix
      rw [hcut]
      simp
    rw [hheader] at hpart hname
    exact Header.headerName_ne hpart (hheader ▸ i.nested.balanced.kind_ne_eof) hname.symm

/-- An array type in a header, where its semicolon is in brackets, and a where clause. -/
theorem Impl.foldl_ofTokens_eq_addTo_array :
    let source := "impl<T> From<[T; 4]> for S where T: A \x7b fn f() \x7b\x7d \x7d"
    let c : Cursor := ⟨(empty.addRoot .crate "c").2, 0, [], [], []⟩
    ∃ i : Impl, (Lexed.ofString source).tokens = i.tokens ++ [⟨.eof, ⟨51, 51⟩⟩] ∧
      Header.headerName source i.header = "From<[T; 4]> for S" ∧
      i.members.elements source none 1 2 = [⟨2, .function, "f", some 1, [], []⟩] ∧
      (Mark.ofTokens source (.ofString source) 0 none 0 (Lexed.ofString source).tokens).foldl
        (Cursor.step none) c = i.addTo source none c := by
  intro source c
  let length : List Token := [⟨.name "T", ⟨14, 15⟩⟩, ⟨.symbol .semi, ⟨15, 16⟩⟩, ⟨.literal, ⟨17, 18⟩⟩]
  let array : List Token := ⟨.opening .square, ⟨13, 14⟩⟩ :: (length ++ [⟨.closing .square, ⟨18, 19⟩⟩])
  let header : List Token := ⟨.name "From", ⟨8, 12⟩⟩ :: ⟨.symbol .lt, ⟨12, 13⟩⟩ :: (array ++
    [⟨.symbol .gt, ⟨19, 20⟩⟩, ⟨.keyword .forKw, ⟨21, 24⟩⟩, ⟨.name "S", ⟨25, 26⟩⟩])
  let bound : List Token := [⟨.name "T", ⟨33, 34⟩⟩, ⟨.symbol .colon, ⟨34, 35⟩⟩, ⟨.name "A", ⟨36, 37⟩⟩]
  let parentheses : List Token := [⟨.opening .paren, ⟨44, 45⟩⟩, ⟨.closing .paren, ⟨45, 46⟩⟩]
  have htokens : (Lexed.ofString source).tokens = ⟨.keyword .implKw, ⟨0, 4⟩⟩ :: ⟨.symbol .lt, ⟨4, 5⟩⟩ ::
      ⟨.name "T", ⟨5, 6⟩⟩ :: ⟨.symbol .gt, ⟨6, 7⟩⟩ :: (header ++ ⟨.keyword .whereKw, ⟨27, 32⟩⟩ :: (bound ++
        ⟨.opening .brace, ⟨38, 39⟩⟩ :: ⟨.keyword .fnKw, ⟨40, 42⟩⟩ :: ⟨.name "f", ⟨43, 44⟩⟩ ::
          (parentheses ++ [⟨.opening .brace, ⟨47, 48⟩⟩, ⟨.closing .brace, ⟨48, 49⟩⟩,
            ⟨.closing .brace, ⟨50, 51⟩⟩, ⟨.eof, ⟨51, 51⟩⟩]))) := by
    decide +kernel
  have hparameter : Nested [⟨.name "T", ⟨5, 6⟩⟩] := .plain rfl (by simp) .nil
  have hlength : Nested length := .plain rfl (by simp) (.plain rfl (by simp) (.plain rfl (by simp) .nil))
  have harray : Balanced bodyOrWhere array := .group rfl (by decide) hlength.balanced rfl .nil
  have hheader : Nested header := .plain rfl (by simp) (.angles rfl (.group rfl hlength rfl .nil) rfl
    (.plain rfl (by simp) (.plain rfl (by simp) .nil)))
  have hbalanced : Balanced bodyOrWhere header := .plain rfl (by decide) (.plain rfl (by decide)
    (harray.append (.plain rfl (by decide) (.plain rfl (by decide) (.plain rfl (by decide) .nil)))))
  have hbound : Balanced bodyOrSemi bound :=
    .plain rfl (by decide) (.plain rfl (by decide) (.plain rfl (by decide) .nil))
  let members : Forest := .leaf (.bodied .function ⟨40, 42⟩ ⟨"f", ⟨43, 44⟩⟩
    ⟨parentheses, .group rfl (by decide) .nil rfl .nil⟩ (.body ⟨⟨47, 48⟩, [], ⟨48, 49⟩, .nil⟩))
    ⟨[], [], trivial⟩ .nil
  let i : Impl := ⟨⟨[], [], trivial⟩, ⟨0, 4⟩, some ⟨⟨4, 5⟩, _, ⟨6, 7⟩, hparameter⟩, header, hheader,
    by simp, some (⟨27, 32⟩, bound), ⟨38, 39⟩, [], members, ⟨50, 51⟩⟩
  have hplain : i.PlainHeader := ⟨by simp [i, bodyOrSemi], hbalanced⟩
  have hbounds : i.PlainBounds := by
    intro b hb
    obtain rfl := Option.some.inj hb
    exact hbound
  have hc : c.Sound := ⟨IsForest.empty.addRoot .crate "c", by decide, by simp [c]⟩
  have hsuffix : i.tokens ++ [⟨.eof, ⟨51, 51⟩⟩] <:+ (Lexed.ofString source).tokens := by
    rw [htokens]
    exact List.suffix_refl _
  have hread := (i.foldl_ofTokens_eq_addTo none 0 0 hsuffix rfl hc).1 hplain hbounds
  have hend : Mark.ofTokens source (.ofString source) 0 none 0 [⟨.eof, ⟨51, 51⟩⟩] = [] := by
    rw [Mark.ofTokens.eq_def]
    rfl
  have hname : Header.headerName source header = "From<[T; 4]> for S" := by decide +kernel
  refine ⟨i, htokens, hname, rfl, ?_⟩
  rw [htokens]
  refine hread.trans ?_
  dsimp only
  rw [hend]
  rfl

/-- The semicolon of the array type in the generics ends the header before it has begun, and the impl gets neither
its name nor its member. -/
theorem ofSource_impl_array_in_generics :
    let source := "impl<T: Into<[u8; 4]>> S<T> \x7b fn f() \x7b\x7d \x7d"
    ∃ i : Impl, (Lexed.ofString source).tokens = i.tokens ++ [⟨.eof, ⟨41, 41⟩⟩] ∧
      Header.headerName source i.header = "S<T>" ∧
      i.members.elements source none 1 2 = [⟨2, .function, "f", some 1, [], []⟩] ∧
      ofSource "c" none source =
        ⟨⟨#[⟨0, .crate, "c", none, [1], []⟩, ⟨1, .impl, "", some 0, [], []⟩], [0]⟩, [], []⟩ := by
  intro source
  let length : List Token := [⟨.name "u8", ⟨14, 16⟩⟩, ⟨.symbol .semi, ⟨16, 17⟩⟩, ⟨.literal, ⟨18, 19⟩⟩]
  let array : List Token := ⟨.opening .square, ⟨13, 14⟩⟩ :: (length ++ [⟨.closing .square, ⟨19, 20⟩⟩])
  let generics : List Token := ⟨.name "T", ⟨5, 6⟩⟩ :: ⟨.symbol .colon, ⟨6, 7⟩⟩ :: ⟨.name "Into", ⟨8, 12⟩⟩ ::
    ⟨.symbol .lt, ⟨12, 13⟩⟩ :: (array ++ [⟨.symbol .gt, ⟨20, 21⟩⟩])
  let header : List Token := [⟨.name "S", ⟨23, 24⟩⟩, ⟨.symbol .lt, ⟨24, 25⟩⟩, ⟨.name "T", ⟨25, 26⟩⟩,
    ⟨.symbol .gt, ⟨26, 27⟩⟩]
  let parentheses : List Token := [⟨.opening .paren, ⟨34, 35⟩⟩, ⟨.closing .paren, ⟨35, 36⟩⟩]
  have htokens : (Lexed.ofString source).tokens = ⟨.keyword .implKw, ⟨0, 4⟩⟩ :: ⟨.symbol .lt, ⟨4, 5⟩⟩ ::
      (generics ++ ⟨.symbol .gt, ⟨21, 22⟩⟩ :: (header ++ ⟨.opening .brace, ⟨28, 29⟩⟩ ::
        ⟨.keyword .fnKw, ⟨30, 32⟩⟩ :: ⟨.name "f", ⟨33, 34⟩⟩ :: (parentheses ++
          [⟨.opening .brace, ⟨37, 38⟩⟩, ⟨.closing .brace, ⟨38, 39⟩⟩, ⟨.closing .brace, ⟨40, 41⟩⟩,
            ⟨.eof, ⟨41, 41⟩⟩]))) := by
    decide +kernel
  have hlength : Nested length := .plain rfl (by simp) (.plain rfl (by simp) (.plain rfl (by simp) .nil))
  have hgenerics : Nested generics := .plain rfl (by simp) (.plain rfl (by simp) (.plain rfl (by simp)
    (.angles rfl (.group rfl hlength rfl .nil) rfl .nil)))
  have hheader : Nested header := .plain rfl (by simp) (.angles rfl (.plain rfl (by simp) .nil) rfl .nil)
  let members : Forest := .leaf (.bodied .function ⟨30, 32⟩ ⟨"f", ⟨33, 34⟩⟩
    ⟨parentheses, .group rfl (by decide) .nil rfl .nil⟩ (.body ⟨⟨37, 38⟩, [], ⟨38, 39⟩, .nil⟩))
    ⟨[], [], trivial⟩ .nil
  have hname : Header.headerName source header = "S<T>" := by decide +kernel
  have hread : ofSource "c" none source =
      ⟨⟨#[⟨0, .crate, "c", none, [1], []⟩, ⟨1, .impl, "", some 0, [], []⟩], [0]⟩, [], []⟩ := by
    have htree : ofSource "c" none source =
        (empty.addRoot .crate "c").2.readTokens 0 none source (Lexed.ofString source).tokens := rfl
    rw [htree, htokens]
    decide +kernel
  exact ⟨⟨⟨[], [], trivial⟩, ⟨0, 4⟩, some ⟨⟨4, 5⟩, generics, ⟨21, 22⟩, hgenerics⟩, header, hheader, by simp, none,
    ⟨28, 29⟩, [], members, ⟨40, 41⟩⟩, htokens, hname, rfl, hread⟩

end Doctest.Outline
