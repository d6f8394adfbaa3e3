import Doctest.Proofs.Outline.Continuation

/-! Headers that are read in a block. Those of malformed items too leave off before the brace that closes
the block, whatever comes after it. Only the header of an impl may go on past that brace. -/
namespace Doctest.Outline

/-- The brackets that a header leaves open. -/
def Header.braces : Header → List Bracket
  | body _ _ => [.brace]
  | _ => []

/-- What the first token after a block may be. -/
def EndsBlock (kind : Token.Kind) : Prop :=
  kind = .eof ∨ kind = .closing .brace

/-- From these tokens of a block `f` reads a header and goes on in the block, whatever comes after it. The
header depends on no more than the first token after the block, and that token has no say in whether the
header is faulty or has a body. Of the brackets that are open then, those of the header are new, and no other
is a brace. -/
def Stays (f : List Token → Header × List Token) (ts : List Token) : Prop :=
  ∃ faulty new rest bs, rest <:+ ts ∧ bs.count .brace = 0 ∧ Closed (new ++ bs) rest ∧
    ∀ kind, EndsBlock kind → ∀ span, ∃ header : Header,
      (header.isFault = faulty ∧ header.braces = new) ∧
      ∀ tail, kindOf tail = kind → Header.spanOf tail = span → f (ts ++ tail) = (header, rest ++ tail)

/-- The rest of a block begins with an impl whose header does not end in the block: after its generics there
is neither a body nor a where clause nor a semicolon. -/
def RunsOver (ts : List Token) : Prop :=
  ∃ t rest, Header.qualifiers ts = (false, t :: rest) ∧ t.kind = .keyword .implKw ∧
    (splitHeader 0 (skipGenerics rest)).2 = []

theorem follows_append {tail : List Token} (h : EndsBlock (kindOf tail))
    (rest : List Token) : Follows rest (rest ++ tail) := by
  cases rest with
  | nil => exact h.imp id fun h => ⟨rfl, h⟩
  | cons t rest => exact .inl rfl

/-- What the next token is does not depend on what follows the block. -/
theorem kindOf_append {tail : List Token} (h : EndsBlock (kindOf tail))
    (ts : List Token) {kind : Token.Kind} (he : kind ≠ .eof) (hb : kind ≠ .closing .brace) :
    kindOf (ts ++ tail) = kind ↔ kindOf ts = kind :=
  (follows_append h ts).kindOf_eq_iff he hb

theorem Skips.exists_left {skip : List Token → List Token} {bs : List Bracket} {ts : List Token}
    (hskip : Skips skip bs ts) (hbs : bs.count .brace = 0) : ∃ rest bs, rest <:+ ts ∧
      bs.count .brace = 0 ∧ Closed bs rest ∧ ∀ tail, EndsBlock (kindOf tail) →
        skip (ts ++ tail) = rest ++ tail := by
  obtain ⟨used, rest, bs', rfl, hle, hrest, hskip⟩ := hskip
  refine ⟨rest, bs', List.suffix_append _ _, by omega, hrest, fun tail htail => ?_⟩
  rw [List.append_assoc, hskip used _ rfl (follows_append htail rest)]

namespace Stays

variable {f g : List Token → Header × List Token} {bs : List Bracket} {ts : List Token}

theorem congr (h : Stays g ts)
    (hfg : ∀ tail, EndsBlock (kindOf tail) → f (ts ++ tail) = g (ts ++ tail)) :
    Stays f ts := by
  obtain ⟨faulty, new, rest, bs, hsuffix, hbs, hrest, hg⟩ := h
  refine ⟨faulty, new, rest, bs, hsuffix, hbs, hrest, fun kind hkind span => ?_⟩
  obtain ⟨a, ha, hg⟩ := hg kind hkind span
  exact ⟨a, ha, fun tail htail hspan => (hfg tail (htail ▸ hkind)).trans (hg tail htail hspan)⟩

/-- A token is passed over, and then `g` reads the tokens after it. -/
theorem cons {t : Token} (h : Stays g ts)
    (hfg : ∀ tail, EndsBlock (kindOf tail) → f (t :: (ts ++ tail)) = g (ts ++ tail)) :
    Stays f (t :: ts) := by
  obtain ⟨faulty, new, rest, bs, hsuffix, hbs, hrest, hg⟩ := h
  refine ⟨faulty, new, rest, bs, hsuffix.trans (List.suffix_cons t ts), hbs, hrest,
    fun kind hkind span => ?_⟩
  obtain ⟨a, ha, hg⟩ := hg kind hkind span
  exact ⟨a, ha, fun tail htail hspan => (hfg tail (htail ▸ hkind)).trans (hg tail htail hspan)⟩

/-- The reading stops here, perhaps with a fault that shows the token after the block. -/
theorem here (hbs : bs.count .brace = 0) (h : Closed bs ts) {faulty : Bool}
    (a : Token.Kind → Span → Header)
    (ha : ∀ kind span, (a kind span).isFault = faulty ∧ (a kind span).braces = [])
    (hf : ∀ tail, EndsBlock (kindOf tail) →
      f (ts ++ tail) = (a (kindOf (ts ++ tail)) (Header.spanOf (ts ++ tail)), ts ++ tail)) :
    Stays f ts := by
  refine ⟨faulty, [], ts, bs, List.suffix_refl _, hbs, h, fun kind hkind span => ?_⟩
  cases ts with
  | nil =>
    refine ⟨a kind span, ha kind span, fun tail htail hspan => ?_⟩
    rw [hf tail (htail ▸ hkind), List.nil_append, htail, hspan]
  | cons t ts => exact ⟨a t.kind t.span, ha _ _, fun tail htail _ => hf tail (htail ▸ hkind)⟩

/-- A part that is passed over. -/
theorem of_skips {skip : List Token → List Token} (hskip : Skips skip bs ts) (hbs : bs.count .brace = 0)
    {a : Header} (ha : a.braces = []) : Stays (fun us => (a, skip us)) ts := by
  obtain ⟨rest, bs', hsuffix, hbs', hrest, hleft⟩ := hskip.exists_left hbs
  refine ⟨a.isFault, [], rest, bs', hsuffix, hbs', hrest, fun kind hkind span =>
    ⟨a, ⟨rfl, ha⟩, fun tail htail _ => ?_⟩⟩
  exact congrArg (a, ·) (hleft tail (htail ▸ hkind))

theorem after_skips {skip : List Token → List Token} (hskip : Skips skip bs ts)
    (hbs : bs.count .brace = 0)
    (hf : ∀ bs rest, rest <:+ ts → bs.count .brace = 0 → Closed bs rest → skip ts = rest →
      Stays f rest) : Stays (fun us => f (skip us)) ts := by
  obtain ⟨rest, bs', hsuffix, hbs', hrest, hleft⟩ := hskip.exists_left hbs
  have hself : skip ts = rest := by simpa using hleft [] (.inl rfl)
  obtain ⟨faulty, new, rest', bs₂, hsuffix', hbs₂, hrest', hf⟩ := hf bs' rest hsuffix hbs' hrest hself
  refine ⟨faulty, new, rest', bs₂, hsuffix'.trans hsuffix, hbs₂, hrest', fun kind hkind span => ?_⟩
  obtain ⟨a, ha, hf⟩ := hf kind hkind span
  exact ⟨a, ha, fun tail htail hspan =>
    (congrArg f (hleft tail (htail ▸ hkind))).trans (hf tail htail hspan)⟩

/-- A choice that the next token decides. -/
theorem ite {kind : Token.Kind} (hf : kindOf ts = kind → Stays f ts)
    (hg : kindOf ts ≠ kind → Stays g ts) (he : kind ≠ .eof) (hb : kind ≠ .closing .brace) :
    Stays (fun us => if kindOf us = kind then f us else g us) ts := by
  by_cases hts : kindOf ts = kind
  · exact (hf hts).congr fun tail htail => if_pos ((kindOf_append htail ts he hb).mpr hts)
  · exact (hg hts).congr fun tail htail => if_neg fun heq => hts ((kindOf_append htail ts he hb).mp heq)

end Stays

section

variable {bs : List Bracket} {ts : List Token}

/-- The fault that an item has no name. -/
theorem Closed.stays_unnamed (h : Closed bs ts) (hbs : bs.count .brace = 0)
    (hname : ¬∃ name, kindOf ts = .name name)
    (go : List Token → String → List Token → Header × List Token) :
    Stays (fun us => Header.named us (go us)) ts := by
  refine .here hbs h (fun kind span => .fault ⟨.expectedName kind, span⟩) (fun _ _ => ⟨rfl, rfl⟩)
    fun tail htail => ?_
  unfold Header.named
  split
  · next name span rest heq =>
    have hkind := congrArg kindOf heq
    exact absurd ⟨name, (kindOf_append htail ts (by simp) (by simp)).mp hkind⟩ hname
  · rfl

theorem Closed.stays_named {go : String → List Token → Header × List Token} (h : Closed bs ts)
    (hbs : bs.count .brace = 0)
    (hgo : ∀ name bs us, bs.count .brace = 0 → Closed bs us → Stays (go name) us) :
    Stays (fun us => Header.named us go) ts := by
  by_cases hname : ∃ name, kindOf ts = .name name
  · obtain ⟨name, hname⟩ := hname
    obtain ⟨⟨_, span⟩, ts, rfl, rfl⟩ := exists_cons_of_kindOf hname (by simp)
    exact (hgo name bs ts hbs (h.tail rfl)).cons fun _ _ => rfl
  · exact h.stays_unnamed hbs hname fun _ => go

/-- A header with a body leaves off after its brace. -/
theorem Closed.stays_withMembers (h : Closed bs ts) (hbs : bs.count .brace = 0) (kind : Element.Kind)
    (name : String) : Stays (Header.withMembers kind name) ts := by
  have hlast (bs : List Bracket) (us : List Token) (_ : us <:+ ts) (hbs : bs.count .brace = 0)
      (h : Closed bs us) (_ : Outline.scan endsItem 0 ts = us) :
      Stays (fun us => if kindOf us = .opening .brace
        then (.body kind name, us.drop 1) else (.leaf kind name, Header.dropSemi us)) us := by
    refine .ite (fun hopening => ?_) (fun _ => .of_skips h.dropSemi hbs rfl) (by simp) (by simp)
    obtain ⟨t, us, rfl, ht⟩ := exists_cons_of_kindOf hopening (by simp)
    exact ⟨false, [.brace], us, bs, List.suffix_cons t us, hbs, h.inside ht, fun _ _ _ =>
      ⟨.body kind name, ⟨rfl, rfl⟩, fun _ _ _ => rfl⟩⟩
  have hscan : Skips (Outline.scan endsItem 0) bs ts := h.skips_scan rfl
  refine (Stays.after_skips hscan hbs hlast).congr fun tail _ => ?_
  by_cases hopening : kindOf (Outline.scan endsItem 0 (ts ++ tail)) = .opening .brace <;>
    simp [Header.withMembers, findBody_eq_scan, pastHeader, hopening]

/-- What follows the name of a module, which the tokens `us` begin with. -/
def Header.afterModuleName (us : List Token) (name : String) (rest : List Token) : Header × List Token :=
  match kindOf rest with
  | .symbol .semi => (.outside name (spanOf us), rest.drop 1)
  | .opening .brace => (.body .module name, rest.drop 1)
  | found => (.bareModule name ⟨.expectedModuleBody found, spanOf rest⟩, rest)

theorem Closed.stays_module {source : String} {t : Token} (ht : t.kind = .keyword .modKw)
    (h : Closed bs ts) (hbs : bs.count .brace = 0) :
    Stays (Header.ofKeyword source t) ts := by
  by_cases hname : ∃ name, kindOf ts = .name name
  · obtain ⟨name, hname⟩ := hname
    obtain ⟨word, ts, rfl, hword⟩ := exists_cons_of_kindOf hname (by simp)
    have hread := @Outcome.ofKeyword_module source name t word ht hword
    have hus : Closed bs ts := h.tail (by rw [hword]; rfl)
    by_cases hsemi : kindOf ts = .symbol .semi
    · obtain ⟨v, ts, rfl, hv⟩ := exists_cons_of_kindOf hsemi (by simp)
      refine ⟨false, [], ts, bs, List.suffix_append [word, v] ts, hbs, hus.tail (by rw [hv]; rfl),
        fun kind _ span => ⟨.outside name word.span, ⟨rfl, rfl⟩, fun tail _ _ => ?_⟩⟩
      rw [List.cons_append, hread, List.cons_append, kindOf_cons, hv]
      rfl
    · by_cases hbrace : kindOf ts = .opening .brace
      · obtain ⟨v, ts, rfl, hv⟩ := exists_cons_of_kindOf hbrace (by simp)
        refine ⟨false, [.brace], ts, bs, List.suffix_append [word, v] ts, hbs, hus.inside hv,
          fun kind _ span => ⟨.body .module name, ⟨rfl, rfl⟩, fun tail _ _ => ?_⟩⟩
        rw [List.cons_append, hread, List.cons_append, kindOf_cons, hv]
        rfl
      · have hbare : Stays (fun us => (.bareModule name
            ⟨.expectedModuleBody (kindOf us), Header.spanOf us⟩, us)) ts :=
          .here hbs hus (fun kind span => .bareModule name ⟨.expectedModuleBody kind, span⟩)
            (fun _ _ => ⟨rfl, rfl⟩) fun _ _ => rfl
        refine hbare.cons fun tail htail => ?_
        rw [hread]
        split
        · next hk => exact absurd ((kindOf_append htail ts (by simp) (by simp)).mp hk) hsemi
        · next hk => exact absurd ((kindOf_append htail ts (by simp) (by simp)).mp hk) hbrace
        · rfl
  · refine (h.stays_unnamed hbs hname Header.afterModuleName).congr fun tail _ => ?_
    obtain ⟨_, place⟩ := t
    subst ht
    rfl

theorem Closed.stays_impl {source : String} {t : Token} (ht : t.kind = .keyword .implKw)
    (h : Closed bs ts) (hbs : bs.count .brace = 0)
    (hends : (splitHeader 0 (Outline.skipGenerics ts)).2 ≠ []) :
    Stays (Header.ofKeyword source t) ts := by
  obtain ⟨generics, afterGenerics, bs₁, rfl, hle₁, h₁, -, hgenerics⟩ := h.skipGenerics
  have hscan : Closed ([] ++ bs₁) afterGenerics := h₁
  obtain ⟨header, rest, bs₂, rfl, hsuffix, h₂, hkind, hheader⟩ := hscan.scan endsHeader
  have hbs₂ : bs₂.count .brace = 0 := by
    have := hsuffix.sublist.count_le (.brace : Bracket)
    omega
  have hrest : rest ≠ [] := by
    rintro rfl
    rw [List.append_nil] at hgenerics hends
    have hskip := hgenerics generics header rfl rfl
    have hend := hheader header [] rfl (.inl rfl)
    rw [List.append_nil] at hend
    rw [hskip, splitHeader_eq_scan] at hends
    exact hends hend
  have hmembers := h₂.stays_withMembers hbs₂ .impl (Header.headerName source header)
  obtain ⟨faulty, new, left, bs₃, hsuffix₃, hbs₃, hleft, hread⟩ := hmembers
  refine ⟨faulty, new, left, bs₃, hsuffix₃.trans ?_, hbs₃, hleft, fun kind hmem span => ?_⟩
  · exact (List.suffix_append header rest).trans (List.suffix_append generics _)
  · obtain ⟨a, ha, hread⟩ := hread kind hmem span
    refine ⟨a, ha, fun tail htail hspan => ?_⟩
    have hnext : kindOf (rest ++ tail) = kindOf rest :=
      (follows_append (htail ▸ hmem) rest).resolve_right fun h => hrest h.1
    have hsplit := splitHeader_eq_of_scan
      (hheader header (rest ++ tail) rfl (.inr (hnext ▸ hkind hrest)))
    have hskip := hgenerics generics (header ++ (rest ++ tail)) rfl
      ((SameKinds.follows rfl (.inl hnext)).resolve_right fun h =>
        hrest (List.append_eq_nil_iff.mp h.1).2)
    rw [List.append_assoc, List.append_assoc, Header.ofKeyword]
    simp only [ht]
    rw [hskip, hsplit]
    exact hread tail htail hspan

/-- An item is read in its block, unless it is an impl whose header does not end there. -/
theorem Closed.stays_ofKeyword {source : String} {t : Token} (h : Closed bs (t :: ts))
    (hbs : bs.count .brace = 0)
    (hends : t.kind = .keyword .implKw → (splitHeader 0 (Outline.skipGenerics ts)).2 ≠ []) :
    Stays (fun us => Header.ofKeyword source t (us.drop 1)) (t :: ts) := by
  -- Whatever is no keyword of an item is passed over.
  have passed (hread : ∀ us, Header.ofKeyword source t us = (.nothing, Outline.skipItem 0 (t :: us))) :
      Stays (fun us => Header.ofKeyword source t (us.drop 1)) (t :: ts) :=
    (Stays.of_skips h.skipItem hbs rfl).congr fun tail _ => hread (ts ++ tail)
  have after (ht : t.kind.isPlain) {g : List Token → Header × List Token}
      (hg : Closed bs ts → Stays g ts) (hread : ∀ us, Header.ofKeyword source t us = g us) :
      Stays (fun us => Header.ofKeyword source t (us.drop 1)) (t :: ts) :=
    (hg (h.tail ht)).cons fun tail _ => hread (ts ++ tail)
  have leaf (kind : Element.Kind) {skip : List Token → List Token} {us : List Token} {bs : List Bracket}
      (hskip : ∀ bs us, Closed bs us → Skips skip bs us) (hbs : bs.count .brace = 0) (h : Closed bs us) :
      Stays (fun us => Header.named us fun name rest => (.leaf kind name, skip rest)) us :=
    h.stays_named hbs fun name bs us hbs h => .of_skips (hskip bs us h) hbs rfl
  have item (bs : List Bracket) (us : List Token) (h : Closed bs us) := h.skipItem
  have semi (bs : List Bracket) (us : List Token) (h : Closed bs us) := h.skipToSemi
  cases hkind : t.kind with
  | keyword word =>
    have hplain : t.kind.isPlain := by rw [hkind]; rfl
    cases word with
    | modKw => exact after hplain (fun h => h.stays_module hkind hbs) fun _ => rfl
    | fnKw => exact after hplain (leaf .function item hbs) fun us => by simp [Header.ofKeyword, hkind]
    | structKw => exact after hplain (leaf .struct item hbs) fun us => by simp [Header.ofKeyword, hkind]
    | enumKw => exact after hplain (leaf .enum item hbs) fun us => by simp [Header.ofKeyword, hkind]
    | unionKw => exact after hplain (leaf .union item hbs) fun us => by simp [Header.ofKeyword, hkind]
    | traitKw =>
      exact after hplain (fun h => h.stays_named hbs fun name bs us hbs h =>
        h.stays_withMembers hbs .trait name) fun us => by simp [Header.ofKeyword, hkind]
    | implKw => exact after hplain (fun h => h.stays_impl hkind hbs (hends hkind)) fun _ => rfl
    | constKw =>
      exact after hplain (fun h => .after_skips h.dropMut hbs fun bs us _ hbs h _ =>
        leaf .constant semi hbs h) fun us => by simp [Header.ofKeyword, hkind]
    | staticKw =>
      exact after hplain (fun h => .after_skips h.dropMut hbs fun bs us _ hbs h _ =>
        leaf .static semi hbs h) fun us => by simp [Header.ofKeyword, hkind]
    | typeKw => exact after hplain (leaf .typeAlias semi hbs) fun us => by simp [Header.ofKeyword, hkind]
    | macroRulesKw =>
      have hdrop (bs : List Bracket) (us : List Token) (h : Closed bs us) :
          Skips (Header.dropSemi ∘ Outline.skipItem 0) bs us := h.skipItem.comp fun bs us h => h.dropSemi
      have hbang (h : Closed bs ts) : Stays (fun us => if kindOf us = .symbol .bang
          then Header.named (us.drop 1) fun name rest =>
            (.leaf .macroDef name, (Header.dropSemi ∘ Outline.skipItem 0) rest)
          else (.nothing, Outline.skipItem 0 us)) ts := by
        refine .ite (fun hbang => ?_) (fun _ => .of_skips h.skipItem hbs rfl) (by simp) (by simp)
        obtain ⟨v, ts, rfl, hv⟩ := exists_cons_of_kindOf hbang (by simp)
        exact (leaf .macroDef hdrop hbs (h.tail (by rw [hv]; rfl))).cons fun _ _ => rfl
      exact after hplain hbang fun us => by simp [Header.ofKeyword, hkind, Outline.skipItem]
    | useKw =>
      refine (Stays.of_skips (a := Header.nothing) h.skipToSemi hbs rfl).congr fun tail _ => ?_
      simp [Header.ofKeyword, hkind]
    | _ => exact passed fun us => by simp [Header.ofKeyword, hkind]
  | _ => exact passed fun us => by simp [Header.ofKeyword, hkind]

theorem RunsOver.of_qualifiers_eq {us vs : List Token} (h : Header.qualifiers us = Header.qualifiers vs)
    (hus : RunsOver us) : RunsOver vs := by
  obtain ⟨t, rest, hus⟩ := hus
  exact ⟨t, rest, h ▸ hus⟩

/-- **An item is read in its block.** What follows the block does not matter, beyond the token that ends it,
unless the header of an impl does not end in the block. -/
theorem Closed.stays_read {source : String} (h : Closed bs ts) (hbs : bs.count .brace = 0)
    (hends : ¬RunsOver ts) : Stays (Header.read source) ts := by
  induction hn : ts.length using Nat.strong_induction_on generalizing bs ts with
  | _ n ih =>
    subst hn
    cases ts with
    | nil =>
      refine .here hbs h (fun _ _ => .nothing) (fun _ _ => ⟨rfl, rfl⟩) fun tail htail => ?_
      cases tail with
      | nil => simp [Header.read, Header.qualifiers]
      | cons u tail =>
        rcases htail with hu | hu <;> rw [kindOf_cons] at hu <;>
          rw [List.nil_append, Header.read_keyword (by simp [Header.qualifiers, hu])] <;>
          simp [Header.ofKeyword, Outline.skipItem, hu]
    | cons t ts =>
      have next (ht : t.kind.isPlain) (hsame : Header.qualifiers (t :: ts) = Header.qualifiers ts) :
          Stays (Header.read source) ts :=
        ih ts.length (Nat.lt_succ_self _) (h.tail ht) hbs
          (fun hover => hends (hover.of_qualifiers_eq hsame.symm)) rfl
      have past {skip : List Token → List Token} (hskip : Skips skip bs ts)
          (hsame : Header.qualifiers (t :: ts) = Header.qualifiers (skip ts)) :
          Stays (fun us => Header.read source (skip us)) ts :=
        .after_skips hskip hbs fun bs rest hsuffix hbs hrest hself =>
          ih rest.length (Nat.lt_succ_of_le hsuffix.length_le) hrest hbs
            (fun hover => hends (hover.of_qualifiers_eq (hself ▸ hsame.symm))) rfl
      have stop (hread : ∀ tail, EndsBlock (kindOf tail) →
          Header.qualifiers (t :: (ts ++ tail)) = (false, t :: (ts ++ tail))) :
          Stays (Header.read source) (t :: ts) := by
        have hself : Header.qualifiers (t :: ts) = (false, t :: ts) := by
          simpa using hread [] (.inl rfl)
        have hkeyword : Stays (fun us => Header.ofKeyword source t (us.drop 1)) (t :: ts) :=
          h.stays_ofKeyword hbs fun ht hnil => hends ⟨t, ts, hself, ht, hnil⟩
        exact hkeyword.congr fun tail htail => Header.read_keyword (hread tail htail)
      cases hkind : t.kind with
      | name word =>
        by_cases hdefault : word = "default" ∧ kindOf ts = .keyword .fnKw
        · exact (next (by rw [hkind]; rfl) (by simp [Header.qualifiers, hkind, hdefault])).cons
            fun tail htail => by simp [Header.read_name hkind, kindOf_append htail, hdefault]
        · exact stop fun tail htail => by simp [Header.qualifiers, hkind, kindOf_append htail, hdefault]
      | keyword word =>
        have hplain : t.kind.isPlain := by rw [hkind]; rfl
        cases word with
        | pubKw =>
          refine (Stays.ite
            (fun (hparen : kindOf ts = .opening .paren) => past ((h.tail hplain).skipGroup_zero hparen)
              (by simp [Header.qualifiers, hkind, hparen]))
            (fun hparen => next hplain (by simp [Header.qualifiers, hkind, hparen]))
            (by simp) (by simp)).cons fun tail _ => Header.read_visibility hkind
        | unsafeKw =>
          exact (next hplain (by simp [Header.qualifiers, hkind])).cons fun tail _ =>
            Header.read_congr (by simp [Header.qualifiers, hkind])
        | asyncKw =>
          exact (next hplain (by simp [Header.qualifiers, hkind])).cons fun tail _ =>
            Header.read_congr (by simp [Header.qualifiers, hkind])
        | constKw =>
          by_cases hqualifies :
              kindOf ts ∈ [.keyword .fnKw, .keyword .unsafeKw, .keyword .asyncKw, .keyword .externKw]
          · refine (next hplain (by simp only [Header.qualifiers, hkind, hqualifies, if_true])).cons
              fun tail htail => Header.read_congr ?_
            simp_all [Header.qualifiers, kindOf_append htail]
          · exact stop fun tail htail => by simp_all [Header.qualifiers, kindOf_append htail]
        | externKw =>
          by_cases hcrate : kindOf ts = .keyword .crateKw
          · have hsemi : Stays (fun us => (.nothing, Outline.skipToSemi 0 us)) ts :=
              .of_skips (h.tail hplain).skipToSemi hbs rfl
            exact hsemi.cons fun tail htail => by
              simp [Header.read_extern hkind, kindOf_append htail, hcrate]
          · have hblock (bs : List Bracket) (us : List Token) (hsuffix : us <:+ ts)
                (hbs : bs.count .brace = 0) (h : Closed bs us) (hself : Header.dropLiteral ts = us) :
                Stays (fun us => if kindOf us = .opening .brace then (.nothing, Outline.skipGroup 0 us)
                  else Header.read source us) us := by
              refine .ite (fun hbrace => .of_skips (h.skipGroup_zero hbrace) hbs rfl) (fun hbrace => ?_)
                (by simp) (by simp)
              refine ih us.length (Nat.lt_succ_of_le hsuffix.length_le) h hbs (fun hover => hends ?_) rfl
              exact hover.of_qualifiers_eq (by simp [Header.qualifiers, hkind, hcrate, hself, hbrace])
            exact (Stays.after_skips (h.tail hplain).dropLiteral hbs hblock).cons fun tail htail => by
              simp [Header.read_extern hkind, kindOf_append htail, hcrate]
        | _ => exact stop fun tail _ => by simp [Header.qualifiers, hkind]
      | _ => exact stop fun tail _ => by simp [Header.qualifiers, hkind]

end

end Doctest.Outline
