import Doctest.Proofs.Outline.Closed
import Doctest.Proofs.Token.Copies

/-! The header of an item is read from its own tokens. What follows them, and the source that they stand
in, change neither what the item declares nor where the reading goes on. -/
namespace Doctest.Outline

namespace Copies

variable {source other : String} {ts us as bs : List Token}

theorem sameKinds (h : Copies source other ts us) : SameKinds ts us :=
  h.kinds

theorem refl (source : String) (ts : List Token) : Copies source source ts ts :=
  ⟨rfl, fun _ _ => rfl⟩

theorem exists_append (h : Copies source other (as ++ bs) us) : ∃ as' bs', us = as' ++ bs' ∧
    Copies source other as as' ∧ Copies source other bs bs' := by
  obtain ⟨as', bs', rfl, has, hbs⟩ := h.sameKinds.exists_append
  have hlen : as.length = as'.length := by simpa using congrArg List.length has
  refine ⟨as', bs', rfl, ⟨has, fun n k => ?_⟩, ⟨hbs, fun n k => ?_⟩⟩
  · have hname := h.headerName_eq n (min k (as.length - n))
    have hcut {cs ds : List Token} (hlen : as.length = cs.length) :
        ((cs ++ ds).drop n).take (min k (as.length - n)) = (cs.drop n).take k := by
      rw [List.drop_append, List.take_append_of_le_length (by simp only [List.length_drop]; omega), List.take_eq_take_iff]
      simp [hlen]
    rwa [hcut rfl, hcut hlen] at hname
  · have hname := h.headerName_eq (as.length + n) k
    rwa [List.drop_length_add_append, hlen, List.drop_length_add_append] at hname

theorem headerName (h : Copies source other ts us) :
    Header.headerName source ts = Header.headerName other us := by
  have hlen : ts.length = us.length := by simpa using congrArg List.length h.kinds
  have hname := h.headerName_eq 0 ts.length
  rwa [List.drop_zero, List.drop_zero, List.take_length, hlen, List.take_length] at hname

theorem exists_cons {t : Token} (h : Copies source other (t :: ts) us) : ∃ u us', us = u :: us' ∧
    u.kind = t.kind ∧ Copies source other ts us' := by
  obtain ⟨u, us', rfl, hkind, -⟩ := h.sameKinds.exists_cons
  have happend : Copies source other ([t] ++ ts) (u :: us') := h
  obtain ⟨as', bs', heq, has, hbs⟩ := happend.exists_append
  have hlen : as'.length = 1 := by simpa [eq_comm] using congrArg List.length has.kinds
  obtain ⟨v, rfl⟩ := List.length_eq_one_iff.mp hlen
  obtain ⟨rfl, rfl⟩ := List.cons.inj heq
  exact ⟨u, us', rfl, hkind, hbs⟩

end Copies

/-- What `f` makes of these tokens of the source: the result after some of them, and the same from copies
of those whatever follows. Of the braces that are open then, all but `more` were open before. -/
def Reads {α : Type} (source : String) (f : String → List Token → α × List Token) (a : α) (more : Nat)
    (bs : List Bracket) (ts : List Token) : Prop :=
  ∃ used rest bs', ts = used ++ rest ∧ bs'.count .brace ≤ bs.count .brace + more ∧ Closed bs' rest ∧
    ∀ other used' others, Copies source other used used' → Follows rest others →
      f other (used' ++ others) = (a, others)

theorem follows_append_eof {stop : Token} (hstop : stop.kind = .eof) (rest : List Token) :
    Follows rest (rest ++ [stop]) := by
  cases rest with
  | nil => exact .inl hstop
  | cons t rest => exact .inl rfl

namespace Reads

variable {α : Type} {source : String} {f g : String → List Token → α × List Token} {a : α} {more : Nat}
  {bs : List Bracket} {ts : List Token}

theorem congr (hg : Reads source g a more bs ts)
    (hfg : ∀ other us, Follows ts us → f other us = g other us) : Reads source f a more bs ts := by
  obtain ⟨used, rest, bs', rfl, hle, hrest, hg⟩ := hg
  refine ⟨used, rest, bs', rfl, hle, hrest, fun other used' others hcopies hothers => ?_⟩
  rw [hfg other _ (hcopies.sameKinds.follows hothers), hg other used' others hcopies hothers]

theorem of_skips {skip : List Token → List Token} (h : Skips skip bs ts) (a : α) :
    Reads source (fun _ ts => (a, skip ts)) a 0 bs ts := by
  obtain ⟨used, rest, bs', rfl, hle, hrest, hskip⟩ := h
  refine ⟨used, rest, bs', rfl, hle, hrest, fun other used' others hcopies hothers => ?_⟩
  dsimp only
  rw [hskip used' others hcopies.sameKinds hothers]

end Reads

namespace Header

def isFault : Header → Bool
  | fault _ | bareModule _ _ => true
  | _ => false

/-- The blocks that a header opens. -/
def blocks : Header → Nat
  | body _ _ => 1
  | _ => 0

def isOutside : Header → Bool
  | outside _ _ => true
  | _ => false

end Header

/-- Of these tokens `f` makes a module in another file. With an opening brace in place of the semicolon it
makes a module with a body of them. -/
def Declares (source : String) (f : String → List Token → Header × List Token) (name : String)
    (span : Span) (bs : List Bracket) (ts : List Token) : Prop :=
  ∃ used word semi rest bs', ts = used ++ word :: semi :: rest ∧ word.span = span ∧
    semi.kind = .symbol .semi ∧ bs'.count .brace ≤ bs.count .brace ∧ Closed bs' rest ∧
    (∀ stop : Token, stop.kind = .eof → f source (ts ++ [stop]) = (.outside name span, rest ++ [stop])) ∧
    ∀ other used' opening others, Copies source other (used ++ [word]) used' →
      opening.kind = .opening .brace → f other (used' ++ opening :: others) = (.body .module name, others)

/-- The header of an impl lasts up to the end of the file. Then a brace closes that was open before, or
the file does not end with a body or a semicolon. -/
def RunsOut (source : String) (f : String → List Token → Header × List Token) (bs : List Bracket)
    (ts : List Token) : Prop :=
  ts ≠ [] ∧ (bs.count .brace = 0 → ∀ t ∈ ts.getLast?, t.kind ∉ [.symbol .semi, .closing .brace]) ∧
    ∀ stop : Token, stop.kind = .eof → ∃ name, f source (ts ++ [stop]) = (.leaf .impl name, [stop])

theorem SameKinds.follows_append {used used' others rest : List Token} {word : Token}
    (h : SameKinds (used ++ [word]) used') : Follows (used ++ word :: rest) (used' ++ others) := by
  obtain ⟨us, vs, rfl, hus, hvs⟩ := h.exists_append
  obtain ⟨v, vs, rfl, hv, -⟩ := hvs.exists_cons
  rw [List.append_assoc]
  exact hus.follows (.inl hv)

/-- What the reading of a header comes to. -/
inductive Outcome (source : String) (f : String → List Token → Header × List Token) (bs : List Bracket)
    (ts : List Token) : Prop
  | fault (h : ∀ stop : Token, stop.kind = .eof → (f source (ts ++ [stop])).1.isFault)
  | reads {header : Header} (hfault : header.isFault = false) (hout : header.isOutside = false)
    (h : Reads source f header header.blocks bs ts)
  | outside {name : String} {span : Span} (h : Declares source f name span bs ts)
  | runsOut (h : RunsOut source f bs ts)

namespace Outcome

variable {source : String} {f g : String → List Token → Header × List Token} {bs : List Bracket}
  {ts : List Token}

/-- Only the tokens themselves and what may stand in their place matter. -/
theorem congr (h : Outcome source g bs ts) (hfg : ∀ other us, Follows ts us → f other us = g other us) :
    Outcome source f bs ts := by
  have heof {stop : Token} (hstop : stop.kind = .eof) : f source (ts ++ [stop]) = g source (ts ++ [stop]) :=
    hfg source _ (follows_append_eof hstop ts)
  cases h with
  | fault h => exact .fault fun stop hstop => by rw [heof hstop]; exact h stop hstop
  | reads hfault hout h => exact .reads hfault hout (h.congr hfg)
  | outside h =>
    obtain ⟨used, word, semi, rest, bs', rfl, hspan, hsemi, hle, hrest, hfile, hbody⟩ := h
    refine .outside ⟨used, word, semi, rest, bs', rfl, hspan, hsemi, hle, hrest,
      fun stop hstop => by rw [heof hstop]; exact hfile stop hstop,
      fun other used' opening others hcopies hopening => ?_⟩
    rw [hfg other _ hcopies.sameKinds.follows_append, hbody other used' opening others hcopies hopening]
  | runsOut h =>
    obtain ⟨hne, hends, hlast⟩ := h
    exact .runsOut ⟨hne, hends, fun stop hstop => by rw [heof hstop]; exact hlast stop hstop⟩

/-- After tokens that are passed over the outcome is that of what is left. -/
theorem after_prefix {before rest : List Token} {bs' : List Bracket}
    (hle : bs'.count .brace ≤ bs.count .brace)
    (hread : ∀ other before' others, Copies source other before before' → Follows rest others →
      f other (before' ++ others) = g other others)
    (h : Outcome source g bs' rest) : Outcome source f bs (before ++ rest) := by
  have heof {stop : Token} (hstop : stop.kind = .eof) :
      f source (before ++ rest ++ [stop]) = g source (rest ++ [stop]) := by
    rw [List.append_assoc]
    exact hread source before _ (.refl source before) (follows_append_eof hstop rest)
  cases h with
  | fault h => exact .fault fun stop hstop => by rw [heof hstop]; exact h stop hstop
  | reads hfault hout h =>
    obtain ⟨used, rest, bs₂, rfl, hle₂, hrest₂, hg⟩ := h
    refine .reads hfault hout ⟨before ++ used, rest, bs₂, by simp, by omega, hrest₂,
      fun other used' others hcopies hothers => ?_⟩
    obtain ⟨before', used', rfl, hbefore, hused⟩ := hcopies.exists_append
    rw [List.append_assoc, hread other before' _ hbefore (hused.sameKinds.follows hothers),
      hg other used' others hused hothers]
  | outside h =>
    obtain ⟨used, word, semi, rest, bs₂, rfl, hspan, hsemi, hle₂, hrest₂, hfile, hbody⟩ := h
    refine .outside ⟨before ++ used, word, semi, rest, bs₂, by simp, hspan, hsemi, hle₂.trans hle, hrest₂,
      fun stop hstop => (heof hstop).trans (hfile stop hstop),
      fun other used' opening others hcopies hopening => ?_⟩
    rw [List.append_assoc] at hcopies
    obtain ⟨before', used', rfl, hbefore, hused⟩ := hcopies.exists_append
    rw [List.append_assoc, hread other before' _ hbefore hused.sameKinds.follows_append,
      hbody other used' opening others hused hopening]
  | runsOut h =>
    obtain ⟨hne, hends, hlast⟩ := h
    refine .runsOut ⟨by simp [hne], fun hcount t ht => ?_, fun stop hstop => ?_⟩
    · rw [List.getLast?_append_of_ne_nil _ hne] at ht
      exact hends (by omega) t ht
    · obtain ⟨name, hname⟩ := hlast stop hstop
      exact ⟨name, (heof hstop).trans hname⟩

theorem after_skips {skip : List Token → List Token} (hskip : Skips skip bs ts)
    (hf : ∀ bs' rest, rest <:+ ts → Closed bs' rest → Outcome source f bs' rest) :
    Outcome source (fun other ts => f other (skip ts)) bs ts := by
  obtain ⟨before, rest, bs', rfl, hle, hrest, hskip⟩ := hskip
  refine after_prefix hle (fun other before' others hcopies hothers => ?_)
    (hf bs' rest (List.suffix_append _ _) hrest)
  exact congrArg (f other) (hskip before' others hcopies.sameKinds hothers)

/-- A token is passed over, and then `g` reads the tokens after it. -/
theorem cons {t : Token} (ht : t.kind.isPlain) (h : Closed bs (t :: ts))
    (hg : ∀ bs, Closed bs ts → Outcome source g bs ts)
    (hf : ∀ other (u : Token) us, u.kind = t.kind → f other (u :: us) = g other us) :
    Outcome source f bs (t :: ts) := by
  have hread (other : String) (before' others : List Token) (hcopies : Copies source other [t] before')
      (_ : Follows ts others) : f other (before' ++ others) = g other others := by
    obtain ⟨u, us, rfl, hu, hcopies⟩ := hcopies.exists_cons
    obtain rfl := hcopies.sameKinds.nil_left
    exact hf other u others hu
  exact after_prefix (Nat.le_refl _) hread (hg bs (h.tail ht))

/-- A choice that the tokens decide, whatever may stand in their place. -/
theorem ite {p : List Token → Prop} [DecidablePred p] (hp : ∀ us, Follows ts us → (p us ↔ p ts))
    (hf : p ts → Outcome source f bs ts) (hg : ¬p ts → Outcome source g bs ts) :
    Outcome source (fun other us => if p us then f other us else g other us) bs ts := by
  by_cases hts : p ts
  · exact (hf hts).congr fun other us hus => if_pos ((hp us hus).mpr hts)
  · exact (hg hts).congr fun other us hus => if_neg fun heq => hts ((hp us hus).mp heq)

/-- Nothing is declared where tokens are only passed over. -/
theorem nothing {skip : List Token → List Token} (h : Skips skip bs ts) :
    Outcome source (fun _ us => (Header.nothing, skip us)) bs ts :=
  .reads rfl rfl (.of_skips h _)

theorem leaf {skip : List Token → List Token} (h : Skips skip bs ts) (kind : Element.Kind) (name : String) :
    Outcome source (fun _ us => (Header.leaf kind name, skip us)) bs ts :=
  .reads rfl rfl (.of_skips h _)

theorem isFault_named (hname : ¬∃ name, kindOf ts = .name name) {stop : Token} (hstop : stop.kind = .eof)
    (go : String → List Token → Header × List Token) : (Header.named (ts ++ [stop]) go).1.isFault := by
  unfold Header.named
  split
  · next name span rest heq =>
    have hkind := congrArg kindOf heq
    exact absurd ⟨name, ((follows_append_eof hstop ts).kindOf_eq_iff (by simp) (by simp)).mp hkind⟩ hname
  · rfl

theorem named {go : String → String → List Token → Header × List Token} (h : Closed bs ts)
    (hgo : ∀ name bs ts, Closed bs ts → Outcome source (go · name) bs ts) :
    Outcome source (fun other us => Header.named us (go other)) bs ts := by
  by_cases hname : ∃ name, kindOf ts = .name name
  · obtain ⟨name, hname⟩ := hname
    obtain ⟨t, ts, rfl, ht⟩ := exists_cons_of_kindOf hname (by simp)
    refine cons (by rw [ht]; rfl) h (fun bs h => hgo name bs ts h) fun other u us hu => ?_
    obtain ⟨kind, span⟩ := u
    obtain rfl : kind = .name name := hu.trans ht
    rfl
  · exact .fault fun stop hstop => isFault_named hname hstop _

/-- A header with a body leaves off after its brace. -/
theorem withMembers (h : Closed bs ts) (kind : Element.Kind) (name : String) :
    Outcome source (fun _ us => Header.withMembers kind name us) bs ts := by
  have hlast (bs : List Bracket) (ts : List Token) (h : Closed bs ts) :
      Outcome source (fun _ us => if kindOf us = .opening .brace then (.body kind name, us.drop 1)
        else (.leaf kind name, Header.dropSemi us)) bs ts := by
    refine ite (fun us hus => hus.kindOf_eq_iff (by simp) (by simp)) (fun hopening => ?_)
      fun _ => leaf h.dropSemi kind name
    obtain ⟨t, ts, rfl, ht⟩ := exists_cons_of_kindOf hopening (by simp)
    have hone : bs.count .brace + 1 = (Bracket.brace :: bs).count .brace := by simp
    have hreads : Reads source (fun _ us => (Header.body kind name, us.drop 1)) (.body kind name)
        (Header.body kind name).blocks bs (t :: ts) := by
      refine ⟨[t], ts, .brace :: bs, rfl, hone.ge, h.inside ht, fun other used' others hcopies _ => ?_⟩
      obtain ⟨u, used', rfl, -, hcopies⟩ := hcopies.exists_cons
      obtain rfl := hcopies.sameKinds.nil_left
      rfl
    exact .reads rfl rfl hreads
  have hscan : Skips (scan endsItem 0) bs ts := h.skips_scan rfl
  refine (after_skips hscan fun bs' rest _ h => hlast bs' rest h).congr fun other us _ => ?_
  by_cases hopening : kindOf (scan endsItem 0 us) = .opening .brace <;>
    simp [Header.withMembers, findBody_eq_scan, pastHeader, hopening]

theorem ofKeyword_module {other name : String} {u v : Token} (hu : u.kind = .keyword .modKw)
    (hv : v.kind = .name name) (us : List Token) : Header.ofKeyword other u (v :: us) =
      match kindOf us with
      | .symbol .semi => (.outside name v.span, us.drop 1)
      | .opening .brace => (.body .module name, us.drop 1)
      | found => (.bareModule name ⟨.expectedModuleBody found, Header.spanOf us⟩, us) := by
  obtain ⟨_, place⟩ := u
  obtain ⟨_, span⟩ := v
  subst hu hv
  rfl

section

variable {t word : Token} {name : String} (ht : t.kind = .keyword .modKw) (hword : word.kind = .name name)
  (hf : ∀ other (u : Token) us, u.kind = t.kind → f other (u :: us) = Header.ofKeyword other u us)
include ht hword hf

theorem module_outside {v : Token} (hv : v.kind = .symbol .semi) (h : Closed bs (v :: ts)) :
    Outcome source f bs (t :: word :: v :: ts) := by
  have hdeclares : Declares source f name word.span bs (t :: word :: v :: ts) := by
    refine ⟨[t], word, v, ts, bs, rfl, rfl, hv, Nat.le_refl _, h.tail (by rw [hv]; rfl),
      fun stop _ => ?_, fun other used' opening others hcopies hopening => ?_⟩
    · rw [List.cons_append, List.cons_append, List.cons_append, hf source t _ rfl,
        ofKeyword_module ht hword, kindOf_cons, hv]
      rfl
    · obtain ⟨u, used', rfl, hu, hcopies⟩ := hcopies.exists_cons
      obtain ⟨w, used', rfl, hw, hcopies⟩ := hcopies.exists_cons
      obtain rfl := hcopies.sameKinds.nil_left
      rw [List.cons_append, List.cons_append, List.nil_append, hf other u _ hu,
        ofKeyword_module (hu.trans ht) (hw.trans hword), kindOf_cons, hopening]
      rfl
  exact .outside hdeclares

theorem module_body {v : Token} (hv : v.kind = .opening .brace) (h : Closed bs (v :: ts)) :
    Outcome source f bs (t :: word :: v :: ts) := by
  have hone : bs.count .brace + 1 = (Bracket.brace :: bs).count .brace := by simp
  have hreads : Reads source f (.body .module name) (Header.body .module name).blocks bs
      (t :: word :: v :: ts) := by
    refine ⟨[t, word, v], ts, .brace :: bs, rfl, hone.ge, h.inside hv,
      fun other used' others hcopies _ => ?_⟩
    obtain ⟨u, used', rfl, hu, hcopies⟩ := hcopies.exists_cons
    obtain ⟨w, used', rfl, hw, hcopies⟩ := hcopies.exists_cons
    obtain ⟨x, used', rfl, hx, hcopies⟩ := hcopies.exists_cons
    obtain rfl := hcopies.sameKinds.nil_left
    rw [List.cons_append, List.cons_append, List.cons_append, List.nil_append, hf other u _ hu,
      ofKeyword_module (hu.trans ht) (hw.trans hword), kindOf_cons, hx, hv]
    rfl
  exact .reads rfl rfl hreads

theorem module_bare (hsemi : kindOf ts ≠ .symbol .semi) (hbrace : kindOf ts ≠ .opening .brace) :
    Outcome source f bs (t :: word :: ts) := by
  refine .fault fun stop hstop => ?_
  have hkind := follows_append_eof hstop ts
  rw [List.cons_append, List.cons_append, hf source t _ rfl, ofKeyword_module ht hword]
  split
  · next hk => exact absurd ((hkind.kindOf_eq_iff (by simp) (by simp)).mp hk) hsemi
  · next hk => exact absurd ((hkind.kindOf_eq_iff (by simp) (by simp)).mp hk) hbrace
  · rfl

end

/-- The name of a module is followed by a semicolon or by the module's body. -/
theorem module {t : Token} (ht : t.kind = .keyword .modKw) (h : Closed bs (t :: ts))
    (hf : ∀ other (u : Token) us, u.kind = t.kind → f other (u :: us) = Header.ofKeyword other u us) :
    Outcome source f bs (t :: ts) := by
  by_cases hname : ∃ name, kindOf ts = .name name
  · obtain ⟨name, hname⟩ := hname
    obtain ⟨word, ts, rfl, hword⟩ := exists_cons_of_kindOf hname (by simp)
    have hus : Closed bs ts := (h.tail (by rw [ht]; rfl)).tail (by rw [hword]; rfl)
    by_cases hsemi : kindOf ts = .symbol .semi
    · obtain ⟨v, ts, rfl, hv⟩ := exists_cons_of_kindOf hsemi (by simp)
      exact module_outside ht hword hf hv hus
    · by_cases hbrace : kindOf ts = .opening .brace
      · obtain ⟨v, ts, rfl, hv⟩ := exists_cons_of_kindOf hbrace (by simp)
        exact module_body ht hword hf hv hus
      · exact module_bare ht hword hf hsemi hbrace
  · refine .fault fun stop hstop => ?_
    rw [List.cons_append, hf source t _ rfl, Header.ofKeyword]
    simp only [ht]
    exact isFault_named hname hstop _

/-- The header of an impl goes on up to its body, unless it goes on to the end of the file. -/
theorem impl {t : Token} (ht : t.kind = .keyword .implKw) (h : Closed bs (t :: ts))
    (hf : ∀ other (u : Token) us, u.kind = t.kind → f other (u :: us) = Header.ofKeyword other u us) :
    Outcome source f bs (t :: ts) := by
  obtain ⟨generics, afterGenerics, bs₁, rfl, hle₁, h₁, hplain, hgenerics⟩ :=
    (h.tail (by rw [ht]; rfl)).skipGenerics
  have hscan : Closed ([] ++ bs₁) afterGenerics := h₁
  obtain ⟨header, rest, bs₂, rfl, hsuffix, h₂, hkind, hheader⟩ := hscan.scan endsHeader
  have hle₂ : bs₂.count .brace ≤ bs₁.count .brace := hsuffix.sublist.count_le _
  -- The tokens of copies are split as those of the source are.
  have hread {other : String} {before' others : List Token}
      (hcopies : Copies source other (t :: (generics ++ header)) before')
      (hothers : kindOf others = .eof ∨ endsHeader (kindOf others))
      (hnext : ∀ header', SameKinds header header' →
        kindOf (header' ++ others) = kindOf (header ++ rest)) :
      f other (before' ++ others) =
        Header.withMembers .impl (Header.headerName source header) others := by
    obtain ⟨u, us, rfl, hu, hcopies⟩ := hcopies.exists_cons
    obtain ⟨generics', header', rfl, hg, hh⟩ := hcopies.exists_append
    have hsplit := splitHeader_eq_of_scan (hheader header' others hh.sameKinds hothers)
    rw [List.cons_append, List.append_assoc, hf other u _ hu, Header.ofKeyword]
    simp only [hu.trans ht]
    rw [hgenerics generics' _ hg.sameKinds (hnext header' hh.sameKinds), hsplit, hh.headerName]
  by_cases hrest : rest = []
  · subst hrest
    refine .runsOut ⟨by simp, fun hcount u hu => ?_, fun stop hstop => ⟨Header.headerName source header, ?_⟩⟩
    · by_cases hheader' : header = []
      · subst hheader'
        rcases List.mem_cons.mp (List.mem_of_mem_getLast? hu) with rfl | hu
        · simp [ht]
        · exact hplain hcount u (by simpa using hu)
      · have hscan := hheader header [⟨.eof, ⟨0, 0⟩⟩] rfl (.inl rfl)
        rw [List.append_nil, ← List.cons_append, List.getLast?_append_of_ne_nil _ hheader'] at hu
        have h₁ : Closed ([] ++ bs₁) header := by simpa using h₁
        exact h₁.last_of_scan (by simp) (by omega) hscan u hu
    · have hnext (header' : List Token) (hh : SameKinds header header') :
          kindOf (header' ++ [stop]) = kindOf (header ++ []) := by
        cases header with
        | nil => rw [hh.nil_left]; exact hstop
        | cons v header =>
          obtain ⟨u, us, rfl, hu, -⟩ := hh.exists_cons
          exact hu
      have hothers : kindOf [stop] = .eof := hstop
      rw [List.append_nil, hread (.refl source _) (.inl hothers) hnext]
      simp [Header.withMembers, findBody, hstop]
  · have hmembers : Outcome source _ bs₂ rest :=
      withMembers h₂ .impl (Header.headerName source header)
    have happend : t :: (generics ++ (header ++ rest)) = t :: (generics ++ header) ++ rest := by simp
    rw [happend]
    refine after_prefix (hle₂.trans hle₁) (fun other before' others hcopies hothers => ?_) hmembers
    have hkindOf : kindOf others = kindOf rest := hothers.resolve_right fun h => hrest h.1
    refine hread hcopies (.inr (hkindOf ▸ hkind hrest)) fun header' hh => ?_
    exact (hh.follows hothers).resolve_right fun h => hrest (List.append_eq_nil_iff.mp h.1).2

/-- After the name a part is passed over. -/
theorem namedLeaf (h : Closed bs ts) (kind : Element.Kind) {skip : List Token → List Token}
    (hskip : ∀ bs us, Closed bs us → Skips skip bs us) :
    Outcome source (fun _ us => Header.named us fun name rest => (.leaf kind name, skip rest)) bs ts :=
  named h fun name bs us h => leaf (hskip bs us h) kind name

theorem mutLeaf (h : Closed bs ts) (kind : Element.Kind) :
    Outcome source (fun _ us => Header.named (Header.dropMut us) fun name rest =>
      (.leaf kind name, skipToSemi 0 rest)) bs ts :=
  after_skips h.dropMut fun _ _ _ h => namedLeaf h kind fun _ _ h => h.skipToSemi

/-- Without the exclamation mark it is a use of a macro. -/
theorem macroRules (h : Closed bs ts) :
    Outcome source (fun _ us => if kindOf us = .symbol .bang
      then Header.named (us.drop 1) fun name rest =>
        (.leaf .macroDef name, Header.dropSemi (skipItem 0 rest))
      else (.nothing, skipItem 0 us)) bs ts := by
  have hkindOf (us : List Token) (hus : Follows ts us) :
      kindOf us = .symbol .bang ↔ kindOf ts = .symbol .bang :=
    hus.kindOf_eq_iff (by simp) (by simp)
  refine ite hkindOf (fun hbang => ?_) fun _ => nothing h.skipItem
  have hdrop : Skips (List.drop 1) bs ts := (Skips.dropIf rfl h).congr fun us hus =>
    (if_pos ((hkindOf us hus).mpr hbang)).symm
  exact after_skips hdrop fun _ _ _ h => namedLeaf h .macroDef fun _ _ h =>
    h.skipItem.comp fun _ _ h => h.dropSemi

/-- The keyword that says the kind of an item decides how the rest of its header is read. -/
theorem ofKeyword {t : Token} (h : Closed bs (t :: ts))
    (hf : ∀ other (u : Token) us, u.kind = t.kind → f other (u :: us) = Header.ofKeyword other u us) :
    Outcome source f bs (t :: ts) := by
  -- Whatever is no keyword of an item is passed over.
  have passed (hread : ∀ other (u : Token) us, u.kind = t.kind →
      Header.ofKeyword other u us = (.nothing, skipItem 0 (u :: us))) : Outcome source f bs (t :: ts) := by
    refine (nothing h.skipItem).congr fun other us hus => ?_
    obtain ⟨u, us, rfl, hu⟩ := hus.exists_cons h.ne_eof
    exact (hf other u us hu).trans (hread other u us hu)
  have after (ht : t.kind.isPlain) {g : String → List Token → Header × List Token}
      (hg : ∀ bs, Closed bs ts → Outcome source g bs ts)
      (hread : ∀ other (u : Token) us, u.kind = t.kind → Header.ofKeyword other u us = g other us) :
      Outcome source f bs (t :: ts) :=
    cons ht h hg fun other u us hu => (hf other u us hu).trans (hread other u us hu)
  have item (bs : List Bracket) (us : List Token) (h : Closed bs us) := h.skipItem
  have semi (bs : List Bracket) (us : List Token) (h : Closed bs us) := h.skipToSemi
  cases hkind : t.kind with
  | keyword word =>
    have hplain : t.kind.isPlain := by rw [hkind]; rfl
    cases word with
    | modKw => exact module hkind h hf
    | implKw => exact impl hkind h hf
    | fnKw =>
      exact after hplain (fun _ h => namedLeaf h .function item) fun other u us hu => by
        simp [Header.ofKeyword, hu.trans hkind]
    | structKw =>
      exact after hplain (fun _ h => namedLeaf h .struct item) fun other u us hu => by
        simp [Header.ofKeyword, hu.trans hkind]
    | enumKw =>
      exact after hplain (fun _ h => namedLeaf h .enum item) fun other u us hu => by
        simp [Header.ofKeyword, hu.trans hkind]
    | unionKw =>
      exact after hplain (fun _ h => namedLeaf h .union item) fun other u us hu => by
        simp [Header.ofKeyword, hu.trans hkind]
    | typeKw =>
      exact after hplain (fun _ h => namedLeaf h .typeAlias semi) fun other u us hu => by
        simp [Header.ofKeyword, hu.trans hkind]
    | constKw =>
      exact after hplain (fun _ h => mutLeaf h .constant) fun other u us hu => by
        simp [Header.ofKeyword, hu.trans hkind]
    | staticKw =>
      exact after hplain (fun _ h => mutLeaf h .static) fun other u us hu => by
        simp [Header.ofKeyword, hu.trans hkind]
    | traitKw =>
      exact after hplain (fun _ h => named h fun name _ _ h => withMembers h .trait name)
        fun other u us hu => by simp [Header.ofKeyword, hu.trans hkind]
    | macroRulesKw =>
      exact after hplain (fun _ h => macroRules h) fun other u us hu => by
        simp [Header.ofKeyword, hu.trans hkind, skipItem]
    | useKw =>
      exact after hplain (fun _ h => nothing h.skipToSemi) fun other u us hu => by
        simp [Header.ofKeyword, hu.trans hkind, skipToSemi]
    | _ => exact passed fun other u us hu => by simp [Header.ofKeyword, hu.trans hkind]
  | _ => exact passed fun other u us hu => by simp [Header.ofKeyword, hu.trans hkind]

end Outcome

namespace Header

variable {source : String} {u : Token} {us vs : List Token}

theorem read_congr (h : qualifiers us = qualifiers vs) : read source us = read source vs := by
  rw [read, read, h]

theorem read_alone {rest : List Token} (h : qualifiers us = (true, rest)) :
    read source us = (.nothing, rest) := by
  rw [read, h]

theorem read_keyword (h : qualifiers (u :: us) = (false, u :: us)) :
    read source (u :: us) = ofKeyword source u us := by
  rw [read, h]

theorem read_visibility (hu : u.kind = .keyword .pubKw) : read source (u :: us) =
    if kindOf us = .opening .paren then read source (skipGroup 0 us) else read source us := by
  split
  · next hparen => exact read_congr (by simp [qualifiers, hu, hparen])
  · next hparen => exact read_congr (by simp [qualifiers, hu, hparen])

theorem read_name {word : String} (hu : u.kind = .name word) : read source (u :: us) =
    if word = "default" ∧ kindOf us = .keyword .fnKw then read source us
    else (.nothing, skipItem 0 us) := by
  split
  · next hdefault => exact read_congr (by simp [qualifiers, hu, hdefault])
  · next hdefault =>
    rw [read_keyword (by simp [qualifiers, hu, hdefault])]
    simp [ofKeyword, hu, skipItem]

theorem read_const (hu : u.kind = .keyword .constKw) : read source (u :: us) =
    if kindOf us ∈ [.keyword .fnKw, .keyword .unsafeKw, .keyword .asyncKw, .keyword .externKw]
    then read source us
    else named (dropMut us) fun name rest => (.leaf .constant name, skipToSemi 0 rest) := by
  split
  · next hnext => exact read_congr (by simp only [qualifiers, hu, hnext, if_true])
  · next hnext =>
    rw [read_keyword (by simp only [qualifiers, hu, hnext, if_false])]
    simp [ofKeyword, hu]

theorem read_extern (hu : u.kind = .keyword .externKw) : read source (u :: us) =
    if kindOf us = .keyword .crateKw then (.nothing, skipToSemi 0 us)
    else if kindOf (dropLiteral us) = .opening .brace then (.nothing, skipGroup 0 (dropLiteral us))
    else read source (dropLiteral us) := by
  split
  · next hcrate => exact read_alone (by simp [qualifiers, hu, hcrate])
  · next hcrate =>
    split
    · next hopening => exact read_alone (by simp [qualifiers, hu, hcrate, hopening])
    · next hopening => exact read_congr (by simp [qualifiers, hu, hcrate, hopening])

end Header

theorem Outcome.read (source : String) {bs : List Bracket} {ts : List Token} (h : Closed bs ts) :
    Outcome source Header.read bs ts := by
  induction hn : ts.length using Nat.strong_induction_on generalizing bs ts with
  | _ n ih =>
    subst hn
    have shorter {us : List Token} (hlen : us.length < ts.length) {bs : List Bracket} (h : Closed bs us) :
        Outcome source Header.read bs us := ih us.length hlen h rfl
    cases ts with
    | nil =>
      refine (Outcome.nothing (Skips.none h)).congr fun other us hus => ?_
      have hkind : kindOf us = .eof ∨ kindOf us = .closing .brace := hus.imp_right And.right
      cases us with
      | nil => simp [Header.read, Header.qualifiers]
      | cons u us =>
        rw [kindOf_cons] at hkind
        rcases hkind with hu | hu <;>
          rw [Header.read_keyword (by simp [Header.qualifiers, hu])] <;>
          simp [Header.ofKeyword, skipItem, hu]
    | cons t ts =>
      have hsame {bs : List Bracket} (h : Closed bs ts) : Outcome source Header.read bs ts :=
        shorter (Nat.lt_succ_self _) h
      have past {skip : List Token → List Token} {bs : List Bracket} (hskip : Skips skip bs ts) :
          Outcome source (fun other us => Header.read other (skip us)) bs ts :=
        .after_skips hskip fun bs' rest hsuffix hrest =>
          shorter (Nat.lt_succ_of_le hsuffix.length_le) hrest
      cases hkind : t.kind with
      | name word =>
        refine .cons (by rw [hkind]; rfl) h (fun bs h => ?_) fun other u us hu =>
          Header.read_name (hu.trans hkind)
        refine .ite (fun us hus => and_congr_right fun _ => hus.kindOf_eq_iff (by simp) (by simp))
          (fun _ => hsame h) fun _ => .nothing h.skipItem
      | keyword word =>
        have hplain : t.kind.isPlain := by rw [hkind]; rfl
        cases word with
        | pubKw =>
          refine .cons hplain h (fun bs h => ?_) fun other u us hu => Header.read_visibility (hu.trans hkind)
          exact .ite (fun us hus => hus.kindOf_eq_iff (by simp) (by simp))
            (fun hparen => past (h.skipGroup_zero hparen)) fun _ => hsame h
        | unsafeKw =>
          exact .cons hplain h (fun bs h => hsame h) fun other u us hu =>
            Header.read_congr (by simp [Header.qualifiers, hu.trans hkind])
        | asyncKw =>
          exact .cons hplain h (fun bs h => hsame h) fun other u us hu =>
            Header.read_congr (by simp [Header.qualifiers, hu.trans hkind])
        | constKw =>
          refine .cons hplain h (fun bs h => ?_) fun other u us hu => Header.read_const (hu.trans hkind)
          refine .ite (fun us hus => ?_) (fun _ => hsame h) fun _ => .mutLeaf h .constant
          simp [hus.kindOf_eq_iff]
        | externKw =>
          refine .cons hplain h (fun bs h => ?_) fun other u us hu => Header.read_extern (hu.trans hkind)
          refine .ite (fun us hus => hus.kindOf_eq_iff (by simp) (by simp))
            (fun _ => .nothing h.skipToSemi) fun _ => ?_
          refine .after_skips (f := fun other us => if kindOf us = .opening .brace
            then (.nothing, skipGroup 0 us) else Header.read other us)
            h.dropLiteral fun bs us hsuffix h => ?_
          exact .ite (fun us hus => hus.kindOf_eq_iff (by simp) (by simp))
            (fun hopening => .nothing (h.skipGroup_zero hopening))
            fun _ => shorter (Nat.lt_succ_of_le hsuffix.length_le) h
        | _ =>
          exact .ofKeyword h fun other u us hu =>
            Header.read_keyword (by simp [Header.qualifiers, hu.trans hkind])
      | _ =>
        exact .ofKeyword h fun other u us hu =>
          Header.read_keyword (by simp [Header.qualifiers, hu.trans hkind])

end Doctest.Outline
