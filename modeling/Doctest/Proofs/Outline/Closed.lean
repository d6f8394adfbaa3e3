import Doctest.Proofs.Outline.Headers

/-! Parts of an item that are passed over the same way whatever follows them. On tokens that close every
bracket they open, a reader stops at a token that it would stop at with other tokens behind. -/
namespace Doctest.Outline

/-- The tokens close the brackets that are open, innermost first, and those that they open themselves. -/
inductive Closed : List Bracket → List Token → Prop
  | nil : Closed [] []
  | plain {bs : List Bracket} {t : Token} {ts : List Token} :
    t.kind.isPlain → Closed bs ts → Closed bs (t :: ts)
  | opening {bs : List Bracket} {b : Bracket} {t : Token} {ts : List Token} :
    t.kind = .opening b → Closed (b :: bs) ts → Closed bs (t :: ts)
  | closing {bs : List Bracket} {b : Bracket} {t : Token} {ts : List Token} :
    t.kind = .closing b → Closed bs ts → Closed (b :: bs) (t :: ts)

theorem Closed.eq_nil {bs : List Bracket} (h : Closed bs []) : bs = [] := by
  cases h
  rfl

theorem Closed.ne_eof {bs : List Bracket} {t : Token} {ts : List Token} (h : Closed bs (t :: ts)) :
    t.kind ≠ .eof := by
  intro heq
  cases h <;> simp_all [Token.Kind.isPlain]

/-- A plain token at the front leaves the open brackets as they are. -/
theorem Closed.tail {bs : List Bracket} {t : Token} {ts : List Token} (h : Closed bs (t :: ts))
    (ht : t.kind.isPlain) : Closed bs ts := by
  cases h with
  | plain _ h => exact h
  | opening ho _ => exact absurd ho (Token.Kind.ne_of_isPlain ht rfl)
  | closing hc _ => exact absurd hc (Token.Kind.ne_of_isPlain ht rfl)

/-- An opening bracket at the front is the innermost one that is open then. -/
theorem Closed.inside {bs : List Bracket} {b : Bracket} {t : Token} {ts : List Token}
    (h : Closed bs (t :: ts)) (ht : t.kind = .opening b) : Closed (b :: bs) ts := by
  cases h with
  | plain hp _ => exact absurd ht (Token.Kind.ne_of_isPlain hp rfl)
  | opening ho h =>
    obtain rfl := Token.Kind.opening.inj (ht.symm.trans ho)
    exact h
  | closing hc _ => simp [ht] at hc

/-- A closing bracket at the front closes the innermost one that is open. -/
theorem Closed.exists_outside {bs : List Bracket} {b : Bracket} {t : Token} {ts : List Token}
    (h : Closed bs (t :: ts)) (ht : t.kind = .closing b) : ∃ outer, bs = b :: outer ∧ Closed outer ts := by
  cases h with
  | plain hp _ => exact absurd ht (Token.Kind.ne_of_isPlain hp rfl)
  | opening ho _ => simp [ht] at ho
  | closing hc h =>
    obtain rfl := Token.Kind.closing.inj (ht.symm.trans hc)
    exact ⟨_, rfl, h⟩

theorem Balanced.closed {stops : List Token.Kind} {as : List Token} (h : Balanced stops as)
    {bs : List Bracket} {ts : List Token} (hts : Closed bs ts) : Closed bs (as ++ ts) := by
  induction h generalizing bs ts with
  | nil => exact hts
  | plain hp _ _ ih => exact .plain hp (ih hts)
  | group ho _ _ hc _ ihi ih =>
    rw [List.cons_append, List.append_assoc, List.cons_append]
    exact .opening ho (ihi (.closing hc (ih hts)))

theorem exists_cons_of_kindOf {ts : List Token} {kind : Token.Kind} (h : kindOf ts = kind)
    (hkind : kind ≠ .eof) : ∃ t us, ts = t :: us ∧ t.kind = kind := by
  cases ts with
  | nil => exact absurd h.symm hkind
  | cons t us => exact ⟨t, us, rfl, h⟩

/-- What may stand in the place of the tokens that are left: tokens that begin alike, or a closing brace
in place of the end. -/
def Follows (rest others : List Token) : Prop :=
  kindOf others = kindOf rest ∨ rest = [] ∧ kindOf others = .closing .brace

theorem Follows.kindOf_eq_iff {rest others : List Token} (h : Follows rest others) {kind : Token.Kind}
    (he : kind ≠ .eof) (hb : kind ≠ .closing .brace) : kindOf others = kind ↔ kindOf rest = kind := by
  rcases h with h | ⟨rfl, h⟩
  · rw [h]
  · have hnil : kindOf [] = .eof := rfl
    rw [h, hnil]
    exact ⟨fun heq => absurd heq.symm hb, fun heq => absurd heq.symm he⟩

theorem Follows.exists_cons {t : Token} {ts us : List Token} (h : Follows (t :: ts) us)
    (ht : t.kind ≠ .eof) : ∃ u us', us = u :: us' ∧ u.kind = t.kind := by
  rcases h with h | ⟨h, -⟩
  · exact exists_cons_of_kindOf h ht
  · simp at h

/-- Two lists of tokens with the same kinds. -/
def SameKinds (ts us : List Token) : Prop :=
  ts.map (·.kind) = us.map (·.kind)

namespace SameKinds

variable {ts us as bs : List Token}

theorem nil_left (h : SameKinds [] us) : us = [] :=
  List.map_eq_nil_iff.mp h.symm

theorem exists_cons {t : Token} (h : SameKinds (t :: ts) us) :
    ∃ u us', us = u :: us' ∧ u.kind = t.kind ∧ SameKinds ts us' := by
  cases us with
  | nil => simp [SameKinds] at h
  | cons u us =>
    obtain ⟨hkind, hrest⟩ := List.cons.inj h
    exact ⟨u, us, rfl, hkind.symm, hrest⟩

theorem exists_append (h : SameKinds (as ++ bs) us) :
    ∃ as' bs', us = as' ++ bs' ∧ SameKinds as as' ∧ SameKinds bs bs' := by
  unfold SameKinds at h
  rw [List.map_append, eq_comm, List.map_eq_append_iff] at h
  obtain ⟨as', bs', rfl, has, hbs⟩ := h
  exact ⟨as', bs', rfl, has.symm, hbs.symm⟩

theorem follows (h : SameKinds ts us) {rest others : List Token} (hrest : Follows rest others) :
    Follows (ts ++ rest) (us ++ others) := by
  cases ts with
  | nil =>
    obtain rfl := h.nil_left
    exact hrest
  | cons t ts =>
    obtain ⟨u, us, rfl, hkind, -⟩ := h.exists_cons
    exact .inl hkind

end SameKinds

/-- A group is passed over up to the bracket that closes it. -/
theorem Closed.skipGroup {inside bs : List Bracket} {b : Bracket} {ts : List Token}
    (h : Closed (inside ++ b :: bs) ts) : ∃ used rest, ts = used ++ rest ∧ Closed bs rest ∧
      ∀ used' others, SameKinds used used' →
        Outline.skipGroup (inside.length + 1) (used' ++ others) = others := by
  induction ts generalizing inside with
  | nil => simpa using h.eq_nil
  | cons t ts ih =>
    have later (inside' : List Bracket) (h : Closed (inside' ++ b :: bs) ts)
        (hstep : ∀ (u : Token) (us : List Token), u.kind = t.kind →
          Outline.skipGroup (inside.length + 1) (u :: us) =
            Outline.skipGroup (inside'.length + 1) us) :
        ∃ used rest, t :: ts = used ++ rest ∧ Closed bs rest ∧
          ∀ used' others, SameKinds used used' →
            Outline.skipGroup (inside.length + 1) (used' ++ others) = others := by
      obtain ⟨used, rest, rfl, hrest, hlocal⟩ := ih h
      refine ⟨t :: used, rest, rfl, hrest, fun used' others hsame => ?_⟩
      obtain ⟨u, used', rfl, hkind, hsame⟩ := hsame.exists_cons
      rw [List.cons_append, hstep u _ hkind, hlocal used' others hsame]
    generalize hstack : inside ++ b :: bs = stack at h
    cases h with
    | plain ht h =>
      subst hstack
      refine later inside h fun u us hu => ?_
      rw [Outline.skipGroup.eq_def]
      dsimp only
      rw [hu]
      split <;> simp_all [Token.Kind.isPlain]
    | @opening _ c _ _ ht h =>
      subst hstack
      refine later (c :: inside) h fun u us hu => ?_
      simp [Outline.skipGroup, hu, ht]
    | @closing stack c _ _ ht h =>
      cases inside with
      | nil =>
        obtain ⟨-, rfl⟩ := List.cons.inj hstack
        refine ⟨[t], ts, rfl, h, fun used' others hsame => ?_⟩
        obtain ⟨u, used', rfl, hkind, hsame⟩ := hsame.exists_cons
        obtain rfl := hsame.nil_left
        simp [Outline.skipGroup, hkind, ht]
      | cons d inside =>
        obtain ⟨-, rfl⟩ := List.cons.inj hstack
        refine later inside h fun u us hu => ?_
        simp [Outline.skipGroup, hu, ht]

/-- What is left from the first token outside of groups that `stop` holds for, or from the end. -/
def scan (stop : Token.Kind → Bool) (depth : Nat) : List Token → List Token
  | [] => []
  | t :: ts =>
    if t.kind = .eof ∨ depth = 0 ∧ stop t.kind then t :: ts
    else
      match t.kind with
      | .opening _ => scan stop (depth + 1) ts
      | .closing _ => scan stop (depth - 1) ts
      | _ => scan stop depth ts

theorem scan_of_stop {stop : Token.Kind → Bool} {ts : List Token}
    (h : kindOf ts = .eof ∨ stop (kindOf ts)) : scan stop 0 ts = ts := by
  cases ts with
  | nil => rfl
  | cons t ts =>
    have ht : t.kind = .eof ∨ 0 = 0 ∧ stop t.kind := h.imp_right fun hs => ⟨rfl, hs⟩
    rw [scan, if_pos ht]

/-- A scan stops where it would with other tokens behind, and there all groups that it went into are
closed. -/
theorem Closed.scan (stop : Token.Kind → Bool) {inside bs : List Bracket} {ts : List Token}
    (h : Closed (inside ++ bs) ts) : ∃ used rest bs', ts = used ++ rest ∧ bs' <:+ bs ∧
      Closed bs' rest ∧ (rest ≠ [] → stop (kindOf rest)) ∧
      ∀ used' others, SameKinds used used' → kindOf others = .eof ∨ stop (kindOf others) →
        Outline.scan stop inside.length (used' ++ others) = others := by
  induction ts generalizing inside bs with
  | nil =>
    obtain ⟨rfl, rfl⟩ := List.append_eq_nil_iff.mp h.eq_nil
    refine ⟨[], [], [], rfl, List.suffix_refl _, .nil, by simp, fun used' others hsame hstop => ?_⟩
    obtain rfl := hsame.nil_left
    exact scan_of_stop hstop
  | cons t ts ih =>
    by_cases hstop : inside = [] ∧ stop t.kind
    · obtain ⟨rfl, hstop⟩ := hstop
      refine ⟨[], t :: ts, bs, rfl, List.suffix_refl _, h, fun _ => hstop, fun used' others hsame hstop => ?_⟩
      obtain rfl := hsame.nil_left
      exact scan_of_stop hstop
    · have later (inside' bs' : List Bracket) (hbs : bs' <:+ bs) (h : Closed (inside' ++ bs') ts)
          (hstep : ∀ (u : Token) (us : List Token), u.kind = t.kind →
            Outline.scan stop inside.length (u :: us) = Outline.scan stop inside'.length us) :
          ∃ used rest bs', t :: ts = used ++ rest ∧ bs' <:+ bs ∧
            Closed bs' rest ∧ (rest ≠ [] → stop (kindOf rest)) ∧
            ∀ used' others, SameKinds used used' → kindOf others = .eof ∨ stop (kindOf others) →
              Outline.scan stop inside.length (used' ++ others) = others := by
        obtain ⟨used, rest, bs'', rfl, hsuffix, hrest, hkind, hlocal⟩ := ih h
        refine ⟨t :: used, rest, bs'', rfl, hsuffix.trans hbs, hrest, hkind,
          fun used' others hsame hothers => ?_⟩
        obtain ⟨u, used', rfl, hu, hsame⟩ := hsame.exists_cons
        rw [List.cons_append, hstep u _ hu, hlocal used' others hsame hothers]
      have hgo : t.kind ≠ .eof → ¬(t.kind = .eof ∨ inside.length = 0 ∧ stop t.kind) := by
        rintro hne (heq | ⟨hlen, hs⟩)
        · exact hne heq
        · exact hstop ⟨List.eq_nil_of_length_eq_zero hlen, hs⟩
      generalize hstack : inside ++ bs = stack at h
      cases h with
      | plain ht h =>
        subst hstack
        refine later inside bs (List.suffix_refl _) h fun u us hu => ?_
        rw [Outline.scan, hu, if_neg (hgo (Token.Kind.ne_of_isPlain ht rfl))]
        split <;> simp_all [Token.Kind.isPlain]
      | @opening _ c _ _ ht h =>
        subst hstack
        refine later (c :: inside) bs (List.suffix_refl _) h fun u us hu => ?_
        rw [Outline.scan, hu, if_neg (hgo (by simp [ht])), ht]
        rfl
      | @closing stack c _ _ ht h =>
        cases inside with
        | nil =>
          rw [List.nil_append] at hstack
          subst hstack
          refine later [] stack (List.suffix_cons c stack) h fun u us hu => ?_
          rw [Outline.scan, hu, if_neg (hgo (by simp [ht])), ht]
          rfl
        | cons d inside =>
          obtain ⟨-, rfl⟩ := List.cons.inj hstack
          refine later inside bs (List.suffix_refl _) h fun u us hu => ?_
          rw [Outline.scan, hu, if_neg (hgo (by simp [ht])), ht]
          rfl

/-- What ends an item: its body, a semicolon, or the end of the block that it is in. -/
def endsItem (kind : Token.Kind) : Bool :=
  kind ∈ [.opening .brace, .symbol .semi, .closing .brace]

def endsInitializer (kind : Token.Kind) : Bool :=
  kind ∈ [.symbol .semi, .closing .brace]

def endsHeader (kind : Token.Kind) : Bool :=
  kind ∈ [.opening .brace, .keyword .whereKw, .symbol .semi]

/-- A function that goes on where a scan does, and then does `last`, is that scan. -/
theorem eq_scan {α : Type} (f : Nat → List Token → α) (stop : Token.Kind → Bool)
    (last : List Token → α) (hnil : ∀ depth, f depth [] = last [])
    (hstop : ∀ depth t ts, t.kind = .eof ∨ depth = 0 ∧ stop t.kind → f depth (t :: ts) = last (t :: ts))
    (hgo : ∀ depth t ts, t.kind ≠ .eof → (depth = 0 → stop t.kind = false) → f depth (t :: ts) =
      f (match t.kind with | .opening _ => depth + 1 | .closing _ => depth - 1 | _ => depth) ts)
    (depth : Nat) (ts : List Token) : f depth ts = last (scan stop depth ts) := by
  induction ts generalizing depth with
  | nil => exact hnil depth
  | cons t ts ih =>
    by_cases ht : t.kind = .eof ∨ depth = 0 ∧ stop t.kind
    · rw [scan, if_pos ht, hstop depth t ts ht]
    · rw [scan, if_neg ht]
      rw [not_or, not_and, Bool.not_eq_true] at ht
      rw [hgo depth t ts ht.1 ht.2, ih]
      cases t.kind <;> rfl

/-- The tokens after the body or the semicolon that they begin with. -/
def pastItem (ts : List Token) : List Token :=
  if kindOf ts = .opening .brace then skipGroup 0 ts else Header.dropSemi ts

/-- Whether the tokens begin with a body, and those after its brace or after a semicolon. -/
def pastHeader (ts : List Token) : Bool × List Token :=
  if kindOf ts = .opening .brace then (true, ts.drop 1) else (false, Header.dropSemi ts)

theorem skipItem_eq_scan (depth : Nat) (ts : List Token) :
    skipItem depth ts = pastItem (scan endsItem depth ts) := by
  refine eq_scan skipItem endsItem pastItem (fun _ => rfl) (fun depth t ts ht => ?_)
    (fun depth t ts he ht => ?_) depth ts
  · rw [skipItem.eq_def, pastItem, Header.dropSemi]
    dsimp only [kindOf]
    split <;> simp_all [endsItem, skipGroup]
  · rw [skipItem.eq_def]
    dsimp only
    split <;> simp_all [endsItem]

theorem skipToSemi_eq_scan (depth : Nat) (ts : List Token) :
    skipToSemi depth ts = Header.dropSemi (scan endsInitializer depth ts) := by
  refine eq_scan skipToSemi endsInitializer Header.dropSemi (fun _ => rfl) (fun depth t ts ht => ?_)
    (fun depth t ts he ht => ?_) depth ts
  · rw [skipToSemi.eq_def, Header.dropSemi]
    dsimp only [kindOf]
    split <;> simp_all [endsInitializer]
  · rw [skipToSemi.eq_def]
    dsimp only
    split <;> simp_all [endsInitializer]

theorem findBody_eq_scan (depth : Nat) (ts : List Token) :
    findBody depth ts = pastHeader (scan endsItem depth ts) := by
  refine eq_scan findBody endsItem pastHeader (fun _ => rfl) (fun depth t ts ht => ?_)
    (fun depth t ts he ht => ?_) depth ts
  · rw [findBody.eq_def, pastHeader, Header.dropSemi]
    dsimp only [kindOf]
    split <;> simp_all [endsItem]
  · rw [findBody.eq_def]
    dsimp only
    split <;> simp_all [endsItem]

theorem splitHeader_eq_scan (depth : Nat) (ts : List Token) :
    (splitHeader depth ts).2 = scan endsHeader depth ts := by
  refine eq_scan (fun depth ts => (splitHeader depth ts).2) endsHeader id (fun _ => rfl)
    (fun depth t ts ht => ?_) (fun depth t ts he ht => ?_) depth ts
  · rw [splitHeader.eq_def]
    dsimp only
    split <;> simp_all [endsHeader]
  · rw [splitHeader.eq_def]
    dsimp only
    split <;> simp_all [endsHeader]

/-- A header is split off where the scan for its end stops. -/
theorem splitHeader_eq_of_scan {header rest : List Token}
    (h : scan endsHeader 0 (header ++ rest) = rest) : splitHeader 0 (header ++ rest) = (header, rest) := by
  have hsecond := (splitHeader_eq_scan 0 (header ++ rest)).trans h
  have happend := splitHeader_append 0 (header ++ rest)
  rw [hsecond] at happend
  exact Prod.ext (List.append_cancel_right happend) hsecond

/-- On these tokens `f` passes over the first of them, and over tokens of the same kinds whatever
follows. The braces that are open then were open before. -/
def Skips (f : List Token → List Token) (bs : List Bracket) (ts : List Token) : Prop :=
  ∃ used rest bs', ts = used ++ rest ∧ bs'.count .brace ≤ bs.count .brace ∧ Closed bs' rest ∧
    ∀ used' others, SameKinds used used' → Follows rest others → f (used' ++ others) = others

namespace Skips

variable {f g : List Token → List Token} {bs : List Bracket} {ts : List Token}

theorem comp (hg : Skips g bs ts) (hf : ∀ bs ts, Closed bs ts → Skips f bs ts) :
    Skips (fun ts => f (g ts)) bs ts := by
  obtain ⟨used, rest, bs', rfl, hle, hrest, hg⟩ := hg
  obtain ⟨used₂, rest₂, bs₂, rfl, hle₂, hrest₂, hf⟩ := hf bs' rest hrest
  refine ⟨used ++ used₂, rest₂, bs₂, by simp, hle₂.trans hle, hrest₂, fun used' others hsame hothers => ?_⟩
  obtain ⟨used', used₂', rfl, hsame, hsame₂⟩ := hsame.exists_append
  dsimp only
  rw [List.append_assoc, hg used' _ hsame (hsame₂.follows hothers), hf used₂' others hsame₂ hothers]

theorem none (h : Closed bs ts) : Skips (fun ts => ts) bs ts := by
  refine ⟨[], ts, bs, rfl, Nat.le_refl _, h, fun used' others hsame _ => ?_⟩
  obtain rfl := hsame.nil_left
  rfl

/-- Only the tokens themselves and what may stand in their place matter. -/
theorem congr (hg : Skips g bs ts) (hfg : ∀ us, Follows ts us → f us = g us) : Skips f bs ts := by
  obtain ⟨used, rest, bs', rfl, hle, hrest, hg⟩ := hg
  refine ⟨used, rest, bs', rfl, hle, hrest, fun used' others hsame hothers => ?_⟩
  rw [hfg _ (hsame.follows hothers), hg used' others hsame hothers]

/-- A token of this kind is passed over, and no other. -/
theorem dropIf {kind : Token.Kind} (hkind : kind.isPlain) (h : Closed bs ts) :
    Skips (fun ts => if kindOf ts = kind then ts.drop 1 else ts) bs ts := by
  have he : kind ≠ .eof := Token.Kind.ne_of_isPlain hkind rfl
  have hb : kind ≠ .closing .brace := Token.Kind.ne_of_isPlain hkind rfl
  by_cases hts : kindOf ts = kind
  · obtain ⟨t, ts, rfl, rfl⟩ := exists_cons_of_kindOf hts he
    refine ⟨[t], ts, bs, rfl, Nat.le_refl _, h.tail hkind, fun used' others hsame hothers => ?_⟩
    obtain ⟨u, used', rfl, hu, hsame⟩ := hsame.exists_cons
    obtain rfl := hsame.nil_left
    simp [hu]
  · refine ⟨[], ts, bs, rfl, Nat.le_refl _, h, fun used' others hsame hothers => ?_⟩
    obtain rfl := hsame.nil_left
    exact if_neg fun heq => hts ((hothers.kindOf_eq_iff he hb).mp heq)

end Skips

section

variable {bs : List Bracket} {ts : List Token}

theorem Closed.dropMut (h : Closed bs ts) : Skips Header.dropMut bs ts :=
  .dropIf rfl h

theorem Closed.dropSemi (h : Closed bs ts) : Skips Header.dropSemi bs ts :=
  .dropIf rfl h

theorem Closed.dropLiteral (h : Closed bs ts) : Skips Header.dropLiteral bs ts :=
  .dropIf rfl h

theorem Closed.skipGroup_zero {b : Bracket} (hb : kindOf ts = .opening b) (h : Closed bs ts) :
    Skips (Outline.skipGroup 0) bs ts := by
  obtain ⟨t, ts, rfl, ht⟩ := exists_cons_of_kindOf hb (by simp)
  have hgroup : Closed ([] ++ b :: bs) ts := h.inside ht
  obtain ⟨used, rest, rfl, hrest, hlocal⟩ := hgroup.skipGroup
  refine ⟨t :: used, rest, bs, rfl, Nat.le_refl _, hrest, fun used' others hsame _ => ?_⟩
  obtain ⟨u, used', rfl, hu, hsame⟩ := hsame.exists_cons
  have hgroup := hlocal used' others hsame
  simpa [Outline.skipGroup, hu, ht] using hgroup

/-- After a scan that a closing brace stops too, the tokens may be followed by a closing brace. -/
theorem Closed.skips_scan {stop : Token.Kind → Bool} (hstop : stop (.closing .brace))
    (h : Closed bs ts) : Skips (Outline.scan stop 0) bs ts := by
  have hscan : Closed ([] ++ bs) ts := h
  obtain ⟨used, rest, bs', rfl, hsuffix, hrest, hkind, hlocal⟩ := hscan.scan stop
  refine ⟨used, rest, bs', rfl, hsuffix.sublist.count_le _, hrest, fun used' others hsame hothers => ?_⟩
  refine hlocal used' others hsame ?_
  rcases hothers with heq | ⟨-, heq⟩
  · by_cases hnil : rest = []
    · subst hnil
      exact .inl heq
    · exact .inr (heq ▸ hkind hnil)
  · exact .inr (heq ▸ hstop)

theorem Closed.skipToSemi (h : Closed bs ts) : Skips (Outline.skipToSemi 0) bs ts := by
  have hscan : Skips (Outline.scan endsInitializer 0) bs ts := h.skips_scan rfl
  have hcomp := hscan.comp fun bs ts h => h.dropSemi
  simpa only [← skipToSemi_eq_scan] using hcomp

theorem Closed.pastItem (h : Closed bs ts) : Skips Outline.pastItem bs ts := by
  have hopening {us : List Token} (hus : Follows ts us) :
      kindOf us = .opening .brace ↔ kindOf ts = .opening .brace :=
    hus.kindOf_eq_iff (by simp) (by simp)
  by_cases hts : kindOf ts = .opening .brace
  · exact (h.skipGroup_zero hts).congr fun us hus => if_pos ((hopening hus).mpr hts)
  · exact h.dropSemi.congr fun us hus => if_neg fun heq => hts ((hopening hus).mp heq)

theorem Closed.skipItem (h : Closed bs ts) : Skips (Outline.skipItem 0) bs ts := by
  have hscan : Skips (Outline.scan endsItem 0) bs ts := h.skips_scan rfl
  have hcomp := hscan.comp fun bs ts h => h.pastItem
  simpa only [← skipItem_eq_scan] using hcomp

/-- The mark and the group of an attribute are passed over, if they are there. -/
theorem Closed.skipAttribute (h : Closed bs ts) : Skips Outline.skipAttribute bs ts := by
  have hmark : Skips (fun ts => if kindOf ts = .symbol .bang then ts.drop 1 else ts) bs ts :=
    .dropIf rfl h
  have hgroup (bs : List Bracket) (ts : List Token) (h : Closed bs ts) :
      Skips (fun ts => if kindOf ts = .opening .square then Outline.skipGroup 0 ts else ts) bs ts := by
    have hopening {us : List Token} (hus : Follows ts us) :
        kindOf us = .opening .square ↔ kindOf ts = .opening .square :=
      hus.kindOf_eq_iff (by simp) (by simp)
    by_cases hts : kindOf ts = .opening .square
    · exact (h.skipGroup_zero hts).congr fun us hus => if_pos ((hopening hus).mpr hts)
    · exact (Skips.none h).congr fun us hus => if_neg fun heq => hts ((hopening hus).mp heq)
  exact hmark.comp hgroup

/-- Generics are passed over up to a token that does not depend on what follows it. If no brace is open
before them, they have neither a semicolon nor a closing brace. -/
theorem Closed.skipAngles (depth : Nat) (h : Closed bs ts) : ∃ used rest bs', ts = used ++ rest ∧
    bs'.count .brace ≤ bs.count .brace ∧ Closed bs' rest ∧
    (bs.count .brace = 0 → ∀ t ∈ used, t.kind ∉ [.symbol .semi, .closing .brace]) ∧
    ∀ used' others, SameKinds used used' → kindOf others = kindOf rest →
      Outline.skipAngles (depth + 1) (used' ++ others) = others := by
  induction ts generalizing bs depth with
  | nil =>
    refine ⟨[], [], bs, rfl, Nat.le_refl _, h, by simp, fun used' others hsame hothers => ?_⟩
    obtain rfl := hsame.nil_left
    cases others with
    | nil => rfl
    | cons u us =>
      have hu : u.kind = .eof := hothers
      simp [Outline.skipAngles, hu]
  | cons t ts ih =>
    have later (depth' : Nat) {bs' : List Bracket} (h : Closed bs' ts)
        (hle : bs'.count .brace ≤ bs.count .brace)
        (ht : bs.count .brace = 0 → t.kind ∉ [.symbol .semi, .closing .brace])
        (hstep : ∀ (u : Token) (us : List Token), u.kind = t.kind →
          Outline.skipAngles (depth + 1) (u :: us) = Outline.skipAngles (depth' + 1) us) :
        ∃ used rest bs', t :: ts = used ++ rest ∧ bs'.count .brace ≤ bs.count .brace ∧ Closed bs' rest ∧
          (bs.count .brace = 0 → ∀ t ∈ used, t.kind ∉ [.symbol .semi, .closing .brace]) ∧
          ∀ used' others, SameKinds used used' → kindOf others = kindOf rest →
            Outline.skipAngles (depth + 1) (used' ++ others) = others := by
      obtain ⟨used, rest, bs'', rfl, hle', hrest, hplain, hlocal⟩ := ih depth' h
      refine ⟨t :: used, rest, bs'', rfl, hle'.trans hle, hrest, fun hcount u hu => ?_,
        fun used' others hsame hothers => ?_⟩
      · rcases List.mem_cons.mp hu with rfl | hu
        · exact ht hcount
        · exact hplain (by omega) u hu
      · obtain ⟨u, used', rfl, hkind, hsame⟩ := hsame.exists_cons
        rw [List.cons_append, hstep u _ hkind, hlocal used' others hsame hothers]
    by_cases hstop : t.kind ∈ [.opening .brace, .symbol .semi]
    · refine ⟨[], t :: ts, bs, rfl, Nat.le_refl _, h, by simp, fun used' others hsame hothers => ?_⟩
      obtain rfl := hsame.nil_left
      cases others with
      | nil => exact absurd hothers.symm h.ne_eof
      | cons u us =>
        have hu : u.kind = t.kind := hothers
        rw [← hu] at hstop
        simp only [List.mem_cons, List.not_mem_nil, or_false] at hstop
        rcases hstop with hu | hu <;> simp [Outline.skipAngles, hu]
    · simp only [List.mem_cons, List.not_mem_nil, or_false, not_or] at hstop
      by_cases hlt : t.kind = .symbol .lt
      · exact later (depth + 1) (h.tail (by rw [hlt]; rfl)) (Nat.le_refl _) (by simp [hlt])
          fun u us hu => by simp [Outline.skipAngles, hu, hlt]
      · by_cases hgt : t.kind = .symbol .gt
        · cases depth with
          | zero =>
            refine ⟨[t], ts, bs, rfl, Nat.le_refl _, h.tail (by rw [hgt]; rfl), by simp [hgt],
              fun used' others hsame _ => ?_⟩
            obtain ⟨u, used', rfl, hu, hsame⟩ := hsame.exists_cons
            obtain rfl := hsame.nil_left
            simp [Outline.skipAngles, hu, hgt]
          | succ depth =>
            exact later depth (h.tail (by rw [hgt]; rfl)) (Nat.le_refl _) (by simp [hgt])
              fun u us hu => by simp [Outline.skipAngles, hu, hgt]
        · have hstep (u : Token) (us : List Token) (hu : u.kind = t.kind) :
              Outline.skipAngles (depth + 1) (u :: us) = Outline.skipAngles (depth + 1) us := by
            have hne := h.ne_eof
            rw [Outline.skipAngles, hu]
            split <;> simp_all
          cases h with
          | plain hp h =>
            have hc : t.kind ≠ .closing .brace := Token.Kind.ne_of_isPlain hp rfl
            exact later depth h (Nat.le_refl _) (fun _ => by simp [hstop.2, hc]) hstep
          | @opening _ b _ _ ho h =>
            have hb : b ≠ .brace := fun heq => hstop.1 (heq ▸ ho)
            exact later depth h (by simp [hb]) (by simp [ho]) hstep
          | @closing bs b _ _ hc h =>
            refine later depth h (by simp [List.count_cons]) (fun hcount => ?_) hstep
            have hb : b ≠ .brace := by
              rintro rfl
              simp at hcount
            simp [hc, hb]

theorem Closed.skipGenerics (h : Closed bs ts) : ∃ used rest bs', ts = used ++ rest ∧
    bs'.count .brace ≤ bs.count .brace ∧ Closed bs' rest ∧
    (bs.count .brace = 0 → ∀ t ∈ used, t.kind ∉ [.symbol .semi, .closing .brace]) ∧
    ∀ used' others, SameKinds used used' → kindOf others = kindOf rest →
      Outline.skipGenerics (used' ++ others) = others := by
  by_cases hlt : kindOf ts = .symbol .lt
  · obtain ⟨t, ts, rfl, ht⟩ := exists_cons_of_kindOf hlt (by simp)
    obtain ⟨used, rest, bs', rfl, hle, hrest, hplain, hlocal⟩ :=
      (h.tail (by rw [ht]; rfl)).skipAngles 0
    refine ⟨t :: used, rest, bs', rfl, hle, hrest, fun hcount => ?_, fun used' others hsame hothers => ?_⟩
    · simpa [ht] using hplain hcount
    · obtain ⟨u, used', rfl, hu, hsame⟩ := hsame.exists_cons
      rw [List.cons_append, Outline.skipGenerics, kindOf_cons, if_pos (hu.trans ht), Outline.skipAngles]
      simp only [hu.trans ht]
      exact hlocal used' others hsame hothers
  · refine ⟨[], ts, bs, rfl, Nat.le_refl _, h, by simp, fun used' others hsame hothers => ?_⟩
    obtain rfl := hsame.nil_left
    rw [List.nil_append, Outline.skipGenerics, if_neg (hothers ▸ hlt)]

/-- What follows the header of an impl to the end of the file is no body and no semicolon. -/
theorem Closed.last_of_scan {inside : List Bracket} (hinside : inside.getLast? ≠ some .brace)
    (hbs : bs.count .brace = 0) (h : Closed (inside ++ bs) ts) {stop : Token}
    (hscan : Outline.scan endsHeader inside.length (ts ++ [stop]) = [stop]) :
    ∀ t ∈ ts.getLast?, t.kind ∉ [.symbol .semi, .closing .brace] := by
  induction ts generalizing inside bs with
  | nil => simp
  | cons t ts ih =>
    have hgo : ¬(t.kind = .eof ∨ inside.length = 0 ∧ endsHeader t.kind) := by
      intro hstops
      rw [List.cons_append, Outline.scan, if_pos hstops] at hscan
      simpa using congrArg List.length hscan
    rw [List.cons_append, Outline.scan, if_neg hgo] at hscan
    have hsemi : inside = [] → endsHeader t.kind = false := by
      rintro rfl
      simpa using fun hends => hgo (.inr ⟨rfl, hends⟩)
    have last (hnil : ts = [] → t.kind ∉ [.symbol .semi, .closing .brace])
        (hrest : ∀ u ∈ ts.getLast?, u.kind ∉ [.symbol .semi, .closing .brace]) :
        ∀ u ∈ (t :: ts).getLast?, u.kind ∉ [.symbol .semi, .closing .brace] := by
      cases ts with
      | nil => simpa using hnil rfl
      | cons v ts => simpa using hrest
    generalize hstack : inside ++ bs = stack at h
    cases h with
    | plain hp h =>
      subst hstack
      have hdepth : Outline.scan endsHeader inside.length (ts ++ [stop]) = [stop] := by
        revert hscan
        split <;> simp_all [Token.Kind.isPlain]
      refine last (fun hnil => ?_) (ih hinside hbs h hdepth)
      subst hnil
      have hkind := hsemi (List.append_eq_nil_iff.mp h.eq_nil).1
      have hc : t.kind ≠ .closing .brace := Token.Kind.ne_of_isPlain hp rfl
      simp only [endsHeader, decide_eq_false_iff_not, List.mem_cons, not_or] at hkind
      simp [hkind.2.2.1, hc]
    | @opening _ b _ _ ho h =>
      subst hstack
      rw [ho] at hscan
      have hlast : (b :: inside).getLast? ≠ some .brace := by
        cases inside with
        | nil =>
          have hkind := hsemi rfl
          rintro heq
          obtain rfl : b = .brace := by simpa using heq
          simp [ho, endsHeader] at hkind
        | cons c inside => simpa using hinside
      have h : Closed ((b :: inside) ++ bs) ts := h
      refine last (fun hnil => ?_) (ih hlast hbs h hscan)
      subst hnil
      simpa using h.eq_nil
    | @closing stack b _ _ hc h =>
      rw [hc] at hscan
      cases inside with
      | nil =>
        rw [List.nil_append] at hstack
        subst hstack
        have hb : b ≠ .brace := by
          rintro rfl
          simp at hbs
        have hcount : stack.count .brace = 0 := by simpa [List.count_cons, hb] using hbs
        have h : Closed ([] ++ stack) ts := h
        exact last (fun _ => by simp [hc, hb]) (ih (by simp) hcount h hscan)
      | cons d inside =>
        obtain ⟨rfl, rfl⟩ := List.cons.inj hstack
        have hlast : inside.getLast? ≠ some .brace := by
          cases inside with
          | nil => simp
          | cons c inside => simpa using hinside
        refine last (fun hnil => ?_) (ih hlast hbs h hscan)
        subst hnil
        obtain ⟨rfl, -⟩ := List.append_eq_nil_iff.mp h.eq_nil
        have hd : d ≠ .brace := by simpa using hinside
        simp [hc, hd]

end

end Doctest.Outline
