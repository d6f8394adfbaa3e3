import Mathlib.Data.List.Basic
import Doctest.Outline.Mark

/-! The loops that pass over tokens, turn by turn. A turn of such a loop takes at least one token away or is the
last one, and the end of the file is never taken away, so each loop ends. What it leaves then is what the function
of the same name leaves. -/
namespace Doctest.Outline

/-- What one turn of a loop does: the loop goes on from another state, or returns. -/
inductive Turn (σ ρ : Type)
  | again (state : σ)
  | done (result : ρ)

namespace Turn

variable {σ ρ : Type} {turn : σ → Turn σ ρ}

/-- From the state `s` on, the loop returns `r` in its `n`th turn. -/
inductive Ends (turn : σ → Turn σ ρ) : (n : Nat) → (s : σ) → (r : ρ) → Prop
  | done {s : σ} {r : ρ} : turn s = .done r → Ends turn 1 s r
  | again {n : Nat} {s s' : σ} {r : ρ} : turn s = .again s' → Ends turn n s' r → Ends turn (n + 1) s r

/-- A loop whose states get smaller ends. What its last turn guarantees holds from the first state on if each
turn carries it back. -/
theorem exists_ends (Result : σ → ρ → Prop) (size : σ → Nat)
    (hagain : ∀ s s', turn s = .again s' → size s' < size s ∧ ∀ r, Result s' r → Result s r)
    (hdone : ∀ s r, turn s = .done r → Result s r) (s : σ) :
    ∃ n ≤ size s + 1, ∃ r, Ends turn n s r ∧ Result s r := by
  induction hsize : size s using Nat.strongRecOn generalizing s with
  | ind k ih =>
    subst hsize
    cases hturn : turn s with
    | done r => exact ⟨1, Nat.le_add_left 1 _, r, .done hturn, hdone s r hturn⟩
    | again s' =>
      obtain ⟨hlt, hback⟩ := hagain s s' hturn
      obtain ⟨n, hn, r, hends, hresult⟩ := ih (size s') hlt s' rfl
      exact ⟨n + 1, by omega, r, .again hturn hends, hback r hresult⟩

end Turn

/-- `rest` is what is left of `ts` after some of its tokens, none of which is the end of the file. -/
def Consumes (ts rest : List Token) : Prop :=
  ∃ used, ts = used ++ rest ∧ ∀ t ∈ used, t.kind ≠ .eof

/-- At least one token is consumed. -/
def Advances (ts rest : List Token) : Prop :=
  ∃ t us, ts = t :: us ∧ t.kind ≠ .eof ∧ Consumes us rest

namespace Consumes

variable {ts us vs : List Token} {t : Token}

theorem refl (ts : List Token) : Consumes ts ts :=
  ⟨[], rfl, by simp⟩

theorem trans (h : Consumes ts us) (h' : Consumes us vs) : Consumes ts vs := by
  obtain ⟨front, rfl, hfront⟩ := h
  obtain ⟨more, rfl, hmore⟩ := h'
  refine ⟨front ++ more, (List.append_assoc _ _ _).symm, ?_⟩
  exact fun t ht => (List.mem_append.mp ht).elim (hfront t) (hmore t)

theorem advances (ht : t.kind ≠ .eof) (h : Consumes us vs) : Advances (t :: us) vs :=
  ⟨t, us, rfl, ht, h⟩

theorem suffix (h : Consumes ts us) : us <:+ ts := by
  obtain ⟨used, rfl, -⟩ := h
  exact List.suffix_append used us

theorem advances_of_lt (h : Consumes ts us) (hlt : us.length < ts.length) : Advances ts us := by
  obtain ⟨used, rfl, hused⟩ := h
  cases used with
  | nil => exact absurd hlt (Nat.lt_irrefl _)
  | cons t used =>
    obtain ⟨ht, hrest⟩ := List.forall_mem_cons.mp hused
    exact ⟨t, used ++ us, rfl, ht, used, rfl, hrest⟩

/-- Where only the last token is the end of the file, all others were consumed before it. -/
theorem eq_last {last : Token} (h : Consumes (ts ++ [last]) us) (hts : ∀ t ∈ ts, t.kind ≠ .eof)
    (hlast : last.kind = .eof) (hus : kindOf us = .eof) : us = [last] := by
  obtain ⟨used, heq, hused⟩ := h
  rcases List.append_eq_append_iff.mp heq with ⟨more, rfl, hmore⟩ | ⟨more, rfl, hmore⟩
  · cases more with
    | nil => exact hmore.symm
    | cons t more =>
      obtain ⟨rfl, -⟩ : last = t ∧ [] = more ++ us := by simpa using hmore
      exact absurd hlast (hused last (by simp))
  · cases more with
    | nil => exact hmore
    | cons t more =>
      rw [hmore] at hus
      exact absurd hus (hts t (by simp))

/-- The first token is left out if it is not the end of the file. -/
theorem drop_one (h : kindOf ts ≠ .eof) : Consumes ts (ts.drop 1) := by
  cases ts with
  | nil => exact refl []
  | cons t ts => exact ⟨[t], rfl, by simpa [kindOf] using h⟩

end Consumes

namespace Advances

variable {ts us vs : List Token} {t : Token}

theorem consumes (h : Advances ts us) : Consumes ts us := by
  obtain ⟨t, more, rfl, ht, used, rfl, hused⟩ := h
  exact ⟨t :: used, rfl, List.forall_mem_cons.mpr ⟨ht, hused⟩⟩

theorem trans (h : Advances ts us) (h' : Consumes us vs) : Advances ts vs := by
  obtain ⟨t, more, rfl, ht, hmore⟩ := h
  exact (hmore.trans h').advances ht

theorem length_lt (h : Advances ts us) : us.length < ts.length := by
  obtain ⟨t, more, rfl, -, hmore⟩ := h
  exact Nat.lt_succ_of_le hmore.suffix.length_le

end Advances

/-- A loop over tokens at a depth of brackets: its turns, and the tokens that it leaves. -/
structure Loop where
  turn : Nat × List Token → Turn (Nat × List Token) (List Token)
  rest : Nat → List Token → List Token

namespace Loop

/-- A turn that takes a token away, or is the last one. The tokens that the loop leaves are those that it leaves
from there on. -/
inductive Moves (l : Loop) (depth : Nat) (ts : List Token) : Turn (Nat × List Token) (List Token) → Prop
  | again {depth' : Nat} {ts' : List Token} : Advances ts ts' → l.rest depth ts = l.rest depth' ts' →
    Moves l depth ts (.again (depth', ts'))
  | done {ts' : List Token} : Consumes ts ts' → l.rest depth ts = ts' → Moves l depth ts (.done ts')

def Sound (l : Loop) : Prop :=
  ∀ depth ts, l.Moves depth ts (l.turn (depth, ts))

theorem Sound.exists_ends {l : Loop} (h : l.Sound) (depth : Nat) (ts : List Token) :
    ∃ n ≤ ts.length + 1, Turn.Ends l.turn n (depth, ts) (l.rest depth ts) := by
  suffices hends : ∃ n ≤ ts.length + 1, ∃ r, Turn.Ends l.turn n (depth, ts) r ∧ l.rest depth ts = r by
    obtain ⟨n, hn, r, hends, rfl⟩ := hends
    exact ⟨n, hn, hends⟩
  refine Turn.exists_ends (fun s r => l.rest s.1 s.2 = r) (fun s => s.2.length) ?_ ?_ (depth, ts)
  · rintro ⟨d, us⟩ s' hturn
    have hmoves := h d us
    rw [hturn] at hmoves
    cases hmoves with
    | again hadvances hrest => exact ⟨hadvances.length_lt, fun r hr => hrest.trans hr⟩
  · rintro ⟨d, us⟩ r hturn
    have hmoves := h d us
    rw [hturn] at hmoves
    cases hmoves with
    | done _ hrest => exact hrest

/-- A loop leaves an end of the tokens, in which the end of the file is if it was there. -/
theorem Sound.consumes {l : Loop} (h : l.Sound) (depth : Nat) (ts : List Token) :
    Consumes ts (l.rest depth ts) := by
  induction hn : ts.length using Nat.strongRecOn generalizing depth ts with
  | ind n ih =>
    subst hn
    have hmoves := h depth ts
    generalize l.turn (depth, ts) = turn at hmoves
    cases hmoves with
    | done hconsumes hrest => exact hrest ▸ hconsumes
    | again hadvances hrest =>
      rw [hrest]
      exact hadvances.consumes.trans (ih _ hadvances.length_lt _ _ rfl)

section Turns

variable {l : Loop} {depth depth' : Nat} {t : Token} {ts : List Token}

/-- A turn that goes on after the first token. -/
theorem Moves.next (ht : t.kind ≠ .eof) (hrest : l.rest depth (t :: ts) = l.rest depth' ts) :
    l.Moves depth (t :: ts) (.again (depth', ts)) :=
  .again ((Consumes.refl ts).advances ht) hrest

/-- The last turn, which takes the first token. -/
theorem Moves.last (ht : t.kind ≠ .eof) (hrest : l.rest depth (t :: ts) = ts) :
    l.Moves depth (t :: ts) (.done ts) :=
  .done ((Consumes.refl ts).advances ht).consumes hrest

/-- The last turn, which takes nothing. -/
theorem Moves.stay (hrest : l.rest depth ts = ts) : l.Moves depth ts (.done ts) :=
  .done (.refl ts) hrest

end Turns

/-- Goes on to the bracket that closes the group. -/
def group : Loop where
  turn
    | (_, []) => .done []
    | (depth, t :: ts) =>
      match t.kind with
      | .opening _ => .again (depth + 1, ts)
      | .closing _ => if depth ≤ 1 then .done ts else .again (depth - 1, ts)
      | .eof => .done (t :: ts)
      | _ => .again (depth, ts)
  rest := skipGroup

theorem sound_group : group.Sound := by
  intro depth ts
  cases ts with
  | nil => exact .stay rfl
  | cons t ts =>
    unfold group
    dsimp only
    split
    · next hk => exact .next (by simp [hk]) (by simp [skipGroup, hk])
    · next hk =>
      split
      · next hle => exact .last (by simp [hk]) (by simp [skipGroup, hk, hle])
      · next hlt => exact .next (by simp [hk]) (by simp [skipGroup, hk, hlt])
    · next hk => exact .stay (by simp [skipGroup, hk])
    · exact .next (by assumption) (by simp_all [skipGroup])

theorem consumes_skipGroup (depth : Nat) (ts : List Token) : Consumes ts (skipGroup depth ts) :=
  sound_group.consumes depth ts

/-- Goes on to the body or the semicolon that ends an item, and over it. -/
def item : Loop where
  turn
    | (_, []) => .done []
    | (depth, t :: ts) =>
      match t.kind, depth with
      | .opening .brace, 0 => .done (skipGroup 0 (t :: ts))
      | .symbol .semi, 0 => .done ts
      | .closing .brace, 0 => .done (t :: ts)
      | .eof, _ => .done (t :: ts)
      | .opening _, depth => .again (depth + 1, ts)
      | .closing _, depth => .again (depth - 1, ts)
      | _, depth => .again (depth, ts)
  rest := skipItem

theorem sound_item : item.Sound := by
  intro depth ts
  cases ts with
  | nil => exact .stay rfl
  | cons t ts =>
    unfold item
    dsimp only
    split
    · next hk => exact .done (consumes_skipGroup 0 _) (by simp [skipItem, skipGroup, hk])
    · next hk => exact .last (by simp [hk]) (by simp [skipItem, hk])
    · next hk => exact .stay (by simp [skipItem, hk])
    · next hk => exact .stay (by simp [skipItem, hk])
    · next hk _ => exact .next (by simp [hk]) (by simp_all [skipItem])
    · next hk _ => exact .next (by simp [hk]) (by simp_all [skipItem])
    · exact .next (by simp_all) (by simp_all [skipItem])

theorem consumes_skipItem (depth : Nat) (ts : List Token) : Consumes ts (skipItem depth ts) :=
  sound_item.consumes depth ts

/-- Inside a group the semicolon of an item is looked for after the group. -/
theorem skipToSemi_succ (depth : Nat) (ts : List Token) :
    skipToSemi (depth + 1) ts = skipToSemi 0 (skipGroup (depth + 1) ts) := by
  induction ts generalizing depth with
  | nil => rfl
  | cons t ts ih =>
    rw [skipToSemi.eq_def, skipGroup.eq_def]
    dsimp only
    split
    · next h => cases h
    · next h => cases h
    · next ht => simp [ht, skipToSemi]
    · next ht => rw [ht]; exact ih (depth + 1)
    · next ht _ =>
      rw [ht]
      cases depth with
      | zero => rfl
      | succ depth => exact ih depth
    · next ht _ _ => split <;> simp_all

/-- Goes on to the semicolon that ends an item, over whole groups. -/
def toSemi : Loop where
  turn
    | (_, []) => .done []
    | (_, t :: ts) =>
      match t.kind with
      | .symbol .semi => .done ts
      | .closing .brace | .eof => .done (t :: ts)
      | .opening _ => .again (0, skipGroup 0 (t :: ts))
      | _ => .again (0, ts)
  rest _ := skipToSemi 0

theorem sound_toSemi : toSemi.Sound := by
  intro depth ts
  cases ts with
  | nil => exact .stay rfl
  | cons t ts =>
    unfold toSemi
    dsimp only
    split
    · next hk => exact .last (by simp [hk]) (by simp [skipToSemi, hk])
    · next hk => exact .stay (by simp [skipToSemi, hk])
    · next hk => exact .stay (by simp [skipToSemi, hk])
    · next hk =>
      have hgroup : skipGroup 0 (t :: ts) = skipGroup 1 ts := by simp [skipGroup, hk]
      rw [hgroup]
      refine .again ((consumes_skipGroup 1 ts).advances (by simp [hk])) ?_
      dsimp only
      rw [← skipToSemi_succ]
      simp [skipToSemi, hk]
    · refine .next (by assumption) ?_
      dsimp only
      rw [skipToSemi.eq_def]
      dsimp only
      split <;> simp_all

theorem consumes_skipToSemi (ts : List Token) : Consumes ts (skipToSemi 0 ts) :=
  sound_toSemi.consumes 0 ts

/-- Goes on to the angle bracket that closes the generics. -/
def angles : Loop where
  turn
    | (_, []) => .done []
    | (depth, t :: ts) =>
      match t.kind with
      | .symbol .lt => .again (depth + 1, ts)
      | .symbol .gt => if depth ≤ 1 then .done ts else .again (depth - 1, ts)
      | .opening .brace | .symbol .semi | .eof => .done (t :: ts)
      | _ => .again (depth, ts)
  rest := skipAngles

theorem sound_angles : angles.Sound := by
  intro depth ts
  cases ts with
  | nil => exact .stay rfl
  | cons t ts =>
    unfold angles
    dsimp only
    split
    · next hk => exact .next (by simp [hk]) (by simp [skipAngles, hk])
    · next hk =>
      split
      · next hle => exact .last (by simp [hk]) (by simp [skipAngles, hk, hle])
      · next hlt => exact .next (by simp [hk]) (by simp [skipAngles, hk, hlt])
    · next hk => exact .stay (by simp [skipAngles, hk])
    · next hk => exact .stay (by simp [skipAngles, hk])
    · next hk => exact .stay (by simp [skipAngles, hk])
    · exact .next (by simp_all) (by simp_all [skipAngles])

/-- Goes on to the body or the where clause of an impl. -/
def header : Loop where
  turn
    | (_, []) => .done []
    | (depth, t :: ts) =>
      match t.kind, depth with
      | .opening .brace, 0 | .keyword .whereKw, 0 | .symbol .semi, 0 | .eof, _ => .done (t :: ts)
      | .opening _, depth => .again (depth + 1, ts)
      | .closing _, depth => .again (depth - 1, ts)
      | _, depth => .again (depth, ts)
  rest depth ts := (splitHeader depth ts).2

theorem sound_header : header.Sound := by
  intro depth ts
  cases ts with
  | nil => exact .stay rfl
  | cons t ts =>
    unfold header
    dsimp only
    split
    · next hk => exact .stay (by simp [splitHeader, hk])
    · next hk => exact .stay (by simp [splitHeader, hk])
    · next hk => exact .stay (by simp [splitHeader, hk])
    · next hk => exact .stay (by simp [splitHeader, hk])
    · next hk _ => exact .next (by simp [hk]) (by simp_all [splitHeader])
    · next hk => exact .next (by simp [hk]) (by simp_all [splitHeader])
    · exact .next (by simp_all) (by simp_all [splitHeader])

/-- Goes on to the members of a trait or an impl, or over the semicolon in their place. -/
def body : Loop where
  turn
    | (_, []) => .done []
    | (depth, t :: ts) =>
      match t.kind, depth with
      | .opening .brace, 0 | .symbol .semi, 0 => .done ts
      | .closing .brace, 0 | .eof, _ => .done (t :: ts)
      | .opening _, depth => .again (depth + 1, ts)
      | .closing _, depth => .again (depth - 1, ts)
      | _, depth => .again (depth, ts)
  rest depth ts := (findBody depth ts).2

theorem sound_body : body.Sound := by
  intro depth ts
  cases ts with
  | nil => exact .stay rfl
  | cons t ts =>
    unfold body
    dsimp only
    split
    · next hk => exact .last (by simp [hk]) (by simp [findBody, hk])
    · next hk => exact .last (by simp [hk]) (by simp [findBody, hk])
    · next hk => exact .stay (by simp [findBody, hk])
    · next hk => exact .stay (by simp [findBody, hk])
    · next hk _ => exact .next (by simp [hk]) (by simp_all [findBody])
    · next hk _ => exact .next (by simp [hk]) (by simp_all [findBody])
    · exact .next (by simp_all) (by simp_all [findBody])

/-- Goes on over comments on what encloses them. -/
def innerDocs (lines : LineMap) (run : Option DocRun) : Loop where
  turn
    | (_, []) => .done []
    | (_, t :: ts) =>
      match t.kind with
      | .innerDoc _ => .again (0, ts)
      | _ => .done (t :: ts)
  rest _ ts := (Mark.innerDocs lines run ts).2

theorem innerDocs_rest (lines : LineMap) (run other : Option DocRun) (ts : List Token) :
    (Mark.innerDocs lines run ts).2 = (Mark.innerDocs lines other ts).2 := by
  induction ts generalizing run other with
  | nil => rfl
  | cons t ts ih =>
    unfold Mark.innerDocs
    split
    · exact ih _ _
    · rfl

theorem sound_innerDocs (lines : LineMap) (run : Option DocRun) : (innerDocs lines run).Sound := by
  intro depth ts
  cases ts with
  | nil => exact .stay rfl
  | cons t ts =>
    unfold innerDocs
    dsimp only
    split
    · next hk =>
      refine .next (by simp [hk]) ?_
      dsimp only
      rw [Mark.innerDocs, hk]
      exact innerDocs_rest lines _ _ ts
    · exact .stay (by simp_all [Mark.innerDocs])

/-- Goes on over visibility and qualifiers. -/
def qualifiers : Loop where
  turn
    | (_, []) => .done []
    | (_, t :: ts) =>
      match t.kind with
      | .keyword .pubKw =>
        if kindOf ts = .opening .paren then .again (0, skipGroup 0 ts) else .again (0, ts)
      | .keyword .unsafeKw | .keyword .asyncKw => .again (0, ts)
      | .name word =>
        if word = "default" ∧ kindOf ts = .keyword .fnKw then .again (0, ts) else .done (t :: ts)
      | .keyword .constKw =>
        if kindOf ts ∈ [.keyword .fnKw, .keyword .unsafeKw, .keyword .asyncKw, .keyword .externKw]
        then .again (0, ts)
        else .done (t :: ts)
      | .keyword .externKw =>
        if kindOf ts = .keyword .crateKw then .done (skipToSemi 0 ts)
        else if kindOf (Header.dropLiteral ts) = .opening .brace then
          .done (skipGroup 0 (Header.dropLiteral ts))
        else .again (0, Header.dropLiteral ts)
      | _ => .done (t :: ts)
  rest _ ts := (Header.qualifiers ts).2

theorem consumes_dropLiteral (ts : List Token) : Consumes ts (Header.dropLiteral ts) := by
  unfold Header.dropLiteral
  split
  · next hk => exact .drop_one (by simp [hk])
  · exact .refl ts

theorem sound_qualifiers : qualifiers.Sound := by
  intro depth ts
  cases ts with
  | nil => exact .stay (by simp [qualifiers, Header.qualifiers])
  | cons t ts =>
    unfold qualifiers
    dsimp only
    split
    · next hk =>
      split
      · next hp =>
        exact .again ((consumes_skipGroup 0 ts).advances (by simp [hk]))
          (by simp [Header.qualifiers.eq_def (t :: ts), hk, hp])
      · next hp => exact .next (by simp [hk]) (by simp [Header.qualifiers.eq_def (t :: ts), hk, hp])
    · next hk => exact .next (by simp [hk]) (by simp [Header.qualifiers.eq_def (t :: ts), hk])
    · next hk => exact .next (by simp [hk]) (by simp [Header.qualifiers.eq_def (t :: ts), hk])
    · next hk =>
      split
      · next hp => exact .next (by simp [hk]) (by simp [Header.qualifiers.eq_def (t :: ts), hk, hp])
      · next hp => exact .stay (by simp [Header.qualifiers.eq_def (t :: ts), hk, hp])
    · next hk =>
      split
      · next hp => exact .next (by simp [hk]) (by simp_all [Header.qualifiers.eq_def (t :: ts)])
      · next hp => exact .stay (by simp_all [Header.qualifiers.eq_def (t :: ts)])
    · next hk =>
      have hliteral := consumes_dropLiteral ts
      split
      · next hp =>
        exact .done ((consumes_skipToSemi ts).advances (by simp [hk])).consumes
          (by simp [Header.qualifiers.eq_def (t :: ts), hk, hp])
      · next hp =>
        split
        · next hb =>
          exact .done ((hliteral.trans (consumes_skipGroup 0 _)).advances (by simp [hk])).consumes
            (by simp [Header.qualifiers.eq_def (t :: ts), hk, hp, hb])
        · next hb =>
          exact .again (hliteral.advances (by simp [hk]))
            (by simp [Header.qualifiers.eq_def (t :: ts), hk, hp, hb])
    · exact .stay (by simp_all [Header.qualifiers.eq_def (t :: ts)])

/-- All loops that pass over tokens of an item or before one. -/
def all (lines : LineMap) (run : Option DocRun) : List Loop :=
  [group, item, toSemi, angles, header, body, innerDocs lines run, qualifiers]

theorem sound_of_mem_all {lines : LineMap} {run : Option DocRun} {loop : Loop} (h : loop ∈ all lines run) :
    loop.Sound := by
  simp only [all, List.mem_cons, List.not_mem_nil, or_false] at h
  rcases h with rfl | rfl | rfl | rfl | rfl | rfl | rfl | rfl
  · exact sound_group
  · exact sound_item
  · exact sound_toSemi
  · exact sound_angles
  · exact sound_header
  · exact sound_body
  · exact sound_innerDocs lines run
  · exact sound_qualifiers

end Loop

end Doctest.Outline
