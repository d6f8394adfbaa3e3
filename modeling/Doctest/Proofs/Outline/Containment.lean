import Doctest.Proofs.Outline.Enclosure
import Doctest.Proofs.Outline.Events

/-! Blocks that contain what stands in them. The items in the braces of a module, malformed ones too, make
elements below that module, and what follows the closing brace is read as if they were not there. The one
exception is an impl whose header runs over the brace. -/
namespace Doctest.Outline

namespace Event

def isFault : Event → Bool
  | item header => header.isFault
  | unmatched _ | unclosed _ => true
  | _ => false

/-- The number of faults that are met. -/
def faults (es : List Event) : Nat :=
  es.countP isFault

/-- The tokens that are read after an event. The rest of a faulty item is passed over. -/
def resume (e : Event) (ts : List Token) : List Token :=
  if e.isFault then skipItem 0 ts else ts

def opensBlock : Event → Bool
  | item (.body _ _) => true
  | _ => false

end Event

/-- In the reading of these tokens of a block, also in the blocks in it, an impl is met whose header runs over
the end of its block. -/
inductive Escapes (source : String) : List Token → Prop
  | header {ts : List Token} : RunsOver ts → Escapes source ts
  | next {t : Token} {ts rest : List Token} {e : Event} : Event.next source t ts = (e, rest) →
    e.opensBlock = false → Escapes source (e.resume rest) → Escapes source (t :: ts)
  | inside {t close : Token} {ts body rest : List Token} {e : Event} :
    Event.next source t ts = (e, body ++ close :: rest) → e.opensBlock → Closed [] body →
    close.kind = .closing .brace → Escapes source body → Escapes source (t :: ts)
  | after {t close : Token} {ts body rest : List Token} {e : Event} :
    Event.next source t ts = (e, body ++ close :: rest) → e.opensBlock → Closed [] body →
    close.kind = .closing .brace → Escapes source rest → Escapes source (t :: ts)

/-- Only an impl escapes. -/
theorem Escapes.exists_impl {source : String} {ts : List Token} (h : Escapes source ts) :
    ∃ t ∈ ts, t.kind = .keyword .implKw := by
  have hresume (e : Event) (rest : List Token) : e.resume rest <:+ rest := by
    unfold Event.resume
    split
    · exact skipItem_suffix 0 rest
    · exact List.suffix_refl rest
  have weaken {part ts : List Token} (hsub : ∀ t ∈ part, t ∈ ts)
      (ih : ∃ t ∈ part, t.kind = .keyword .implKw) : ∃ t ∈ ts, t.kind = .keyword .implKw := by
    obtain ⟨t, hmem, ht⟩ := ih
    exact ⟨t, hsub t hmem, ht⟩
  induction h with
  | @header ts hover =>
    obtain ⟨t, rest, hqualifiers, ht, -⟩ := hover
    have hsuffix := Header.qualifiers_suffix ts
    rw [hqualifiers] at hsuffix
    exact ⟨t, hsuffix.mem List.mem_cons_self, ht⟩
  | @next t ts rest e hnext _ _ ih =>
    have hsuffix := Event.next_suffix source t ts
    rw [hnext] at hsuffix
    exact weaken (fun u hu => hsuffix.mem ((hresume e rest).mem hu)) ih
  | @inside t close ts body rest e hnext _ _ _ _ ih =>
    have hsuffix := Event.next_suffix source t ts
    rw [hnext] at hsuffix
    exact weaken (fun u hu => hsuffix.mem (List.mem_append_left _ hu)) ih
  | @after t close ts body rest e hnext _ _ _ _ ih =>
    have hsuffix := Event.next_suffix source t ts
    rw [hnext] at hsuffix
    exact weaken (fun u hu => hsuffix.mem (List.mem_append_right _ (List.mem_cons_of_mem _ hu))) ih

/-- Events of whole elements and of what is in between. -/
inductive Enclosed : List Event → Prop
  | nil : Enclosed []
  | event {e : Event} {es : List Event} : e.opensBlock = false → (∀ span, e ≠ .unclosed span) →
    e ≠ .close → Enclosed es → Enclosed (e :: es)
  | block {e : Event} {inside es : List Event} : e.opensBlock → Enclosed inside → Enclosed es →
    Enclosed (e :: (inside ++ .close :: es))

/-- The tokens up to the bracket that closes the innermost open one. -/
theorem Closed.exists_closing {inside bs : List Bracket} {b : Bracket} {ts : List Token}
    (h : Closed (inside ++ b :: bs) ts) : ∃ body close rest, ts = body ++ close :: rest ∧
      Closed inside body ∧ close.kind = .closing b ∧ Closed bs rest := by
  induction ts generalizing inside with
  | nil => simpa using h.eq_nil
  | cons t ts ih =>
    generalize hstack : inside ++ b :: bs = stack at h
    cases h with
    | plain ht h =>
      subst hstack
      obtain ⟨body, close, rest, rfl, hbody, hclose, hrest⟩ := ih h
      exact ⟨t :: body, close, rest, rfl, .plain ht hbody, hclose, hrest⟩
    | @opening _ c _ _ ht h =>
      subst hstack
      have hinside : Closed ((c :: inside) ++ b :: bs) ts := h
      obtain ⟨body, close, rest, rfl, hbody, hclose, hrest⟩ := ih hinside
      exact ⟨t :: body, close, rest, rfl, .opening ht hbody, hclose, hrest⟩
    | @closing stack c _ _ ht h =>
      cases inside with
      | nil =>
        obtain ⟨rfl, rfl⟩ := List.cons.inj hstack
        exact ⟨[], t, ts, rfl, .nil, ht, h⟩
      | cons d inside =>
        obtain ⟨rfl, rfl⟩ := List.cons.inj hstack
        obtain ⟨body, close, rest, rfl, hbody, hclose, hrest⟩ := ih h
        exact ⟨t :: body, close, rest, rfl, .closing ht hbody, hclose, hrest⟩

/-- These tokens in a block that `close` ends are read into these events, whatever comes after, as long as
not too many faults are met. -/
def ReadsTo (source : String) (close : Token) (ts : List Token) (es : List Event) : Prop :=
  ∀ depth faults after,
    let all := Event.ofTokens source (depth + 1) faults (ts ++ close :: after)
    (faults + Event.faults es < Mark.maxFaults →
      all = es ++ .close :: Event.ofTokens source depth (faults + Event.faults es) after) ∧
    (Mark.maxFaults ≤ faults + Event.faults es → Mark.maxFaults ≤ faults + Event.faults all)

namespace ReadsTo

variable {source : String} {close t : Token} {ts rest : List Token} {e : Event} {es : List Event}

theorem nil (hclose : close.kind = .closing .brace) : ReadsTo source close [] [] := by
  intro depth faults after
  refine ⟨fun _ => ?_, fun hmax => hmax.trans (Nat.add_le_add_left (Nat.zero_le _) _)⟩
  exact Event.ofTokens_closing source depth faults after hclose

theorem cons (h : ReadsTo source close rest es) (he : e.isFault = false)
    (hstep : ∀ depth faults after, Event.ofTokens source (depth + 1) faults (t :: (ts ++ close :: after)) =
      e :: Event.ofTokens source (depth + 1) faults (rest ++ close :: after)) :
    ReadsTo source close (t :: ts) (e :: es) := by
  intro depth faults after
  have hcount (es : List Event) : Event.faults (e :: es) = Event.faults es := by
    simp [Event.faults, he]
  obtain ⟨hfew, hmany⟩ := h depth faults after
  simp only [List.cons_append, hstep, hcount]
  exact ⟨fun hlt => congrArg (e :: ·) (hfew hlt), hmany⟩

section

variable {header : Header} (ht : t.kind.startsItem)
  (hread : ∀ after, Header.read source (t :: (ts ++ close :: after)) = (header, rest ++ close :: after))
include ht hread

theorem item (hfault : header.isFault = false) (hbraces : header.braces = [])
    (h : ReadsTo source close rest es) : ReadsTo source close (t :: ts) (.item header :: es) := by
  refine h.cons hfault fun depth faults after => ?_
  rw [Event.ofTokens_item source _ faults _ ht, hread]
  cases header <;> first | rfl | (cases hfault; done) | cases hbraces

/-- After a fault the rest of the item is passed over. -/
theorem faulty {left : List Token} (hfault : header.isFault)
    (hskip : ∀ after, skipItem 0 (rest ++ close :: after) = left ++ close :: after)
    (h : ReadsTo source close left es) : ReadsTo source close (t :: ts) (.item header :: es) := by
  intro depth faults after
  have hcount (es : List Event) : Event.faults (.item header :: es) = Event.faults es + 1 := by
    simp [Event.faults, Event.isFault, hfault]
  have hstep : Event.ofTokens source (depth + 1) faults (t :: (ts ++ close :: after)) =
      .item header :: if faults + 1 < Mark.maxFaults
        then Event.ofTokens source (depth + 1) (faults + 1) (left ++ close :: after)
        else .close :: Event.ofTokens source depth (faults + 1) (rest ++ close :: after) := by
    rw [Event.ofTokens_item source _ faults _ ht, hread, ← hskip]
    cases header <;> first | rfl | cases hfault
  obtain ⟨hfew, hmany⟩ := h depth (faults + 1) after
  simp only [List.cons_append, hstep, hcount]
  refine ⟨fun hlt => ?_, fun hle => ?_⟩
  · rw [if_pos (by omega), hfew (by omega), Nat.add_right_comm, Nat.add_assoc]
  · split
    · have := hmany (by omega)
      omega
    · omega

/-- The block of an item is read up to the brace that closes it, and then what comes after that brace. -/
theorem block {inner : Token} {body left : List Token} {inside : List Event}
    (hbraces : header.braces = [.brace]) (hrest : rest = body ++ inner :: left)
    (hbody : ReadsTo source inner body inside) (h : ReadsTo source close left es) :
    ReadsTo source close (t :: ts) (.item header :: (inside ++ .close :: es)) := by
  subst hrest
  intro depth faults after
  have hcount (es : List Event) : Event.faults (.item header :: es) = Event.faults es := by
    cases header <;> first | rfl | cases hbraces
  have happend (es : List Event) : Event.faults (inside ++ .close :: es) =
      Event.faults inside + Event.faults es := by
    simp [Event.faults, Event.isFault]
  have hstep : Event.ofTokens source (depth + 1) faults (t :: (ts ++ close :: after)) =
      .item header ::
        Event.ofTokens source (depth + 2) faults (body ++ inner :: (left ++ close :: after)) := by
    rw [Event.ofTokens_item source _ faults _ ht, hread]
    cases header <;> cases hbraces
    simp [Event.following]
  obtain ⟨hfew, hmany⟩ := hbody (depth + 1) faults (left ++ close :: after)
  obtain ⟨hfew', hmany'⟩ := h depth (faults + Event.faults inside) after
  simp only [List.cons_append, hstep, hcount, happend, List.append_assoc]
  refine ⟨fun hlt => ?_, fun hle => ?_⟩
  · rw [hfew (by omega), hfew' (by omega), Nat.add_assoc]
  · by_cases hinside : faults + Event.faults inside < Mark.maxFaults
    · rw [hfew hinside, happend]
      have := hmany' (by omega)
      omega
    · exact hmany (Nat.le_of_not_lt hinside)

end

end ReadsTo

theorem Closed.dropWhile_isInner {bs : List Bracket} {ts : List Token} (h : Closed bs ts) :
    Closed bs (ts.dropWhile isInner) := by
  induction ts with
  | nil => exact h
  | cons t ts ih =>
    by_cases ht : isInner t = true
    · rw [List.dropWhile_cons_of_pos ht]
      refine ih (h.tail ?_)
      unfold isInner at ht
      split at ht
      · next heq => rw [heq]; rfl
      · simp at ht
    · rwa [List.dropWhile_cons_of_neg ht]

theorem dropWhile_isInner_append {close : Token} (h : isInner close = false) (ts after : List Token) :
    (ts ++ close :: after).dropWhile isInner = ts.dropWhile isInner ++ close :: after := by
  rw [List.dropWhile_append, List.dropWhile_cons_of_neg (by simp [h])]
  split
  · next hnil => rw [List.isEmpty_iff.mp hnil, List.nil_append]
  · rfl

theorem takeWhile_isInner_append {close : Token} (h : isInner close = false) (ts after : List Token) :
    (ts ++ close :: after).takeWhile isInner = ts.takeWhile isInner := by
  rw [List.takeWhile_append, List.takeWhile_cons_of_neg (by simp [h]), List.append_nil]
  split
  · next hlen => exact ((List.takeWhile_prefix _).eq_of_length hlen).symm
  · rfl

/-- A header has the same block whatever comes after it. -/
theorem Header.opensBlock_eq_of_braces {header own : Header} (h : header.braces = own.braces) :
    (Event.item header).opensBlock = (Event.item own).opensBlock := by
  cases header <;> cases own <;> first | rfl | cases h

/-- An item of a block is read from the tokens of the block, if what is left of the block is. -/
theorem Closed.exists_readsTo_item {source : String} {bs : List Bracket} {t close : Token} {ts : List Token}
    (h : Closed bs (t :: ts)) (hbs : bs.count .brace = 0) (ht : t.kind.startsItem)
    (hstays : ¬Escapes source (t :: ts)) (hclose : close.kind = .closing .brace)
    (below : ∀ {bs : List Bracket} {rest : List Token} {close : Token}, rest.length ≤ ts.length →
      Closed bs rest → bs.count .brace = 0 → ¬Escapes source rest → close.kind = .closing .brace →
        ∃ es, Enclosed es ∧ ReadsTo source close rest es) :
    ∃ es, Enclosed es ∧ ReadsTo source close (t :: ts) es := by
  have hends : EndsBlock close.kind := .inr hclose
  obtain ⟨faulty, new, rest, bs', hsuffix, hbs', hrest, hread⟩ :=
    (h.stays_read hbs fun hover => hstays (.header hover) : Stays (Header.read source) (t :: ts))
  obtain ⟨own, ⟨hfaultOwn, hnewOwn⟩, hown⟩ := hread .eof (.inl rfl) ⟨0, 0⟩
  obtain ⟨header, ⟨hfault, hnew⟩, hheader⟩ := hread close.kind hends close.span
  have hhere (after : List Token) := hheader (close :: after) rfl rfl
  have hself : Header.read source (t :: ts) = (own, rest) := by simpa using hown [] rfl rfl
  have hnext : Event.next source t ts = (.item own, rest) := by
    rw [Event.next_item source ts ht, hself]
  have hlen : rest.length ≤ ts.length := by
    have hlt := Header.length_read_lt source ts (Token.Kind.ne_of_startsItem ht rfl)
      (Token.Kind.ne_of_startsItem ht rfl)
    simpa [hself, Nat.lt_succ_iff] using hlt
  have hopens : (Event.item header).opensBlock = (Event.item own).opensBlock :=
    Header.opensBlock_eq_of_braces (hnew.trans hnewOwn.symm)
  by_cases hblock : (Event.item own).opensBlock
  · have hnew : new = [.brace] := by
      cases own <;> first | exact hnewOwn.symm | cases hblock
    subst hnew
    have hopen : Closed ([] ++ .brace :: bs') rest := hrest
    obtain ⟨body, inner, left, rfl, hbody, hinner, hleft⟩ := hopen.exists_closing
    have hlenBody : body.length ≤ ts.length := by simp at hlen; omega
    have hlenLeft : left.length ≤ ts.length := by simp at hlen; omega
    obtain ⟨inside, hinside, hreadsBody⟩ := below hlenBody hbody rfl
      (fun hesc => hstays (.inside hnext hblock hbody hinner hesc)) hinner
    obtain ⟨es, hes, hreads⟩ := below hlenLeft hleft hbs'
      (fun hesc => hstays (.after hnext hblock hbody hinner hesc)) hclose
    exact ⟨_, .block (hopens.trans hblock) hinside hes, .block ht hhere hnew rfl hreadsBody hreads⟩
  · have hnew : new = [] := by
      cases own <;> first | exact hnewOwn.symm | exact absurd rfl hblock
    subst hnew
    have hblock := Bool.eq_false_iff.mpr hblock
    have hopens := hopens.trans hblock
    by_cases hfaulty : (Event.item own).isFault
    · obtain ⟨left, bs₂, hsuffix₂, hbs₂, hleft, hskip⟩ := (hrest.skipItem).exists_left hbs'
      have hresume : (Event.item own).resume rest = left := by
        rw [Event.resume, if_pos hfaulty]
        simpa using hskip [] (.inl rfl)
      obtain ⟨es, hes, hreads⟩ := below (hsuffix₂.length_le.trans hlen) hleft hbs₂
        (fun hesc => hstays (.next hnext hblock (hresume ▸ hesc))) hclose
      exact ⟨_, .event hopens (by simp) (by simp) hes,
        .faulty ht hhere (hfault.trans (hfaultOwn.symm.trans hfaulty))
          (fun after => hskip (close :: after) hends) hreads⟩
    · have hresume : (Event.item own).resume rest = rest := if_neg hfaulty
      obtain ⟨es, hes, hreads⟩ := below hlen hrest hbs'
        (fun hesc => hstays (.next hnext hblock (by rwa [hresume]))) hclose
      exact ⟨_, .event hopens (by simp) (by simp) hes,
        .item ht hhere (hfault.trans (hfaultOwn.symm.trans (Bool.eq_false_iff.mpr hfaulty)))
          hnew hreads⟩

/-- **A block is read from its own tokens.** -/
theorem Closed.exists_readsTo {source : String} {bs : List Bracket} {ts : List Token} (h : Closed bs ts)
    (hbs : bs.count .brace = 0) (hstays : ¬Escapes source ts) {close : Token}
    (hclose : close.kind = .closing .brace) : ∃ es, Enclosed es ∧ ReadsTo source close ts es := by
  induction hn : ts.length using Nat.strong_induction_on generalizing bs ts close with
  | _ n ih =>
    subst hn
    cases ts with
    | nil => exact ⟨[], .nil, .nil hclose⟩
    | cons t ts =>
      have below {bs : List Bracket} {rest : List Token} {close : Token} (hlen : rest.length ≤ ts.length)
          (h : Closed bs rest) (hbs : bs.count .brace = 0) (hstays : ¬Escapes source rest)
          (hclose : close.kind = .closing .brace) : ∃ es, Enclosed es ∧ ReadsTo source close rest es :=
        ih rest.length (Nat.lt_succ_of_le hlen) h hbs hstays hclose rfl
      rcases Event.kind_cases t with ht | ht | ⟨text, ht⟩ | ⟨text, ht⟩ | ht | ht
      · exact absurd ht h.ne_eof
      · obtain ⟨outer, rfl, -⟩ := h.exists_outside ht
        simp at hbs
      · have hnext := Event.next_comment source ts ht
        obtain ⟨es, hes, hreads⟩ := below (Nat.le_refl _) (h.tail (by rw [ht]; rfl)) hbs
          (fun hesc => hstays (.next hnext rfl hesc)) hclose
        refine ⟨.comment text t.span :: es, .event rfl (by simp) (by simp) hes, hreads.cons rfl ?_⟩
        exact fun depth faults after => Event.ofTokens_comment source _ faults _ ht
      · have hinner : isInner close = false := by simp [isInner, hclose]
        have hnext := Event.next_inner source ts ht
        obtain ⟨es, hes, hreads⟩ := below (List.dropWhile_suffix _).length_le
          (h.tail (by rw [ht]; rfl)).dropWhile_isInner hbs (fun hesc => hstays (.next hnext rfl hesc)) hclose
        refine ⟨.inner ((text, t.span) :: (ts.takeWhile isInner).filterMap (·.comment?)) :: es,
          .event rfl (by simp) (by simp) hes, hreads.cons rfl fun depth faults after => ?_⟩
        rw [Event.ofTokens_inner source _ faults _ ht, takeWhile_isInner_append hinner,
          dropWhile_isInner_append hinner]
      · obtain ⟨rest, bs', hsuffix, hbs', hrest, hleft⟩ :=
          (h.tail (by rw [ht]; rfl)).skipAttribute.exists_left hbs
        have hself : Outline.skipAttribute ts = rest := by simpa using hleft [] (.inl rfl)
        have hnext := hself ▸ Event.next_attr source ts ht
        obtain ⟨es, hes, hreads⟩ := below hsuffix.length_le hrest hbs'
          (fun hesc => hstays (.next hnext rfl hesc)) hclose
        refine ⟨.attr :: es, .event rfl (by simp) (by simp) hes,
          hreads.cons rfl fun depth faults after => ?_⟩
        rw [Event.ofTokens_attr source _ faults _ ht, hleft (close :: after) (.inr hclose)]
      · exact h.exists_readsTo_item hbs ht hstays hclose below

end Doctest.Outline
