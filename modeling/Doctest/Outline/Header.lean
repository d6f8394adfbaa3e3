import Doctest.Outline.Basic
import Doctest.Outline.Fault
import Doctest.Outline.Skip

/-! The header of an item: what it declares, and where its members or the next item begin. -/
namespace Doctest.Outline

/-- What the tokens at the start of an item declare. An item with a body leaves off after the opening
brace, and all others at the next item or at the fault. -/
inductive Header
  | nothing
  | leaf (kind : Element.Kind) (name : String)
  | body (kind : Element.Kind) (name : String)
  | outside (name : String) (span : Span)
  | fault (fault : SyntaxFault)
  | bareModule (name : String) (fault : SyntaxFault)
deriving DecidableEq, Repr

namespace Header

def spanOf : List Token → Span
  | [] => ⟨0, 0⟩
  | t :: _ => t.span

def dropMut (ts : List Token) : List Token :=
  if kindOf ts = .name "mut" then ts.drop 1 else ts

def dropSemi (ts : List Token) : List Token :=
  if kindOf ts = .symbol .semi then ts.drop 1 else ts

def dropLiteral (ts : List Token) : List Token :=
  if kindOf ts = .literal then ts.drop 1 else ts

theorem length_dropMut_le (ts : List Token) : (dropMut ts).length ≤ ts.length := by
  unfold dropMut; split <;> simp

theorem length_dropSemi_le (ts : List Token) : (dropSemi ts).length ≤ ts.length := by
  unfold dropSemi; split <;> simp

theorem length_dropLiteral_le (ts : List Token) : (dropLiteral ts).length ≤ ts.length := by
  unfold dropLiteral; split <;> simp

/-- Passes over visibility and qualifiers. The flag says whether they were an item of their own, which
then is passed over too. -/
def qualifiers : List Token → Bool × List Token
  | [] => (false, [])
  | t :: ts =>
    match t.kind with
    | .keyword .pubKw =>
      if kindOf ts = .opening .paren then qualifiers (skipGroup 0 ts) else qualifiers ts
    | .keyword .unsafeKw | .keyword .asyncKw => qualifiers ts
    | .name word =>
      if word = "default" ∧ kindOf ts = .keyword .fnKw then qualifiers ts else (false, t :: ts)
    | .keyword .constKw =>
      if kindOf ts ∈ [.keyword .fnKw, .keyword .unsafeKw, .keyword .asyncKw, .keyword .externKw]
      then qualifiers ts
      else (false, t :: ts)
    | .keyword .externKw =>
      if kindOf ts = .keyword .crateKw then (true, skipToSemi 0 ts)
      else if kindOf (dropLiteral ts) = .opening .brace then (true, skipGroup 0 (dropLiteral ts))
      else qualifiers (dropLiteral ts)
    | _ => (false, t :: ts)
termination_by ts => ts.length
decreasing_by
  all_goals
    have := length_skipGroup_le 0 ts
    have := length_dropLiteral_le ts
    simp only [List.length_cons]
    omega

/-- Takes a name and goes on after it. -/
def named (ts : List Token) (go : String → List Token → Header × List Token) :
    Header × List Token :=
  match ts with
  | ⟨.name name, _⟩ :: rest => go name rest
  | _ => (.fault ⟨.expectedName (kindOf ts), spanOf ts⟩, ts)

/-- The source text of a header, each run of blanks as one space. -/
def headerName (source : String) (header : List Token) : String :=
  let start := (header.head?.map (·.span.start)).getD 0
  let stop := (header.getLast?.map (·.span.stop)).getD 0
  String.ofList (Text.collapse (((Span.mk start stop).text? source).getD "").toList)

def withMembers (kind : Element.Kind) (name : String) (ts : List Token) : Header × List Token :=
  let (found, rest) := findBody 0 ts
  (if found then .body kind name else .leaf kind name, rest)

/-- Reads an item from the keyword that says its kind. -/
def ofKeyword (source : String) (t : Token) (ts : List Token) : Header × List Token :=
  let leaf (kind : Element.Kind) (skip : List Token → List Token) (ts : List Token) :=
    named ts fun name rest => (.leaf kind name, skip rest)
  match t.kind with
  | .keyword .modKw =>
    named ts fun name rest =>
      match kindOf rest with
      | .symbol .semi => (.outside name (spanOf ts), rest.drop 1)
      | .opening .brace => (.body .module name, rest.drop 1)
      | found => (.bareModule name ⟨.expectedModuleBody found, spanOf rest⟩, rest)
  | .keyword .fnKw => leaf .function (skipItem 0) ts
  | .keyword .structKw => leaf .struct (skipItem 0) ts
  | .keyword .enumKw => leaf .enum (skipItem 0) ts
  | .keyword .unionKw => leaf .union (skipItem 0) ts
  | .keyword .traitKw => named ts (withMembers .trait)
  | .keyword .implKw =>
    let (header, rest) := splitHeader 0 (skipGenerics ts)
    withMembers .impl (headerName source header) rest
  | .keyword .constKw => leaf .constant (skipToSemi 0) (dropMut ts)
  | .keyword .staticKw => leaf .static (skipToSemi 0) (dropMut ts)
  | .keyword .typeKw => leaf .typeAlias (skipToSemi 0) ts
  | .keyword .macroRulesKw =>
    if kindOf ts = .symbol .bang then leaf .macroDef (dropSemi ∘ skipItem 0) (ts.drop 1)
    else (.nothing, skipItem 0 (t :: ts))
  | .keyword .useKw => (.nothing, skipToSemi 0 (t :: ts))
  | _ => (.nothing, skipItem 0 (t :: ts))

/-- Reads the header at the front of the tokens and gives the tokens after it. -/
def read (source : String) (ts : List Token) : Header × List Token :=
  match qualifiers ts with
  | (true, rest) => (.nothing, rest)
  | (false, []) => (.nothing, [])
  | (false, t :: rest) => ofKeyword source t rest

/-- Qualifiers that are there take at least one token. -/
theorem qualifiers_eq_or_length_lt (ts : List Token) :
    qualifiers ts = (false, ts) ∨ (qualifiers ts).2.length < ts.length := by
  have weaken {b : Bool × List Token} {as bs : List Token}
      (h : b = (false, as) ∨ b.2.length < as.length) (hl : as.length ≤ bs.length) :
      b.2.length < bs.length + 1 := by
    rcases h with rfl | h
    · exact Nat.lt_succ_of_le hl
    · omega
  fun_induction qualifiers ts with
  | case1 => exact .inl rfl
  | case2 t ts _ _ ih => exact .inr (weaken ih (length_skipGroup_le 0 ts))
  | case3 t ts _ _ ih => exact .inr (weaken ih (Nat.le_refl _))
  | case4 t ts _ ih => exact .inr (weaken ih (Nat.le_refl _))
  | case5 t ts _ ih => exact .inr (weaken ih (Nat.le_refl _))
  | case6 t ts _ _ _ ih => exact .inr (weaken ih (Nat.le_refl _))
  | case7 => exact .inl rfl
  | case8 t ts _ _ ih => exact .inr (weaken ih (Nat.le_refl _))
  | case9 => exact .inl rfl
  | case10 t ts _ _ => exact .inr (Nat.lt_succ_of_le (length_skipToSemi_le 0 ts))
  | case11 t ts _ _ _ =>
    exact .inr (Nat.lt_succ_of_le
      (Nat.le_trans (length_skipGroup_le 0 _) (length_dropLiteral_le ts)))
  | case12 t ts _ _ _ ih => exact .inr (weaken ih (length_dropLiteral_le ts))
  | case13 => exact .inl rfl

theorem length_named_le {ts : List Token} {go : String → List Token → Header × List Token}
    (hgo : ∀ name rest, (go name rest).2.length ≤ rest.length) :
    (named ts go).2.length ≤ ts.length := by
  unfold named
  split
  · exact Nat.le_succ_of_le (hgo _ _)
  · exact Nat.le_refl _

theorem length_withMembers_le (kind : Element.Kind) (name : String) (ts : List Token) :
    (withMembers kind name ts).2.length ≤ ts.length :=
  length_findBody_le 0 ts

theorem length_splitHeader_le (depth : Nat) (ts : List Token) :
    (splitHeader depth ts).2.length ≤ ts.length := by
  have h := congrArg List.length (splitHeader_append depth ts)
  rw [List.length_append] at h
  omega

/-- An item that does not start with a closing brace or the end of the file is at least its first
token. -/
theorem length_ofKeyword_le (source : String) {t : Token} (ts : List Token)
    (hb : t.kind ≠ .closing .brace) (he : t.kind ≠ .eof) :
    (ofKeyword source t ts).2.length ≤ ts.length := by
  have leaf {kind : Element.Kind} {skip : List Token → List Token} {us : List Token}
      (hs : ∀ us, (skip us).length ≤ us.length) (hu : us.length ≤ ts.length) :
      (named us fun name rest => (Header.leaf kind name, skip rest)).2.length ≤ ts.length :=
    Nat.le_trans (length_named_le fun _ _ => hs _) hu
  have item : (skipItem 0 (t :: ts)).length ≤ ts.length := by
    have h1 := length_skipItem_le 1 ts
    have h0 := length_skipItem_le 0 ts
    have hg := length_skipGroup_le 1 ts
    unfold skipItem
    split <;> simp_all
  have semi : t.kind = .keyword .useKw → (skipToSemi 0 (t :: ts)).length ≤ ts.length := by
    intro h
    have h0 := length_skipToSemi_le 0 ts
    unfold skipToSemi
    split <;> simp_all
  unfold ofKeyword
  split
  · refine length_named_le fun name rest => ?_
    split <;> simp
  · exact leaf (length_skipItem_le 0) (Nat.le_refl _)
  · exact leaf (length_skipItem_le 0) (Nat.le_refl _)
  · exact leaf (length_skipItem_le 0) (Nat.le_refl _)
  · exact leaf (length_skipItem_le 0) (Nat.le_refl _)
  · exact length_named_le (length_withMembers_le _)
  · exact Nat.le_trans (length_withMembers_le _ _ _)
      (Nat.le_trans (length_splitHeader_le _ _) (length_skipGenerics_le ts))
  · exact leaf (length_skipToSemi_le 0) (length_dropMut_le ts)
  · exact leaf (length_skipToSemi_le 0) (length_dropMut_le ts)
  · exact leaf (length_skipToSemi_le 0) (Nat.le_refl _)
  · split
    · refine leaf (fun us => ?_) (by simp)
      exact Nat.le_trans (length_dropSemi_le _) (length_skipItem_le 0 us)
    · exact item
  · exact semi ‹_›
  · exact item

theorem length_ofKeyword_le_succ (source : String) (t : Token) (ts : List Token) :
    (ofKeyword source t ts).2.length ≤ ts.length + 1 := by
  by_cases h : t.kind = .closing .brace ∨ t.kind = .eof
  · have : ofKeyword source t ts = (.nothing, skipItem 0 (t :: ts)) := by
      unfold ofKeyword
      split <;> simp_all
    rw [this]
    exact length_skipItem_le 0 (t :: ts)
  · exact Nat.le_succ_of_le
      (length_ofKeyword_le source ts (fun e => h (.inl e)) (fun e => h (.inr e)))

/-- Reading an item takes at least one token. -/
theorem length_read_lt (source : String) {t : Token} (ts : List Token)
    (hb : t.kind ≠ .closing .brace) (he : t.kind ≠ .eof) :
    (read source (t :: ts)).2.length < (t :: ts).length := by
  unfold read
  rcases qualifiers_eq_or_length_lt (t :: ts) with h | h
  · rw [h]
    exact Nat.lt_succ_of_le (length_ofKeyword_le source ts hb he)
  · split
    · simp_all
    · simp
    · next t' rest heq =>
      rw [heq] at h
      exact Nat.lt_of_le_of_lt (length_ofKeyword_le_succ source t' rest) h

end Header

end Doctest.Outline
