import Doctest.Json.Value
import Doctest.Proofs.Json.Texts

/-! The indented text of a value is one of its texts, so it is written for one value only. -/
namespace Doctest

namespace JsonValue

open JsonToken

/-- All numbers in the value are natural ones. -/
inductive IsNatural : JsonValue → Prop
  | null : IsNatural .null
  | bool (b : Bool) : IsNatural (.bool b)
  | number (n : Nat) : IsNatural (.number (.natural n))
  | string (text : Option String) : IsNatural (.string text)
  | array {items : List JsonValue} : (∀ v ∈ items, IsNatural v) → IsNatural (.array items)
  | object {fields : List (Option String × JsonValue)} : (∀ f ∈ fields, IsNatural f.2) →
    IsNatural (.object fields)

theorem isNatural_ofFields {fields : List (String × JsonValue)} (h : ∀ f ∈ fields, f.2.IsNatural) :
    (ofFields fields).IsNatural := by
  refine .object fun g hg => ?_
  obtain ⟨f, hf, rfl⟩ := List.mem_map.mp hg
  exact h f hf

theorem isHex_hexDigit {d : Nat} (hd : d < 16) : IsHex d (hexDigit d) := by
  interval_cases d <;> exact .inl rfl

theorem unitText_escapeChar (c : Char) : UnitText (.char c) (escapeChar c) := by
  unfold escapeChar
  split
  case h_8 hquote hslash hb ht hn hf hr =>
    split
    · next hlt =>
      have hdigits := HexText.four (isHex_hexDigit (d := 0) (by decide)) (isHex_hexDigit (d := 0) (by decide))
        (isHex_hexDigit (d := c.toNat / 16) (by omega)) (isHex_hexDigit (d := c.toNat % 16) (by omega))
      have hvalue : ((0 * 16 + 0) * 16 + c.toNat / 16) * 16 + c.toNat % 16 = c.toNat := by omega
      have hunit := UnitText.code hdigits (.inl (by omega))
      rw [hvalue, Char.ofNat_toNat] at hunit
      exact hunit
    · next hle => exact .plain (by omega) hquote hslash
  all_goals exact .short (by decide)

theorem unitsText_escaped (cs : List Char) :
    UnitsText (cs.map .char) (cs.flatMap escapeChar) := by
  induction cs with
  | nil => exact .nil
  | cons c cs ih => exact .cons (unitText_escapeChar c) ih

theorem denotes_map_char (cs : List Char) : Denotes (cs.map .char) cs := by
  induction cs with
  | nil => exact .nil
  | cons c cs ih => exact .char ih

theorem spelled_quoteText (text : Option String) : Spelled (.scalar (.string text)) (quoteText text) := by
  cases text with
  | some s => exact .string (unitsText_escaped s.toList) (denotes_map_char s.toList)
  | none =>
    have hhalf : UnitText (.half 0xd800) ['\\', 'u', 'd', '8', '0', '0'] :=
      .half (.four (isHex_hexDigit (d := 13) (by decide)) (isHex_hexDigit (d := 8) (by decide))
        (isHex_hexDigit (d := 0) (by decide)) (isHex_hexDigit (d := 0) (by decide))) (by decide) (by decide)
    have hnone : ∀ cs, ¬ Denotes [.half 0xd800] cs := by
      intro cs h
      cases h
    exact .broken (.cons hhalf .nil) hnone

theorem isBlank_newline (depth : Nat) : ∀ c ∈ newline depth, JsonToken.isBlank c := by
  unfold newline
  refine List.forall_mem_cons.mpr ⟨by decide, ?_⟩
  intro c hc
  rw [List.eq_of_mem_replicate hc]
  decide

/-- What stands before a part after the first one. -/
theorem spells_comma {tokens : List JsonToken} {text : List Char} (depth : Nat) (h : Spells tokens text) :
    Spells (.comma :: tokens) (',' :: newline depth ++ text) :=
  Spelled.comma.spells_cons (h.blanks_append (isBlank_newline depth))

theorem spells_close {token : JsonToken} {closer : Char} (depth : Nat) (h : Spelled token [closer]) :
    Spells [token] (newline depth ++ [closer]) :=
  h.spells.blanks_append (isBlank_newline depth)

theorem spells_key (key : Option String) {tokens : List JsonToken} {text : List Char}
    (h : Spells tokens text) :
    Spells (.scalar (.string key) :: .colon :: tokens) (quoteText key ++ [':', ' '] ++ text) := by
  have hblank : ∀ c ∈ [' '], JsonToken.isBlank c := List.forall_mem_singleton.mpr (by decide)
  have hcolon := Spelled.colon.spells_cons (h.blanks_append hblank)
  have hkey := (spelled_quoteText key).spells_cons hcolon
  rwa [List.append_assoc]

mutual

theorem spells_indented : ∀ v : JsonValue, v.IsNatural → ∀ depth, Spells v.tokens (indented depth v)
  | .null, _, _ => Spelled.null.spells
  | .bool b, _, _ => (Spelled.bool b).spells
  | .number n, h, _ => by
    cases h with
    | number n => exact (Spelled.natural n).spells
  | .string text, _, _ => (spelled_quoteText text).spells
  | .array items, h, depth => by
    cases h with
    | array hitems =>
      rw [tokens, indented]
      cases items with
      | nil => exact Spelled.openArray.spells_cons Spelled.closeArray.spells
      | cons v vs =>
        obtain ⟨hv, hvs⟩ := List.forall_mem_cons.mp hitems
        have hfirst := (spells_indented v hv (depth + 1)).append (spells_indentedItems vs hvs depth)
        have hopen := Spelled.openArray.spells_cons (hfirst.blanks_append (isBlank_newline (depth + 1)))
        simpa [block, indentedItems, itemTokens] using hopen
  | .object fields, h, depth => by
    cases h with
    | object hfields =>
      rw [tokens, indented]
      cases fields with
      | nil => exact Spelled.openObject.spells_cons Spelled.closeObject.spells
      | cons field fields =>
        obtain ⟨key, v⟩ := field
        obtain ⟨hv, hmore⟩ := List.forall_mem_cons.mp hfields
        have hfirst := spells_key key
          ((spells_indented v hv (depth + 1)).append (spells_indentedFields fields hmore depth))
        have hopen := Spelled.openObject.spells_cons (hfirst.blanks_append (isBlank_newline (depth + 1)))
        simpa [block, indentedFields, fieldTokens] using hopen

theorem spells_indentedItems : ∀ vs : List JsonValue, (∀ v ∈ vs, v.IsNatural) → ∀ depth,
    Spells (moreItemTokens vs) ((indentedItems (depth + 1) vs).flatMap
      (fun part => ',' :: newline (depth + 1) ++ part) ++ (newline depth ++ [']']))
  | [], _, depth => spells_close depth .closeArray
  | v :: vs, h, depth => by
    obtain ⟨hv, hvs⟩ := List.forall_mem_cons.mp h
    have hrest := (spells_indented v hv (depth + 1)).append (spells_indentedItems vs hvs depth)
    rw [indentedItems, List.flatMap_cons, moreItemTokens]
    simpa using spells_comma (depth + 1) hrest

theorem spells_indentedFields : ∀ fields : List (Option String × JsonValue),
    (∀ f ∈ fields, f.2.IsNatural) → ∀ depth,
    Spells (moreFieldTokens fields) ((indentedFields (depth + 1) fields).flatMap
      (fun part => ',' :: newline (depth + 1) ++ part) ++ (newline depth ++ ['}']))
  | [], _, depth => spells_close depth .closeObject
  | (key, v) :: fields, h, depth => by
    obtain ⟨hv, hfields⟩ := List.forall_mem_cons.mp h
    have hrest := spells_key key
      ((spells_indented v hv (depth + 1)).append (spells_indentedFields fields hfields depth))
    rw [indentedFields, List.flatMap_cons, moreFieldTokens]
    simpa using spells_comma (depth + 1) hrest

end

/-- The indented text of an array or object is read back. -/
theorem read?_pretty {v : JsonValue} (hv : v.IsNested) (h : v.IsNatural) :
    read? v.pretty.toList = some v := by
  rw [pretty, String.toList_ofList]
  exact read?_of_spells hv (spells_indented v h 0)

end JsonValue

end Doctest
