import Mathlib.Data.List.Nodup
import Doctest.Compiler.Message
import Doctest.Proofs.Json.Fields

/-! Records of a message in JSON. The fields stand in any order among unknown ones, and each known field is found
under its key. -/
namespace Doctest.CompilerMessage

open JsonValue (ofFields present)

/-- All keys have texts, and no known key stands twice. -/
structure IsRecord (known : List String) (fields : List (Option String × JsonValue)) : Prop where
  isSome : ∀ f ∈ fields, f.1.isSome
  once : ∀ key ∈ known, (fields.map Prod.fst).count (some key) ≤ 1

/-- The field under this key has a value of which `P` holds, or the field may be left out and is. -/
inductive Field (fields : List (Option String × JsonValue)) (key : String) (absent : Prop)
    (P : JsonValue → Prop) : Prop
  | present {v : JsonValue} : (some key, v) ∈ fields → P v → Field fields key absent P
  | leftOut : absent → (∀ v, (some key, v) ∉ fields) → Field fields key absent P

def knownFields (known : List String) : List (Option String × JsonValue) → List (String × JsonValue)
  | [] => []
  | (none, _) :: rest => knownFields known rest
  | (some key, v) :: rest => if key ∈ known then (key, v) :: knownFields known rest else knownFields known rest

theorem mem_knownFields {known : List String} {fields : List (Option String × JsonValue)} {key : String}
    {v : JsonValue} : (key, v) ∈ knownFields known fields ↔ key ∈ known ∧ (some key, v) ∈ fields := by
  induction fields with
  | nil => simp [knownFields]
  | cons f rest ih =>
    obtain ⟨_ | k, w⟩ := f
    · simp [knownFields, ih]
    · by_cases hk : k ∈ known
      · rw [knownFields, if_pos hk, List.mem_cons, List.mem_cons, ih]
        constructor
        · rintro (hf | ⟨hkey, hmem⟩)
          · obtain ⟨rfl, rfl⟩ := Prod.mk.inj hf
            exact ⟨hk, .inl rfl⟩
          · exact ⟨hkey, .inr hmem⟩
        · rintro ⟨hkey, hf | hmem⟩
          · obtain ⟨hkk, rfl⟩ := Prod.mk.inj hf
            obtain rfl := Option.some.inj hkk
            exact .inl rfl
          · exact .inr ⟨hkey, hmem⟩
      · rw [knownFields, if_neg hk, List.mem_cons, ih]
        constructor
        · rintro ⟨hkey, hmem⟩
          exact ⟨hkey, .inr hmem⟩
        · rintro ⟨hkey, hf | hmem⟩
          · obtain ⟨hkk, -⟩ := Prod.mk.inj hf
            obtain rfl := Option.some.inj hkk
            exact absurd hkey hk
          · exact ⟨hkey, hmem⟩

section

variable {known : List String} {fields : List (Option String × JsonValue)} {key : String} {v : JsonValue}

theorem IsRecord.tail {f : Option String × JsonValue} (h : IsRecord known (f :: fields)) :
    IsRecord known fields := by
  refine ⟨fun g hg => h.isSome g (List.mem_cons_of_mem f hg), fun key hkey => ?_⟩
  have hcount := h.once key hkey
  rw [List.map_cons, List.count_cons] at hcount
  omega

theorem IsRecord.notMem_tail (h : IsRecord known ((some key, v) :: fields)) (hkey : key ∈ known) (w : JsonValue) :
    (some key, w) ∉ fields := by
  intro hmem
  have hcount := h.once key hkey
  have hpos : 0 < (fields.map Prod.fst).count (some key) :=
    List.count_pos_iff.mpr (List.mem_map.mpr ⟨_, hmem, rfl⟩)
  rw [List.map_cons, List.count_cons_self] at hcount
  omega

theorem IsRecord.fields?_eq (h : IsRecord known fields) : fields? known fields = some (knownFields known fields) := by
  induction fields with
  | nil => rfl
  | cons f rest ih =>
    obtain ⟨_ | k, w⟩ := f
    · exact absurd (h.isSome _ List.mem_cons_self) (by simp)
    · rw [fields?, ih h.tail, knownFields, Option.bind_eq_bind, Option.bind_some]
      by_cases hk : k ∈ known
      · -- A key that stands here stands nowhere behind.
        have hany : (knownFields known rest).any (·.1 == k) = false := by
          rw [List.any_eq_false]
          rintro ⟨l, u⟩ hmem hl
          obtain rfl : l = k := by simpa using hl
          exact h.notMem_tail hk u (mem_knownFields.mp hmem).2
        rw [if_pos hk, if_pos hk, hany]
        rfl
      · rw [if_neg hk, if_neg hk]

theorem IsRecord.lookup_eq_some (h : IsRecord known fields) (hkey : key ∈ known) (hmem : (some key, v) ∈ fields) :
    (knownFields known fields).lookup key = some v := by
  induction fields with
  | nil => contradiction
  | cons f rest ih =>
    obtain ⟨_ | k, w⟩ := f
    · exact absurd (h.isSome _ List.mem_cons_self) (by simp)
    · rw [knownFields]
      by_cases hk : k = key
      · subst hk
        obtain hf | hmem := List.mem_cons.mp hmem
        · obtain ⟨-, rfl⟩ := Prod.mk.inj hf
          rw [if_pos hkey, List.lookup_cons_self]
        · exact absurd hmem (h.notMem_tail hkey v)
      · have hrest : (some key, v) ∈ rest := by
          refine (List.mem_cons.mp hmem).resolve_left fun hf => hk ?_
          exact (Option.some.inj (Prod.mk.inj hf).1).symm
        have hne : (key == k) = false := beq_eq_false_iff_ne.mpr (Ne.symm hk)
        split
        · rw [List.lookup_cons, hne]
          exact ih h.tail hrest
        · exact ih h.tail hrest

theorem lookup_eq_none (hmem : ∀ v, (some key, v) ∉ fields) : (knownFields known fields).lookup key = none := by
  rw [List.lookup_eq_none_iff]
  rintro ⟨k, w⟩ hk
  rw [bne_iff_ne]
  rintro rfl
  exact hmem w (mem_knownFields.mp hk).2

/-- A field is read where it stands, or else its default is taken. -/
theorem Field.fieldOr_eq {α : Type} {absent : Prop} {P : JsonValue → Prop} {read : JsonValue → Option α}
    {default : Option α} {a : α} (hf : Field fields key absent P) (h : IsRecord known fields) (hkey : key ∈ known)
    (hread : ∀ v, P v → read v = some a) (hdefault : absent → default = some a) :
    fieldOr (knownFields known fields) key read default = some a := by
  unfold fieldOr
  cases hf with
  | present hmem hv =>
    rw [h.lookup_eq_some hkey hmem]
    exact hread _ hv
  | leftOut habsent hmem =>
    rw [lookup_eq_none hmem]
    exact hdefault habsent

theorem Field.fieldOr_required {α : Type} {P : JsonValue → Prop} {read : JsonValue → Option α} {a : α}
    (hf : Field fields key False P) (h : IsRecord known fields) (hkey : key ∈ known)
    (hread : ∀ v, P v → read v = some a) : fieldOr (knownFields known fields) key read none = some a :=
  hf.fieldOr_eq h hkey hread False.elim

end

/-! Fields that are written in a fixed order are a record. -/

theorem isRecord_present {keys : List String} (hkeys : keys.Nodup) (known : List String)
    (values : List (Option JsonValue)) :
    IsRecord known ((present keys values).map fun (key, v) => (some key, v)) := by
  constructor
  · intro f hf
    obtain ⟨g, -, rfl⟩ := List.mem_map.mp hf
    rfl
  · intro key _
    have hnodup := (JsonValue.keys_sublist keys values).nodup hkeys
    have hmap : ((present keys values).map fun (key, v) => (some key, v)).map Prod.fst =
        ((present keys values).map Prod.fst).map some := by
      rw [List.map_map, List.map_map]
      rfl
    rw [hmap]
    exact List.nodup_iff_count_le_one.mp (hnodup.map fun _ _ => Option.some.inj) (some key)

theorem mem_map_present {keys : List String} {values : List (Option JsonValue)} {key : String} {v : JsonValue} :
    (some key, v) ∈ (present keys values).map (fun (key, v) => (some key, v)) ↔
      (key, some v) ∈ keys.zip values := by
  rw [← JsonValue.mem_present, List.mem_map]
  constructor
  · rintro ⟨⟨k, w⟩, hmem, hf⟩
    obtain ⟨hk, rfl⟩ := Prod.mk.inj hf
    rwa [← Option.some.inj hk]
  · exact fun hmem => ⟨_, hmem, rfl⟩

/-- The field has the value at its place, and is left out if there is none. -/
theorem field_present {keys : List String} (hkeys : keys.Nodup) {values : List (Option JsonValue)}
    (hlength : keys.length ≤ values.length) {key : String} {value : Option JsonValue}
    (hmem : (key, value) ∈ keys.zip values) {absent : Prop} {P : JsonValue → Prop}
    (hvalue : ∀ v, value = some v → P v) (habsent : value = none → absent) :
    Field ((present keys values).map fun (key, v) => (some key, v)) key absent P := by
  cases value with
  | some v => exact .present (mem_map_present.mpr hmem) (hvalue v rfl)
  | none =>
    refine .leftOut (habsent rfl) fun v hv => ?_
    have hfst : (keys.zip values).map Prod.fst = keys := List.map_fst_zip hlength
    have hsame := List.inj_on_of_nodup_map (hfst ▸ hkeys) hmem (mem_map_present.mp hv) rfl
    exact absurd (Prod.mk.inj hsame).2 (by simp)

end Doctest.CompilerMessage
