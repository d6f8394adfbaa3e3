import Mathlib.Data.List.Forall2
import Mathlib.Logic.Function.Basic
import Doctest.Json.Value

/-! Objects of which some fields are left out, and lists of values that are read or written one by one. -/
namespace Doctest

theorem mapM_eq_some_iff {α β : Type} {f : α → Option β} {as : List α} {bs : List β} :
    as.mapM f = some bs ↔ List.Forall₂ (fun a b => f a = some b) as bs := by
  constructor
  · intro h
    induction as generalizing bs with
    | nil =>
      obtain rfl := Option.some.inj h
      exact .nil
    | cons a as ih =>
      rw [List.mapM_cons] at h
      obtain ⟨b, hb, h⟩ := Option.bind_eq_some_iff.mp h
      obtain ⟨bs, hbs, h⟩ := Option.bind_eq_some_iff.mp h
      obtain rfl := Option.some.inj h
      exact .cons hb (ih hbs)
  · intro h
    induction h with
    | nil => rfl
    | cons hb _ ih =>
      rw [List.mapM_cons, hb, ih]
      rfl

/-- What each pair of the relation tells of its second part. -/
theorem forall_mem_of_forall₂ {α β : Type} {R : α → β → Prop} {P : β → Prop} (hP : ∀ a b, R a b → P b)
    {as : List α} {bs : List β} (h : List.Forall₂ R as bs) : ∀ b ∈ bs, P b := by
  induction h with
  | nil => exact fun b hb => absurd hb List.not_mem_nil
  | cons hab _ ih => exact List.forall_mem_cons.mpr ⟨hP _ _ hab, ih⟩

theorem exists_forall₂ {α β : Type} {R : α → β → Prop} {as : List α} (h : ∀ a ∈ as, ∃ b, R a b) :
    ∃ bs, List.Forall₂ R as bs := by
  induction as with
  | nil => exact ⟨[], .nil⟩
  | cons a as ih =>
    obtain ⟨⟨b, hb⟩, has⟩ := List.forall_mem_cons.mp h
    obtain ⟨bs, hbs⟩ := ih has
    exact ⟨b :: bs, .cons hb hbs⟩

namespace JsonValue

theorem ofString_injective : Function.Injective ofString := by
  intro s t h
  simpa [ofString] using h

theorem ofNat_injective : Function.Injective ofNat := by
  intro m n h
  simpa [ofNat] using h

theorem ofFields_injective : Function.Injective ofFields := by
  intro fields fields' h
  have hinj : Function.Injective fun f : String × JsonValue => (some f.1, f.2) := by
    intro f g hfg
    simpa [Prod.ext_iff] using hfg
  exact List.map_injective_iff.mpr hinj (JsonValue.object.inj h)

/-- The fields with these keys whose values are not absent. -/
def present : List String → List (Option JsonValue) → List (String × JsonValue)
  | key :: keys, value :: values => value.toList.map (key, ·) ++ present keys values
  | _, _ => []

theorem mem_present {keys : List String} {values : List (Option JsonValue)} {key : String} {v : JsonValue} :
    (key, v) ∈ present keys values ↔ (key, some v) ∈ keys.zip values := by
  induction keys generalizing values with
  | nil => simp [present]
  | cons k keys ih =>
    cases values with
    | nil => simp [present]
    | cons value values =>
      rw [present, List.mem_append, ih, List.zip_cons_cons, List.mem_cons]
      simp [eq_comm, and_comm]

theorem keys_sublist (keys : List String) (values : List (Option JsonValue)) :
    ((present keys values).map Prod.fst).Sublist keys := by
  induction keys generalizing values with
  | nil => exact List.nil_sublist []
  | cons key keys ih =>
    cases values with
    | nil => exact List.nil_sublist _
    | cons value values =>
      cases value with
      | none => exact (ih values).cons key
      | some v => exact (ih values).cons_cons key

/-- Under distinct keys, what is left out is told as well. -/
theorem present_injective {keys : List String} (hkeys : keys.Nodup) {vs ws : List (Option JsonValue)}
    (hvs : vs.length = keys.length) (hws : ws.length = keys.length)
    (h : present keys vs = present keys ws) : vs = ws := by
  induction keys generalizing vs ws with
  | nil => rw [List.eq_nil_of_length_eq_zero hvs, List.eq_nil_of_length_eq_zero hws]
  | cons key keys ih =>
    obtain ⟨hkey, hkeys⟩ := List.nodup_cons.mp hkeys
    obtain ⟨v, vs, rfl⟩ := List.exists_cons_of_length_eq_add_one hvs
    obtain ⟨w, ws, rfl⟩ := List.exists_cons_of_length_eq_add_one hws
    -- A list that leaves this key out does not begin with it, since no later key is the same.
    have habsent : ∀ {us : List (Option JsonValue)} {v : JsonValue} {fields : List (String × JsonValue)},
        present keys us ≠ (key, v) :: fields := by
      intro us v fields hus
      have hmem : (key, some v) ∈ keys.zip us := mem_present.mp (hus ▸ List.mem_cons_self)
      exact hkey (List.of_mem_zip hmem).1
    have hrest : present keys vs = present keys ws → vs = ws :=
      ih hkeys (by simpa using hvs) (by simpa using hws)
    rw [present, present] at h
    cases v with
    | none =>
      cases w with
      | none => rw [hrest h]
      | some b => exact absurd h habsent
    | some a =>
      cases w with
      | none => exact absurd h.symm habsent
      | some b =>
        obtain ⟨hhead, htail⟩ := List.cons.inj h
        rw [hrest htail, (Prod.mk.inj hhead).2]

end JsonValue

end Doctest
