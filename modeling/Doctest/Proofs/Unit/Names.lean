import Mathlib.Data.List.Nodup
import Doctest.Proofs.Text.Utf8
import Doctest.Unit.Basic

/-! Names of test units: no name is issued twice, and every name is a word of ASCII letters, digits and
underscores that begins with the tag of an element kind, so that names of files can be made of it. -/
namespace Doctest

namespace NameRegistry

theorem suffixed_injective (base : String) : Function.Injective (suffixed base) := by
  have hlt (n : Nat) : base.length < (suffixed base (n + 1)).length := by
    simp only [suffixed, String.length_append]
    have : "_".length = 1 := rfl
    omega
  intro m n h
  cases m with
  | zero =>
    cases n with
    | zero => rfl
    | succ n => exact absurd (congrArg String.length h) (Nat.ne_of_lt (hlt n))
  | succ m =>
    cases n with
    | zero => exact absurd (congrArg String.length h) (Nat.ne_of_gt (hlt m))
    | succ n =>
      simp only [suffixed, ← String.toList_inj, String.toList_append, List.append_cancel_left_eq,
        Nat.toString_eq_ofList_toDigits, String.toList_ofList] at h
      have hd := congrArg (fun cs => Nat.ofDigitChars 10 cs 0) h
      simpa [Nat.ofDigitChars_toDigits] using hd

/-- There are more candidates than names that have been issued, so one of them is free. -/
theorem exists_free_candidate (r : NameRegistry) (base : String) (start : Nat) :
    ∃ n, start ≤ n ∧ n ≤ start + r.issued.length ∧ suffixed base n ∉ r.issued := by
  by_contra h
  push Not at h
  have hsub : (List.range' start (r.issued.length + 1)).map (suffixed base) ⊆ r.issued := by
    intro name hname
    obtain ⟨n, hn, rfl⟩ := List.mem_map.mp hname
    have := List.mem_range'_1.mp hn
    exact h n this.1 (by omega)
  have hnodup := (List.nodup_range' (s := start) (n := r.issued.length + 1)).map
    (suffixed_injective base)
  have := hnodup.length_le_of_subset hsub
  simp only [List.length_map, List.length_range'] at this
  omega

/-- A new name is a candidate from the search's start on, and it has not been issued. -/
theorem exists_fresh_eq_suffixed (r : NameRegistry) (base : String) :
    ∃ n, r.count base ≤ n ∧ r.fresh base = suffixed base n ∧ r.fresh base ∉ r.issued := by
  obtain ⟨n, hlo, hhi, hfree⟩ := r.exists_free_candidate base (r.count base)
  let candidates := (List.range' (r.count base) (r.issued.length + 1)).map (suffixed base)
  have hn : suffixed base n ∈ candidates :=
    List.mem_map_of_mem (List.mem_range'_1.mpr ⟨hlo, by omega⟩)
  have hsome : (candidates.find? fun name => !r.issued.contains name).isSome :=
    List.find?_isSome.mpr ⟨_, hn, by simpa using hfree⟩
  obtain ⟨name, hname⟩ := Option.isSome_iff_exists.mp hsome
  have hfresh : r.fresh base = name := by
    show (candidates.find? fun name => !r.issued.contains name).getD base = name
    rw [hname, Option.getD_some]
  obtain ⟨k, hk, rfl⟩ := List.mem_map.mp (List.mem_of_find?_eq_some hname)
  refine ⟨k, (List.mem_range'_1.mp hk).1, hfresh, ?_⟩
  rw [hfresh]
  simpa using List.find?_some hname

theorem fresh_notMem_issued (r : NameRegistry) (base : String) : r.fresh base ∉ r.issued := by
  obtain ⟨_, _, _, h⟩ := r.exists_fresh_eq_suffixed base
  exact h

theorem nodup_issued_register {r : NameRegistry} (h : r.issued.Nodup) (base : String) :
    (r.register base).2.issued.Nodup :=
  List.nodup_cons.mpr ⟨r.fresh_notMem_issued base, h⟩

end NameRegistry

namespace TestUnit

/-- Letters, digits and underscores in ASCII, after the tag of the kind and an underscore. -/
structure IsNameFor (kind : Element.Kind) (name : String) : Prop where
  word : ∀ c ∈ name.toList, c.isAlphanum ∨ c = '_'
  tag : (kind.tag ++ "_").toList <+: name.toList

theorem IsNameFor.ne_empty {kind : Element.Kind} {name : String} (h : IsNameFor kind name) :
    name ≠ "" := by
  rintro rfl
  have := h.tag.length_le
  simp at this

theorem word_sanitize (name : String) :
    ∀ c ∈ (sanitize name).toList, c.isAlphanum ∨ c = '_' := by
  intro c hc
  rw [sanitize, String.toList_ofList] at hc
  obtain ⟨d, -, rfl⟩ := List.mem_map.mp hc
  split
  · next h => simpa using h
  · exact .inr rfl

/-- A word is not changed by the cleaning, so what it begins with stays. -/
theorem prefix_sanitize {w : List Char} (hw : ∀ c ∈ w, c.isAlphanum ∨ c = '_') {name : String}
    (h : w <+: name.toList) : w <+: (sanitize name).toList := by
  obtain ⟨rest, hrest⟩ := h
  have hid : w.map (fun c => if c.isAlphanum || c = '_' then c else '_') = w := by
    conv => rhs; rw [← List.map_id w]
    refine List.map_congr_left fun c hc => ?_
    rcases hw c hc with h | h <;> simp [h]
  rw [sanitize, String.toList_ofList, ← hrest, List.map_append, hid]
  exact List.prefix_append ..

theorem path_ne_nil {t : Outline} {id : Nat} {e : Element} (he : t.get? id = some e) :
    t.path id ≠ [] := by
  have ha : t.ancestors id ≠ [] := by
    rw [Outline.ancestors, he]
    cases h : e.parent with
    | none => simp [h]
    | some parent =>
      simp only [h]
      split <;> simp
  simpa [Outline.path] using ha

theorem word_tag (kind : Element.Kind) : ∀ c ∈ (kind.tag ++ "_").toList, c.isAlphanum ∨ c = '_' := by
  cases kind <;> simp [Element.Kind.tag]

theorem isNameFor_baseName {t : Outline} {id : Nat} {e : Element} (he : t.get? id = some e) :
    IsNameFor e.kind (baseName t id) := by
  refine ⟨word_sanitize _, prefix_sanitize (word_tag e.kind) ?_⟩
  obtain ⟨first, rest, hp⟩ := List.exists_cons_of_ne_nil (path_ne_nil he)
  rw [he, hp, String.toList_intercalate, String.toList_append]
  simp only [Option.map_some, Option.getD_some, List.map_cons, List.intercalate,
    List.intersperse_cons_cons, List.flatten_cons]
  rw [← List.append_assoc]
  exact List.prefix_append ..

theorem isNameFor_suffixed {kind : Element.Kind} {base : String} (h : IsNameFor kind base) (n : Nat) :
    IsNameFor kind (NameRegistry.suffixed base n) := by
  cases n with
  | zero => exact h
  | succ n =>
    have hl : (NameRegistry.suffixed base (n + 1)).toList =
        base.toList ++ '_' :: Nat.toDigits 10 (n + 1) := by
      simp [NameRegistry.suffixed]
    refine ⟨fun c hc => ?_, ?_⟩
    · rw [hl, List.mem_append, List.mem_cons] at hc
      rcases hc with hc | rfl | hc
      · exact h.word c hc
      · exact .inr rfl
      · have hd := Nat.isDigit_of_mem_toDigits (by decide) (by decide) hc
        simp [Char.isAlphanum, hd]
    · rw [hl]
      exact h.tag.trans (List.prefix_append ..)

/-- The name of a unit is new, and it shows the kind of its element. -/
theorem isNameFor_synthesize {t : Outline} {id : Nat} {e : Element} (he : t.get? id = some e)
    (s : Snippet) (r : NameRegistry) : IsNameFor e.kind (synthesize t id s r).1.name := by
  obtain ⟨n, -, hn, -⟩ := r.exists_fresh_eq_suffixed (baseName t id)
  show IsNameFor e.kind (r.fresh (baseName t id))
  rw [hn]
  exact isNameFor_suffixed (isNameFor_baseName he) n

end TestUnit

/-- A name does not begin at the root, so it names a file in any directory. -/
theorem TestUnit.IsNameFor.not_isAbsolute {kind : Element.Kind} {name : String}
    (h : IsNameFor kind name) : (Path.ofString name).isAbsolute = false := by
  have hw : ∃ c rest, name.toList = c :: rest ∧ (kind.tag ++ "_").toList.head? = some c := by
    obtain ⟨rest, hrest⟩ := h.tag
    rw [← hrest]
    cases kind <;> exact ⟨_, _, rfl, rfl⟩
  obtain ⟨c, rest, hname, hc⟩ := hw
  have hb : Bytes.ofString name = String.utf8EncodeChar c ++ rest.flatMap String.utf8EncodeChar := by
    rw [Bytes.ofString_eq_flatMap, hname, List.flatMap_cons]
  rw [Path.isAbsolute, Path.ofString, hb]
  cases kind <;>
  · obtain rfl := Option.some.inj hc
    rfl

/-- Distinct names are distinct files of a directory. -/
theorem Path.join_ofString_inj {w : Path} {a b : String} (ha : (ofString a).isAbsolute = false)
    (hb : (ofString b).isAbsolute = false) (h : w.join (ofString a) = w.join (ofString b)) : a = b := by
  have hbytes : (ofString a).bytes = (ofString b).bytes := by
    unfold join at h
    rw [ha, hb] at h
    simp only [Bool.false_eq_true, if_false] at h
    split at h
    · simpa using h
    · simpa using h
  exact Bytes.ofString_injective hbytes

end Doctest
