import Mathlib.Data.List.Range
import Doctest.Proofs.Unit.Names

/-! Registrations that follow each other: each gives the first name of its base that no earlier one gave,
although the search begins at the number of earlier registrations of the base. -/
namespace Doctest.NameRegistry

/-- The names for the bases, in their order, and the registry after the last one. -/
def registerAll (r : NameRegistry) : List String → List String × NameRegistry
  | [] => ([], r)
  | base :: bases =>
    let (name, next) := r.register base
    let (names, last) := next.registerAll bases
    (name :: names, last)

/-- The search may begin at the count of a base, since all its names before that have been issued, some of
them perhaps for other bases. -/
def Filled (r : NameRegistry) : Prop :=
  ∀ base n, n < r.count base → suffixed base n ∈ r.issued

/-- Of all names of the base, this is the first that is not one of those that were issued. -/
structure IsFirstFree (issued : List String) (base : String) (n : Nat) : Prop where
  free : suffixed base n ∉ issued
  taken : ∀ m < n, suffixed base m ∈ issued

theorem IsFirstFree.congr {issued others : List String} {base : String} {n : Nat}
    (h : IsFirstFree issued base n) (hmem : ∀ name, name ∈ issued ↔ name ∈ others) :
    IsFirstFree others base n :=
  ⟨fun hn => h.free ((hmem _).mpr hn), fun m hm => (hmem _).mp (h.taken m hm)⟩

/-- The names before the first free one are among those issued, so it is found soon. -/
theorem IsFirstFree.le_length {issued : List String} {base : String} {n : Nat}
    (h : IsFirstFree issued base n) : n ≤ issued.length := by
  have hsub : (List.range n).map (suffixed base) ⊆ issued := by
    intro name hname
    obtain ⟨m, hm, rfl⟩ := List.mem_map.mp hname
    exact h.taken m (List.mem_range.mp hm)
  have hle := (List.nodup_range.map (suffixed_injective base)).length_le_of_subset hsub
  simpa using hle

/-- The search gives the first name that is free from its start on. -/
theorem exists_fresh_eq_first (r : NameRegistry) (base : String) :
    ∃ n, r.count base ≤ n ∧ r.fresh base = suffixed base n ∧ suffixed base n ∉ r.issued ∧
      ∀ m, r.count base ≤ m → m < n → suffixed base m ∈ r.issued := by
  obtain ⟨k, hlo, hhi, hfree⟩ := r.exists_free_candidate base (r.count base)
  let p : Nat → Bool := fun m => !r.issued.contains (suffixed base m)
  have hsome : ((List.range' (r.count base) (r.issued.length + 1)).find? p).isSome := by
    refine List.find?_isSome.mpr ⟨k, List.mem_range'_1.mpr ⟨hlo, by omega⟩, ?_⟩
    simpa [p] using hfree
  obtain ⟨n, hn⟩ := Option.isSome_iff_exists.mp hsome
  have hfresh : r.fresh base = suffixed base n := by
    unfold fresh
    have hcomp : (fun name => !r.issued.contains name) ∘ suffixed base = p := rfl
    dsimp only
    rw [List.find?_map, hcomp, hn, Option.map_some, Option.getD_some]
  obtain ⟨hp, hmem, hbefore⟩ := List.find?_range'_eq_some.mp hn
  refine ⟨n, (List.mem_range'_1.mp hmem).1, hfresh, by simpa [p] using hp, ?_⟩
  intro m hm hlt
  simpa [p] using hbefore m hm hlt

/-- Where all names below the count are gone, the first free one from there on is the first of all. -/
theorem Filled.exists_isFirstFree {r : NameRegistry} (h : r.Filled) (base : String) :
    ∃ n, r.count base ≤ n ∧ r.fresh base = suffixed base n ∧ IsFirstFree r.issued base n := by
  obtain ⟨n, hcount, hfresh, hfree, htaken⟩ := r.exists_fresh_eq_first base
  refine ⟨n, hcount, hfresh, hfree, fun m hm => ?_⟩
  by_cases hlt : m < r.count base
  · exact h base m hlt
  · exact htaken m (Nat.le_of_not_lt hlt) hm

theorem count_register (r : NameRegistry) (base other : String) :
    (r.register base).2.count other = r.count other + if base = other then 1 else 0 := by
  unfold register count
  rw [List.count_cons]
  simp

theorem issued_register (r : NameRegistry) (base : String) :
    (r.register base).2.issued = (r.register base).1 :: r.issued := rfl

/-- Registering raises one count, and the name at the old count is then gone: either it was free and is the
one that is issued, or it was gone before. -/
theorem Filled.register {r : NameRegistry} (h : r.Filled) (base : String) :
    (r.register base).2.Filled := by
  obtain ⟨n, hcount, hfresh, hfirst⟩ := h.exists_isFirstFree base
  intro other m hm
  rw [count_register] at hm
  have hissued : (r.register base).2.issued = suffixed base n :: r.issued := congrArg (· :: _) hfresh
  rw [hissued]
  by_cases hlt : m < r.count other
  · exact List.mem_cons_of_mem _ (h other m hlt)
  · obtain rfl : base = other := by
      by_contra hne
      rw [if_neg hne] at hm
      omega
    rcases Nat.lt_or_eq_of_le (show m ≤ n by rw [if_pos rfl] at hm; omega) with hlt | rfl
    · exact List.mem_cons_of_mem _ (hfirst.taken m hlt)
    · exact List.mem_cons_self

theorem filled_empty : empty.Filled := by
  intro base n hn
  simp [empty, count] at hn

theorem length_registerAll (r : NameRegistry) (bases : List String) :
    (r.registerAll bases).1.length = bases.length := by
  induction bases generalizing r with
  | nil => rfl
  | cons base bases ih => exact congrArg (· + 1) (ih (r.register base).2)

/-- What a run of registrations leaves in the registry. -/
theorem registerAll_registry (r : NameRegistry) (bases : List String) :
    (r.registerAll bases).2 =
      ⟨bases.reverse ++ r.bases, (r.registerAll bases).1.reverse ++ r.issued⟩ := by
  induction bases generalizing r with
  | nil => rfl
  | cons base bases ih =>
    rw [registerAll]
    simp only [ih]
    simp [register]

/-- Each name of a run is the first free one after those that were issued before it. -/
theorem Filled.isFirstFree_registerAll {r : NameRegistry} (h : r.Filled) {bases : List String} {i : Nat}
    {base : String} (hi : bases[i]? = some base) :
    ∃ n, (bases.take i).count base + r.count base ≤ n ∧
      (r.registerAll bases).1[i]? = some (suffixed base n) ∧
      IsFirstFree (((r.registerAll bases).1.take i).reverse ++ r.issued) base n := by
  induction bases generalizing r i with
  | nil => simp at hi
  | cons first bases ih =>
    cases i with
    | zero =>
      obtain rfl : first = base := by simpa using hi
      obtain ⟨n, hcount, hfresh, hfirst⟩ := h.exists_isFirstFree first
      exact ⟨n, by simpa using hcount, congrArg some hfresh, by simpa using hfirst⟩
    | succ i =>
      obtain ⟨n, hcount, hname, hfirst⟩ := ih (h.register first) (i := i) (by simpa using hi)
      refine ⟨n, ?_, hname, hfirst.congr fun name => ?_⟩
      · rw [count_register] at hcount
        rw [List.take_succ_cons, List.count_cons]
        simp only [beq_iff_eq]
        omega
      · simp [registerAll, issued_register, or_left_comm]

theorem nodup_registerAll {r : NameRegistry} (h : r.issued.Nodup) (bases : List String) :
    (r.registerAll bases).2.issued.Nodup := by
  induction bases generalizing r with
  | nil => exact h
  | cons base bases ih => exact ih (nodup_issued_register h base)

/-- **Every registration gives the first name that no earlier one gave.** The name is found after no more
steps than there were registrations before, all names are distinct, and a base is counted as often as it was
registered. -/
theorem registerAll_issues_first_free (bases : List String) :
    (empty.registerAll bases).1.length = bases.length ∧
      (∀ i : Fin bases.length, ∃ n, (bases.take i).count bases[i] ≤ n ∧ n ≤ i ∧
        (empty.registerAll bases).1[i]? = some (suffixed bases[i] n) ∧
        IsFirstFree ((empty.registerAll bases).1.take i) bases[i] n) ∧
      (empty.registerAll bases).1.Nodup ∧
      ∀ base, (empty.registerAll bases).2.count base = bases.count base := by
  have hregistry := registerAll_registry empty bases
  refine ⟨length_registerAll empty bases, ?_, ?_, ?_⟩
  · intro i
    obtain ⟨n, hcount, hname, hfirst⟩ :=
      filled_empty.isFirstFree_registerAll (List.getElem?_eq_getElem i.2)
    have hfirst : IsFirstFree ((empty.registerAll bases).1.take i) bases[i] n :=
      hfirst.congr fun name => by simp [empty]
    refine ⟨n, Nat.le_of_add_right_le hcount, ?_, hname, hfirst⟩
    exact hfirst.le_length.trans (List.length_take_le i _)
  · have hnodup := nodup_registerAll (r := empty) List.nodup_nil bases
    rw [hregistry] at hnodup
    simpa [empty] using hnodup
  · intro base
    rw [hregistry]
    simp [count, empty]

/-- The second `x` skips the name that was issued for the base `x_1`. -/
example : (empty.registerAll ["x", "x_1", "x", "x_1"]).1 = ["x", "x_1", "x_2", "x_1_1"] := by
  decide +kernel

end Doctest.NameRegistry
