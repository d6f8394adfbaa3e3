import Doctest.Session.Tally
import Doctest.Text.Total

/-! Sums of tallies. A bucket of a sum is the exact number up to the greatest count, so it does not
matter in which order or in which groups the tallies are put together. -/
namespace Doctest

theorem total_perm {ms ns : List Nat} (h : ms.Perm ns) : total ms = total ns := by
  induction h with
  | nil => rfl
  | cons n _ ih => rw [total_cons, total_cons, ih]
  | swap m n ns =>
    simp only [total_cons]
    omega
  | trans _ _ ih ih' => exact ih.trans ih'

theorem total_eq_zero_iff (ns : List Nat) : total ns = 0 ↔ ∀ n ∈ ns, n = 0 := by
  induction ns with
  | nil => simp
  | cons n ns ih => rw [total_cons, Nat.add_eq_zero_iff, ih, List.forall_mem_cons]

theorem total_map_add {α : Type} (f g : α → Nat) (as : List α) :
    total (as.map fun a => f a + g a) = total (as.map f) + total (as.map g) := by
  induction as with
  | nil => rfl
  | cons a as ih =>
    simp only [List.map_cons, total_cons, ih]
    omega

namespace Tally

theorem toNat_count_reduce (s t : Tally) (st : Status) :
    ((s.reduce t).count st).toNat =
      min (UInt32.size - 1) ((s.count st).toNat + (t.count st).toNat) := by
  cases st <;> exact toNat_saturatingAdd _ _

@[simp]
theorem toNat_count_zero (st : Status) : (zero.count st).toNat = 0 := by
  cases st <;> rfl

theorem toNat_count_le (t : Tally) (st : Status) : (t.count st).toNat ≤ UInt32.size - 1 := by
  have h := (t.count st).toNat_lt
  simp only [UInt32.size]
  omega

/-- Tallies with the same numbers are the same. -/
theorem ext_count {s t : Tally} (h : ∀ st, (s.count st).toNat = (t.count st).toNat) : s = t := by
  have hp := UInt32.toNat_inj.mp (h .passed)
  have hf := UInt32.toNat_inj.mp (h .failed)
  have hs := UInt32.toNat_inj.mp (h .skipped)
  have he := UInt32.toNat_inj.mp (h .errored)
  cases s
  cases t
  simp_all [count]

theorem reduce_assoc (s t u : Tally) : (s.reduce t).reduce u = s.reduce (t.reduce u) := by
  refine ext_count fun st => ?_
  simp only [toNat_count_reduce]
  omega

@[simp]
theorem zero_reduce (t : Tally) : zero.reduce t = t := by
  refine ext_count fun st => ?_
  have h := t.toNat_count_le st
  rw [toNat_count_reduce, toNat_count_zero]
  omega

@[simp]
theorem reduce_zero (t : Tally) : t.reduce zero = t := by
  refine ext_count fun st => ?_
  have h := t.toNat_count_le st
  rw [toNat_count_reduce, toNat_count_zero]
  omega

@[simp]
theorem sum_nil : sum [] = zero := rfl

theorem foldl_reduce (t : Tally) (ts : List Tally) : ts.foldl reduce t = t.reduce (sum ts) := by
  induction ts generalizing t with
  | nil => simp
  | cons u ts ih =>
    have hs : sum (u :: ts) = u.reduce (sum ts) := by
      rw [sum, List.foldl_cons, zero_reduce, ih]
    rw [List.foldl_cons, ih, hs, reduce_assoc]

@[simp]
theorem sum_cons (t : Tally) (ts : List Tally) : sum (t :: ts) = t.reduce (sum ts) := by
  rw [sum, List.foldl_cons, zero_reduce, foldl_reduce]

@[simp]
theorem sum_append (ss ts : List Tally) : sum (ss ++ ts) = (sum ss).reduce (sum ts) := by
  rw [sum, List.foldl_append, foldl_reduce, ← sum]

/-- Each bucket of a sum holds the exact number, as far as that can be counted. -/
theorem toNat_count_sum (ts : List Tally) (st : Status) :
    ((sum ts).count st).toNat =
      min (UInt32.size - 1) (Doctest.total (ts.map fun t => (t.count st).toNat)) := by
  induction ts with
  | nil => simp
  | cons t ts ih =>
    rw [sum_cons, toNat_count_reduce, ih, List.map_cons, total_cons]
    omega

theorem toNat_count_ofStatus (s st : Status) :
    ((ofStatus s).count st).toNat = if s = st then 1 else 0 := by
  cases s <;> cases st <;> rfl

/-- The tally of some outcomes counts each of them once. -/
theorem toNat_count_sum_ofStatus (ss : List Status) (st : Status) :
    ((sum (ss.map ofStatus)).count st).toNat = min (UInt32.size - 1) (ss.count st) := by
  have h : Doctest.total (ss.map fun s => ((ofStatus s).count st).toNat) = ss.count st := by
    induction ss with
    | nil => rfl
    | cons s ss ih =>
      rw [List.map_cons, total_cons, ih, toNat_count_ofStatus, List.count_cons, Nat.add_comm]
      simp
  rw [toNat_count_sum, List.map_map, ← h]
  rfl

/-- The number of snippets of all outcomes, however great. -/
def size (t : Tally) : Nat :=
  t.passed.toNat + t.failed.toNat + t.skipped.toNat + t.errored.toNat

theorem toNat_total (t : Tally) : t.total.toNat = min (UInt32.size - 1) t.size := by
  simp only [total, toNat_saturatingAdd, size]
  omega

theorem isSuccess_iff (t : Tally) : t.isSuccess ↔ t.failed = 0 ∧ t.errored = 0 := by
  simp only [isSuccess, Bool.and_eq_true, beq_iff_eq]

/-- The sizes of some tallies add up by buckets. -/
theorem total_size (ts : List Tally) : Doctest.total (ts.map size) =
    Doctest.total (ts.map fun t => t.passed.toNat) + Doctest.total (ts.map fun t => t.failed.toNat) +
      Doctest.total (ts.map fun t => t.skipped.toNat) + Doctest.total (ts.map fun t => t.errored.toNat) := by
  simp only [← total_map_add]
  rfl

/-- A total that saturates at each bucket and again between them is the exact number up to the greatest. -/
theorem toNat_total_sum (ts : List Tally) :
    (sum ts).total.toNat = min (UInt32.size - 1) (Doctest.total (ts.map size)) := by
  have hpassed := toNat_count_sum ts .passed
  have hfailed := toNat_count_sum ts .failed
  have hskipped := toNat_count_sum ts .skipped
  have herrored := toNat_count_sum ts .errored
  simp only [count] at hpassed hfailed hskipped herrored
  rw [toNat_total, size, total_size, hpassed, hfailed, hskipped, herrored]
  omega

theorem isSuccess_sum (ts : List Tally) :
    (sum ts).isSuccess ↔ ∀ t ∈ ts, t.failed = 0 ∧ t.errored = 0 := by
  have hbucket (st : Status) : (sum ts).count st = 0 ↔ ∀ t ∈ ts, t.count st = 0 := by
    have hzero (n : UInt32) : n = 0 ↔ n.toNat = 0 := UInt32.toNat_inj.symm
    have hmin (n : Nat) : min (UInt32.size - 1) n = 0 ↔ n = 0 := by
      simp only [UInt32.size]
      omega
    simp only [hzero, toNat_count_sum, hmin, total_eq_zero_iff, List.forall_mem_map]
  have hfailed := hbucket .failed
  have herrored := hbucket .errored
  simp only [count] at hfailed herrored
  rw [isSuccess_iff, hfailed, herrored]
  exact ⟨fun h t ht => ⟨h.1 t ht, h.2 t ht⟩, fun h => ⟨fun t ht => (h t ht).1, fun t ht => (h t ht).2⟩⟩

/-- A way to put tallies together two by two, with empty tallies anywhere among them. -/
inductive Reduction
  | zero
  | single (t : Tally)
  | join (left right : Reduction)

namespace Reduction

/-- The tallies that are put together, from left to right. -/
def leaves : Reduction → List Tally
  | zero => []
  | single t => [t]
  | join left right => left.leaves ++ right.leaves

def value : Reduction → Tally
  | zero => .zero
  | single t => t
  | join left right => left.value.reduce right.value

theorem value_eq_sum (r : Reduction) : r.value = sum r.leaves := by
  induction r with
  | zero => rfl
  | single t => simp [value, leaves]
  | join left right hleft hright => rw [value, leaves, sum_append, hleft, hright]

end Reduction

theorem sum_perm {ss ts : List Tally} (h : ss.Perm ts) : sum ss = sum ts := by
  refine ext_count fun st => ?_
  rw [toNat_count_sum, toNat_count_sum, total_perm (h.map _)]

/-- **The order and the grouping of tallies do not matter**, wherever a bucket saturates on the way. The
result has the exact number in each bucket and in its total, up to the greatest count, and is a success if
no tally of them has failures or errors. -/
theorem Reduction.value_agrees (r : Reduction) {ts : List Tally} (h : r.leaves.Perm ts) :
    r.value = sum ts ∧
    (∀ st, (r.value.count st).toNat =
      min (UInt32.size - 1) (Doctest.total (ts.map fun t => (t.count st).toNat))) ∧
    r.value.total.toNat = min (UInt32.size - 1) (Doctest.total (ts.map fun t =>
      t.passed.toNat + t.failed.toNat + t.skipped.toNat + t.errored.toNat)) ∧
    (r.value.isSuccess ↔ ∀ t ∈ ts, t.failed = 0 ∧ t.errored = 0) := by
  have hvalue : r.value = sum ts := r.value_eq_sum.trans (sum_perm h)
  rw [hvalue]
  exact ⟨rfl, toNat_count_sum ts, toNat_total_sum ts, isSuccess_sum ts⟩

/-- Two buckets run over where the halves are joined, and with them the total. -/
theorem Reduction.value_agrees_saturated :
    let big : Tally := ⟨4294967295, 0, 2, 0⟩
    let more : Tally := ⟨1, 0, 4294967294, 0⟩
    let r : Reduction := .join (.join (.single more) .zero) (.join (.single ⟨0, 0, 0, 0⟩) (.single big))
    r.leaves.Perm [big, more, ⟨0, 0, 0, 0⟩] ∧ r.value = sum [big, more, ⟨0, 0, 0, 0⟩] ∧
      r.value.total.toNat = UInt32.size - 1 ∧ r.value.isSuccess := by
  intro big more r
  have hperm : r.leaves.Perm [big, more, ⟨0, 0, 0, 0⟩] := by decide
  obtain ⟨hvalue, -, htotal, hsuccess⟩ := r.value_agrees hperm
  exact ⟨hperm, hvalue, htotal.trans (by decide), hsuccess.mpr (by decide)⟩

end Tally

end Doctest
