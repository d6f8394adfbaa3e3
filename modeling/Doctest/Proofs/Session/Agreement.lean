import Doctest.Proofs.Session.Journal

/-! A plan foretells a run: both name and place the same snippets in the same order, whatever the tools
do in between. -/
namespace Doctest

/-- The entry of a plan that foretells an event. -/
def SnippetEvent.planned (e : SnippetEvent) : Planned :=
  ⟨e.unit, e.element, e.location, e.status = .skipped⟩

theorem Outcome.status_ne_skipped (o : Outcome) : o.status ≠ .skipped := by
  cases o <;> simp [status]

namespace Trial

theorem status_eq_skipped_iff (x : Trial) : x.status = .skipped ↔ x.made = none := by
  cases h : x.made with
  | none => simp [status, h]
  | some made => simp [status, h, made.2.status_ne_skipped]

/-- Only a job that is not ignored has a unit in the plan, and that is the unit that was made. -/
theorem unit?_eq_none_iff (t : Outline) (x : Trial) :
    x.unit? = none ↔ (x.event t).planned.ignored := by
  simp [unit?, SnippetEvent.planned, event, status_eq_skipped_iff]

theorem planned_unit_of_unit? (t : Outline) {x : Trial} {u : TestUnit} (h : x.unit? = some u) :
    (x.event t).planned.unit = u.name := by
  obtain ⟨made, hm, rfl⟩ := Option.map_eq_some_iff.mp h
  simp [SnippetEvent.planned, event, unitName, hm]

/-- The units that were made are those of the entries that are not ignored. -/
theorem map_name_filterMap_unit? (t : Outline) (xs : List Trial) :
    (xs.filterMap unit?).map (·.name) =
      ((xs.map fun x => (x.event t).planned).filter (!·.ignored)).map (·.unit) := by
  induction xs with
  | nil => rfl
  | cons x xs ih =>
    cases h : x.unit? with
    | none =>
      have hi := (unit?_eq_none_iff t x).mp h
      rw [List.filterMap_cons_none h, ih, List.map_cons, List.filter_cons_of_neg (by simp [hi])]
    | some u =>
      have hi : (x.event t).planned.ignored = false := by
        rw [← Bool.not_eq_true, ← unit?_eq_none_iff, h]
        simp
      rw [List.filterMap_cons_some h, List.map_cons, ih, List.map_cons,
        List.filter_cons_of_pos (by simp [hi]), List.map_cons, planned_unit_of_unit? t h]

end Trial

namespace Tools

variable {σ : Type}

/-- A plan and a run name a job alike if they begin with the same registry, and they leave the same
registry behind. -/
theorem ofSnippet_eq_trial (tools : Tools σ) (t : Outline) (j : Job) (r : NameRegistry) (s : σ) :
    Planned.ofSnippet t j.id j.doc r j.snippet =
      (((tools.trial t j r s).1.event t).planned, (tools.trial t j r s).2.1) := by
  by_cases hi : j.snippet.isIgnored
  · simp [Planned.ofSnippet, trial, hi, SnippetEvent.planned, Trial.event, Trial.unitName,
      Trial.status]
  · simp [Planned.ofSnippet, trial, hi, SnippetEvent.planned, Trial.event, Trial.unitName,
      Trial.status, Outcome.status_ne_skipped]

theorem planJobs_eq_trials (tools : Tools σ) (t : Outline) (js : List Job) (r : NameRegistry)
    (s : σ) :
    t.planJobs r js =
      ((tools.trials t js r s).1.map fun x => (x.event t).planned, (tools.trials t js r s).2.1) := by
  induction js generalizing r s with
  | nil => rfl
  | cons j js ih =>
    rw [Outline.planJobs, tools.ofSnippet_eq_trial t j r s]
    simp only [ih _ (tools.trial t j r s).2.2, trials, List.map_cons]

theorem plan_eq_runTrials (tools : Tools σ) (t : Outline) (roots : List Nat) (s : σ) :
    t.plan roots = (tools.runTrials t roots (.start s)).map fun x => (x.event t).planned := by
  rw [Outline.plan_eq_planJobs, tools.planJobs_eq_trials t _ .empty s]
  rfl

/-- The events of a fresh run are the entries of the plan, in the same order, and the compiler is called
with one unit for each entry that is not ignored and with no other. The outline may be any, and so may
the roots and the tools. -/
theorem run_agrees_with_plan (tools : Tools σ) (t : Outline) (roots : List Nat) (s : σ) :
    (RunReport.events (tools.run t roots (.start s)).2.reports).map SnippetEvent.planned =
        t.plan roots ∧
      (Answer.units (tools.answers t roots (.start s))).map (·.name) =
        ((t.plan roots).filter (!·.ignored)).map (·.unit) := by
  have hr := (tools.run_eq_runTrials t roots (.start s)).2
  constructor
  · rw [hr, RunReport.events, List.filterMap_append, List.filterMap_append, ← RunReport.events,
      ← RunReport.events, Trial.events_flatMap_reports, tools.plan_eq_runTrials t roots s]
    simp [Progress.start, RunReport.events]
  · rw [(tools.run_recorded t roots (.start s)).2.1, tools.plan_eq_runTrials t roots s]
    exact Trial.map_name_filterMap_unit? t _

end Tools

end Doctest
