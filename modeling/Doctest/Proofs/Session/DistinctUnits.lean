import Doctest.Proofs.Session.Accounting
import Doctest.Proofs.Unit.Names

/-! The names of all units that one runner ever makes are distinct, however often it runs, over whatever
outlines and with whatever outcomes. The registry carries this from one run to the next: what has been
issued is exactly what the events name. -/
namespace Doctest

namespace SnippetEvent

/-- The units of the events that are not about skipped snippets. -/
def units (es : List SnippetEvent) : List String :=
  (es.filter (·.status ≠ .skipped)).map (·.unit)

theorem units_append (as bs : List SnippetEvent) : units (as ++ bs) = units as ++ units bs := by
  simp [units]

theorem units_eq_planned (es : List SnippetEvent) :
    units es = ((es.map planned).filter (!·.ignored)).map (·.unit) := by
  rw [List.filter_map, List.map_map, units]
  congr 1
  exact List.filter_congr fun e _ => by simp [planned]

end SnippetEvent

theorem RunReport.events_append (as bs : List RunReport) :
    events (as ++ bs) = events as ++ events bs :=
  List.filterMap_append

namespace Trial

theorem units_map_event (t : Outline) (xs : List Trial) :
    SnippetEvent.units (xs.map (event t)) = (xs.filterMap unit?).map (·.name) := by
  rw [SnippetEvent.units_eq_planned, List.map_map, map_name_filterMap_unit? t]
  rfl

end Trial

/-- What the events name is what the registry has issued, and it has issued nothing twice. -/
structure Progress.Registered {σ : Type} (p : Progress σ) : Prop where
  units : SnippetEvent.units (RunReport.events p.reports) = p.registry.issued.reverse
  nodup : p.registry.issued.Nodup

namespace Tools

variable {σ : Type}

/-- Runs that follow each other, each beginning with what the one before it left behind. -/
def runAll (tools : Tools σ) : List (Outline × List Nat) → Progress σ → Progress σ
  | [], p => p
  | (t, roots) :: rest, p => tools.runAll rest (tools.run t roots p).2

/-- The test snippets of some runs, each with its outline. -/
def runJobs (runs : List (Outline × List Nat)) : List (Outline × Job) :=
  runs.flatMap fun (t, roots) => (roots.flatMap t.jobs).map (t, ·)

theorem issued_trial (tools : Tools σ) (t : Outline) (j : Job) (r : NameRegistry) (s : σ) :
    let x := tools.trial t j r s
    x.2.1.issued = (x.1.unit?.toList.map (·.name)) ++ r.issued := by
  by_cases hi : j.snippet.isIgnored
  · simp [trial, hi, Trial.unit?]
  · simp [trial, hi, Trial.unit?, TestUnit.synthesize, NameRegistry.register]

theorem nodup_issued_trial (tools : Tools σ) (t : Outline) (j : Job) {r : NameRegistry} (s : σ)
    (h : r.issued.Nodup) : (tools.trial t j r s).2.1.issued.Nodup := by
  unfold trial
  split
  · exact h
  · exact NameRegistry.nodup_issued_register h _

/-- The registry holds the names of all trials, the latest first, and it gives out none twice. -/
theorem issued_trials (tools : Tools σ) (t : Outline) (js : List Job) (r : NameRegistry) (s : σ) :
    let x := tools.trials t js r s
    x.2.1.issued = ((x.1.filterMap Trial.unit?).map (·.name)).reverse ++ r.issued := by
  induction js generalizing r s with
  | nil => simp [trials]
  | cons j js ih =>
    have hx := tools.issued_trial t j r s
    have hxs := ih (tools.trial t j r s).2.1 (tools.trial t j r s).2.2
    simp only [trials] at hxs ⊢
    rw [hxs, hx]
    cases h : (tools.trial t j r s).1.unit? <;> simp [h]

theorem nodup_issued_trials (tools : Tools σ) (t : Outline) (js : List Job) {r : NameRegistry} (s : σ)
    (h : r.issued.Nodup) : (tools.trials t js r s).2.1.issued.Nodup := by
  induction js generalizing r s with
  | nil => exact h
  | cons j js ih => exact ih _ (tools.nodup_issued_trial t j s h)

theorem registry_run (tools : Tools σ) (t : Outline) (roots : List Nat) (p : Progress σ) :
    (tools.run t roots p).2.registry =
      (tools.trials t (roots.flatMap t.jobs) p.registry p.tools).2.1 := by
  rw [run_eq_afterJobs]
  rfl

theorem events_run (tools : Tools σ) (t : Outline) (roots : List Nat) (p : Progress σ) :
    RunReport.events (tools.run t roots p).2.reports =
      RunReport.events p.reports ++ (tools.runTrials t roots p).map (Trial.event t) := by
  rw [(tools.run_eq_runTrials t roots p).2, RunReport.events_append, RunReport.events_append,
    Trial.events_flatMap_reports]
  simp [RunReport.events]

/-- The unit of a trial is named for the element of its job. -/
theorem isNameFor_of_mem_trials (tools : Tools σ) (t : Outline) (js : List Job) (r : NameRegistry)
    (s : σ) (hjs : ∀ j ∈ js, ∃ e, t.get? j.id = some e) {x : Trial}
    (hx : x ∈ (tools.trials t js r s).1) {made : TestUnit × Outcome} (hm : x.made = some made) :
    ∃ e, t.get? x.job.id = some e ∧ TestUnit.IsNameFor e.kind made.1.name := by
  induction js generalizing r s with
  | nil => simp [trials] at hx
  | cons j js ih =>
    simp only [trials, List.mem_cons] at hx
    rcases hx with rfl | hx
    · obtain ⟨e, he⟩ := hjs j List.mem_cons_self
      rw [job_trial]
      by_cases hi : j.snippet.isIgnored
      · simp [trial, hi] at hm
      · simp only [trial, hi] at hm
        obtain rfl := Option.some.inj hm
        exact ⟨e, he, TestUnit.isNameFor_synthesize he j.snippet r⟩
    · exact ih _ _ (fun j hj => hjs j (List.mem_cons_of_mem _ hj)) hx

/-- The event belongs to the job, and a unit that was made has a name for the job's element. -/
def Names (e : SnippetEvent) (a : Outline × Job) : Prop :=
  e.element = a.1.qualifiedName a.2.id ∧
    (e.status ≠ .skipped → e.unit ≠ "" ∧
      ∃ element, a.1.get? a.2.id = some element ∧ TestUnit.IsNameFor element.kind e.unit)

theorem names_event (tools : Tools σ) (t : Outline) (roots : List Nat) (p : Progress σ) {x : Trial}
    (hx : x ∈ tools.runTrials t roots p) : Names (x.event t) (t, x.job) := by
  refine ⟨rfl, fun hs => ?_⟩
  obtain ⟨made, hm⟩ := Option.ne_none_iff_exists'.mp (mt x.status_eq_skipped_iff.mpr hs)
  have hjs : ∀ j ∈ roots.flatMap t.jobs, ∃ e, t.get? j.id = some e := by
    intro j hj
    obtain ⟨root, -, hj⟩ := List.mem_flatMap.mp hj
    obtain ⟨e, he, -⟩ := Outline.exists_element_of_mem_jobs hj
    exact ⟨e, he⟩
  obtain ⟨e, he, hn⟩ := tools.isNameFor_of_mem_trials t _ _ _ hjs hx hm
  have hu : (x.event t).unit = made.1.name := by
    simp [Trial.event, Trial.unitName, hm]
  rw [hu]
  exact ⟨hn.ne_empty, e, he, hn⟩

theorem forall₂_names_run (tools : Tools σ) (t : Outline) (roots : List Nat) (p : Progress σ) :
    List.Forall₂ Names ((tools.runTrials t roots p).map (Trial.event t))
      ((roots.flatMap t.jobs).map (t, ·)) := by
  have hj : (tools.runTrials t roots p).map (·.job) = roots.flatMap t.jobs :=
    tools.map_job_trials t _ _ _
  rw [← hj, List.map_map, List.forall₂_map_left_iff, List.forall₂_map_right_iff, List.forall₂_same]
  exact fun x hx => tools.names_event t roots p hx

theorem registered_run (tools : Tools σ) (t : Outline) (roots : List Nat) {p : Progress σ}
    (h : p.Registered) : (tools.run t roots p).2.Registered := by
  constructor
  · rw [events_run, SnippetEvent.units_append, h.units, Trial.units_map_event, registry_run,
      issued_trials, List.reverse_append, List.reverse_reverse]
    rfl
  · rw [registry_run]
    exact tools.nodup_issued_trials t _ _ h.nodup

theorem registered_runAll (tools : Tools σ) (runs : List (Outline × List Nat)) {p : Progress σ}
    (h : p.Registered) : (tools.runAll runs p).Registered := by
  induction runs generalizing p with
  | nil => exact h
  | cons run runs ih => exact ih (tools.registered_run run.1 run.2 h)

theorem forall₂_names_runAll (tools : Tools σ) (runs : List (Outline × List Nat)) (p : Progress σ)
    (done : List (Outline × Job)) (h : List.Forall₂ Names (RunReport.events p.reports) done) :
    List.Forall₂ Names (RunReport.events (tools.runAll runs p).reports) (done ++ runJobs runs) := by
  induction runs generalizing p done with
  | nil => simpa [runJobs, runAll] using h
  | cons run runs ih =>
    obtain ⟨t, roots⟩ := run
    have hrun := tools.forall₂_names_run t roots p
    have := ih (tools.run t roots p).2 (done ++ (roots.flatMap t.jobs).map (t, ·)) (by
      rw [events_run]
      exact List.rel_append h hrun)
    simpa [runJobs, runAll] using this

/-- All units of all runs of one runner have distinct names and so are distinct files of the workspace,
and each name is a word that shows the kind of the element. The events stand for the test snippets of
the runs in their order. -/
theorem units_of_runs_distinct (tools : Tools σ) (runs : List (Outline × List Nat)) (s : σ) :
    let events := RunReport.events (tools.runAll runs (.start s)).reports
    (SnippetEvent.units events).Nodup ∧
      (∀ workspace : Path,
        ((SnippetEvent.units events).map fun name => workspace.join (.ofString name)).Nodup) ∧
      List.Forall₂ Names events (runJobs runs) := by
  intro events
  have hstart : (Progress.start s).Registered := ⟨rfl, List.nodup_nil⟩
  have hr := tools.registered_runAll runs hstart
  have hnodup : (SnippetEvent.units events).Nodup := by
    rw [hr.units]
    exact List.nodup_reverse.mpr hr.nodup
  have hnames : List.Forall₂ Names events (runJobs runs) :=
    tools.forall₂_names_runAll runs (.start s) [] .nil
  refine ⟨hnodup, fun workspace => hnodup.map_on fun a ha b hb h => ?_, hnames⟩
  have relative {name : String} (hn : name ∈ SnippetEvent.units events) :
      (Path.ofString name).isAbsolute = false := by
    obtain ⟨e, he, rfl⟩ := List.mem_map.mp hn
    obtain ⟨he, hs⟩ := List.mem_filter.mp he
    obtain ⟨i, hi, rfl⟩ := List.getElem_of_mem he
    obtain ⟨-, hname⟩ := hnames.get hi (hnames.length_eq ▸ hi)
    obtain ⟨-, element, -, hname⟩ := hname (by simpa using hs)
    exact hname.not_isAbsolute
  exact Path.join_ofString_inj (relative ha) (relative hb) h

end Tools

end Doctest
