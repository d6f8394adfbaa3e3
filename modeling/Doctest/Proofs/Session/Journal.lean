import Doctest.Proofs.Session.Walk

/-! Tools that keep a journal of their answers. A journal changes nothing in a run, and it shows which
units the compiler was called with and how every attempt ended. -/
namespace Doctest

/-- An answer of one of the tools, with what it was asked. -/
inductive Answer
  | compiled (u : TestUnit) (result : Except UnitError Unit)
  | resolved (name : String) (result : Except UnitError Path)
  | executed (program : Path) (outcome : Outcome)

namespace Answer

/-- The units that the compiler was called with. -/
def units (as : List Answer) : List TestUnit :=
  as.filterMap fun | compiled u _ => some u | _ => none

/-- The outcome of an attempt, if this answer ends the attempt. -/
def outcome? : Answer → Option Outcome
  | compiled _ (.error e) => some (.errored e)
  | compiled _ (.ok ()) => none
  | resolved _ (.error e) => some (.errored e)
  | resolved _ (.ok _) => none
  | executed _ outcome => some outcome

def outcomes (as : List Answer) : List Outcome :=
  as.filterMap outcome?

theorem units_append (as bs : List Answer) : units (as ++ bs) = units as ++ units bs :=
  List.filterMap_append

theorem outcomes_append (as bs : List Answer) : outcomes (as ++ bs) = outcomes as ++ outcomes bs :=
  List.filterMap_append

end Answer

namespace Trial

def unit? (x : Trial) : Option TestUnit :=
  x.made.map (·.1)

def outcome? (x : Trial) : Option Outcome :=
  x.made.map (·.2)

end Trial

namespace Tools

variable {σ : Type}

/-- The same tools, which also write down every answer at the end of a journal. -/
def recorded (tools : Tools σ) : Tools (σ × List Answer) where
  compile u s :=
    let (result, next) := tools.compile u s.1
    (result, (next, s.2 ++ [.compiled u result]))
  resolve name s :=
    let (result, next) := tools.resolve name s.1
    (result, (next, s.2 ++ [.resolved name result]))
  execute program s :=
    let (outcome, next) := tools.execute program s.1
    (outcome, (next, s.2 ++ [.executed program outcome]))

/-- The answers that the tools give during a run. -/
def answers (tools : Tools σ) (t : Outline) (roots : List Nat) (p : Progress σ) : List Answer :=
  (tools.recorded.run t roots ⟨p.reports, p.registry, (p.tools, [])⟩).2.tools.2

/-- An attempt calls the compiler once, and its last answer is its outcome. -/
theorem attempt_recorded (tools : Tools σ) (u : TestUnit) (s : σ) (log : List Answer) :
    ∃ new, tools.recorded.attempt u (s, log) =
        ((tools.attempt u s).1, ((tools.attempt u s).2, log ++ new)) ∧
      Answer.units new = [u] ∧ Answer.outcomes new = [(tools.attempt u s).1] := by
  cases hc : tools.compile u s with
  | mk compiled s₁ =>
    cases compiled with
    | error e =>
      refine ⟨[.compiled u (.error e)], ?_, rfl, ?_⟩
      · simp [attempt, recorded, hc]
      · simp only [attempt, hc]
        rfl
    | ok _ =>
      cases hr : tools.resolve u.name s₁ with
      | mk resolved s₂ =>
        cases resolved with
        | error e =>
          refine ⟨[.compiled u (.ok ()), .resolved u.name (.error e)], ?_, rfl, ?_⟩
          · simp [attempt, recorded, hc, hr]
          · simp only [attempt, hc, hr]
            rfl
        | ok program =>
          refine ⟨[.compiled u (.ok ()), .resolved u.name (.ok program),
            .executed program (tools.execute program s₂).1], ?_, rfl, ?_⟩
          · simp [attempt, recorded, hc, hr]
          · simp only [attempt, hc, hr]
            rfl

theorem trial_recorded (tools : Tools σ) (t : Outline) (j : Job) (r : NameRegistry) (s : σ)
    (log : List Answer) :
    let x := tools.trial t j r s
    ∃ new, tools.recorded.trial t j r (s, log) = (x.1, x.2.1, (x.2.2, log ++ new)) ∧
      Answer.units new = x.1.unit?.toList ∧ Answer.outcomes new = x.1.outcome?.toList := by
  by_cases hi : j.snippet.isIgnored
  · exact ⟨[], by simp [trial, hi], by simp [trial, hi, Trial.unit?, Answer.units],
      by simp [trial, hi, Trial.outcome?, Answer.outcomes]⟩
  · obtain ⟨new, ha, hu, ho⟩ :=
      tools.attempt_recorded (TestUnit.synthesize t j.id j.snippet r).1 s log
    exact ⟨new, by simp [trial, hi, ha], by simp [trial, hi, hu, Trial.unit?],
      by simp [trial, hi, ho, Trial.outcome?]⟩

theorem trials_recorded (tools : Tools σ) (t : Outline) (js : List Job) (r : NameRegistry) (s : σ)
    (log : List Answer) :
    let x := tools.trials t js r s
    ∃ new, tools.recorded.trials t js r (s, log) = (x.1, x.2.1, (x.2.2, log ++ new)) ∧
      Answer.units new = x.1.filterMap Trial.unit? ∧
      Answer.outcomes new = x.1.filterMap Trial.outcome? := by
  induction js generalizing r s log with
  | nil => exact ⟨[], by simp [trials], rfl, rfl⟩
  | cons j js ih =>
    obtain ⟨new, hx, hu, ho⟩ := tools.trial_recorded t j r s log
    obtain ⟨more, hxs, hus, hos⟩ :=
      ih (tools.trial t j r s).2.1 (tools.trial t j r s).2.2 (log ++ new)
    refine ⟨new ++ more, ?_, ?_, ?_⟩
    · simp only [trials, hx, hxs, List.append_assoc]
    · rw [Answer.units_append, hu, hus, trials]
      cases h : (tools.trial t j r s).1.unit? <;> simp [h]
    · rw [Answer.outcomes_append, ho, hos, trials]
      cases h : (tools.trial t j r s).1.outcome? <;> simp [h]

/-- The trials of a run, in order. -/
def runTrials (tools : Tools σ) (t : Outline) (roots : List Nat) (p : Progress σ) : List Trial :=
  (tools.trials t (roots.flatMap t.jobs) p.registry p.tools).1

/-- Tools with a journal make the same run, and the journal is that of the run's trials. -/
theorem run_recorded (tools : Tools σ) (t : Outline) (roots : List Nat) (p : Progress σ) :
    let x := tools.run t roots p
    tools.recorded.run t roots ⟨p.reports, p.registry, (p.tools, [])⟩ =
        (x.1, ⟨x.2.reports, x.2.registry, (x.2.tools, tools.answers t roots p)⟩) ∧
      Answer.units (tools.answers t roots p) = (tools.runTrials t roots p).filterMap Trial.unit? ∧
      Answer.outcomes (tools.answers t roots p) =
        (tools.runTrials t roots p).filterMap Trial.outcome? := by
  obtain ⟨new, hx, hu, ho⟩ :=
    tools.trials_recorded t (roots.flatMap t.jobs) p.registry p.tools []
  have hrun : tools.recorded.run t roots ⟨p.reports, p.registry, (p.tools, [])⟩ =
      ((tools.run t roots p).1,
        ⟨(tools.run t roots p).2.reports, (tools.run t roots p).2.registry,
          ((tools.run t roots p).2.tools, new)⟩) := by
    rw [run_eq_afterJobs, run_eq_afterJobs]
    simp only [afterJobs, hx, Progress.say, List.nil_append]
  have hnew : tools.answers t roots p = new := by
    rw [answers, hrun]
  rw [hnew]
  exact ⟨hrun, hu, ho⟩

/-- A run reports its trials one after another, then the tally of their outcomes. -/
theorem run_eq_runTrials (tools : Tools σ) (t : Outline) (roots : List Nat) (p : Progress σ) :
    (tools.run t roots p).1 =
        .sum ((tools.runTrials t roots p).map fun x => .ofStatus x.status) ∧
      (tools.run t roots p).2.reports =
        p.reports ++ (tools.runTrials t roots p).flatMap (Trial.reports t) ++
          [.summary (tools.run t roots p).1] := by
  rw [run_eq_afterJobs]
  exact ⟨rfl, rfl⟩

end Tools

end Doctest
