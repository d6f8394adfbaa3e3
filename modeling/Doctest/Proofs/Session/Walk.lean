import Mathlib.Data.List.Basic
import Doctest.Session.Run
import Doctest.Proofs.Session.Tally

/-! The test snippets below some elements as one list, in the order in which they are met. The stack of
a plan and the recursion of a run go through the same list, so what either does to a single snippet says
what it does to a whole outline. -/
namespace Doctest

/-- A test snippet with the comment that holds it and the element that the comment is on. -/
structure Job where
  id : Nat
  doc : DocComment
  snippet : Snippet
deriving DecidableEq, Repr

namespace Outline

def ownJobs (t : Outline) (id : Nat) : List Job :=
  (((t.get? id).map Planned.tests).getD []).map fun (doc, s) => ⟨id, doc, s⟩

/-- The test snippets of an element, then those of each child. -/
def jobs (t : Outline) (id : Nat) : List Job :=
  t.ownJobs id ++ (t.childrenOf id).attach.flatMap fun c => t.jobs c.1
termination_by t.size - id
decreasing_by
  have := lt_of_mem_childrenOf c.2
  have := lt_size_of_mem_childrenOf c.2
  omega

theorem jobs_eq (t : Outline) (id : Nat) :
    t.jobs id = t.ownJobs id ++ (t.childrenOf id).flatMap t.jobs := by
  rw [jobs, List.flatMap_subtype (g := t.jobs) (fun _ _ => rfl), List.unattach_attach]

theorem mem_jobs_of_mem_ownJobs {t : Outline} {id : Nat} {j : Job} (h : j ∈ t.ownJobs id) :
    ∃ e, t.get? id = some e ∧ j.id = id ∧ j.doc ∈ e.docs ∧ j.snippet ∈ Snippet.ofComment j.doc := by
  cases he : t.get? id with
  | none => simp [ownJobs, he] at h
  | some e =>
    simp only [ownJobs, he, Option.map_some, Option.getD_some, Planned.tests, List.mem_map,
      List.mem_flatMap, List.mem_filter] at h
    obtain ⟨⟨doc, s⟩, ⟨d, hd, s', ⟨hs, -⟩, heq⟩, rfl⟩ := h
    obtain ⟨rfl, rfl⟩ := Prod.mk.inj heq
    exact ⟨e, rfl, rfl, hd, hs⟩

/-- A job stands in a comment of an element of the outline. -/
theorem exists_element_of_mem_jobs {t : Outline} {id : Nat} {j : Job} (h : j ∈ t.jobs id) :
    ∃ e, t.get? j.id = some e ∧ j.doc ∈ e.docs ∧ j.snippet ∈ Snippet.ofComment j.doc := by
  induction id using jobs.induct (t := t) with
  | case1 id ih =>
    rw [jobs_eq, List.mem_append, List.mem_flatMap] at h
    rcases h with h | ⟨c, hc, h⟩
    · obtain ⟨e, he, rfl, hd⟩ := mem_jobs_of_mem_ownJobs h
      exact ⟨e, he, hd⟩
    · exact ih ⟨c, hc⟩ h

/-- Plans the jobs of a list, one after another. -/
def planJobs (t : Outline) (r : NameRegistry) : List Job → List Planned × NameRegistry
  | [] => ([], r)
  | j :: js =>
    let (first, r) := Planned.ofSnippet t j.id j.doc r j.snippet
    let (others, r) := t.planJobs r js
    (first :: others, r)

theorem planJobs_append (t : Outline) (r : NameRegistry) (as bs : List Job) :
    t.planJobs r (as ++ bs) =
      ((t.planJobs r as).1 ++ (t.planJobs (t.planJobs r as).2 bs).1,
        (t.planJobs (t.planJobs r as).2 bs).2) := by
  induction as generalizing r with
  | nil => rfl
  | cons j as ih => simp only [List.cons_append, planJobs, ih]

theorem ofSnippets_eq_planJobs (t : Outline) (id : Nat) (r : NameRegistry)
    (ss : List (DocComment × Snippet)) :
    Planned.ofSnippets t id r ss = t.planJobs r (ss.map fun (doc, s) => ⟨id, doc, s⟩) := by
  induction ss generalizing r with
  | nil => rfl
  | cons s ss ih => simp only [Planned.ofSnippets, List.map_cons, planJobs, ih]

/-- The stack holds exactly the elements whose jobs are still to come. -/
theorem planStack_eq_planJobs (t : Outline) (r : NameRegistry) (stack : List Nat) :
    t.planStack r stack = (t.planJobs r (stack.flatMap t.jobs)).1 := by
  induction r, stack using planStack.induct (t := t) with
  | case1 r => rw [planStack]; rfl
  | case2 r id rest tests planned r' hp ih =>
    have htests : t.planJobs r (t.ownJobs id) = (planned, r') := by
      rw [← hp, ofSnippets_eq_planJobs]
      rfl
    rw [planStack, hp]
    show planned ++ t.planStack r' (t.childrenOf id ++ rest) = _
    rw [ih, List.flatMap_append, List.flatMap_cons, jobs_eq, List.append_assoc,
      planJobs_append t r (t.ownJobs id), htests]

theorem plan_eq_planJobs (t : Outline) (roots : List Nat) :
    t.plan roots = (t.planJobs .empty (roots.flatMap t.jobs)).1 :=
  planStack_eq_planJobs t .empty roots

end Outline

/-- What a run did with a job. An ignored one has neither unit nor outcome. -/
structure Trial where
  job : Job
  made : Option (TestUnit × Outcome)
deriving Repr

namespace Trial

def status (x : Trial) : Status :=
  x.made.elim .skipped fun (_, outcome) => outcome.status

/-- The name of the unit, which is empty if there is none. -/
def unitName (x : Trial) : String :=
  x.made.elim "" fun (u, _) => u.name

def event (t : Outline) (x : Trial) : SnippetEvent :=
  ⟨x.unitName, t.qualifiedName x.job.id, x.job.doc.location (x.job.snippet.line - x.job.doc.line),
    x.status⟩

def diagnostic? (t : Outline) (x : Trial) : Option Diagnostic :=
  x.made.bind fun (u, outcome) =>
    (outcome.diagnostic? x.job.doc x.job.snippet u).map fun d =>
      d.locate t x.job.id x.job.doc x.job.snippet

/-- What is reported about a job: the diagnostic of a bad outcome, then the event. -/
def reports (t : Outline) (x : Trial) : List RunReport :=
  (x.diagnostic? t).toList.map .diagnostic ++ [.finished (x.event t)]

theorem events_flatMap_reports (t : Outline) (xs : List Trial) :
    RunReport.events (xs.flatMap (reports t)) = xs.map (event t) := by
  have hx (x : Trial) : RunReport.events (x.reports t) = [x.event t] := by
    cases h : x.diagnostic? t <;> simp [reports, h, RunReport.events]
  rw [RunReport.events, List.filterMap_flatMap, List.map_eq_flatMap]
  exact congrArg (xs.flatMap ·) (funext hx)

theorem diagnostics_flatMap_reports (t : Outline) (xs : List Trial) :
    RunReport.diagnostics (xs.flatMap (reports t)) = xs.filterMap (diagnostic? t) := by
  have hx (x : Trial) : RunReport.diagnostics (x.reports t) = (x.diagnostic? t).toList := by
    cases h : x.diagnostic? t <;> simp [reports, h, RunReport.diagnostics]
  rw [RunReport.diagnostics, List.filterMap_flatMap, List.filterMap_eq_flatMap_toList]
  exact congrArg (xs.flatMap ·) (funext hx)

theorem summaries_flatMap_reports (t : Outline) (xs : List Trial) :
    RunReport.summaries (xs.flatMap (reports t)) = [] := by
  have hx (x : Trial) : RunReport.summaries (x.reports t) = [] := by
    cases h : x.diagnostic? t <;> simp [reports, h, RunReport.summaries]
  rw [RunReport.summaries, List.filterMap_flatMap]
  exact List.flatMap_eq_nil_iff.mpr fun x _ => hx x

end Trial

namespace Tools

variable {σ : Type}

/-- Deals with one job as a run does. -/
def trial (tools : Tools σ) (t : Outline) (j : Job) (r : NameRegistry) (s : σ) :
    Trial × NameRegistry × σ :=
  if j.snippet.isIgnored then (⟨j, none⟩, r, s)
  else
    let (u, r) := TestUnit.synthesize t j.id j.snippet r
    let (outcome, s) := tools.attempt u s
    (⟨j, some (u, outcome)⟩, r, s)

/-- Deals with the jobs of a list, one after another. -/
def trials (tools : Tools σ) (t : Outline) :
    List Job → NameRegistry → σ → List Trial × NameRegistry × σ
  | [], r, s => ([], r, s)
  | j :: js, r, s =>
    let (first, r, s) := tools.trial t j r s
    let (others, r, s) := tools.trials t js r s
    (first :: others, r, s)

theorem trials_append (tools : Tools σ) (t : Outline) (as bs : List Job) (r : NameRegistry) (s : σ) :
    tools.trials t (as ++ bs) r s =
      let a := tools.trials t as r s
      let b := tools.trials t bs a.2.1 a.2.2
      (a.1 ++ b.1, b.2) := by
  induction as generalizing r s with
  | nil => rfl
  | cons j as ih => simp only [List.cons_append, trials, ih]

/-- The tally of some jobs and the run as it stands after them. -/
def afterJobs (tools : Tools σ) (t : Outline) (js : List Job) (p : Progress σ) : Tally × Progress σ :=
  let (xs, r, s) := tools.trials t js p.registry p.tools
  (.sum (xs.map fun x => .ofStatus x.status), ⟨p.reports ++ xs.flatMap (Trial.reports t), r, s⟩)

@[simp]
theorem afterJobs_nil (tools : Tools σ) (t : Outline) (p : Progress σ) :
    tools.afterJobs t [] p = (.zero, p) := by
  simp [afterJobs, trials]

theorem afterJobs_append (tools : Tools σ) (t : Outline) (as bs : List Job) (p : Progress σ) :
    tools.afterJobs t (as ++ bs) p =
      let a := tools.afterJobs t as p
      let b := tools.afterJobs t bs a.2
      (a.1.reduce b.1, b.2) := by
  simp only [afterJobs, trials_append, List.map_append, Tally.sum_append, List.flatMap_append,
    List.append_assoc]

theorem runSnippet_eq_trial (tools : Tools σ) (t : Outline) (j : Job) (p : Progress σ) :
    tools.runSnippet t j.id j.doc j.snippet p =
      let x := tools.trial t j p.registry p.tools
      (x.1.status, ⟨p.reports ++ x.1.reports t, x.2.1, x.2.2⟩) := by
  by_cases hi : j.snippet.isIgnored
  · simp [runSnippet, trial, hi, Trial.status, Trial.reports, Trial.diagnostic?, Trial.event,
      Trial.unitName, Progress.say]
  · simp [runSnippet, trial, hi, Trial.status, Trial.reports, Trial.diagnostic?, Trial.event,
      Trial.unitName]

theorem afterJobs_cons (tools : Tools σ) (t : Outline) (j : Job) (js : List Job) (p : Progress σ) :
    tools.afterJobs t (j :: js) p =
      let a := tools.runSnippet t j.id j.doc j.snippet p
      let b := tools.afterJobs t js a.2
      (Tally.reduce (.ofStatus a.1) b.1, b.2) := by
  rw [runSnippet_eq_trial]
  simp only [afterJobs, trials, List.map_cons, Tally.sum_cons, List.flatMap_cons, List.append_assoc]

theorem runSnippets_eq_afterJobs (tools : Tools σ) (t : Outline) (id : Nat) (doc : DocComment)
    (ss : List Snippet) (tally : Tally) (p : Progress σ) :
    tools.runSnippets t id doc ss tally p =
      let a := tools.afterJobs t (ss.map fun s => ⟨id, doc, s⟩) p
      (tally.reduce a.1, a.2) := by
  induction ss generalizing tally p with
  | nil => simp [runSnippets]
  | cons s ss ih =>
    rw [runSnippets, List.map_cons, afterJobs_cons]
    simp only [ih, Tally.reduce_assoc]

theorem runComments_eq_afterJobs (tools : Tools σ) (t : Outline) (id : Nat) (docs : List DocComment)
    (tally : Tally) (p : Progress σ) :
    tools.runComments t id docs tally p =
      let js := (docs.flatMap fun doc => ((Snippet.ofComment doc).filter (·.isTest)).map (doc, ·)).map
        fun (doc, s) => (⟨id, doc, s⟩ : Job)
      let a := tools.afterJobs t js p
      (tally.reduce a.1, a.2) := by
  induction docs generalizing tally p with
  | nil => simp [runComments]
  | cons doc docs ih =>
    rw [runComments, runSnippets_eq_afterJobs]
    simp only [ih, List.flatMap_cons, List.map_append, afterJobs_append, Tally.zero_reduce,
      Tally.reduce_assoc, List.map_map]
    rfl

theorem runOwn_eq_afterJobs (tools : Tools σ) (t : Outline) (id : Nat) (p : Progress σ) :
    tools.runComments t id (((t.get? id).map (·.docs)).getD []) .zero p =
      tools.afterJobs t (t.ownJobs id) p := by
  rw [runComments_eq_afterJobs]
  cases h : t.get? id <;> simp [Outline.ownJobs, h, Planned.tests]

/-- Walks that follow each other are one walk through all their jobs. -/
theorem foldl_eq_afterJobs (tools : Tools σ) (t : Outline) (go : Nat → Progress σ → Tally × Progress σ)
    (ids : List Nat) (hgo : ∀ id ∈ ids, ∀ p, go id p = tools.afterJobs t (t.jobs id) p)
    (tally : Tally) (p : Progress σ) :
    ids.foldl (fun a id => (a.1.reduce (go id a.2).1, (go id a.2).2)) (tally, p) =
      let a := tools.afterJobs t (ids.flatMap t.jobs) p
      (tally.reduce a.1, a.2) := by
  induction ids generalizing tally p with
  | nil => simp
  | cons id ids ih =>
    rw [List.foldl_cons, hgo id List.mem_cons_self,
      ih (fun id h => hgo id (List.mem_cons_of_mem _ h)), List.flatMap_cons, afterJobs_append]
    simp only [Tally.reduce_assoc]

/-- A visit deals with exactly the jobs at and below the element. -/
theorem visit_eq_afterJobs (tools : Tools σ) (t : Outline) (id : Nat) (p : Progress σ) :
    tools.visit t id p = tools.afterJobs t (t.jobs id) p := by
  induction id using Outline.jobs.induct (t := t) generalizing p with
  | case1 id ih =>
    have hc := foldl_eq_afterJobs tools t (tools.visit t) (t.childrenOf id)
      (fun c hc p => ih ⟨c, hc⟩ p) (tools.afterJobs t (t.ownJobs id) p).1
      (tools.afterJobs t (t.ownJobs id) p).2
    rw [visit, runOwn_eq_afterJobs, Outline.jobs_eq, afterJobs_append, ← hc]
    exact List.foldl_attach (f := fun (a : Tally × Progress σ) c =>
      (a.1.reduce (tools.visit t c a.2).1, (tools.visit t c a.2).2))

/-- A run deals with the jobs below all roots, then reports their tally. -/
theorem run_eq_afterJobs (tools : Tools σ) (t : Outline) (roots : List Nat) (p : Progress σ) :
    tools.run t roots p =
      let a := tools.afterJobs t (roots.flatMap t.jobs) p
      (a.1, a.2.say (.summary a.1)) := by
  have h := foldl_eq_afterJobs tools t (tools.visit t) roots
    (fun id _ p => visit_eq_afterJobs tools t id p) .zero p
  simp only [Tally.zero_reduce] at h
  exact congrArg (fun a => (a.1, a.2.say (.summary a.1))) h

end Tools

end Doctest
