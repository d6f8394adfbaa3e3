import Mathlib.Data.List.Forall2
import Doctest.Proofs.Session.Agreement

/-! A run accounts for every outcome once: in the tally, in an event, and in a diagnostic if the outcome
is a bad one. -/
namespace Doctest

namespace Snippet

/-- No snippet lies before the first line of its text. -/
theorem le_line_of_mem_ofLines {line : Nat} {ls : List (List Char)} {s : Snippet}
    (h : s ∈ ofLines line ls) : line ≤ s.line := by
  fun_induction ofLines line ls with
  | case1 => simp at h
  | case2 line first rest _ ih =>
    have := ih h
    omega
  | case3 line first rest fence _ body after ih =>
    rcases List.mem_cons.mp h with rfl | h
    · exact Nat.le_refl _
    · have := ih h
      omega

end Snippet

namespace Job

/-- The snippet lies in its comment, so the line of its fence can be found from there. -/
def Placed (j : Job) : Prop :=
  j.doc.line ≤ j.snippet.line

theorem placed_of_mem_jobs {t : Outline} {id : Nat} {j : Job} (h : j ∈ t.jobs id) : j.Placed := by
  obtain ⟨e, -, -, hs⟩ := Outline.exists_element_of_mem_jobs h
  exact Snippet.le_line_of_mem_ofLines hs

end Job

/-- The code that stands for the cause of a bad outcome. -/
def Outcome.causeCode : Outcome → Option String
  | .passed => none
  | .failed f => some (if f.timedOut then "D0005" else "D0004")
  | .errored (.compilerNotStarted ..) => some "D0001"
  | .errored (.compilerCutOff ..) => some "D0001"
  | .errored (.notCompiled ..) => some "D0001"
  | .errored (.notFound ..) => some "D0002"
  | .errored (.notStarted ..) => some "D0003"

/-- The diagnostic of an attempt: an error about the element and the place of the event, with the code
of the cause. -/
structure Diagnostic.Explains (d : Diagnostic) (e : SnippetEvent) (o : Outcome) : Prop where
  severity : d.severity = .error
  element : d.element.map (·.path) = some e.element
  location : d.location.map (·.display) = some e.location
  code : d.code = o.causeCode

/-- An outcome that a diagnostic is due for. -/
def Status.isBad (st : Status) : Bool :=
  st = .failed || st = .errored

namespace Diagnostic

@[simp]
theorem severity_withOutput (d : Diagnostic) (output : String) :
    (d.withOutput output).severity = d.severity := by
  unfold withOutput
  split <;> rfl

@[simp]
theorem code_withOutput (d : Diagnostic) (output : String) :
    (d.withOutput output).code = d.code := by
  unfold withOutput
  split <;> rfl

theorem severity_locate (d : Diagnostic) (t : Outline) (id : Nat) (doc : DocComment) (s : Snippet) :
    (d.locate t id doc s).severity = d.severity := by
  unfold locate
  dsimp only
  split <;> rfl

theorem code_locate (d : Diagnostic) (t : Outline) (id : Nat) (doc : DocComment) (s : Snippet) :
    (d.locate t id doc s).code = d.code := by
  unfold locate
  dsimp only
  split <;> rfl

theorem element_locate (d : Diagnostic) (t : Outline) (id : Nat) (doc : DocComment) (s : Snippet) :
    (d.locate t id doc s).element.map (·.path) = some (t.qualifiedName id) := by
  unfold locate
  dsimp only
  split <;> rfl

theorem location_locate (d : Diagnostic) (t : Outline) (id : Nat) (doc : DocComment) (s : Snippet) :
    (d.locate t id doc s).location = some ⟨doc.file, s.line⟩ := by
  unfold locate
  dsimp only
  split <;> rfl

end Diagnostic

/-- A line of a comment is shown as the same place in an event and in a diagnostic. -/
theorem DocComment.location_sub (doc : DocComment) {line : Nat} (h : doc.line ≤ line) :
    doc.location (line - doc.line) = (Location.mk doc.file line).display := by
  rw [location, Nat.add_sub_of_le h]
  rfl

namespace Outcome

theorem isSome_diagnostic? (doc : DocComment) (s : Snippet) (u : TestUnit) (o : Outcome) :
    (o.diagnostic? doc s u).isSome = o.status.isBad := by
  cases o <;> rfl

theorem severity_diagnostic {doc : DocComment} {s : Snippet} {u : TestUnit} {o : Outcome}
    {d : Diagnostic} (h : o.diagnostic? doc s u = some d) : d.severity = .error := by
  cases o with
  | passed => simp [diagnostic?] at h
  | failed f =>
    obtain rfl := Option.some.inj h
    simp [ofFailure, Diagnostic.withNote, Diagnostic.withCode, Diagnostic.bare]
  | errored e =>
    obtain rfl := Option.some.inj h
    cases e <;> simp [ofError, Diagnostic.withNote, Diagnostic.withNotes, Diagnostic.withHelp,
      Diagnostic.withCode, Diagnostic.bare]

theorem code_diagnostic {doc : DocComment} {s : Snippet} {u : TestUnit} {o : Outcome}
    {d : Diagnostic} (h : o.diagnostic? doc s u = some d) : d.code = o.causeCode := by
  cases o with
  | passed => simp [diagnostic?] at h
  | failed f =>
    obtain rfl := Option.some.inj h
    cases ht : f.timedOut <;>
      simp [ofFailure, ht, causeCode, Code.spelling, Diagnostic.withNote, Diagnostic.withCode]
  | errored e =>
    obtain rfl := Option.some.inj h
    cases e <;> simp [ofError, causeCode, Code.spelling, Diagnostic.withNote, Diagnostic.withNotes,
      Diagnostic.withHelp, Diagnostic.withCode]

end Outcome

namespace Trial

/-- The event of a trial with the outcome of its attempt, if there was one. -/
def attempt? (t : Outline) (x : Trial) : Option (SnippetEvent × Outcome) :=
  x.outcome?.map (x.event t, ·)

theorem isSome_outcome? (t : Outline) (x : Trial) :
    x.outcome?.isSome = decide ((x.event t).status ≠ .skipped) := by
  cases h : x.made with
  | none => simp [outcome?, event, status, h]
  | some made => simp [outcome?, event, status, h, made.2.status_ne_skipped]

theorem status_of_attempt? {t : Outline} {x : Trial} {a : SnippetEvent × Outcome}
    (h : x.attempt? t = some a) : a.1.status = x.status ∧ a.2.status = x.status := by
  obtain ⟨o, ho, rfl⟩ := Option.map_eq_some_iff.mp h
  obtain ⟨made, hm, rfl⟩ := Option.map_eq_some_iff.mp ho
  exact ⟨rfl, by simp [status, hm]⟩

/-- The events that are not about skipped snippets are those of the attempts. -/
theorem map_fst_attempts (t : Outline) (xs : List Trial) :
    (xs.filterMap (attempt? t)).map Prod.fst =
      (xs.map (event t)).filter (·.status ≠ .skipped) := by
  induction xs with
  | nil => rfl
  | cons x xs ih =>
    have hs := x.isSome_outcome? t
    rw [List.map_cons]
    cases ho : x.outcome? with
    | none =>
      rw [ho] at hs
      rw [List.filter_cons_of_neg (by simpa using hs.symm),
        List.filterMap_cons_none (by simp [attempt?, ho]), ih]
    | some o =>
      rw [ho] at hs
      have ha : x.attempt? t = some (x.event t, o) := by rw [attempt?, ho, Option.map_some]
      rw [List.filter_cons_of_pos (by simpa using hs.symm), List.filterMap_cons_some ha,
        List.map_cons, ih]

theorem map_snd_attempts (t : Outline) (xs : List Trial) :
    (xs.filterMap (attempt? t)).map Prod.snd = xs.filterMap outcome? := by
  rw [List.map_filterMap]
  refine congrArg (List.filterMap · xs) (funext fun x => ?_)
  cases h : x.outcome? <;> simp [attempt?, h]

theorem zip_outcomes (t : Outline) (xs : List Trial) :
    ((xs.map (event t)).filter (·.status ≠ .skipped)).zip (xs.filterMap outcome?) =
      xs.filterMap (attempt? t) :=
  (List.zip_of_prod (map_fst_attempts t xs) (map_snd_attempts t xs)).symm

theorem map_status_outcomes (t : Outline) (xs : List Trial) :
    ((xs.map (event t)).filter (·.status ≠ .skipped)).map (·.status) =
      (xs.filterMap outcome?).map Outcome.status := by
  rw [← map_fst_attempts, ← map_snd_attempts t, List.map_map, List.map_map]
  refine List.map_congr_left fun a ha => ?_
  obtain ⟨x, -, ha⟩ := List.mem_filterMap.mp ha
  obtain ⟨he, ho⟩ := status_of_attempt? ha
  exact he.trans ho.symm

theorem isSome_diagnostic? (t : Outline) (x : Trial) :
    (x.diagnostic? t).isSome = x.status.isBad := by
  cases h : x.made with
  | none => simp [diagnostic?, status, h, Status.isBad]
  | some made => simp [diagnostic?, status, h, Outcome.isSome_diagnostic?]

/-- The diagnostic of a bad attempt says what happened and where. -/
theorem explains_of_diagnostic? {t : Outline} {x : Trial} (hx : x.job.Placed) {d : Diagnostic}
    (hd : x.diagnostic? t = some d) {a : SnippetEvent × Outcome} (ha : x.attempt? t = some a) :
    d.Explains a.1 a.2 := by
  obtain ⟨o, ho, rfl⟩ := Option.map_eq_some_iff.mp ha
  obtain ⟨made, hm, rfl⟩ := Option.map_eq_some_iff.mp ho
  simp only [diagnostic?, hm, Option.bind_some] at hd
  obtain ⟨bare, hb, rfl⟩ := Option.map_eq_some_iff.mp hd
  exact {
    severity := (bare.severity_locate ..).trans (Outcome.severity_diagnostic hb)
    element := bare.element_locate ..
    location := by
      rw [bare.location_locate, Option.map_some, event, DocComment.location_sub _ hx]
    code := (bare.code_locate ..).trans (Outcome.code_diagnostic hb) }

theorem forall₂_explains (t : Outline) (xs : List Trial) (hxs : ∀ x ∈ xs, x.job.Placed) :
    List.Forall₂ (fun d a => d.Explains a.1 a.2) (xs.filterMap (diagnostic? t))
      ((xs.filterMap (attempt? t)).filter (·.1.status.isBad)) := by
  induction xs with
  | nil => exact .nil
  | cons x xs ih =>
    have ih := ih fun y hy => hxs y (List.mem_cons_of_mem _ hy)
    have hs := x.isSome_diagnostic? t
    cases ha : x.attempt? t with
    | none =>
      have hm : x.made = none := by
        cases h : x.made <;> simp_all [attempt?, outcome?]
      rw [List.filterMap_cons_none ha, List.filterMap_cons_none (by simp [diagnostic?, hm])]
      exact ih
    | some a =>
      have he : a.1.status = x.status := (status_of_attempt? ha).1
      rw [List.filterMap_cons_some ha]
      cases hd : x.diagnostic? t with
      | none =>
        rw [List.filterMap_cons_none hd, List.filter_cons_of_neg (by simp [he, ← hs, hd])]
        exact ih
      | some d =>
        rw [List.filterMap_cons_some hd, List.filter_cons_of_pos (by simp [he, ← hs, hd])]
        exact .cons (explains_of_diagnostic? (hxs x List.mem_cons_self) hd ha) ih

end Trial

namespace Tools

variable {σ : Type}

theorem job_trial (tools : Tools σ) (t : Outline) (j : Job) (r : NameRegistry) (s : σ) :
    (tools.trial t j r s).1.job = j := by
  unfold trial
  split <;> rfl

/-- Every job gets one trial. -/
theorem map_job_trials (tools : Tools σ) (t : Outline) (js : List Job) (r : NameRegistry) (s : σ) :
    (tools.trials t js r s).1.map (·.job) = js := by
  induction js generalizing r s with
  | nil => rfl
  | cons j js ih => simp only [trials, List.map_cons, ih, job_trial]

theorem placed_of_mem_runTrials (tools : Tools σ) (t : Outline) (roots : List Nat) (p : Progress σ)
    {x : Trial} (hx : x ∈ tools.runTrials t roots p) : x.job.Placed := by
  have hj := List.mem_map_of_mem (f := Trial.job) hx
  rw [runTrials, map_job_trials] at hj
  obtain ⟨root, -, hj⟩ := List.mem_flatMap.mp hj
  exact Job.placed_of_mem_jobs hj

/-- A run of any tools, from any names that were given out before. Each bucket of the tally is the number
of events with that status as far as it can be counted, the attempts ended as their events say, the
diagnostics explain the bad attempts in their order, and the summary of the tally comes last and once. -/
theorem run_accounts_for_outcomes (tools : Tools σ) (t : Outline) (roots : List Nat)
    (r : NameRegistry) (s : σ) :
    let x := tools.run t roots ⟨[], r, s⟩
    let events := RunReport.events x.2.reports
    let attempted := events.filter (·.status ≠ .skipped)
    let outcomes := Answer.outcomes (tools.answers t roots ⟨[], r, s⟩)
    (∀ st, (x.1.count st).toNat = min (UInt32.size - 1) (events.countP (·.status = st))) ∧
      attempted.map (·.status) = outcomes.map Outcome.status ∧
      List.Forall₂ (fun d a => d.Explains a.1 a.2) (RunReport.diagnostics x.2.reports)
        ((attempted.zip outcomes).filter fun a => a.1.status = .failed ∨ a.1.status = .errored) ∧
      ∃ before, x.2.reports = before ++ [.summary x.1] ∧ RunReport.summaries before = [] := by
  intro x events attempted outcomes
  let xs := tools.runTrials t roots ⟨[], r, s⟩
  obtain ⟨htally, hreports⟩ := tools.run_eq_runTrials t roots ⟨[], r, s⟩
  rw [List.nil_append] at hreports
  have hevents : events = xs.map (Trial.event t) := by
    show RunReport.events x.2.reports = _
    rw [hreports, RunReport.events, List.filterMap_append, ← RunReport.events,
      Trial.events_flatMap_reports]
    simp [xs]
  have hdiagnostics : RunReport.diagnostics x.2.reports = xs.filterMap (Trial.diagnostic? t) := by
    rw [hreports, RunReport.diagnostics, List.filterMap_append, ← RunReport.diagnostics,
      Trial.diagnostics_flatMap_reports]
    simp [xs]
  have houtcomes : outcomes = xs.filterMap Trial.outcome? :=
    (tools.run_recorded t roots ⟨[], r, s⟩).2.2
  refine ⟨fun st => ?_, ?_, ?_, xs.flatMap (Trial.reports t), hreports,
    Trial.summaries_flatMap_reports t xs⟩
  · have hs := Tally.toNat_count_sum_ofStatus (xs.map (·.status)) st
    rw [List.map_map] at hs
    rw [hevents, htally]
    refine hs.trans (congrArg (min _) ?_)
    rw [List.count, List.countP_map, List.countP_map]
    rfl
  · simp only [attempted, hevents, houtcomes]
    exact Trial.map_status_outcomes t xs
  · simp only [attempted, hevents, houtcomes, hdiagnostics, Trial.zip_outcomes]
    have h := Trial.forall₂_explains t xs fun x hx => tools.placed_of_mem_runTrials t roots _ hx
    simpa [Status.isBad] using h

end Tools

end Doctest
