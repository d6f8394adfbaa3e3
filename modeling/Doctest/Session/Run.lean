import Doctest.Session.Outcome
import Doctest.Session.Plan

/-! A run: every test snippet of an outline is compiled, looked up and executed, and what is to be
reported about it comes out in order. -/
namespace Doctest

/-- How units are compiled, found and executed. Each may depend on what was done before. -/
structure Tools (σ : Type) where
  compile : TestUnit → σ → Except UnitError Unit × σ
  resolve : String → σ → Except UnitError Path × σ
  execute : Path → σ → Outcome × σ

/-- A test snippet that is done. A skipped one has no unit, and its unit's name is empty. -/
structure SnippetEvent where
  unit : String
  element : String
  location : String
  status : Status
deriving DecidableEq, Repr

inductive RunReport
  | diagnostic (d : Diagnostic)
  | finished (e : SnippetEvent)
  | summary (t : Tally)
deriving DecidableEq, Repr

/-- A run as far as it has come. -/
structure Progress (σ : Type) where
  reports : List RunReport
  registry : NameRegistry
  tools : σ

namespace Progress

variable {σ : Type}

def start (s : σ) : Progress σ :=
  ⟨[], .empty, s⟩

def say (p : Progress σ) (r : RunReport) : Progress σ :=
  { p with reports := p.reports ++ [r] }

end Progress

namespace Tools

variable {σ : Type}

/-- Compiles a unit, finds what came of it, and executes that. -/
def attempt (tools : Tools σ) (u : TestUnit) (s : σ) : Outcome × σ :=
  match tools.compile u s with
  | (.error e, s) => (.errored e, s)
  | (.ok (), s) =>
    match tools.resolve u.name s with
    | (.error e, s) => (.errored e, s)
    | (.ok program, s) => tools.execute program s

def runSnippet (tools : Tools σ) (t : Outline) (id : Nat) (doc : DocComment) (s : Snippet)
    (p : Progress σ) : Status × Progress σ :=
  let event (unit : String) (status : Status) : RunReport :=
    .finished ⟨unit, t.qualifiedName id, doc.location (s.line - doc.line), status⟩
  if s.isIgnored then (.skipped, p.say (event "" .skipped))
  else
    let (u, registry) := TestUnit.synthesize t id s p.registry
    let (outcome, state) := tools.attempt u p.tools
    let diagnostics := (outcome.diagnostic? doc s u).map fun d => d.locate t id doc s
    let reports := diagnostics.toList.map .diagnostic ++ [event u.name outcome.status]
    (outcome.status, ⟨p.reports ++ reports, registry, state⟩)

/-- Runs the snippets of a comment and counts how they ended. -/
def runSnippets (tools : Tools σ) (t : Outline) (id : Nat) (doc : DocComment) :
    List Snippet → Tally → Progress σ → Tally × Progress σ
  | [], tally, p => (tally, p)
  | s :: rest, tally, p =>
    let (status, p) := tools.runSnippet t id doc s p
    tools.runSnippets t id doc rest (tally.reduce (.ofStatus status)) p

/-- Runs the test snippets of an element's comments. -/
def runComments (tools : Tools σ) (t : Outline) (id : Nat) :
    List DocComment → Tally → Progress σ → Tally × Progress σ
  | [], tally, p => (tally, p)
  | doc :: rest, tally, p =>
    let tests := (Snippet.ofComment doc).filter (·.isTest)
    let (own, p) := tools.runSnippets t id doc tests .zero p
    tools.runComments t id rest (tally.reduce own) p

/-- Runs the snippets of an element, then those of its children. -/
def visit (tools : Tools σ) (t : Outline) (id : Nat) (p : Progress σ) : Tally × Progress σ :=
  let docs := ((t.get? id).map (·.docs)).getD []
  (t.childrenOf id).attach.foldl (fun (tally, p) c =>
      let (below, p) := tools.visit t c.1 p
      (tally.reduce below, p))
    (tools.runComments t id docs .zero p)
termination_by t.size - id
decreasing_by
  have := Outline.lt_of_mem_childrenOf c.2
  have := Outline.lt_size_of_mem_childrenOf c.2
  omega

/-- Runs all snippets below the roots, one root after another, then reports how they ended. -/
def run (tools : Tools σ) (t : Outline) (roots : List Nat) (p : Progress σ) : Tally × Progress σ :=
  let (tally, p) := roots.foldl (fun (tally, p) root =>
      let (below, p) := tools.visit t root p
      (tally.reduce below, p))
    (Tally.zero, p)
  (tally, p.say (.summary tally))

end Tools

namespace RunReport

def diagnostics (rs : List RunReport) : List Diagnostic :=
  rs.filterMap fun | .diagnostic d => some d | _ => none

def events (rs : List RunReport) : List SnippetEvent :=
  rs.filterMap fun | .finished e => some e | _ => none

def summaries (rs : List RunReport) : List Tally :=
  rs.filterMap fun | .summary t => some t | _ => none

end RunReport

end Doctest
