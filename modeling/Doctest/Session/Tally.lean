/-! Counts of snippet outcomes. -/
namespace Doctest

/-- A count that stays at its greatest value instead of running over. -/
def saturatingAdd (a b : UInt32) : UInt32 :=
  UInt32.ofNat (min (UInt32.size - 1) (a.toNat + b.toNat))

inductive Status
  | passed | failed | skipped | errored
deriving DecidableEq, Repr

/-- The numbers of snippets by outcome. -/
structure Tally where
  passed : UInt32
  failed : UInt32
  skipped : UInt32
  errored : UInt32
deriving DecidableEq, Repr

namespace Tally

def zero : Tally :=
  ⟨0, 0, 0, 0⟩

def ofStatus : Status → Tally
  | .passed => ⟨1, 0, 0, 0⟩
  | .failed => ⟨0, 1, 0, 0⟩
  | .skipped => ⟨0, 0, 1, 0⟩
  | .errored => ⟨0, 0, 0, 1⟩

def count (t : Tally) : Status → UInt32
  | .passed => t.passed
  | .failed => t.failed
  | .skipped => t.skipped
  | .errored => t.errored

def reduce (s t : Tally) : Tally where
  passed := saturatingAdd s.passed t.passed
  failed := saturatingAdd s.failed t.failed
  skipped := saturatingAdd s.skipped t.skipped
  errored := saturatingAdd s.errored t.errored

def sum (ts : List Tally) : Tally :=
  ts.foldl reduce zero

def total (t : Tally) : UInt32 :=
  saturatingAdd (saturatingAdd (saturatingAdd t.passed t.failed) t.skipped) t.errored

/-- Nothing failed and nothing could not be run. -/
def isSuccess (t : Tally) : Bool :=
  t.failed == 0 && t.errored == 0

def display (t : Tally) : String :=
  "passed: " ++ toString t.passed ++ ", failed: " ++ toString t.failed ++
    ", skipped: " ++ toString t.skipped ++ ", errored: " ++ toString t.errored

def summary (t : Tally) : String :=
  "Tests " ++ t.display

end Tally

@[simp]
theorem toNat_saturatingAdd (a b : UInt32) :
    (saturatingAdd a b).toNat = min (UInt32.size - 1) (a.toNat + b.toNat) := by
  simp only [saturatingAdd, UInt32.toNat_ofNat', UInt32.size]
  omega

end Doctest
