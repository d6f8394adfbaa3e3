/-! Distinct names for test units. -/
namespace Doctest

/-- The base names that have been registered and the names that were issued for them, latest first. -/
structure NameRegistry where
  bases : List String
  issued : List String
deriving DecidableEq, Repr

namespace NameRegistry

def empty : NameRegistry :=
  ⟨[], []⟩

/-- How often a base name has been registered. -/
def count (r : NameRegistry) (base : String) : Nat :=
  r.bases.count base

def suffixed (base : String) : Nat → String
  | 0 => base
  | n + 1 => base ++ "_" ++ toString (n + 1)

/-- The first name that has not been issued among the base name with rising suffixes. The first time
the suffix is none, and later the search starts at the number of earlier registrations. -/
def fresh (r : NameRegistry) (base : String) : String :=
  let candidates := (List.range' (r.count base) (r.issued.length + 1)).map (suffixed base)
  (candidates.find? fun name => !r.issued.contains name).getD base

def register (r : NameRegistry) (base : String) : String × NameRegistry :=
  let name := r.fresh base
  (name, ⟨base :: r.bases, name :: r.issued⟩)

end NameRegistry

end Doctest
