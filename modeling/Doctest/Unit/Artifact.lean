import Doctest.Files.Tree

/-! Compiled units: the directories where they are looked for, by the name of the unit. -/
namespace Doctest.Artifact

/-- The directories of libraries, then the one that units are compiled into. -/
def searched (classpath : List Path) (workspace : Path) : List Path :=
  classpath ++ [workspace]

/-- The file of a unit in the first directory that has one. -/
def find? (t : FileTree) (dirs : List Path) (name : String) : Option Path :=
  (dirs.map (·.join (.ofString name))).find? t.isFile

end Doctest.Artifact
