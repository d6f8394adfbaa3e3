import Doctest.Cli.Command

/-! The command line: a command works on the files below the current directory, and what it changes
among them is written back. -/
namespace Doctest

/-- The variables that commands look at. -/
def knownVariables : List String :=
  [Config.classpathVar, Config.compilerVar, Config.sharedCompilerVar, Config.editionVar,
    Config.timeoutVar, Config.workspaceVar, "NO_COLOR", "FORCE_COLOR", "CLICOLOR_FORCE", "TMPDIR",
    "PATH", "HOME"]

def readEnvironment : IO Environment :=
  knownVariables.filterMapM fun name => do
    let value ← IO.getEnv name
    pure (value.map fun v => (name, Bytes.ofString v))

/-- A file is taken to be executable if it names its interpreter. -/
def entryOf (contents : Bytes) : FileEntry :=
  .file contents ((Bytes.ofString "#!").isPrefixOf contents)

def namesOf (path : String) : List Bytes :=
  (Path.ofString path).names

/-- The files below the current directory, but for hidden directories. -/
def readFiles : IO FileTree := do
  let here ← IO.currentDir
  let found ← here.walkDir fun dir => pure (!(dir.fileName.getD "").startsWith ".")
  found.foldlM (fun t path => do
    let names := namesOf path.toString
    if ← path.isDir then pure (t.set names .directory)
    else
      let contents ← IO.FS.readBinFile path
      pure (t.set names (entryOf contents.toList)))
    (FileTree.system (namesOf here.toString) Shell.Program.installed)

def pathOf (names : List Bytes) : String :=
  (Path.mk (Path.slash :: Text.joinWith Path.slash names)).display

/-- Writes an entry that is not as it was. -/
def writeEntry (names : List Bytes) : FileEntry → IO Unit
  | .directory => IO.FS.createDirAll (pathOf names)
  | .device _ => pure ()
  | .file contents isExecutable => do
    IO.FS.writeBinFile (pathOf names) contents.toByteArray
    let rights : IO.FileRight := ⟨⟨true, true, isExecutable⟩, ⟨true, false, isExecutable⟩,
      ⟨true, false, isExecutable⟩⟩
    IO.setAccessRights (pathOf names) rights

/-- Makes the files be as `after` says that were as `before` says. -/
def writeFiles (before after : FileTree) : IO Unit := do
  for (names, entry) in after.entries.reverse do
    if before.at? names ≠ some entry then
      writeEntry names entry
  for (names, entry) in before.entries do
    if (after.at? names).isNone then
      match entry with
      | .directory => IO.FS.removeDirAll (pathOf names)
      | _ => IO.FS.removeFile (pathOf names)

def printAll (printed : List (Cli.Channel × String)) : IO Unit :=
  printed.forM fun
    | (.output, text) => IO.print text
    | (.errors, text) => IO.eprint text

end Doctest

open Doctest in
/-- Runs the command that the arguments name. -/
def main (args : List String) : IO UInt32 := do
  let before ← readFiles
  let answer := (Cli.Command.ofArgs args).run (← readEnvironment) before
  writeFiles before answer.files
  printAll answer.printed
  pure (UInt32.ofNat answer.code)
