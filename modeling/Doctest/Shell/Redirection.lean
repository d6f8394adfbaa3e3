import Doctest.Shell.Expansion
import Doctest.Shell.Place

/-! Redirections: where the descriptors of a process lead to. -/
namespace Doctest.Shell

namespace Redirect

/-- The descriptor that changes. -/
def descriptor : Redirect → Nat
  | file fd _ _ | duplicate fd _ | here fd _ => fd

/-- What is said of a file that cannot be opened. -/
def refusal (verb missing : String) (path : Text) (e : FileError) : Text :=
  let cause := match e with
    | .notFound | .notDirectory => missing
    | e => e.words
  textOf ("cannot " ++ verb ++ " ") ++ path ++ textOf (": " ++ cause)

/-- The names of a file that is opened, and the files with it. -/
def opened (files : FileTree) (access : Access) (p : Text) : Except FileError (List Bytes × FileTree) := do
  let names ← files.resolve (pathOf p)
  match access, files.at? names with
  | .read, none => .error .notFound
  | .writeNew, some (.file ..) => .error .alreadyExists
  | .read, some (.device .terminal) => .error .noDevice
  | .read, some _ | .readOrMake, some _ => .ok (names, files)
  | access, _ => do pure (names, ← files.write (pathOf p) (access = .append) [])

end Redirect

/-- What is said of a file that cannot be opened in a way. -/
def Access.refusal (access : Access) (path : Text) (e : FileError) : Text :=
  match access, e with
  | .read, _ | .writeNew, .isDirectory => Redirect.refusal "open" "No such file" path e
  | _, _ => Redirect.refusal "create" "Directory nonexistent" path e

/-- What a descriptor will lead to. The text of a here-document is worked out last. -/
inductive Opening
  | file (access : Access) (path : Text)
  | copy (fd : Nat)
  | nowhere
  | text (body : Word)

namespace Act

/-- Works out what a descriptor will lead to. -/
def opening : Redirect → Act Opening
  | .file _ access word => do
    let path ← Word.text word
    let access := if access = .writeNew ∧ !(← get).has 'C' then .overwrite else access
    pure (.file access path)
  | .here _ body => pure (.text body)
  | .duplicate _ word => do
    let fd ← Word.text word
    match natOf? fd, fd.length with
    | some n, 1 => pure (.copy n)
    | _, _ =>
      if fd ≠ ['-'] ∧ (← goesOn) then
        within (·.builtin) (fun builtin m => { m with builtin }) none
          (complainAt (← get).nextLine (textOf "Syntax error: Bad fd number"))
        exit 2
      pure .nowhere

/-- Works out what descriptors will lead to, one after another. -/
def openings : List Redirect → Act (List (Nat × Opening))
  | [] => pure []
  | r :: rs => do
    let t ← opening r
    let ts ← if ← goesOn then openings rs else pure []
    pure ((r.descriptor, t) :: ts)

/-- Lets a descriptor lead to where another one does, and says whether that is possible. -/
def duplicate (fd n : Nat) : Act Bool := do
  let m ← get
  match m.handle? n with
  | some h =>
    set (m.setHandle fd (some h))
    pure true
  | none =>
    if fd ≠ 2 then complain (digits n ++ textOf ": Bad file descriptor")
    pure false

/-- Lets a descriptor lead to a stream of its own. -/
def openAs (fd : Nat) (stream : Stream) (isWriting : Bool) : Act Bool := do
  let n ← addStream stream
  modify fun m => m.setHandle fd (some ⟨n, isWriting⟩)
  pure true

/-- Lets a descriptor lead to a pipe that there is already. -/
def join (fd : Nat) (h : Handle) : Act Bool := do
  modify fun m => m.setHandle fd (some h)
  pure true

def refused (words : Text) : Act Bool := do
  complain words
  pure false

/-- Lets a descriptor lead to where it should, and says whether that is possible. A failure within a
here-document is no more than that of its redirection. -/
def redirect (fd : Nat) : Opening → Act Bool
  | .file access path => do
    let m ← get
    let isWriting := access ≠ .read ∧ access ≠ .readOrMake
    let refuse (e : FileError) : Act Bool := refused (access.refusal path e)
    match m.place path with
    | .pipe n _ => join fd ⟨n, isWriting⟩
    | .nowhere => refuse .notFound
    | .note contents =>
      if isWriting then refuse .permissionDenied
      else openAs fd (.pipe (.ofText contents) []) false
    | .path p =>
      match Redirect.opened m.files access p with
      | .ok (names, files) =>
        set (m.setFiles files)
        openAs fd (.file names 0 (access = .append)) isWriting
      | .error e => refuse e
  | .copy n => duplicate fd n
  | .nowhere => do
    modify fun m => m.setHandle fd none
    pure true
  | .text body => do
    let contents ← Word.body body
    if ← goesOn then openAs fd (.pipe (.ofText contents) []) false
    else
      forgive
      pure false

/-- Makes redirections one after another, and says whether all could be made. -/
def redirectAll : List (Nat × Opening) → Act Bool
  | [] => pure true
  | (fd, t) :: rest => do
    if ← redirect fd t then redirectAll rest else pure false

/-- Runs something while redirections hold. If they cannot be made, the status is two. -/
def withRedirects (rs : List Redirect) (act : Act Unit) : Act Bool := do
  let ts ← openings rs
  if !(← goesOn) then pure false
  else if ts.isEmpty then
    act
    pure true
  else
    let before ← get
    let saved := ts.filterMap fun t => before.handle? t.1
    modify fun m => { m with kept := saved ++ m.kept }
    let isMade ← redirectAll ts
    if isMade then act
    else if ← goesOn then setStatus 2
    modify fun m =>
      { ts.foldl (fun m t => m.setHandle t.1 (before.handle? t.1)) m with kept := before.kept }
    pure isMade

end Act

end Doctest.Shell
