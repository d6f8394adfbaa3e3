import Doctest.Files.Path

/-! Why a file cannot be used. -/
namespace Doctest

inductive FileError
  | notFound
  | noDevice
  | badDescriptor
  | alreadyExists
  | permissionDenied
  | badFormat
  | notDirectory
  | isDirectory
  | nameTooLong
  | noSpace
  | notEmpty
  | loop
  | notText
  | nulInPath
  | nulInCommand
deriving DecidableEq, Repr

namespace FileError

def words : FileError → String
  | notFound => "No such file or directory"
  | noDevice => "No such device or address"
  | badDescriptor => "Bad file descriptor"
  | alreadyExists => "File exists"
  | permissionDenied => "Permission denied"
  | badFormat => "Exec format error"
  | notDirectory => "Not a directory"
  | isDirectory => "Is a directory"
  | nameTooLong => "File name too long"
  | noSpace => "No space left on device"
  | notEmpty => "Directory not empty"
  | loop => "Too many levels of symbolic links"
  | notText => "stream did not contain valid UTF-8"
  | nulInPath => "file name contained an unexpected NUL byte"
  | nulInCommand => "nul byte found in provided data"

/-- The number that the system has for an error, if it is one of the system. -/
def number? : FileError → Option Nat
  | notFound => some 2
  | noDevice => some 6
  | badFormat => some 8
  | badDescriptor => some 9
  | permissionDenied => some 13
  | alreadyExists => some 17
  | notDirectory => some 20
  | isDirectory => some 21
  | noSpace => some 28
  | nameTooLong => some 36
  | notEmpty => some 39
  | loop => some 40
  | notText | nulInPath | nulInCommand => none

def message (e : FileError) : String :=
  match e.number? with
  | some n => e.words ++ " (os error " ++ toString n ++ ")"
  | none => e.words

end FileError

/-- A file that could not be read. -/
structure ReadError where
  path : Path
  cause : FileError
deriving DecidableEq, Repr

def ReadError.message (e : ReadError) : String :=
  "cannot read " ++ e.path.display ++ ": " ++ e.cause.message

end Doctest
