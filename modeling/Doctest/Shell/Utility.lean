import Doctest.Shell.Editing.Run
import Doctest.Shell.Expression
import Doctest.Shell.Facts
import Doctest.Shell.Filter.Blocks
import Doctest.Shell.Filter.Characters
import Doctest.Shell.Filter.Counts
import Doctest.Shell.Filter.Dump
import Doctest.Shell.Filter.Order
import Doctest.Shell.Filter.Search
import Doctest.Shell.Filter.Series
import Doctest.Shell.Finding

/-! The small programs that scripts call, by their names. -/
namespace Doctest.Shell.Utility

/-- A search for patterns with an option before the others. -/
def grepWith (option : Text) (c : Call) : Option Reply :=
  Filter.grep (c.withArgs (option :: c.args))

/-- The programs that read their input if they are not told what to read. -/
def filters : List (String × (Call → Option Reply)) :=
  [("cat", Filter.cat), ("head", Filter.head), ("tail", Filter.tail), ("tac", Filter.tac),
    ("rev", Filter.rev), ("nl", Filter.nl), ("tr", Filter.tr), ("cut", Filter.cut),
    ("paste", Filter.paste), ("grep", Filter.grep), ("egrep", grepWith ['-', 'E']),
    ("fgrep", grepWith ['-', 'F']), ("sed", Editing.sed), ("wc", Filter.wc), ("sort", Filter.sort),
    ("uniq", Filter.uniq), ("tee", Filter.tee), ("od", Filter.od), ("base64", Filter.base64),
    ("dd", Filter.dd)]

def others : List (String × (Call → Option Reply)) :=
  [("echo", Printing.echo), ("printf", Printing.printf), ("seq", Filter.seq), ("yes", Filter.yes),
    ("expr", Expression.expr), ("basename", FileWork.basename), ("dirname", FileWork.dirname),
    ("chmod", FileWork.chmod), ("mkdir", FileWork.mkdir), ("rmdir", FileWork.rmdir),
    ("rm", FileWork.rm), ("touch", FileWork.touch), ("cp", FileWork.cp), ("mv", FileWork.mv),
    ("ln", FileWork.ln), ("truncate", FileWork.truncate), ("cmp", FileWork.cmp),
    ("mktemp", FileWork.mktemp), ("ls", Listing.ls), ("pwd", Listing.pwd),
    ("readlink", Listing.readlink), ("realpath", Listing.realpath), ("stat", Listing.stat),
    ("find", Finding.find), ("id", Facts.id), ("whoami", Facts.whoami), ("uname", Facts.uname),
    ("arch", Facts.fact "x86_64"), ("hostname", Facts.fact "localhost"), ("nproc", Facts.fact "4"),
    ("tty", Facts.tty), ("sync", Facts.sync), ("printenv", Facts.printenv), ("which", Facts.which),
    ("date", Facts.date), ("true", fun c => some (c.reply [] 0)),
    ("false", fun c => some (c.reply [] 1))]

def find? (name : Text) : Option (Call → Option Reply) :=
  ((filters ++ others).find? fun u => u.1.toList == name).map (·.2)

/-- What a program says if its output cannot be written, and its status then. -/
def writeFailure (name : Text) (e : FileError) : String × Nat :=
  match String.ofList name with
  | "sort" => ("write failed: 'standard output': " ++ e.words, 2)
  | "yes" => ("standard output: " ++ e.words, 1)
  | "sed" => ("couldn't flush stdout: " ++ e.words, 4)
  | "ls" | "grep" => ("write error: " ++ e.words, 2)
  | "env" => ("write error: " ++ e.words, 125)
  | _ => ("write error: " ++ e.words, 1)

def readsInput (name : Text) : Bool :=
  filters.any fun u => u.1.toList == name

end Doctest.Shell.Utility
