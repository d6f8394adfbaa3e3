import Doctest.Shell.Source

/-! Signals: their numbers and names, and what they do to a process. -/
namespace Doctest.Shell.Signal

/-- The numbers of signals, their names, and what is said of a process that one of them has killed. -/
def all : List (Nat × String × String) :=
  [(1, "HUP", "Hangup"), (2, "INT", "Interrupt"), (3, "QUIT", "Quit"),
    (4, "ILL", "Illegal instruction"), (5, "TRAP", "Trace/breakpoint trap"), (6, "ABRT", "Aborted"),
    (7, "BUS", "Bus error"), (8, "FPE", "Floating point exception"), (9, "KILL", "Killed"),
    (10, "USR1", "User defined signal 1"), (11, "SEGV", "Segmentation fault"),
    (12, "USR2", "User defined signal 2"), (13, "PIPE", "Broken pipe"), (14, "ALRM", "Alarm clock"),
    (15, "TERM", "Terminated"), (16, "16", "Stack fault"), (17, "CHLD", "Child exited"),
    (18, "CONT", "Continued"), (19, "STOP", "Stopped (signal)"), (20, "TSTP", "Stopped"),
    (21, "TTIN", "Stopped (tty input)"), (22, "TTOU", "Stopped (tty output)"),
    (23, "URG", "Urgent I/O condition"), (24, "XCPU", "CPU time limit exceeded"),
    (25, "XFSZ", "File size limit exceeded"), (26, "VTALRM", "Virtual timer expired"),
    (27, "PROF", "Profiling timer expired"), (28, "WINCH", "Window changed"), (29, "IO", "I/O possible"),
    (30, "PWR", "Power failure"), (31, "SYS", "Bad system call")]

def kill : Nat := 9

def brokenPipe : Nat := 13

def terminate : Nat := 15

/-- Numbers of signals are less than this. -/
def limit : Nat := 65

/-- The first and the last of the real-time signals. -/
def firstRealTime : Nat := 34

def lastRealTime : Nat := 64

/-- The name of a signal. Those for real time are named by how far they are from the nearer end. -/
def nameOf (n : Nat) : Text :=
  match all.find? fun s => s.1 = n with
  | some (_, name, _) => name.toList
  | none =>
    let distance (start sign : String) (k : Nat) : Text :=
      textOf start ++ if k = 0 then [] else textOf sign ++ digits k
    if n < firstRealTime ∨ lastRealTime < n then digits n
    else if n < firstRealTime + 16 then distance "RTMIN" "+" (n - firstRealTime)
    else distance "RTMAX" "-" (lastRealTime - n)

/-- A signal by its number or its name, in which case does not matter. -/
def ofText? (cs : Text) : Option Nat :=
  match natOf? cs with
  | some n => if n < limit then some n else none
  | none => (List.range limit).find? fun n => nameOf n == cs.map Char.toUpper

/-- What is said of a process that the signal has killed. -/
def description (n : Nat) : String :=
  match all.find? fun s => s.1 = n with
  | some (_, _, words) => words
  | none =>
    if n < firstRealTime then "Unknown signal " ++ toString n
    else "Real-time signal " ++ toString (n - firstRealTime)

/-- What a shell says by itself about a process that the signal has killed. -/
def lament? (n : Nat) : Option String :=
  if n = 2 ∨ n = brokenPipe then none else some (description n)

/-- Signals that change nothing for a process that does not ask for them. -/
def isIgnored (n : Nat) : Bool :=
  [0, 17, 18, 23, 28].contains n

/-- Signals that hold a process up. -/
def isStop (n : Nat) : Bool :=
  [19, 20, 21, 22].contains n

/-- Signals that no process can prepare for. -/
def isFinal (n : Nat) : Bool :=
  n = kill ∨ n = 19

end Doctest.Shell.Signal
