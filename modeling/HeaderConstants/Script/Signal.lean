import HeaderConstants.Numeral.Digits

/-!
# Signals

The numbers and names of the signals that a process can send itself, what a shell says of a process
that a signal has ended, and the signals that end none.
-/

namespace HeaderConstants.Script
set_option autoImplicit false

namespace Signal

/-- Names and descriptions by number, from one on. -/
def table : List (Text × Text) :=
  [("HUP", "Hangup"), ("INT", "Interrupt"), ("QUIT", "Quit"), ("ILL", "Illegal instruction"),
    ("TRAP", "Trace/breakpoint trap"), ("ABRT", "Aborted"), ("BUS", "Bus error"),
    ("FPE", "Floating point exception"), ("KILL", "Killed"), ("USR1", "User defined signal 1"),
    ("SEGV", "Segmentation fault"), ("USR2", "User defined signal 2"), ("PIPE", "Broken pipe"),
    ("ALRM", "Alarm clock"), ("TERM", "Terminated"), ("16", "Stack fault"),
    ("CHLD", "Child exited"), ("CONT", "Continued"), ("STOP", "Stopped (signal)"),
    ("TSTP", "Stopped"), ("TTIN", "Stopped (tty input)"), ("TTOU", "Stopped (tty output)"),
    ("URG", "Urgent I/O condition"), ("XCPU", "CPU time limit exceeded"),
    ("XFSZ", "File size limit exceeded"), ("VTALRM", "Virtual timer expired"),
    ("PROF", "Profiling timer expired"), ("WINCH", "Window changed"), ("IO", "I/O possible"),
    ("PWR", "Power failure"), ("SYS", "Bad system call")]

def description (n : Nat) : Text :=
  match table[n - 1]? with
  | some (_, t) => t
  | none => "Real-time signal " ++ Text.decimal (n - 34)

/-- One more than the last number. -/
def bound : Nat := 65

/-- The name of a signal. Numbers behind the table count from the first or to the last of the
signals that a program may use freely. -/
def name (n : Nat) : Text :=
  match (if n = 0 then none else table[n - 1]?) with
  | some (t, _) => t
  | none =>
    if n < 34 then Text.decimal n
    else if n = 34 then "RTMIN"
    else if n < 50 then "RTMIN+" ++ Text.decimal (n - 34)
    else if n < 64 then "RTMAX-" ++ Text.decimal (64 - n)
    else "RTMAX"

def names : List Text := (List.range bound).map name

def named? (t : Text) : Option Nat :=
  names.findIdx? fun known => known.asciiLower = t.asciiLower

/-- The signal of a number or of a name in any case. -/
def read? (t : Text) : Option Nat :=
  match Numeral.read? 10 t with
  | some n => if n < bound then some n else none
  | none => named? t

/-- Signals that end no process: the one of number zero is none at all, and others are passed over
or only stop a process. -/
def isHarmless (n : Nat) : Bool :=
  n = 0 || n = 17 || n = 18 || (19 ≤ n && n ≤ 22) || n = 23 || n = 28

/-- Signals of which nothing is said. -/
def isQuiet (n : Nat) : Bool := n = 2 || n = 13

end Signal

end HeaderConstants.Script
