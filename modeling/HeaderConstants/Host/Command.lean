import HeaderConstants.Host.Disk

/-!
# Commands

A command is a program with its arguments. A host runs it on a disk: the command may change the
disk, and it may fail to start or end with a status and two streams of bytes. What the programs do
is up to the host.
-/

namespace HeaderConstants
set_option autoImplicit false

structure Command where
  program : Text
  arguments : List Text
  deriving DecidableEq, Repr

inductive ExitStatus where
  | exited (code : Nat)
  | signalled (number : Nat)
  deriving DecidableEq, Repr

namespace ExitStatus

def isSuccess : ExitStatus → Bool
  | exited code => code = 0
  | signalled _ => false

def signalName : Nat → Text
  | 1 => " (SIGHUP)"
  | 2 => " (SIGINT)"
  | 3 => " (SIGQUIT)"
  | 4 => " (SIGILL)"
  | 5 => " (SIGTRAP)"
  | 6 => " (SIGABRT)"
  | 7 => " (SIGBUS)"
  | 8 => " (SIGFPE)"
  | 9 => " (SIGKILL)"
  | 10 => " (SIGUSR1)"
  | 11 => " (SIGSEGV)"
  | 12 => " (SIGUSR2)"
  | 13 => " (SIGPIPE)"
  | 14 => " (SIGALRM)"
  | 15 => " (SIGTERM)"
  | 16 => " (SIGSTKFLT)"
  | 17 => " (SIGCHLD)"
  | 18 => " (SIGCONT)"
  | 19 => " (SIGSTOP)"
  | 20 => " (SIGTSTP)"
  | 21 => " (SIGTTIN)"
  | 22 => " (SIGTTOU)"
  | 23 => " (SIGURG)"
  | 24 => " (SIGXCPU)"
  | 25 => " (SIGXFSZ)"
  | 26 => " (SIGVTALRM)"
  | 27 => " (SIGPROF)"
  | 28 => " (SIGWINCH)"
  | 29 => " (SIGIO)"
  | 30 => " (SIGPWR)"
  | 31 => " (SIGSYS)"
  | _ => ""

def message : ExitStatus → Text
  | exited code => "exit status: " ++ Text.decimal code
  | signalled number => "signal: " ++ Text.decimal number ++ signalName number

end ExitStatus

structure CommandOutcome where
  status : ExitStatus
  stdout : Bytes
  stderr : Bytes
  deriving DecidableEq, Repr

/-- Where a run takes place: what its commands do, the path of its scratch directory, and whether it
logs. -/
structure Host where
  run : Disk → Command → Disk × Except IoError CommandOutcome
  scratch : Text
  logging : Bool

/-- A host without programs. -/
def Host.bare : Host := ⟨fun d _ => (d, .error .notFound), "<dir>", false⟩

end HeaderConstants
