import HeaderConstants.Host.Command
import HeaderConstants.Text.Terminal

/-!
# Sessions

What a run changes: the disk and the two streams that it writes. Log lines go to the error stream,
each under its level and topic, the further lines of a message indented, and without the orders to a
terminal that a name or the output of a tool may hold.
-/

namespace HeaderConstants
set_option autoImplicit false

inductive LogLevel where
  | info
  | warn
  deriving DecidableEq, Repr

def LogLevel.name : LogLevel → Text
  | info => "INFO"
  | warn => "WARN"

/-- What a log line is about. -/
inductive LogTopic where
  | definitions
  | selection
  | resolution
  | verification
  | check
  | generation
  | output
  deriving DecidableEq, Repr

def LogTopic.name : LogTopic → Text
  | definitions => "constgen::define"
  | selection => "constgen::filter"
  | resolution => "constgen::resolver"
  | verification => "constgen_codegen::verify"
  | check => "constgen_codegen::check"
  | generation => "constgen_codegen::pipeline"
  | output => "constgen"

structure LogLine where
  level : LogLevel
  topic : LogTopic
  message : Text
  deriving DecidableEq, Repr

/-- A text with every line but the first indented. -/
def Text.hanging (indent t : Text) : Text :=
  t.flatMap fun c => if c = '\n' then c :: indent else [c]

def LogLine.text (l : LogLine) : Text :=
  Text.withoutOrders
    ("[" ++ l.level.name ++ "  " ++ l.topic.name ++ "] " ++ Text.hanging "    " l.message ++ "\n")

structure Session where
  disk : Disk
  stdout : Text
  stderr : Text
  deriving DecidableEq, Repr

namespace Session

def start (d : Disk) : Session := ⟨d, [], []⟩

def log (h : Host) (l : LogLine) (s : Session) : Session :=
  if h.logging then { s with stderr := s.stderr ++ l.text } else s

def logAll (h : Host) (ls : List LogLine) (s : Session) : Session :=
  ls.foldl (fun s l => s.log h l) s

/-- Runs a command; its streams are the caller's. -/
def run (h : Host) (c : Command) (s : Session) : Except IoError CommandOutcome × Session :=
  let (disk, result) := h.run s.disk c
  (result, { s with disk := disk })

/-- Passes the streams of a command on. -/
def passOn (o : CommandOutcome) (s : Session) : Session :=
  { s with
    stdout := s.stdout ++ Text.ofBytesTolerant o.stdout
    stderr := s.stderr ++ Text.ofBytesTolerant o.stderr }

/-- Writes a file, or to a stream of the run if the path stands for one. -/
def write (path t : Text) (s : Session) : Except IoError Session := do
  let disk ← s.disk.write path t.toBytes
  match s.disk.stream? path with
  | some 1 => pure { s with stdout := s.stdout ++ t }
  | some 2 => pure { s with stderr := s.stderr ++ t }
  | _ => pure { s with disk := disk }

end Session

end HeaderConstants
