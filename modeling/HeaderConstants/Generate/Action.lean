import HeaderConstants.Generate.Resolve

/-!
# Actions of a run

An action goes from a session to a result or the run's failure, with the session after it. Scratch
files live in one directory that is removed when it is no longer needed and kept when a failure
tells where it is.
-/

namespace HeaderConstants
set_option autoImplicit false

abbrev Action (α : Type) := ExceptT GenerateError (StateM Session) α

namespace Action

variable {α : Type}

def log (h : Host) (level : LogLevel) (topic : LogTopic) (message : Text) : Action Unit :=
  modify (Session.log h ⟨level, topic, message⟩)

def require (r : Except GenerateError α) : Action α :=
  match r with
  | .ok a => pure a
  | .error e => throw e

/-- Runs a command that has to start. -/
def start (h : Host) (name : Text) (c : Command) : Action CommandOutcome := do
  let result ← modifyGet (Session.run h c)
  require (result.mapError (GenerateError.notStarted name))

def readText (path : Text) : Action Text := do
  let s ← get
  require ((s.disk.readText path).mapError (GenerateError.io path))

def write (path : Text) (t : Text) : Action Unit := do
  let s ← get
  let s' ← require ((s.write path t).mapError (GenerateError.io path))
  set s'

def makeScratch (h : Host) : Action Unit :=
  modify fun s => { s with disk := s.disk.makeDirectory h.scratch }

def dropScratch (h : Host) : Action Unit :=
  modify fun s => { s with disk := s.disk.removeTree h.scratch }

/-- Works in the scratch directory. A failure that the work returns keeps the directory; a failure
that it throws does not. -/
def inScratch (h : Host) (work : Action (Except GenerateError α)) : Action α := do
  makeScratch h
  let result ← ExceptT.lift (ExceptT.run work)
  match result with
  | .ok (.ok a) => do
    dropScratch h
    pure a
  | .ok (.error e) => throw e
  | .error e => do
    dropScratch h
    throw e

end Action

end HeaderConstants
