import HeaderConstants.Emit.Document
import HeaderConstants.Header.Parse
import HeaderConstants.Host.Command
import HeaderConstants.Resolve.Resolver

/-!
# Why a generation fails

The first failure of a run: a header line, a constant, a tool or a file. Its causes are told from
the outermost to the innermost.
-/

namespace HeaderConstants
set_option autoImplicit false

inductive GenerateError where
  | header (cause : LocatedError)
  | resolve (cause : ResolveError)
  | unresolved (cause : Unresolved)
  | valueMismatch (name : Text) (expected : UInt64) (directory : Text)
  | toolFailed (tool subject status : Text) (directory : Option Text)
  | notStarted (tool : Text) (cause : IoError)
  | io (path : Text) (cause : IoError)
  deriving DecidableEq, Repr

namespace GenerateError

def keptNote : Option Text → Text
  | some directory => ", files kept in " ++ directory
  | none => []

def message : GenerateError → Text
  | header cause => cause.message
  | resolve cause => cause.message
  | unresolved cause => cause.message
  | valueMismatch name expected directory =>
    "Value for symbol '" ++ name ++ "' differs from system headers: wasn't '"
      ++ HexLiteral.text expected ++ "' (files kept in " ++ directory ++ ")"
  | toolFailed tool subject status directory =>
    tool ++ " failed on " ++ subject ++ " (" ++ status ++ ")" ++ keptNote directory
  | notStarted tool cause => "Failed to run " ++ tool ++ ": " ++ cause.message
  | io path cause => "IO error on " ++ path ++ ": " ++ cause.message

/-- The message and the messages of what lies behind it. -/
def causes (e : GenerateError) : List Text :=
  match e with
  | header located => [e.message, located.cause.message]
  | notStarted _ cause => [e.message, cause.message]
  | io _ cause => [e.message, cause.message]
  | _ => [e.message]

end GenerateError

end HeaderConstants
