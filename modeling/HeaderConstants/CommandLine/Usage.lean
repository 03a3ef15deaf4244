import HeaderConstants.CommandLine.Options

/-!
# Usage

What the command line tells about itself.
-/

namespace HeaderConstants.Options
set_option autoImplicit false

def programName : Text := "constgen"

def versionLine : Text := programName ++ " 0.1.0\n"

def usageLine : Text :=
  "Usage: " ++ programName ++ " [OPTIONS] --pkcs11t <PATH> --pkcs11n <PATH> --output <PATH>\n"

def valueName : OptionName → Text
  | .target => " <TARGET>"
  | .package | .typeName => " <NAME>"
  | name => if name.takesValue then " <PATH>" else ""

def optionLine (name : OptionName) : Text :=
  (match name.short? with
    | some c => "  -" ++ [c] ++ ", "
    | none => "      ")
    ++ "--" ++ name.long ++ valueName name ++ "\n"

def helpText : Text :=
  "Generate PKCS#11 constant definitions from NSS's pkcs11t.h and pkcs11n.h\n\n" ++ usageLine
    ++ "\nOptions:\n" ++ OptionName.all.flatMap optionLine

def description : OptionName → Text
  | .version => versionLine
  | _ => helpText

end HeaderConstants.Options
