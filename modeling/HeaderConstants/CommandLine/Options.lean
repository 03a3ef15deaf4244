import HeaderConstants.Config.Generator

/-!
# Command-line options

Options have long names and some of them one-letter names. A value is written after `=`, as the next
argument, or right behind a one-letter name; one-letter flags may be joined. Every option may stand
once, nothing but options is accepted, and the two headers and the output have to be given.

* `Options.parse`: the options of a list of arguments;
* `Options.apply`: the configuration that they change.
-/

namespace HeaderConstants
set_option autoImplicit false

structure Options where
  pkcs11t : Text
  pkcs11n : Text
  output : Text
  system : Bool
  verbose : Bool
  target : Option Target
  package : Option Text
  typeName : Option Text
  noCompileCheck : Bool
  parallel : Bool
  config : Option Text
  deriving DecidableEq, Repr

inductive OptionName where
  | pkcs11t
  | pkcs11n
  | output
  | system
  | verbose
  | target
  | package
  | typeName
  | noCompileCheck
  | parallel
  | config
  | help
  | version
  deriving DecidableEq, Repr

namespace OptionName

def all : List OptionName :=
  [pkcs11t, pkcs11n, output, system, verbose, target, package, typeName, noCompileCheck, parallel,
    config, help, version]

def long : OptionName → Text
  | pkcs11t => "pkcs11t"
  | pkcs11n => "pkcs11n"
  | output => "output"
  | system => "system"
  | verbose => "verbose"
  | target => "target"
  | package => "package"
  | typeName => "type-name"
  | noCompileCheck => "no-compile-check"
  | parallel => "parallel"
  | config => "config"
  | help => "help"
  | version => "version"

def short? : OptionName → Option Char
  | output => some 'o'
  | system => some 's'
  | verbose => some 'v'
  | help => some 'h'
  | version => some 'V'
  | _ => none

def takesValue : OptionName → Bool
  | pkcs11t | pkcs11n | output | target | package | typeName | config => true
  | _ => false

/-- Paths may not be empty, and a target is one of the exact names. -/
def acceptsValue : OptionName → Text → Bool
  | target, t => (Target.ofName? t).isSome
  | package, _ => true
  | typeName, _ => true
  | _, t => !t.isEmpty

def ofLong? (t : Text) : Option OptionName := all.find? (fun name => name.long = t)

def ofShort? (c : Char) : Option OptionName := all.find? (fun name => name.short? = some c)

end OptionName

namespace Options

/-- What an argument list asks for. -/
inductive Request where
  | run (options : Options)
  | describe (name : OptionName)
  | misuse
  deriving DecidableEq, Repr

/-- Why reading stopped before the end: the usage is to be told, or the arguments are wrong. -/
inductive Stop where
  | describe (name : OptionName)
  | misuse
  deriving DecidableEq, Repr

/-- The options so far, with their values, and an option whose value is due. -/
structure Progress where
  given : List (OptionName × Text)
  due : Option OptionName
  deriving DecidableEq, Repr

namespace Progress

def give (p : Progress) (name : OptionName) (value : Text) : Except Stop Progress :=
  if p.given.any (fun g => g.1 = name) || (name.takesValue && !name.acceptsValue value) then
    .error .misuse
  else .ok ⟨p.given ++ [(name, value)], none⟩

/-- An option without a value, where none is due. -/
def flag (p : Progress) (name : OptionName) : Except Stop Progress :=
  if p.due.isSome then .error .misuse
  else
    match name with
    | .help => .error (.describe .help)
    | .version => .error (.describe .version)
    | name => p.give name []

/-- An option that takes a value, with the value if it is attached. -/
def valued (p : Progress) (name : OptionName) (value : Option Text) : Except Stop Progress :=
  if p.due.isSome then .error .misuse
  else
    match value with
    | some v => p.give name v
    | none => .ok ⟨p.given, some name⟩

def long (p : Progress) (t : Text) : Except Stop Progress :=
  let name := t.takeWhile (· ≠ '=')
  let rest := t.dropWhile (· ≠ '=')
  let value := if rest.isEmpty then none else some (rest.drop 1)
  match OptionName.ofLong? name with
  | none => .error .misuse
  | some name =>
    if name.takesValue then p.valued name value
    else if value.isSome then .error .misuse
    else p.flag name

def withoutEquals : Text → Text
  | '=' :: value => value
  | value => value

/-- One-letter names that stand together; the first that takes a value takes the rest for it. -/
def short (p : Progress) : Text → Except Stop Progress
  | [] => .ok p
  | c :: rest =>
    match OptionName.ofShort? c with
    | none => .error .misuse
    | some name =>
      if name.takesValue then
        p.valued name (if rest.isEmpty then none else some (withoutEquals rest))
      else do
        let p' ← p.flag name
        p'.short rest

def plain (p : Progress) (value : Text) : Except Stop Progress :=
  match p.due with
  | some name => p.give name value
  | none => .error .misuse

/-- Nothing may follow a bare double dash. -/
def arguments (p : Progress) : List Text → Except Stop Progress
  | [] => .ok p
  | ['-', '-'] :: more => if more.isEmpty then .ok p else .error .misuse
  | ('-' :: '-' :: name) :: more => do
    let p' ← p.long name
    p'.arguments more
  | ('-' :: c :: names) :: more => do
    let p' ← p.short (c :: names)
    p'.arguments more
  | value :: more => do
    let p' ← p.plain value
    p'.arguments more

def value? (p : Progress) (name : OptionName) : Option Text :=
  (p.given.find? (fun g => g.1 = name)).map Prod.snd

def has (p : Progress) (name : OptionName) : Bool := (p.value? name).isSome

def options? (p : Progress) : Option Options :=
  if p.due.isSome then none
  else do
    let pkcs11t ← p.value? .pkcs11t
    let pkcs11n ← p.value? .pkcs11n
    let output ← p.value? .output
    pure
      { pkcs11t := pkcs11t
        pkcs11n := pkcs11n
        output := output
        system := p.has .system
        verbose := p.has .verbose
        target := (p.value? .target).bind Target.ofName?
        package := p.value? .package
        typeName := p.value? .typeName
        noCompileCheck := p.has .noCompileCheck
        parallel := p.has .parallel
        config := p.value? .config }

end Progress

def parse (arguments : List Text) : Request :=
  match Progress.arguments ⟨[], none⟩ arguments with
  | .error (.describe name) => .describe name
  | .error .misuse => .misuse
  | .ok p =>
    match p.options? with
    | some options => .run options
    | none => .misuse

def apply (o : Options) (config : GeneratorConfig) : GeneratorConfig :=
  { config with
    target := o.target.getD config.target
    javaPackage := o.package.getD config.javaPackage
    typeName := o.typeName.getD config.typeName
    verbose := config.verbose || o.verbose
    verifySystem := config.verifySystem || o.system
    resolver := { config.resolver with parallel := config.resolver.parallel || o.parallel }
    compileCheck := config.compileCheck && !o.noCompileCheck }

end Options

end HeaderConstants
