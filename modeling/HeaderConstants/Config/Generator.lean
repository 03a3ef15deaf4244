import HeaderConstants.Config.Target
import HeaderConstants.Constant.Allowlist
import HeaderConstants.Json.Fields
import HeaderConstants.Resolve.Resolver

/-!
# Configuration

What a generation run needs to know, with the values that hold where nothing is said, and its
reading from JSON: fields that are missing at the top or among the tools keep their standard values,
while the allowlist and the resolver have to be given whole.
-/

namespace HeaderConstants
set_option autoImplicit false

open Json (Tree Fields)

/-- The commands that are run for compiling and checking. -/
structure Toolchain where
  cc : Text
  pkgConfig : Text
  javac : Text
  rustc : Text
  deriving DecidableEq, Repr

def Toolchain.standard : Toolchain := ⟨"cc", "pkg-config", "javac", "rustc"⟩

structure GeneratorConfig where
  target : Target
  verbose : Bool
  verifySystem : Bool
  compileCheck : Bool
  javaPackage : Text
  typeName : Text
  allowlist : Allowlist
  resolver : ResolverConfig
  toolchain : Toolchain
  deriving DecidableEq, Repr

def GeneratorConfig.standard : GeneratorConfig :=
  ⟨.java, false, false, true, "org.mozilla.jss.pkcs11", "PKCS11Constants", .pkcs11, .standard,
    .standard⟩

/-! ## Reading -/

/-- A target is given by its name, or as an object with its name as the only key and null. -/
def Target.ofTree? : Tree → Option Target
  | .string t => do
    let name ← t
    ofName? name
  | .object [(key, .null)] => do
    let name ← key
    ofName? name
  | _ => none

def Allowlist.ofTree? (t : Tree) : Option Allowlist := do
  let f ← Fields.of? ["prefixes"] t
  let starts ← f.required "prefixes" (Tree.list? Tree.text?)
  pure ⟨starts⟩

def ResolverConfig.ofTree? (t : Tree) : Option ResolverConfig := do
  let f ← Fields.of? ["max_passes", "parallel"] t
  let maxPasses ← f.optional "max_passes" Tree.size?
  let parallel ← f.required "parallel" Tree.bool?
  pure ⟨maxPasses, parallel⟩

def Toolchain.ofTree? (t : Tree) : Option Toolchain := do
  let f ← Fields.of? ["cc", "pkg_config", "javac", "rustc"] t
  let cc ← f.orDefault "cc" Tree.text? standard.cc
  let pkgConfig ← f.orDefault "pkg_config" Tree.text? standard.pkgConfig
  let javac ← f.orDefault "javac" Tree.text? standard.javac
  let rustc ← f.orDefault "rustc" Tree.text? standard.rustc
  pure ⟨cc, pkgConfig, javac, rustc⟩

namespace GeneratorConfig

def fieldNames : List Text :=
  ["target", "verbose", "verify_system", "compile_check", "java_package", "type_name", "allowlist",
    "resolver", "toolchain"]

def ofTree? (t : Tree) : Option GeneratorConfig := do
  let f ← Fields.of? fieldNames t
  let target ← f.orDefault "target" Target.ofTree? standard.target
  let verbose ← f.orDefault "verbose" Tree.bool? standard.verbose
  let verifySystem ← f.orDefault "verify_system" Tree.bool? standard.verifySystem
  let compileCheck ← f.orDefault "compile_check" Tree.bool? standard.compileCheck
  let javaPackage ← f.orDefault "java_package" Tree.text? standard.javaPackage
  let typeName ← f.orDefault "type_name" Tree.text? standard.typeName
  let allowlist ← f.orDefault "allowlist" Allowlist.ofTree? standard.allowlist
  let resolver ← f.orDefault "resolver" ResolverConfig.ofTree? standard.resolver
  let toolchain ← f.orDefault "toolchain" Toolchain.ofTree? standard.toolchain
  pure ⟨target, verbose, verifySystem, compileCheck, javaPackage, typeName, allowlist, resolver,
    toolchain⟩

def ofText? (t : Text) : Option GeneratorConfig := do
  let tree ← Tree.ofText? t
  ofTree? tree

end GeneratorConfig

end HeaderConstants
