import HeaderConstants.Emit.Emitter
import HeaderConstants.Generate.Check
import HeaderConstants.Generate.Verify

/-!
# Generation

Headers are resolved, verified if the configuration says so, emitted, and checked if the
configuration says so. The first failure ends the run, and then there is no text.
-/

namespace HeaderConstants
set_option autoImplicit false

structure GeneratedOutput where
  text : Text
  target : Target
  constants : ConstantSet
  report : Option Report
  stats : GenerationStats
  deriving DecidableEq, Repr

namespace GeneratorConfig

open HeaderConstants.Action

def verification (h : Host) (config : GeneratorConfig) (set : ConstantSet) :
    Action (Option Report) :=
  if config.verifySystem then do
    let report ← Verify.all h config.toolchain set.constants
    pure (some report)
  else pure none

def generatedMessage (config : GeneratorConfig) (stats : GenerationStats) : Text :=
  "Generated " ++ Text.decimal stats.constants ++ " " ++ config.target.name ++ " constants from "
    ++ Text.decimal stats.headers ++ " headers (" ++ Text.decimal stats.ignored ++ " ignored, "
    ++ Text.decimal stats.superseded ++ " superseded)"

def generate (h : Host) (config : GeneratorConfig) (sources : List HeaderSource) :
    Action GeneratedOutput := do
  modify (Session.logAll h (config.resolutionLog sources))
  let resolved ← require (config.resolve sources)
  let report ← config.verification h resolved.constants
  let document : Document :=
    ⟨resolved.constants.constants, resolved.headers, report, config.verbose⟩
  let text ← require ((document.emit config).mapError .unresolved)
  if config.compileCheck then Check.run h config text
  let stats :=
    { resolved.stats with verified := (report.map Report.checked).getD resolved.stats.verified }
  log h .info .generation (config.generatedMessage stats)
  pure ⟨text, config.target, resolved.constants, report, stats⟩

def readSources : List Text → Action (List HeaderSource)
  | [] => pure []
  | path :: more => do
    let contents ← readText path
    let sources ← readSources more
    pure (⟨path, contents⟩ :: sources)

def generateFromPaths (h : Host) (config : GeneratorConfig) (paths : List Text) :
    Action GeneratedOutput := do
  let sources ← readSources paths
  config.generate h sources

end GeneratorConfig

end HeaderConstants
