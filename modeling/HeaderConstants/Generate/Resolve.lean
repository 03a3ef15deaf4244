import HeaderConstants.Config.Generator
import HeaderConstants.Generate.Error
import HeaderConstants.Host.Session

/-!
# From headers to resolved constants

The definitions of all headers, in order, go through the allowlist and are resolved together.
Nothing here depends on a host.

* `GeneratorConfig.resolve`: the constants with the headers' copyright texts and the counts;
* `GeneratorConfig.resolutionLog`: what the run has to tell, up to its failure.
-/

namespace HeaderConstants
set_option autoImplicit false

structure HeaderSource where
  fileName : Text
  contents : Text
  deriving DecidableEq, Repr

structure GenerationStats where
  headers : Nat
  definitions : Nat
  constants : Nat
  ignored : Nat
  superseded : Nat
  substitutions : Nat
  maxPasses : Nat
  verified : Nat
  deriving DecidableEq, Repr

structure ResolvedConstants where
  constants : ConstantSet
  headers : List HeaderCopyright
  stats : GenerationStats
  deriving DecidableEq, Repr

namespace GeneratorConfig

def parseHeaders (sources : List HeaderSource) : Except LocatedError (List Header) :=
  sources.mapM fun source => Header.parse source.fileName source.contents

def definitions (headers : List Header) : List Constant := headers.flatMap Header.constants

def select (config : GeneratorConfig) (headers : List Header) : Selection × ConstantSet :=
  (Selection.new config.allowlist).select (definitions headers)

def runResolver (config : GeneratorConfig) (set : ConstantSet) : ResolverRun :=
  (Resolver.new config.resolver).run set.constants

def resolveHeaders (config : GeneratorConfig) (headers : List Header) :
    Except ResolveError ResolvedConstants :=
  let (selection, set) := config.select headers
  let run := config.runResolver set
  match run.failure with
  | some e => .error e
  | none =>
    .ok
      { constants := ⟨run.constants⟩
        headers := headers.map fun h => ⟨h.fileName, h.copyright⟩
        stats :=
          { headers := headers.length
            definitions := (definitions headers).length
            constants := set.size
            ignored := selection.stats.ignored
            superseded := selection.stats.superseded
            substitutions := run.stats.substitutions
            maxPasses := run.stats.maxPasses
            verified := 0 } }

def resolve (config : GeneratorConfig) (sources : List HeaderSource) :
    Except GenerateError ResolvedConstants := do
  let headers ← (parseHeaders sources).mapError .header
  (config.resolveHeaders headers).mapError .resolve

/-! ## What the run tells -/

def parsedLine (h : Header) : LogLine :=
  ⟨.info, .definitions,
    "Parsed " ++ Text.decimal h.constants.length ++ " definitions from " ++ h.fileName⟩

def ignoredLine (c : Constant) : LogLine :=
  ⟨.info, .selection, "Symbol ignored due to unmatched prefix: " ++ c.name⟩

def resolvedLine (stats : ResolutionStats) : LogLine :=
  ⟨.info, .resolution, "Resolved " ++ Text.decimal stats.resolved ++ " constants ("
    ++ Text.decimal stats.substitutions ++ " substitutions, at most "
    ++ Text.decimal stats.maxPasses ++ " passes)"⟩

/-- The headers before the first one that cannot be read. -/
def readableHeaders : List HeaderSource → List Header
  | [] => []
  | source :: more =>
    match Header.parse source.fileName source.contents with
    | .ok h => h :: readableHeaders more
    | .error _ => []

def selectionLog (config : GeneratorConfig) (headers : List Header) : List LogLine :=
  ((definitions headers).filter fun c => !config.allowlist.allows c.name).map ignoredLine

def resolutionLog (config : GeneratorConfig) (sources : List HeaderSource) : List LogLine :=
  let headers := readableHeaders sources
  let parsed := headers.map parsedLine
  if headers.length < sources.length then parsed
  else
    let run := config.runResolver (config.select headers).2
    parsed ++ config.selectionLog headers
      ++ (if run.failure.isNone then [resolvedLine run.stats] else [])

end GeneratorConfig

end HeaderConstants
