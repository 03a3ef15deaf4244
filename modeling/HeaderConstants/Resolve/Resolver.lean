import HeaderConstants.Expr.Evaluate
import HeaderConstants.Resolve.Substitute

/-!
# Resolving a list of constants

Every constant that has no value yet is expanded and evaluated, in order; the first failure ends the
run and leaves the constants before it resolved. One by one, the value of a constant replaces its
text for the constants after it; in a snapshot run every constant sees the texts from before the
run. Names that occur several times are owned by the last constant of the name.

* `Resolve.resolveConstant`: one constant against a table;
* `Resolver.run`: all constants of a list, with the statistics of the resolver.
-/

namespace HeaderConstants
set_option autoImplicit false

structure ResolverConfig where
  maxPasses : Option Nat
  parallel : Bool
  deriving DecidableEq, Repr

def ResolverConfig.standard : ResolverConfig := ⟨none, false⟩

def ResolverConfig.passLimit (config : ResolverConfig) (candidates : Nat) : Nat :=
  config.maxPasses.getD (candidates + 1)

/-- Where a constant that could not be resolved was defined. -/
structure Origin where
  name : Text
  file : Text
  line : Nat
  deriving DecidableEq, Repr

def Constant.origin (c : Constant) : Origin := ⟨c.name, c.sourceFile, c.sourceLine⟩

def Origin.describe (o : Origin) : Text :=
  o.name ++ " (" ++ o.file ++ ":" ++ Text.decimal o.line ++ "): "

inductive ResolveError where
  | expression (origin : Origin) (cause : EvalError)
  | cyclic (origin : Origin) (chain : List Text)
  deriving DecidableEq, Repr

namespace ResolveError

def origin : ResolveError → Origin
  | expression o _ => o
  | cyclic o _ => o

def message : ResolveError → Text
  | expression o cause => "cannot resolve " ++ o.describe ++ cause.message
  | cyclic o chain =>
    "cyclic reference while resolving " ++ o.describe ++ Text.joined " -> " chain

end ResolveError

namespace Resolve

/-- Follows the first reference of each definition from the given text on, until a name comes again
or nothing is referred to. -/
def chainFrom (t : Table) : Nat → List Text → Text → List Text
  | 0, chain, _ => chain
  | fuel + 1, chain, text =>
    match t.find? (fun s => Text.occursIn s.name text) with
    | none => chain
    | some s =>
      if s.name ∈ chain then chain ++ [s.name]
      else chainFrom t fuel (chain ++ [s.name]) s.replacement

def referenceChain (t : Table) (c : Constant) : List Text :=
  chainFrom t (t.length + 1) [c.name] c.rawValue

structure Resolution where
  value : UInt64
  trace : List ResolutionStep
  passes : Nat
  deriving DecidableEq, Repr

def resolveConstant (t : Table) (limit : Nat) (c : Constant) : Except ResolveError Resolution :=
  match expand? t limit c.rawValue with
  | none => .error (.cyclic c.origin (referenceChain t c))
  | some e =>
    match evaluate e.text with
    | .error cause => .error (.expression c.origin cause)
    | .ok v => .ok ⟨v, e.steps, e.passes⟩

/-- The table after a constant has been resolved that owns its name. -/
def refresh (t : Table) (c : Constant) : Table :=
  t.map fun s => if s.name = c.name then ⟨s.name, c.substitutionText⟩ else s

/-- The table for the constants that follow a resolved one. It keeps up with a constant that owns
its name. -/
def tableAfter (keepUp : Bool) (t : Table) (c : Constant) (more : List Constant) : Table :=
  if keepUp && !more.any (fun d => d.name = c.name) then refresh t c else t

end Resolve

structure ResolutionStats where
  resolved : Nat
  substitutions : Nat
  maxPasses : Nat
  deriving DecidableEq, Repr

def ResolutionStats.zero : ResolutionStats := ⟨0, 0, 0⟩

def ResolutionStats.commit (s : ResolutionStats) (r : Resolve.Resolution) : ResolutionStats :=
  ⟨s.resolved + 1, s.substitutions + r.trace.length, max s.maxPasses r.passes⟩

structure Resolver where
  config : ResolverConfig
  stats : ResolutionStats
  deriving DecidableEq, Repr

/-- The constants and the statistics after a run, and what ended it early. -/
structure ResolverRun where
  constants : List Constant
  stats : ResolutionStats
  failure : Option ResolveError
  deriving DecidableEq, Repr

def ResolverRun.after (c : Constant) (r : ResolverRun) : ResolverRun :=
  { r with constants := c :: r.constants }

namespace Resolver

def new (config : ResolverConfig) : Resolver := ⟨config, .zero⟩

/-- Resolves the constants in order, up to the first that cannot be resolved. -/
def runFrom (keepUp : Bool) (limit : Nat) :
    Resolve.Table → ResolutionStats → List Constant → ResolverRun
  | _, stats, [] => ⟨[], stats, none⟩
  | t, stats, c :: more =>
    if c.isResolved then ResolverRun.after c (runFrom keepUp limit t stats more)
    else
      match Resolve.resolveConstant t limit c with
      | .error e => ⟨c :: more, stats, some e⟩
      | .ok r =>
        let c' := c.resolve r.value r.trace
        ResolverRun.after c'
          (runFrom keepUp limit (Resolve.tableAfter keepUp t c' more) (stats.commit r) more)

def run (r : Resolver) (constants : List Constant) : ResolverRun :=
  let t := Resolve.table constants
  runFrom (!r.config.parallel) (r.config.passLimit t.length) t r.stats constants

end Resolver

end HeaderConstants
