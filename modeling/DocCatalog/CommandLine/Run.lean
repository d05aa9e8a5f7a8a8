import DocCatalog.Builder
import DocCatalog.CommandLine
import DocCatalog.Config
import DocCatalog.Corpus
import DocCatalog.Router

/-!
# Running a command

A run gathers its settings, then its sources, and prints what the command asks for. The first
failure ends it.
-/

namespace DocCatalog.CommandLine

/-- How a run ends. -/
inductive Outcome where
  | printed (output : String)
  | failed (failure : Failure)
  /-- The arguments were not understood. -/
  | misused
deriving DecidableEq, Repr

namespace Outcome

def exitCode : Outcome → UInt32
  | printed _ => 0
  | failed _ => 2
  | misused => 2

/-- What goes to standard output. -/
def output : Outcome → String
  | printed output => output
  | failed _ => ""
  | misused => ""

/-- What is told about a failure. -/
def complaint : Outcome → Option String
  | printed _ => none
  | failed failure => some ("Error: " ++ failure.message)
  | misused => none

def ofExcept : Except Failure String → Outcome
  | .ok output => printed output
  | .error failure => failed failure

end Outcome

variable {m : Type → Type} [Monad m]

/-- The settings of a file: the one that is named, else the usual one if it is there. -/
def loadConfig (host : Host m) : Option String → m (Except Failure Config)
  | some path => Config.load host path
  | none => do
    match ← host.look Config.defaultPath with
    | some (.file _) => Config.load host Config.defaultPath
    | _ => return .ok {}

/-- The settings with the marker of the command line. -/
def settings (host : Host m) (path : Option String) (marker : Option Char) :
    m (Except Failure Config) := do
  return (← loadConfig host path).bind fun config =>
    match marker with
    | some marker => { config with marker }.validate
    | none => .ok config

/-- The router of a listing: a subscription for each tag that is named, or one for every event. -/
def subscriptions : List String → Router
  | [] => Router.empty.onAny.2
  | tag :: tags =>
    (tag :: tags).foldl (fun router tag => (router.on (Tag.ofName tag)).2) Router.empty

/-- The events of a listing. A tag that is named twice shows its events twice. -/
def selectEvents (tags : List String) (events : List Event) : List Event :=
  ((subscriptions tags).deliveries events).map Prod.snd

/-- What a command prints about a source text. -/
def extractText (config : Config) (coloured : Bool) (source : String) : String :=
  (Catalog.ofSource config.marker config.layout source).render config.format coloured ++ "\n"

def eventsText (config : Config) (tags : List String) (source : String) : String :=
  Event.listing (selectEvents tags (Source.events config.marker source))

/-- Gathers the sources once the settings are known, and prints what they give. -/
def printSources (host : Host m) (settled : Except Failure Config) (paths : List String)
    (print : Config → String → String) : m (Except Failure String) := do
  match settled with
  | .error failure => return .error failure
  | .ok config => return (← Corpus.gather host paths).map (print config)

def Command.run (host : Host m) (coloured : Bool) : Command → m (Except Failure String)
  | extract paths layout format marker config => do
    let settled := (← settings host config marker).map fun config =>
      { config with layout := layout.getD config.layout, format := format.getD config.format }
    printSources host settled paths fun config => extractText config coloured
  | events paths tags marker config => do
    printSources host (← settings host config marker) paths fun config => eventsText config tags
  | init output => do
    let path := output.getD Config.defaultPath
    return (← Config.save host path {}).map fun _ => "Wrote " ++ path ++ "\n"

/-- Whether the environment asks for colour although the output is no terminal. -/
def wantsColour (environment : String → Option String) : Bool :=
  match environment "CLICOLOR_FORCE" with
  | none => false
  | some value => value != "0"

/-- Runs a command line. -/
def run (host : Host m) (environment : String → Option String) (arguments : List String) :
    m Outcome := do
  match read? false arguments with
  | none => return .misused
  | some command => return .ofExcept (← command.run host (wantsColour environment))

end DocCatalog.CommandLine
