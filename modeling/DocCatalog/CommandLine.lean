import DocCatalog.Format

/-!
# The command line

Arguments are first cut into parts, each an option with its value or a plain argument, and the parts
are then read as a command. Whatever does not fit is a usage error, which has no further cause here.
-/

namespace DocCatalog.CommandLine

inductive Opt where
  | verbose
  | layout
  | format
  | marker
  | config
  | tag
  | output
deriving DecidableEq, Repr

namespace Opt

/-- The letter of an option, if it has one. -/
def letter? : Opt → Option Char
  | verbose => some 'v'
  | layout => some 'l'
  | format => some 'f'
  | marker => none
  | config => some 'c'
  | tag => some 't'
  | output => some 'o'

def name : Opt → String
  | verbose => "verbose"
  | layout => "layout"
  | format => "format"
  | marker => "tag-marker"
  | config => "config"
  | tag => "tag"
  | output => "output"

/-- Whether the option comes with a value. -/
def takesValue (opt : Opt) : Bool :=
  opt ≠ verbose

end Opt

inductive Part where
  | option (opt : Opt) (value : String)
  | argument (text : String)
deriving DecidableEq, Repr

/-- What an argument that starts with a dash says: options that are complete, and perhaps one that
the next argument gives a value to. -/
structure Cluster where
  complete : List Part
  pending : Option Opt

/-- Reads `name` or `name=value` after two dashes. Names are not shortened. -/
def longOption? (allowed : List Opt) (text : List Char) : Option Cluster :=
  let name := String.ofList (text.takeWhile (· ≠ '='))
  let value := text.dropWhile (· ≠ '=')
  (allowed.find? fun opt => opt.name == name).bind fun opt =>
    match opt.takesValue, value with
    | true, [] => some ⟨[], some opt⟩
    | true, _ :: value => some ⟨[.option opt (String.ofList value)], none⟩
    | false, [] => some ⟨[.option opt ""], none⟩
    | false, _ :: _ => none

/-- Reads letters after one dash. The first one that takes a value takes the rest of the argument,
with or without an equals sign before it, or else the next argument. -/
def letters? (allowed : List Opt) : List Char → Option Cluster
  | [] => some ⟨[], none⟩
  | c :: rest =>
    (allowed.find? fun opt => opt.letter? == some c).bind fun opt =>
      if opt.takesValue then
        match rest with
        | [] => some ⟨[], some opt⟩
        | '=' :: value => some ⟨[.option opt (String.ofList value)], none⟩
        | value => some ⟨[.option opt (String.ofList value)], none⟩
      else
        (letters? allowed rest).map fun cluster =>
          { cluster with complete := .option opt "" :: cluster.complete }

/-- Reads an argument as options; the outer answer is missing when it is a plain argument. A lone
dash is one. -/
def cluster? (allowed : List Opt) (text : String) : Option (Option Cluster) :=
  match text.toList with
  | '-' :: '-' :: name => some (longOption? allowed name)
  | '-' :: c :: rest => some (letters? allowed (c :: rest))
  | _ => none

/-- Cuts arguments into parts. Two dashes alone end the options. -/
def parts? (allowed : List Opt) : List String → Option (List Part)
  | [] => some []
  | text :: rest =>
    if text = "--" then some (rest.map Part.argument)
    else
      match cluster? allowed text with
      | none => (parts? allowed rest).map (Part.argument text :: ·)
      | some none => none
      | some (some cluster) =>
        match cluster.pending, rest with
        | none, rest => (parts? allowed rest).map (cluster.complete ++ ·)
        | some _, [] => none
        | some opt, value :: rest =>
          if (cluster? allowed value).isSome then none
          else (parts? allowed rest).map (cluster.complete ++ Part.option opt value :: ·)

/-- The values of an option, in order. -/
def valuesOf (opt : Opt) (parts : List Part) : List String :=
  parts.filterMap fun
    | .option other value => if other = opt then some value else none
    | .argument _ => none

/-- The plain arguments, in order. -/
def argumentsOf (parts : List Part) : List String :=
  parts.filterMap fun
    | .option _ _ => none
    | .argument text => some text

/-- The value of an option that may stand once. -/
def single? {α : Type} (opt : Opt) (read? : String → Option α) (parts : List Part) :
    Option (Option α) :=
  match valuesOf opt parts with
  | [] => some none
  | [value] => (read? value).map some
  | _ => none

/-- A path, which must not be empty. -/
def readPath? (text : String) : Option String :=
  if text = "" then none else some text

def readChar? (text : String) : Option Char :=
  match text.toList with
  | [c] => some c
  | _ => none

inductive Command where
  /-- Prints the catalog of the sources. -/
  | extract (paths : List String) (layout : Option Layout) (format : Option Format)
      (marker : Option Char) (config : Option String)
  /-- Prints the events of the sources, of the given tags only if there are any. -/
  | events (paths : List String) (tags : List String) (marker : Option Char)
      (config : Option String)
  /-- Writes a configuration file; the usual one if none is named. -/
  | init (output : Option String)
deriving DecidableEq, Repr

def extract? (arguments : List String) : Option Command := do
  let parts ← parts? [.verbose, .layout, .format, .marker, .config] arguments
  let _ ← single? .verbose some parts
  return .extract (← (argumentsOf parts).mapM readPath?)
    (← single? .layout Layout.ofName? parts) (← single? .format Format.ofName? parts)
    (← single? .marker readChar? parts) (← single? .config readPath? parts)

def events? (arguments : List String) : Option Command := do
  let parts ← parts? [.verbose, .tag, .marker, .config] arguments
  let _ ← single? .verbose some parts
  return .events (← (argumentsOf parts).mapM readPath?) (valuesOf .tag parts)
    (← single? .marker readChar? parts) (← single? .config readPath? parts)

def init? (arguments : List String) : Option Command := do
  let parts ← parts? [.verbose, .output] arguments
  let _ ← single? .verbose some parts
  if argumentsOf parts = [] then return .init (← single? .output readPath? parts) else none

/-- Reads the name of a command and its arguments. -/
def ofName? (name : String) (arguments : List String) : Option Command :=
  if name = "extract" then extract? arguments
  else if name = "events" then events? arguments
  else if name = "init" then init? arguments
  else none

/-- Reads a command line. Before the name of the command only the option that is known everywhere
may stand, and it may stand there once. -/
def read? (seenVerbose : Bool) : List String → Option Command
  | [] => none
  | text :: rest =>
    match cluster? [.verbose] text with
    | none => ofName? text rest
    | some none => none
    | some (some cluster) =>
      match cluster.complete, seenVerbose with
      | [_], false => read? true rest
      | _, _ => none

end DocCatalog.CommandLine
