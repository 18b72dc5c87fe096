import AudioWalk.Json.Writer
import AudioWalk.Library
import AudioWalk.Session.Replay
import AudioWalk.Report
import AudioWalk.Session.Track

/-!
# The command line

Three commands on a library: `list` prints the titles of its stories, `inspect`
prints one story as JSON, and `replay` runs one story over a recorded track and
prints each effect as a line of JSON.  The options of a command may come in any
order, a value stands behind its option or is attached to it, and no option may
be given twice.
-/

namespace AudioWalk
namespace CommandLine

/-! ## Options -/

inductive Key where
  | config
  | root
  | title
  | track
  | clipReadings
deriving DecidableEq, Repr

def Key.long : Key → String
  | config => "config"
  | root => "root"
  | title => "title"
  | track => "track"
  | clipReadings => "clip-readings"

def Key.short? : Key → Option Char
  | config => some 'c'
  | root => some 'r'
  | title => some 't'
  | track => none
  | clipReadings => none

/-- A natural number of 32 bits; it may have a sign. -/
def count? (value : String) : Option UInt32 :=
  (Text.integer? value.toList).bind fun i =>
    if 0 ≤ i ∧ i < UInt32.size then some (UInt32.ofNat i.toNat) else none

/-- A path has at least one character, a title may be empty. -/
def Key.accepts (k : Key) (value : String) : Bool :=
  match k with
  | config => value ≠ ""
  | root => value ≠ ""
  | title => true
  | track => value ≠ ""
  | clipReadings => (count? value).isSome

/-- What one argument is. -/
inductive Argument where
  /-- An option, with the value attached to it, if there is one. -/
  | option (key : Key) (value? : Option String)
  /-- A question for the usage. -/
  | help
  | version
  /-- The mark behind which there are no options. -/
  | rest
  /-- Looks like an option but is none. -/
  | unknown
  | plain (value : String)
deriving Repr

/-- Splits a long option from the value attached to it. -/
def splitValue (cs : List Char) : String × Option String :=
  match cs.dropWhile (· ≠ '=') with
  | [] => (String.ofList cs, none)
  | _ :: value => (String.ofList (cs.takeWhile (· ≠ '=')), some (String.ofList value))

/-- A value attached to a short option, with or without an equals sign. -/
def attached? : List Char → Option String
  | [] => none
  | '=' :: cs => some (String.ofList cs)
  | cs => some (String.ofList cs)

/-- Reads an argument where the given options are available. -/
def Argument.of (available : List Key) (arg : String) : Argument :=
  match arg.toList with
  | ['-', '-'] => rest
  | '-' :: '-' :: cs =>
    let (name, value?) := splitValue cs
    match available.find? fun k => k.long = name with
    | some k => option k value?
    | none =>
      if name = "help" ∧ value? = none then help
      else if name = "version" ∧ value? = none then version
      else unknown
  | '-' :: c :: cs =>
    match available.find? fun k => k.short? = some c with
    | some k => option k (attached? cs)
    | none => if c = 'h' then help else if c = 'V' then version else unknown
  | _ => plain arg

/-- Why a command line is not carried out. -/
inductive Refusal where
  /-- The usage was asked for. -/
  | usage
  /-- The command line is wrong. -/
  | wrong
deriving DecidableEq, Repr

/-- The options given so far. -/
abbrev Given := List (Key × String)

/-- Adds an option, once, with a value it accepts. -/
def Given.add (given : Given) (k : Key) (value : String) : Except Refusal Given :=
  if (given.lookup k).isSome || !k.accepts value then .error .wrong
  else .ok (given ++ [(k, value)])

/-- Reads options up to the first argument that is none, which is returned with
what follows it.  `waiting?` is an option that still needs its value. -/
def options (available : List Key) (waiting? : Option Key) (given : Given) :
    List String → Except Refusal (Given × List String)
  | [] => if waiting?.isSome then .error .wrong else .ok (given, [])
  | arg :: args =>
    match Argument.of available arg, waiting? with
    | .plain value, some k => do
      let given ← given.add k value
      options available none given args
    | .plain value, none => .ok (given, value :: args)
    | _, some _ => .error .wrong
    | .option k none, none => options available (some k) given args
    | .option k (some value), none => do
      let given ← given.add k value
      options available none given args
    | .rest, none => if args.isEmpty then .ok (given, []) else .error .wrong
    | .help, none => .error .usage
    | .version, none => .error (if available = [.config] then .usage else .wrong)
    | .unknown, none => .error .wrong

/-! ## Commands -/

inductive Command where
  | list (root : String)
  | inspect (root title : String)
  | replay (root title track : String) (clipReadings : UInt32)
deriving DecidableEq, Repr

structure Invocation where
  /-- The settings file; without one all settings have their defaults. -/
  config? : Option String
  command : Command
deriving DecidableEq, Repr

/-- Readings up to the end of a clip, if the command line does not say. -/
def defaultClipReadings : UInt32 := 3

/-- The options of a command by its name; all take the settings file, too. -/
def keys? : String → Option (List Key)
  | "list" => some [.config, .root]
  | "inspect" => some [.config, .root, .title]
  | "replay" => some [.config, .root, .title, .track, .clipReadings]
  | _ => none

/-- What comes of asking for the usage of a command by name.  The question may be
about itself, too, and no command has parts that could be named behind it. -/
def questionAbout : List String → Refusal
  | [] => .usage
  | [name] => if name = "help" ∨ (keys? name).isSome then .usage else .wrong
  | _ => .wrong

/-- A command with its options; an option that is not there but has to be is none. -/
def command? (name : String) (given : Given) : Option Command := do
  let root ← given.lookup .root
  if name = "list" then return .list root
  let title ← given.lookup .title
  if name = "inspect" then return .inspect root title
  let track ← given.lookup .track
  let clipReadings ←
    match given.lookup .clipReadings with
    | some value => count? value
    | none => some defaultClipReadings
  return .replay root title track clipReadings

/-- Reads a command line.  The settings file may be named before the command or
among its options, and the latter counts if both are there. -/
def parse (args : List String) : Except Refusal Invocation := do
  let (before, rest) ← options [.config] none [] args
  match rest with
  | [] => throw .wrong
  | name :: args =>
    match keys? name with
    | none => throw (if name = "help" then questionAbout args else .wrong)
    | some keys =>
      let (given, rest) ← options keys none [] args
      if !rest.isEmpty then throw .wrong
      match command? name given with
      | none => throw .wrong
      | some command =>
        return { config? := (given.lookup .config).or (before.lookup .config), command }

/-! ## Carrying out -/

/-- What a command prints, and the failure that ended it, if one did. -/
structure Output where
  printed : List String
  failure? : Option Failure

def Output.ofExcept : Except Failure (List String) → Output
  | .ok printed => ⟨printed, none⟩
  | .error cause => ⟨[], some cause⟩

/-- A track in a file. -/
def loadTrack (file? : Option Node) : Except Failure (List Reading) := do
  let source ← readText file?
  match readTrack? source with
  | some readings => return readings
  | none => throw (.other "invalid track")

def Command.run (at? : String → Option Node) (settings : Settings) : Command → Output
  | list root => .ofExcept do
    let library ← Library.loadLenient at? root settings.library
    return library.titles
  | inspect root title => .ofExcept do
    let library ← Library.load at? root settings.library
    let story ← library.find title
    return [story.toJson.pretty]
  | replay root title track clipReadings =>
    let prepared : Except Failure (Story × List Reading) := do
      let library ← Library.load at? root settings.library
      let story ← library.find title
      let readings ← loadTrack (at? track)
      return (story, readings)
    match prepared with
    | .error cause => ⟨[], some cause⟩
    | .ok (story, readings) =>
      let t := AudioWalk.replay story settings.session.warmUpReadings clipReadings.toNat readings
      ⟨t.effects.map fun e => e.toJson.compact, t.failure?⟩

/-- The paths of the files that a command reads, settings apart. -/
def Command.files : Command → List String
  | list _ => []
  | inspect _ _ => []
  | replay _ _ track _ => [track]

/-- The paths of the folders that a command lists. -/
def Command.folders (settings : Settings) : Command → List String
  | list root => [Path.join root settings.library.storiesFolder]
  | inspect root _ => [Path.join root settings.library.storiesFolder]
  | replay root _ _ _ => [Path.join root settings.library.storiesFolder]

/-- The settings that an invocation runs with. -/
def Invocation.settings (at? : String → Option Node) (i : Invocation) : Except Failure Settings :=
  match i.config? with
  | some path => Settings.load (at? path)
  | none => .ok {}

def Invocation.run (at? : String → Option Node) (i : Invocation) : Output :=
  match i.settings at? with
  | .ok settings => i.command.run at? settings
  | .error cause => ⟨[], some cause⟩

/-- Carries a command line out.  The exit code is zero if all went well, one
after a failure, two for a wrong command line. -/
def run (at? : String → Option Node) (args : List String) : Output × UInt32 :=
  match parse args with
  | .error .usage => (⟨[], none⟩, 0)
  | .error .wrong => (⟨[], none⟩, 2)
  | .ok invocation =>
    let output := invocation.run at?
    (output, if output.failure?.isSome then 1 else 0)

end CommandLine
end AudioWalk
