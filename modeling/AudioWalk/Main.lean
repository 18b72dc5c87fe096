import AudioWalk.CommandLine

/-!
The program: takes what a command line needs from the disk, runs the command on
it, and prints.
-/

namespace AudioWalk
namespace Main

/-- What lies at a path, down to a depth.  The bytes of a file are taken only if
its name is wanted. -/
def snapshot (wanted : String → Bool) : Nat → String → String → IO Node
  | depth, name, path => do
    let place ← IO.FS.realPath path
    if ← place.isDir then
      match depth with
      | 0 => return .folder []
      | depth + 1 =>
        let entries ← place.readDir
        let nodes ← entries.toList.mapM fun e => do
          let node ← snapshot wanted depth e.fileName e.path.toString
          return (e.fileName, node)
        return .folder nodes
    else if wanted name then return .file (← IO.FS.readBinFile path)
    else return .file .empty

/-- What lies at a path, if it can be read. -/
def snapshot? (wanted : String → Bool) (depth : Nat) (path : String) :
    IO (Option Node) := do
  try
    return some (← snapshot wanted depth "" path)
  catch _ =>
    return none

/-- Looks paths up among those that have been taken. -/
def lookUp (taken : List (String × Option Node)) (path : String) : Option Node :=
  (taken.lookup path).join

def take (i : CommandLine.Invocation) : IO (List (String × Option Node)) := do
  let files (path : String) : IO (String × Option Node) := do
    return (path, ← snapshot? (fun _ => true) 0 path)
  let config ← i.config?.toList.mapM files
  match i.settings (lookUp config) with
  | .error _ => return config
  | .ok settings =>
    let tracks ← i.command.files.mapM files
    let folders ← (i.command.folders settings).mapM fun path => do
      let wanted (name : String) : Bool :=
        Path.extension? name = some settings.library.markupExtension
      return (path, ← snapshot? wanted 2 path)
    return config ++ tracks ++ folders

end Main
end AudioWalk

def main (args : List String) : IO UInt32 := do
  let taken ←
    match AudioWalk.CommandLine.parse args with
    | .ok invocation => AudioWalk.Main.take invocation
    | .error _ => pure []
  let (output, code) := AudioWalk.CommandLine.run (AudioWalk.Main.lookUp taken) args
  for text in output.printed do
    IO.println text
  match output.failure? with
  | some cause => IO.eprintln cause.message
  | none => pure ()
  return code
