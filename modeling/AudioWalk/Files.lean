/-!
# Files and paths

A folder and what lies below it, as a value.  Entries have names, in no
particular order; programs that need an order sort them.

A path is a text with slashes between the names.  Joining follows the rule that a
path that opens with a slash stands for itself, and looking a path up passes over
empty names and single dots.
-/

namespace AudioWalk

inductive Node where
  | file (bytes : ByteArray)
  | folder (entries : List (String × Node))

namespace Node

def entries? : Node → Option (List (String × Node))
  | folder entries => some entries
  | file _ => none

def isFolder (n : Node) : Bool := n.entries?.isSome

/-- Follows names downwards.  `outer` holds the folders passed through, the
innermost first, for the name that leads back. -/
def follow (outer : List Node) (n : Node) : List String → Option Node
  | [] => some n
  | name :: names =>
    match n with
    | file _ => none
    | folder entries =>
      if name = "" ∨ name = "." then follow outer n names
      else if name = ".." then
        match outer with
        | [] => none
        | parent :: outer => follow outer parent names
      else
        match entries.lookup name with
        | some child => follow (n :: outer) child names
        | none => none

end Node

namespace Path

def isAbsolute (path : String) : Bool := path.toList.head? = some '/'

/-- Puts one path behind another. -/
def join (base path : String) : String :=
  if isAbsolute path || base = "" then path
  else if base.toList.getLast? = some '/' then base ++ path
  else base ++ "/" ++ path

/-- The parts of a text between its slashes, empty ones included. -/
def segments : List Char → List (List Char)
  | [] => [[]]
  | c :: cs =>
    match segments cs with
    | [] => [[c]]
    | s :: ss => if c = '/' then [] :: s :: ss else (c :: s) :: ss

/-- The names of a path. -/
def names (path : String) : List String := (segments path.toList).map String.ofList

/-- What follows the last dot of a name, unless the dot opens the name. -/
def extension? (name : String) : Option String :=
  let reversed := name.toList.reverse
  match reversed.dropWhile (· ≠ '.') with
  | _ :: _ :: _ => some (String.ofList (reversed.takeWhile (· ≠ '.')).reverse)
  | _ => none

end Path

/-- What lies at a path below a folder.  A path that leaves the folder leads
nowhere. -/
def Node.at? (n : Node) (path : String) : Option Node :=
  if Path.isAbsolute path then none else n.follow [] (Path.names path)

end AudioWalk
