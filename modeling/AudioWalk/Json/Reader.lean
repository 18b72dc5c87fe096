import AudioWalk.Json.Token

/-!
# Reading JSON

The containers that are still open are held in a list, innermost first, so the
depth of nesting is not bounded by anything but the text.  A text is one value
with nothing but blanks around it.
-/

namespace AudioWalk
namespace Json

/-- An open container; what has been read of it, the last item first. -/
inductive Frame where
  | items (done : List Json)
  | member (done : List (List Nat × Json)) (name : List Nat)

/-- What may come next. -/
inductive Stage where
  | value
  | itemOrEnd
  | nameOrEnd
  | name (done : List (List Nat × Json))
  | colon (done : List (List Nat × Json)) (name : List Nat)
  /-- A value is complete; what surrounds it decides how it goes on. -/
  | complete (value : Json)

/-- One token in front of a value. -/
def startValue? (frames : List Frame) : Token → Option (Stage × List Frame)
  | .openArray => some (.itemOrEnd, frames)
  | .openObject => some (.nameOrEnd, frames)
  | .value atom => some (.complete atom, frames)
  | _ => none

def step : Stage × List Frame → Token → Option (Stage × List Frame)
  | (.value, frames), t => startValue? frames t
  | (.itemOrEnd, frames), .closeArray => some (.complete (array []), frames)
  | (.itemOrEnd, frames), t => startValue? (.items [] :: frames) t
  | (.nameOrEnd, frames), .closeObject => some (.complete (object []), frames)
  | (.nameOrEnd, frames), .value (text name) => some (.colon [] name, frames)
  | (.name done, frames), .value (text name) => some (.colon done name, frames)
  | (.colon done name, frames), .colon => some (.value, .member done name :: frames)
  | (.complete v, .items done :: frames), .comma => some (.value, .items (v :: done) :: frames)
  | (.complete v, .items done :: frames), .closeArray =>
    some (.complete (array (v :: done).reverse), frames)
  | (.complete v, .member done name :: frames), .comma => some (.name ((name, v) :: done), frames)
  | (.complete v, .member done name :: frames), .closeObject =>
    some (.complete (object ((name, v) :: done).reverse), frames)
  | _, _ => none

/-- The value that a sequence of tokens spells. -/
def ofTokens? (ts : List Token) : Option Json :=
  match ts.foldlM step (.value, []) with
  | some (.complete v, []) => some v
  | _ => none

/-- Reads a whole text. -/
def read? (source : String) : Option Json := (Token.readAll? source.toList).bind ofTokens?

end Json
end AudioWalk
