import AudioWalk.Text.Point
import AudioWalk.Text.Whole

/-!
# Character references

Inside the value of an attribute an ampersand opens a reference, which names a
character and ends at the next semicolon.  Reading is one pass: a character that
came from a reference is never read again.
-/

namespace AudioWalk
namespace Markup

inductive ReferenceFault where
  | unterminated
  | unknown (reference : List Char)
deriving DecidableEq, Repr

/-- `#D` in base ten or `#xH` in base sixteen. -/
def numbered? : List Char → Option Char
  | '#' :: 'x' :: digits => (Text.natural? 16 digits).bind Text.character?
  | '#' :: 'X' :: digits => (Text.natural? 16 digits).bind Text.character?
  | '#' :: digits => (Text.natural? 10 digits).bind Text.character?
  | _ => none

/-- The five characters that have a name of their own. -/
def named? (reference : List Char) : Option Char :=
  [("amp", '&'), ("lt", '<'), ("gt", '>'), ("quot", '"'), ("apos", '\'')].lookup
    (String.ofList reference)

/-- The character that a reference, without its ampersand and semicolon, names. -/
def referenced? (reference : List Char) : Option Char :=
  (named? reference).or (numbered? reference)

/-- What a value says.  `reference?` holds what has been read, in reverse, of a
reference that is not complete yet. -/
def expand (reference? : Option (List Char)) : List Char → Except ReferenceFault (List Char)
  | [] =>
    match reference? with
    | none => .ok []
    | some _ => .error .unterminated
  | c :: cs =>
    match reference? with
    | none => if c = '&' then expand (some []) cs else (expand none cs).map (c :: ·)
    | some read =>
      if c = ';' then
        match referenced? read.reverse with
        | some d => (expand none cs).map (d :: ·)
        | none => .error (.unknown read.reverse)
      else expand (some (c :: read)) cs

/-- The text that an attribute's value stands for. -/
def decode (value : List Char) : Except ReferenceFault (List Char) := expand none value

end Markup
end AudioWalk
