import AudioWalk.Markup.Reference

/-!
# Elements

The tree of a document: elements with their attributes in order, their children
in order, and the line on which their tag opens.  In a tree fresh from a document
the values are as written; `Element.resolve` replaces the references in them and
refuses an attribute that an element has twice.
-/

namespace AudioWalk
namespace Markup

structure Element where
  name : String
  attributes : List (String × String)
  children : List Element
  line : Nat
deriving Repr

/-- Why a text is no markup document. -/
inductive Fault where
  /-- The text does not have the form of a document. -/
  | form
  | unterminatedReference (value : String)
  | unknownReference (reference : String)
  | repeatedAttribute (line : Nat) (key : String) (name : String)
deriving DecidableEq, Repr

/-- The wording of a fault.  Where the form of a document is broken there is
nothing more to say than a report on the form. -/
def Fault.message : Fault → String
  | form => "<parser report>"
  | unterminatedReference value => s!"unterminated entity in `{value}`"
  | unknownReference reference => s!"unknown entity `&{reference};`"
  | repeatedAttribute line key name =>
    s!"line {line}: attribute `{key}` repeated on <{name}>"

namespace Element

def attribute? (e : Element) (key : String) : Option String := e.attributes.lookup key

/-- What a value stands for, with the value itself in the fault. -/
def resolveValue (value : String) : Except Fault String :=
  match decode value.toList with
  | .ok cs => .ok (String.ofList cs)
  | .error .unterminated => .error (.unterminatedReference value)
  | .error (.unknown reference) => .error (.unknownReference (String.ofList reference))

/-- Resolves attributes one by one behind those that are resolved already. -/
def resolveAttributes (line : Nat) (name : String) (done : List (String × String)) :
    List (String × String) → Except Fault (List (String × String))
  | [] => .ok done
  | (key, value) :: rest => do
    let value ← resolveValue value
    if (done.lookup key).isSome then throw (.repeatedAttribute line key name)
    resolveAttributes line name (done ++ [(key, value)]) rest

mutual

/-- Resolves an element before its children, so of several faults the one that
comes first in the document is found. -/
def resolve : Element → Except Fault Element
  | ⟨name, attributes, children, line⟩ => do
    let attributes ← resolveAttributes line name [] attributes
    let children ← resolveAll children
    return ⟨name, attributes, children, line⟩

def resolveAll : List Element → Except Fault (List Element)
  | [] => .ok []
  | e :: es => do
    let e ← resolve e
    let es ← resolveAll es
    return e :: es

end

end Element
end Markup
end AudioWalk
