/-!
# Faults of a story's markup

A well-formed document need not be a story.  A fault names the element that
breaks a rule, by its tag and its line, and the rule.
-/

namespace AudioWalk
namespace Story

inductive Cause where
  | wrongRoot
  | unknownTag (parent : String)
  | secondInit
  | noSpots
  | noCircles
  | childOfLeaf (parent : String)
  | partOrder
  | missingAttribute (key : String)
  /-- The text of the attribute is kept with the blanks around it. -/
  | notNumber (key raw : String)
  | outsideDegrees (key : String) (limit : Nat)
  | volumeRange
deriving DecidableEq, Repr

def Cause.message : Cause → String
  | wrongRoot => "the root element must be <story>"
  | unknownTag parent => s!"unknown tag beneath <{parent}>"
  | secondInit => "a story may only have one <init> block"
  | noSpots => "a story needs at least one <spot>"
  | noCircles => "a spot needs at least one <circle>"
  | childOfLeaf parent => s!"<{parent}> does not take child elements"
  | partOrder => "<condition>, <then> and <else> may each appear once, in that order"
  | missingAttribute key => s!"missing attribute `{key}`"
  | notNumber key raw => s!"attribute `{key}` is not a valid number: `{raw}`"
  | outsideDegrees key limit => s!"attribute `{key}` must be within ±{limit} degrees"
  | volumeRange => "volume must be between 0.0 and 1.0"

structure Fault where
  tag : String
  line : Nat
  cause : Cause
deriving DecidableEq, Repr

def Fault.reason (f : Fault) : String := s!"line {f.line}: {f.cause.message}"

end Story
end AudioWalk
