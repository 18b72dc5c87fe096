import AudioWalk.Effect
import AudioWalk.Markup.Element
import AudioWalk.Story.Fault

/-!
# Failures

Everything that can go wrong outside the reading of a single file, with its
wording.
-/

namespace AudioWalk

inductive Failure where
  /-- The markup is no story; the element that breaks a rule, and why. -/
  | malformedStory (tag reason : String)
  /-- The text is no markup. -/
  | illFormedMarkup (detail : String)
  | undefinedVariable (name : String)
  | malformedLiteral (token : String)
  | alreadyPlaying
  | missingStoryFile (folder : String)
  | unknownStory (title : String)
  /-- A script stopped part way; what it had emitted still has to be acted on. -/
  | interrupted (effects : List Effect) (source : Failure)
  /-- A file or folder that cannot be read. -/
  | unreadable (detail : String)
  | invalidSettings
  | other (message : String)
deriving Repr

namespace Failure

def message : Failure → String
  | malformedStory tag reason => s!"malformed story at <{tag}>: {reason}"
  | illFormedMarkup detail => s!"story markup is not well formed: {detail}"
  | undefinedVariable name => s!"variable `{name}` is not defined"
  | malformedLiteral token =>
    s!"`{token}` is neither a defined variable nor an integer literal"
  | alreadyPlaying => "playback is already in progress"
  | missingStoryFile folder => s!"story folder `{folder}` does not contain a story file"
  | unknownStory title => s!"no story titled `{title}`"
  | interrupted _ source => s!"story interrupted: {source.message}"
  | unreadable detail => detail
  | invalidSettings => "invalid configuration"
  | other message => message

/-- What lies behind a failure that wraps another. -/
def source? : Failure → Option Failure
  | interrupted _ source => some source
  | _ => none

def ofMarkupFault (f : Markup.Fault) : Failure := illFormedMarkup f.message

def ofStoryFault (f : Story.Fault) : Failure := malformedStory f.tag f.reason

end Failure
end AudioWalk
