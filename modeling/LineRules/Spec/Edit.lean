import LineRules.Program
import LineRules.Spec.Field

namespace LineRules.Spec

/-- Replaces the value that a pattern captures, if the pattern could be made. -/
def replaceIn (made : Except PatternError Pattern) (value : Text) :
    Except PatternError Program := do
  return .ofList [.orPrint (← made) (.replaceValue value)]

def replaceTag (limit : Regex.Limit) (name value : Text) : Except PatternError Program :=
  replaceIn (tag limit name) value

def replaceMacro (limit : Regex.Limit) (name value : Text) : Except PatternError Program :=
  replaceIn (globalMacro limit name) value

def bumpAction (rightmost : Bool) : Action :=
  .orPrint bumpableField (.bumpRelease rightmost)

def bump (rightmost : Bool) : Program :=
  .ofList [bumpAction rightmost]

def changelogAction (entry : ChangelogEntry) (date : Date) : Action :=
  .orPrint changelogMarker (.changelog entry date)

def addChangelog (entry : ChangelogEntry) (date : Date) : Program :=
  .ofList [changelogAction entry date]

def bumpLines (options : Options) (lines : List Line) : List Line :=
  (((bump options.rightmost).start options).exhaust lines).output

def replaceTagLines (limit : Regex.Limit) (name value : Text) (lines : List Line) :
    Except PatternError (List Line) :=
  (replaceTag limit name value).map (·.apply lines)

def replaceMacroLines (limit : Regex.Limit) (name value : Text) (lines : List Line) :
    Except PatternError (List Line) :=
  (replaceMacro limit name value).map (·.apply lines)

def addChangelogLines (entry : ChangelogEntry) (date : Date) (lines : List Line) : List Line :=
  (addChangelog entry date).apply lines

end LineRules.Spec
