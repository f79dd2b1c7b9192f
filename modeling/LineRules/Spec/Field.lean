import LineRules.Pattern
import LineRules.Spec.Source

/-!
The lines of a package spec file that rules look for: tags, global macros, the fields that hold a
release, and the marker of the changelog. Each pattern captures the part that a rule replaces. A
pattern made from a name can fail, for the name may be too long.
-/
namespace LineRules.Spec

open Regex

def valueName : Text := "value"

def releaseName : Text := "release"

def blanks : Regex :=
  many .blank

def blanks1 : Regex :=
  many1 .blank

def tag (limit : Limit) (name : Text) : Except PatternError Pattern :=
  Pattern.ofSource limit (tagSource name) tagFlags

def globalMacro (limit : Limit) (name : Text) : Except PatternError Pattern :=
  Pattern.ofSource limit (macroSource name) macroFlags

def capturedValue? (p : Pattern) (line : Line) : Option Text :=
  ((p.evaluate (some line)).report.captures?).bind (·.named? valueName)

def releaseToEnd : Regex :=
  all [.group 1 (.seq (many1 .asciiDigit) (fewest .notLineFeed)), many .space, .look .textEnd]

def releaseAfter (head : List Regex) : Pattern :=
  .regex ⟨all (.look .textStart :: head ++ [releaseToEnd]), [(releaseName, 1)]⟩

def releaseFields : List Pattern :=
  [releaseAfter [textAnyCase "Release", blanks, text ":", blanks],
   releaseAfter [text "%define", blanks1, text "rel", blanks1],
   releaseAfter [text "%define", blanks1, text "release", blanks1],
   releaseAfter [textAnyCase "Release", blanks, text ":", blanks1, textAnyCase "%release_func",
     blanks1],
   releaseAfter [text "%define", blanks1, text "baserelease", blanks1]]

def releaseField : Pattern :=
  .oneOf releaseFields

/-- A release field that no version control keyword keeps up to date. -/
def bumpableField : Pattern :=
  .both (.negation (.regex ⟨text "$Revision:", []⟩)) releaseField

def changelogMarker : Pattern :=
  .regex ⟨text "%changelog", []⟩

end LineRules.Spec
