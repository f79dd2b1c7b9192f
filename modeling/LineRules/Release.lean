import LineRules.Captures
import LineRules.Decimal

/-!
Bumping release strings. Three schemes know where the numeral to advance stands:

* the main scheme takes the numeral at the start, or the one after a leading `0.`;
* the scheme for `jpp` releases keeps everything up to the last `Njpp.` and takes the main scheme on
  what follows;
* the fallback takes the numeral after the last dot, or appends `.1`, and always succeeds.

`Release.increase` picks a scheme and retreats to the fallback where it is refused. A numeral is a
run of ASCII digits; only the text between line feeds is looked at.
-/
namespace LineRules.Release

open Regex

inductive BumpError where
  | noMatch (release : Text)
  /-- A release candidate that is not numbered as a pre-release. -/
  | rejected (release : Text)
deriving DecidableEq, Repr

def BumpError.message : BumpError → Text
  | .noMatch release => ("release `" : Text) ++ release ++ "` does not match the scheme"
  | .rejected release => ("release `" : Text) ++ release ++ "`: bad pre-release versioning scheme"

def numeral : Regex :=
  many1 .asciiDigit

def restOfLine : Regex :=
  many .notLineFeed

def preReleaseShape : Matcher :=
  ⟨all [.look .textStart, text "0.", .group 1 numeral, .group 2 restOfLine], []⟩

def plainShape : Matcher :=
  ⟨all [.look .textStart, .group 1 numeral, .group 2 restOfLine], []⟩

/-- A line up to its last `jpp.` after a digit: what comes before the numeral, the numeral, the
mark, and the rest of the line. What begins with any characters matches from the start of a line if
it matches at all. -/
def jppShape : Matcher :=
  ⟨all [.look .lineStart, .group 1 restOfLine, .group 2 numeral, .group 3 (text "jpp."),
    .group 4 restOfLine], []⟩

def dottedShape : Matcher :=
  ⟨all [.look .lineStart, .group 1 (all [many1 .notLineFeed, text "."]), .group 2 numeral,
    .look .textEnd], []⟩

def part (found : Captures) (n : Nat) : Text :=
  (found.get? n).getD []

def increaseMain (release : Text) : Except BumpError Text :=
  if release.startsWith "0." then
    match preReleaseShape.find? release with
    | none => .error (.noMatch release)
    | some found => .ok ("0." ++ Decimal.succ (part found 1) ++ part found 2)
  else
    match plainShape.find? release with
    | none => .error (.noMatch release)
    | some found =>
      if (part found 2).contains "rc" then .error (.rejected release)
      else .ok (Decimal.succ (part found 1) ++ part found 2)

def increaseJpp (release : Text) : Except BumpError Text :=
  match jppShape.find? release with
  | none => .error (.noMatch release)
  | some found =>
    (increaseMain (part found 4)).map fun bumped =>
      part found 1 ++ Decimal.normalize (part found 2) ++ part found 3 ++ bumped

def increaseFallback (release : Text) : Text :=
  match dottedShape.find? release with
  | some found => part found 1 ++ Decimal.succ (part found 2)
  | none => release.trimEnd ++ ".1"

def mentionsJpp (release : Text) : Bool :=
  release.contains "jpp" && !release.startsWith "jpp"

def increase (release : Text) (rightmost : Bool) : Text :=
  if rightmost then increaseFallback release
  else
    match if mentionsJpp release then increaseJpp release else increaseMain release with
    | .ok bumped => bumped
    | .error _ => increaseFallback release

end LineRules.Release
