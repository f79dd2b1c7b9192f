import LineRules.Output
import LineRules.Match
import LineRules.Release
import LineRules.Spec.Changelog
import LineRules.Spec.Field

namespace LineRules

structure RunState where
  recordNumber : Nat
  fieldSeparator : Text
  recordSeparator : Text
deriving DecidableEq, Repr

inductive Handler where
  | print
  | double
  /-- The n-th time, the line n times, numbered from 0; `count` is the number of times so far. -/
  | increment (count : Nat)
  | replaceValue (value : Text)
  /-- The first handler for a report tagged left, the second for any other, without the tag. -/
  | eitherOr (left right : Handler)
  | emit (lines : List Line)
  | compute (f : RunState → Match → Option Line → List Line)
  | bumpRelease (rightmost : Bool)
  | changelog (entry : Spec.ChangelogEntry) (date : Date)

/-- Puts another text in place of a span of a line. A line that the span does not fit stays. -/
def Text.splice (line : Line) (span : Span) (replacement : Text) : Line :=
  match line.splitAt? span.start, line.splitAt? span.stop with
  | some (before, _), some (_, after) => before ++ replacement ++ after
  | _, _ => line

namespace Handler

def counting : Handler :=
  .increment 0

def matchOrPrint (h : Handler) : Handler :=
  .eitherOr .print h

def withValue (report : Match) (line : Line) (value : Text) : Line :=
  match report.captures?.bind (·.namedSpan? Spec.valueName) with
  | some span => Text.splice line span value
  | none => line

def withBump (report : Match) (line : Line) (rightmost : Bool) : Line :=
  match report.captures? with
  | none => line
  | some found =>
    match found.named? Spec.releaseName, found.namedSpan? Spec.releaseName with
    | some old, some span => Text.splice line span (Release.increase old rightmost)
    | _, _ => line

def invoke (state : RunState) (line : Option Line) : Handler → Match → Output × Handler
  | .print, _ => (.ofLine? line (.copies · 1), .print)
  | .double, _ => (.ofLine? line (.copies · 2), .double)
  | .increment count, _ => (.ofLine? line (.numbered · 0 (count + 1)), .increment (count + 1))
  | .replaceValue value, report =>
    (.ofLine? line fun l => .copies (withValue report l value) 1, .replaceValue value)
  | .eitherOr left right, report =>
    match report with
    | .tagged .left inner =>
      let made := left.invoke state line inner
      (made.1, .eitherOr made.2 right)
    | .tagged .right inner =>
      let made := right.invoke state line inner
      (made.1, .eitherOr left made.2)
    | plain =>
      let made := right.invoke state line plain
      (made.1, .eitherOr left made.2)
  | .emit lines, _ => (.lines lines, .emit lines)
  | .compute f, report => (.lines (f state report line), .compute f)
  | .bumpRelease rightmost, report =>
    (.ofLine? line fun l => .copies (withBump report l rightmost) 1, .bumpRelease rightmost)
  | .changelog entry date, _ =>
    (.ofLine? line fun l => .lines (entry.insertedAt date l), .changelog entry date)

def invokeAll (state : RunState) : Handler → List (Match × Option Line) → List Output
  | _, [] => []
  | h, (report, line) :: rest =>
    let made := h.invoke state line report
    made.1 :: invokeAll state made.2 rest

end Handler

end LineRules
