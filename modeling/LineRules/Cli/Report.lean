import LineRules.Program

namespace LineRules.Cli

inductive Style where
  | bold
  | dim
  | red
  | green
  | yellow
  | blue
  | cyan
  | gray
deriving DecidableEq, Repr

def Style.code : Style → Text
  | .bold => "1"
  | .dim => "2"
  | .red => "31"
  | .green => "32"
  | .yellow => "33"
  | .blue => "34"
  | .cyan => "36"
  | .gray => "90"

def paint (colored : Bool) (style : Style) (t : Text) : Text :=
  if colored then "\x1b[" ++ style.code ++ "m" ++ t ++ "\x1b[0m" else t

structure Report where
  path : String
  steps : List (String × Metrics)
  before : List Line
  after : List Line
  saved : Bool

namespace Report

def row (t : Text) : Text :=
  t ++ "\n"

def title (colored : Bool) (t : Text) : Text :=
  row ("\n" ++ paint colored .gray ("━━━ " ++ t ++ " ━━━"))

def amount (n : Nat) (unit : Text) : Text :=
  Decimal.numeral n ++ " " ++ unit

def stepRow (colored : Bool) (step : String × Metrics) : Text :=
  row ("  " ++ paint colored .blue (step.1.toList ++ ":") ++ " "
    ++ paint colored .yellow (amount step.2.records "records") ++ " "
    ++ paint colored .dim "→" ++ " "
    ++ paint colored .yellow (amount step.2.emitted "lines") ++ " "
    ++ paint colored .dim ("│ fired " ++ Decimal.numeral step.2.fired
        ++ " │ skipped " ++ Decimal.numeral step.2.skipped))

def removed (before after : List Line) : List Line :=
  before.filter fun l => !after.contains l

def added (before after : List Line) : List Line :=
  removed after before

def changes (colored : Bool) (before after : List Line) : Text :=
  let gone := removed before after
  let new := added before after
  if gone.isEmpty && new.isEmpty then row (paint colored .dim "  No lines changed")
  else
    (gone.map fun l => row ("  " ++ paint colored .red ("- " ++ l.trimEnd))).flatten
      ++ (new.map fun l => row ("  " ++ paint colored .green ("+ " ++ l.trimEnd))).flatten

def render (colored : Bool) (r : Report) : Text :=
  row ("\n" ++ paint colored .bold
      (paint colored .cyan ("⚙  Rewriting: \"" ++ r.path.toList ++ "\"")))
    ++ title colored "Programs" ++ (r.steps.map (stepRow colored)).flatten
    ++ title colored "Changes" ++ changes colored r.before r.after
    ++ title colored "Result"
    ++ row ("  " ++ if r.saved then paint colored .green "✓ file replaced"
        else paint colored .dim "dry run: file left untouched")
    ++ "\n"

end Report

end LineRules.Cli
