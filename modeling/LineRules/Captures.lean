import LineRules.Regex.Basic

namespace LineRules

structure Captures where
  line : Line
  /-- The span of each group, from group 0 on; none for a group that took no part. -/
  groups : List (Option Span)
  names : List (Text × Nat)
deriving DecidableEq, Repr

namespace Captures

def span? (c : Captures) (n : Nat) : Option Span :=
  (c.groups[n]?).join

def get? (c : Captures) (n : Nat) : Option Text := do
  let span ← c.span? n
  c.line.slice? span.start span.stop

def numberOf? (c : Captures) (name : Text) : Option Nat :=
  c.names.lookup name

def namedSpan? (c : Captures) (name : Text) : Option Span := do
  c.span? (← c.numberOf? name)

def named? (c : Captures) (name : Text) : Option Text := do
  c.get? (← c.numberOf? name)

end Captures

structure Matcher where
  body : Regex
  names : List (Text × Nat)

namespace Matcher

def groupCount (m : Matcher) : Nat :=
  m.body.groupNumbers.foldl max 0 + 1

def reported (m : Matcher) (start : Nat) (found : Cursor) : List (Option Span) :=
  some ⟨start, found.offset⟩ ::
    (List.range (m.groupCount - 1)).map fun n => found.groups.lookup (n + 1)

def find? (m : Matcher) (line : Line) : Option Captures :=
  (m.body.search line).map fun found =>
    { line, groups := m.reported found.1 found.2, names := m.names }

end Matcher

end LineRules
