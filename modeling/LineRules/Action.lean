import LineRules.Handler
import LineRules.Pattern

namespace LineRules

structure Action where
  pattern : Pattern
  handler : Handler

/-- The outcome of applying an action: its output if the pattern matched, the action with its state
after that, and the predicates that were asked. -/
structure Action.Applied where
  output : Option Output
  next : Action
  calls : List Call

namespace Action

def orPrint (p : Pattern) (h : Handler) : Action :=
  ⟨.orAlways p, .matchOrPrint h⟩

def eitherOr (first second : Action) : Action :=
  ⟨.eitherOr first.pattern second.pattern, .eitherOr second.handler first.handler⟩

def atStart (h : Handler) : Action :=
  ⟨.atStart, h⟩

def atEnd (h : Handler) : Action :=
  ⟨.atEnd, h⟩

def print : Action :=
  ⟨.always, .print⟩

def double : Action :=
  ⟨.always, .double⟩

def increment : Action :=
  ⟨.always, .counting⟩

def apply (a : Action) (state : RunState) (line : Option Line) : Applied :=
  let seen := a.pattern.evaluate line
  if seen.report.isHit then
    let made := a.handler.invoke state line seen.report
    ⟨some made.1, ⟨seen.next, made.2⟩, seen.calls⟩
  else ⟨none, ⟨seen.next, a.handler⟩, seen.calls⟩

def applyAll (state : RunState) : Action → List (Option Line) → List Applied
  | _, [] => []
  | a, line :: rest =>
    let applied := a.apply state line
    applied :: applyAll state applied.next rest

end Action

end LineRules
