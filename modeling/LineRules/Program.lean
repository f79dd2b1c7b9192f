import LineRules.Action

/-!
A program holds actions for the time before the input, for every line, and for the time after the
input. It is a template: a run works on copies of the actions, whose states start out as they are
here. Running a program to its end gives its output, the counters, and the states left behind.
-/
namespace LineRules

structure Options where
  fieldSeparator : Text := " "
  recordSeparator : Text := "\n"
  rightmost : Bool := false
deriving DecidableEq, Repr

structure Metrics where
  records : Nat := 0
  emitted : Nat := 0
  fired : Nat := 0
  skipped : Nat := 0
deriving DecidableEq, Repr

structure Program where
  opening : List Action := []
  perLine : List Action := []
  closing : List Action := []

structure Run where
  state : RunState
  actions : Program
  metrics : Metrics

namespace Program

def empty : Program := {}

def add (p : Program) (a : Action) : Program :=
  if a.pattern.isAtStart then { p with opening := p.opening ++ [a] }
  else if a.pattern.isAtEnd then { p with closing := p.closing ++ [a] }
  else { p with perLine := p.perLine ++ [a] }

def ofList (actions : List Action) : Program :=
  actions.foldl add empty

def repeater : Program :=
  ofList [.print]

def doubler : Program :=
  ofList [.double]

def incrementer : Program :=
  ofList [.increment]

def start (p : Program) (options : Options) : Run :=
  ⟨⟨0, options.fieldSeparator, options.recordSeparator⟩, p, {}⟩

end Program

structure Sweep where
  output : List Line
  next : List Action
  fired : Nat
  skipped : Nat
  calls : List Call

def Action.sweep (state : RunState) (line : Option Line) : List Action → Sweep
  | [] => ⟨[], [], 0, 0, []⟩
  | a :: rest =>
    let applied := a.apply state line
    let later := sweep state line rest
    ⟨(applied.output.map Output.toList).getD [] ++ later.output, applied.next :: later.next,
      (if applied.output.isSome then 1 else 0) + later.fired,
      (if applied.output.isSome then 0 else 1) + later.skipped,
      applied.calls ++ later.calls⟩

structure Outcome where
  output : List Line
  calls : List Call
  run : Run

namespace Run

def count (metrics : Metrics) (s : Sweep) : Metrics :=
  { metrics with
    emitted := metrics.emitted + s.output.length
    fired := metrics.fired + s.fired
    skipped := metrics.skipped + s.skipped }

def openUp (r : Run) : Outcome :=
  let s := Action.sweep r.state none r.actions.opening
  ⟨s.output, s.calls,
    { r with actions := { r.actions with opening := s.next }, metrics := count r.metrics s }⟩

def takeLine (r : Run) (line : Line) : Outcome :=
  let s := Action.sweep r.state (some line) r.actions.perLine
  let metrics := count r.metrics s
  ⟨s.output, s.calls,
    { state := { r.state with recordNumber := r.state.recordNumber + 1 }
      actions := { r.actions with perLine := s.next }
      metrics := { metrics with records := metrics.records + 1 } }⟩

def takeLines (r : Run) : List Line → Outcome
  | [] => ⟨[], [], r⟩
  | line :: rest =>
    let first := r.takeLine line
    let later := first.run.takeLines rest
    ⟨first.output ++ later.output, first.calls ++ later.calls, later.run⟩

def closeDown (r : Run) : Outcome :=
  let s := Action.sweep r.state none r.actions.closing
  ⟨s.output, s.calls,
    { r with actions := { r.actions with closing := s.next }, metrics := count r.metrics s }⟩

def exhaust (r : Run) (input : List Line) : Outcome :=
  let first := r.openUp
  let middle := first.run.takeLines input
  let last := middle.run.closeDown
  ⟨first.output ++ middle.output ++ last.output,
    first.calls ++ middle.calls ++ last.calls, last.run⟩

end Run

def Program.apply (p : Program) (input : List Line) : List Line :=
  ((p.start {}).exhaust input).output

end LineRules
