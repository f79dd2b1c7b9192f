import LineRules.Drive

/-!
A workshop keeps one program as a template, with all runs that were started from it. Runs are
numbered in the order in which they were started; each keeps the actions that the template had then,
and the states that its own inputs left in them.
-/
namespace LineRules

structure Workshop where
  template : Program
  runs : List Run

namespace Workshop

inductive Step where
  | add (a : Action)
  | start (options : Options)
  | process (run : Nat) (input : List Line) (pulls : Option Nat)
  | apply (input : List Line)

inductive Shown where
  | sizes (opening perLine closing : Nat)
  | started (number : Nat) (run : Run)
  | processed (sights : List Drive.Sight) (calls : List Call)
  | applied (output : List Line) (calls : List Call)
  | unknown

def ofProgram (p : Program) : Workshop :=
  ⟨p, []⟩

def processRun (r : Run) (input : List Line) (pulls : Option Nat) : List Drive.Sight × Drive :=
  let d := r.drive input
  let later := match pulls with
    | some n => d.pulls n
    | none => d.pullAll
  (d.sight none :: later.1, later.2)

def step (w : Workshop) : Step → Workshop × Shown
  | .add a =>
    let template := w.template.add a
    ({ w with template },
      .sizes template.opening.length template.perLine.length template.closing.length)
  | .start options =>
    let run := w.template.start options
    ({ w with runs := w.runs ++ [run] }, .started w.runs.length run)
  | .process n input pulls =>
    match w.runs[n]? with
    | none => (w, .unknown)
    | some run =>
      let done := processRun run input pulls
      ({ w with runs := w.runs.set n done.2.current }, .processed done.1 done.2.calls)
  | .apply input =>
    let done := (w.template.start {}).exhaust input
    (w, .applied done.output done.calls)

def steps (w : Workshop) : List Step → Workshop × List Shown
  | [] => (w, [])
  | s :: rest =>
    let first := w.step s
    let later := first.1.steps rest
    (later.1, first.2 :: later.2)

end Workshop

end LineRules
