import LineRules.Drive
import Mathlib.Data.List.Induction

/-!
The work of a run, listed before any of it is done: which action is applied when, to which line and
with which record number. Going through the list gives everything that a run leaves behind, and
stopping on the way gives what there is so far. Running to the end by sweeps is going through the
whole list.
-/
namespace LineRules

inductive Stage where
  | opening
  | perLine
  | closing
deriving DecidableEq, Repr

namespace Program

def actionsAt (p : Program) : Stage → List Action
  | .opening => p.opening
  | .perLine => p.perLine
  | .closing => p.closing

def putAt (p : Program) (stage : Stage) (actions : List Action) : Program :=
  match stage with
  | .opening => { p with opening := actions }
  | .perLine => { p with perLine := actions }
  | .closing => { p with closing := actions }

@[simp]
theorem actionsAt_putAt (p : Program) (stage : Stage) (actions : List Action) :
    (p.putAt stage actions).actionsAt stage = actions := by
  cases stage <;> rfl

@[simp]
theorem putAt_putAt (p : Program) (stage : Stage) (earlier later : List Action) :
    (p.putAt stage earlier).putAt stage later = p.putAt stage later := by
  cases stage <;> rfl

theorem putAt_actionsAt (p : Program) (stage : Stage) :
    p.putAt stage (p.actionsAt stage) = p := by
  cases stage <;> rfl

def sorted (actions : List Action) : Program :=
  { opening := actions.filter fun a => a.pattern.isAtStart
    perLine := actions.filter fun a => !a.pattern.isAtStart && !a.pattern.isAtEnd
    closing := actions.filter fun a => a.pattern.isAtEnd }

theorem at_end_not_at_start (p : Pattern) (h : p.isAtEnd = true) : p.isAtStart = false := by
  cases p <;> simp_all [Pattern.isAtEnd, Pattern.isAtStart]

theorem sorted_append (actions : List Action) (a : Action) :
    sorted (actions ++ [a]) = (sorted actions).add a := by
  have apart := at_end_not_at_start a.pattern
  cases start : a.pattern.isAtStart <;> cases stop : a.pattern.isAtEnd <;>
    simp_all [sorted, add]

theorem ofList_sorted (actions : List Action) : ofList actions = sorted actions := by
  -- Each addition goes to the end of a list, so the last one is taken off first.
  induction actions using List.reverseRecOn with
  | nil => rfl
  | append_singleton actions a ih =>
    rw [ofList] at ih
    rw [sorted_append, ofList, List.foldl_append, ih]
    rfl

end Program

inductive Event where
  | read
  /-- Applies the action of a number to a line, or to no line, at a record number. -/
  | apply (stage : Stage) (n record : Nat) (line : Option Line)
  | finish

namespace Event

def applyFrom (stage : Stage) (first count record : Nat) (line : Option Line) : List Event :=
  (List.range' first count).map fun n => .apply stage n record line

def forLine (actions record : Nat) (l : Line) : List Event :=
  .read :: applyFrom .perLine 0 actions record (some l) ++ [.finish]

def forLines (actions record : Nat) (input : List Line) : List Event :=
  (input.zipIdx record).flatMap fun numbered => forLine actions numbered.2 numbered.1

/-- The opening actions once, the others for every line in order, the closing actions once. -/
def agenda (p : Program) (record : Nat) (input : List Line) : List Event :=
  applyFrom .opening 0 p.opening.length record none ++
    (forLines p.perLine.length record input ++
      applyFrom .closing 0 p.closing.length (record + input.length) none)

theorem applyFrom_succ (stage : Stage) (first count record : Nat) (line : Option Line) :
    applyFrom stage first (count + 1) record line =
      .apply stage first record line :: applyFrom stage (first + 1) count record line := by
  simp [applyFrom, List.range'_succ]

theorem forLines_cons (actions record : Nat) (l : Line) (rest : List Line) :
    forLines actions record (l :: rest) =
      forLine actions record l ++ forLines actions (record + 1) rest := by
  simp [forLines]

end Event

structure Eager where
  run : Run
  consumed : Nat
  output : List Line
  calls : List Call

namespace Eager

def start (r : Run) : Eager :=
  ⟨r, 0, [], []⟩

def counted (m : Metrics) (fired : Bool) (lines : Nat) : Metrics :=
  { m with
    emitted := m.emitted + lines
    fired := m.fired + if fired then 1 else 0
    skipped := m.skipped + if fired then 0 else 1 }

def applyAction (e : Eager) (stage : Stage) (n record : Nat) (line : Option Line)
    (a : Action) : Eager :=
  let applied := a.apply { e.run.state with recordNumber := record } line
  let lines := (applied.output.map Output.toList).getD []
  { e with
    run := { e.run with
      actions := e.run.actions.putAt stage ((e.run.actions.actionsAt stage).set n applied.next)
      metrics := counted e.run.metrics applied.output.isSome lines.length }
    output := e.output ++ lines
    calls := e.calls ++ applied.calls }

def step (e : Eager) : Event → Eager
  | .read => { e with consumed := e.consumed + 1 }
  | .apply stage n record line =>
    match (e.run.actions.actionsAt stage)[n]? with
    | some a => e.applyAction stage n record line a
    | none => e
  | .finish =>
    { e with
      run := { e.run with
        state := { e.run.state with recordNumber := e.run.state.recordNumber + 1 }
        metrics := { e.run.metrics with records := e.run.metrics.records + 1 } } }

def steps (e : Eager) (events : List Event) : Eager :=
  events.foldl step e

/-- Goes on until there are `k` lines of output, and no further: what was done, and what is left. -/
def produce (k : Nat) (e : Eager) : List Event → Eager × List Event
  | [] => (e, [])
  | event :: rest =>
    if k ≤ e.output.length then (e, event :: rest) else (e.step event).produce k rest

theorem steps_append (e : Eager) (first later : List Event) :
    e.steps (first ++ later) = (e.steps first).steps later := by
  simp [steps]

@[simp]
theorem steps_nil (e : Eager) : e.steps [] = e :=
  rfl

@[simp]
theorem steps_cons (e : Eager) (event : Event) (rest : List Event) :
    e.steps (event :: rest) = (e.step event).steps rest :=
  rfl

theorem step_apply (e : Eager) {stage : Stage} {applied waiting : List Action} {a : Action}
    (record : Nat) (line : Option Line)
    (stand : e.run.actions.actionsAt stage = applied ++ a :: waiting) :
    e.step (.apply stage applied.length record line) =
      e.applyAction stage applied.length record line a := by
  simp [step, stand]

theorem step_output (e : Eager) (event : Event) :
    ∃ lines, (e.step event).output = e.output ++ lines := by
  cases event with
  | read => exact ⟨[], by simp [step]⟩
  | finish => exact ⟨[], by simp [step]⟩
  | apply stage n record line =>
    simp only [step]
    split
    · exact ⟨_, rfl⟩
    · exact ⟨[], by simp⟩

theorem steps_output (e : Eager) (events : List Event) :
    ∃ lines, (e.steps events).output = e.output ++ lines := by
  induction events generalizing e with
  | nil => exact ⟨[], by simp⟩
  | cons event rest ih =>
    obtain ⟨first, one⟩ := step_output e event
    obtain ⟨later, more⟩ := ih (e.step event)
    exact ⟨first ++ later, by rw [steps_cons, more, one, List.append_assoc]⟩

theorem produce_enough {k : Nat} {e : Eager} (enough : k ≤ e.output.length)
    (events : List Event) : e.produce k events = (e, events) := by
  cases events <;> simp [produce, enough]

theorem produce_more {k : Nat} {e : Eager} (lacking : e.output.length < k) (event : Event)
    (rest : List Event) : e.produce k (event :: rest) = (e.step event).produce k rest := by
  simp [produce, Nat.not_le.mpr lacking]

theorem produce_produce {j k : Nat} (le : j ≤ k) (e : Eager) (events : List Event) :
    (e.produce j events).1.produce k (e.produce j events).2 = e.produce k events := by
  induction events generalizing e with
  | nil => rfl
  | cons event rest ih =>
    by_cases enough : j ≤ e.output.length
    · rw [produce_enough enough]
    · rw [produce_more (by omega), produce_more (by omega), ih]

theorem steps_produce (k : Nat) (e : Eager) (events : List Event) :
    (e.produce k events).1.steps (e.produce k events).2 = e.steps events := by
  induction events generalizing e with
  | nil => rfl
  | cons event rest ih =>
    by_cases enough : k ≤ e.output.length
    · rw [produce_enough enough]
    · rw [produce_more (by omega), ih, steps_cons]

/-- A run that stops at its `k`-th line stops right after the application that made it. -/
theorem produce_split {k : Nat} {e : Eager} {events : List Event} (lacking : e.output.length < k)
    (enough : k ≤ (e.steps events).output.length) :
    ∃ done stage n record line todo, events = done ++ .apply stage n record line :: todo ∧
      (e.steps done).output.length < k ∧
      k ≤ (e.steps (done ++ [.apply stage n record line])).output.length ∧
      e.produce k events = (e.steps (done ++ [.apply stage n record line]), todo) := by
  induction events generalizing e with
  | nil =>
    rw [steps_nil] at enough
    omega
  | cons event rest ih =>
    by_cases made : k ≤ (e.step event).output.length
    · cases event with
      | read => exact absurd made (Nat.not_le.mpr lacking)
      | finish => exact absurd made (Nat.not_le.mpr lacking)
      | apply stage n record line =>
        refine ⟨[], stage, n, record, line, rest, rfl, lacking, made, ?_⟩
        rw [produce_more lacking, produce_enough made]
        rfl
    · obtain ⟨done, stage, n, record, line, todo, rfl, before, after, stop⟩ :=
        ih (Nat.lt_of_not_le made) enough
      refine ⟨event :: done, stage, n, record, line, todo, rfl, before, after, ?_⟩
      rw [produce_more lacking, stop]
      rfl

theorem step_emitted (e : Eager) (event : Event) :
    (e.step event).run.metrics.emitted + e.output.length =
      e.run.metrics.emitted + (e.step event).output.length := by
  cases event with
  | read => rfl
  | finish => rfl
  | apply stage n record line =>
    simp only [step]
    split
    · simp only [applyAction, counted, List.length_append]
      omega
    · rfl

theorem steps_emitted (e : Eager) (events : List Event) :
    (e.steps events).run.metrics.emitted + e.output.length =
      e.run.metrics.emitted + (e.steps events).output.length := by
  induction events generalizing e with
  | nil => rfl
  | cons event rest ih =>
    have first := step_emitted e event
    have later := ih (e.step event)
    rw [steps_cons]
    omega

theorem steps_applyFrom (e : Eager) (stage : Stage) (applied waiting : List Action)
    (record : Nat) (line : Option Line)
    (stand : e.run.actions.actionsAt stage = applied ++ waiting) :
    e.steps (Event.applyFrom stage applied.length waiting.length record line) =
      let s := Action.sweep { e.run.state with recordNumber := record } line waiting
      ⟨⟨e.run.state, e.run.actions.putAt stage (applied ++ s.next), Run.count e.run.metrics s⟩,
        e.consumed, e.output ++ s.output, e.calls ++ s.calls⟩ := by
  induction waiting generalizing e applied with
  | nil =>
    have same := e.run.actions.putAt_actionsAt stage
    rw [stand, List.append_nil] at same
    simp [Event.applyFrom, Action.sweep, Run.count, same]
  | cons a waiting ih =>
    -- The seam moves by one action, which now stands among those applied with its next state.
    have later := ih (e.applyAction stage applied.length record line a)
      (applied ++ [(a.apply { e.run.state with recordNumber := record } line).next])
      (by simp [applyAction, stand])
    rw [List.length_append, List.length_singleton] at later
    rw [List.length_cons, Event.applyFrom_succ, steps_cons, step_apply e record line stand, later]
    simp [applyAction, Action.sweep, Run.count, counted, Nat.add_assoc]

def afterOutcome (e : Eager) (o : Outcome) (lines : Nat) : Eager :=
  ⟨o.run, e.consumed + lines, e.output ++ o.output, e.calls ++ o.calls⟩

theorem steps_openUp (e : Eager) :
    e.steps (Event.applyFrom .opening 0 e.run.actions.opening.length e.run.state.recordNumber none)
      = e.afterOutcome e.run.openUp 0 :=
  steps_applyFrom e _ [] _ _ none rfl

theorem steps_closeDown (e : Eager) :
    e.steps (Event.applyFrom .closing 0 e.run.actions.closing.length e.run.state.recordNumber none)
      = e.afterOutcome e.run.closeDown 0 :=
  steps_applyFrom e _ [] _ _ none rfl

theorem steps_takeLine (e : Eager) (l : Line) :
    e.steps (Event.forLine e.run.actions.perLine.length e.run.state.recordNumber l) =
      e.afterOutcome (e.run.takeLine l) 1 := by
  have swept := steps_applyFrom (e.step .read) .perLine [] e.run.actions.perLine
    e.run.state.recordNumber (some l) rfl
  calc e.steps (Event.forLine e.run.actions.perLine.length e.run.state.recordNumber l)
    _ = ((e.step .read).steps (Event.applyFrom .perLine 0 e.run.actions.perLine.length
          e.run.state.recordNumber (some l))).step .finish := by
      simp [Event.forLine, steps_append]
    _ = e.afterOutcome (e.run.takeLine l) 1 := congrArg (step · .finish) swept

theorem sweep_length (state : RunState) (line : Option Line) (actions : List Action) :
    (Action.sweep state line actions).next.length = actions.length := by
  induction actions with
  | nil => rfl
  | cons a rest ih => simp [Action.sweep, ih]

theorem takeLine_actions (r : Run) (l : Line) :
    (r.takeLine l).run.actions.perLine.length = r.actions.perLine.length ∧
      (r.takeLine l).run.actions.closing = r.actions.closing :=
  ⟨sweep_length _ _ _, rfl⟩

theorem takeLines_closing (r : Run) (input : List Line) :
    (r.takeLines input).run.actions.closing = r.actions.closing ∧
      (r.takeLines input).run.state.recordNumber = r.state.recordNumber + input.length := by
  induction input generalizing r with
  | nil => exact ⟨rfl, rfl⟩
  | cons l rest ih =>
    obtain ⟨closing, records⟩ := ih (r.takeLine l).run
    refine ⟨closing, records.trans ?_⟩
    simp only [Run.takeLine, List.length_cons]
    omega

theorem steps_takeLines (e : Eager) (input : List Line) :
    e.steps (Event.forLines e.run.actions.perLine.length e.run.state.recordNumber input) =
      e.afterOutcome (e.run.takeLines input) input.length := by
  induction input generalizing e with
  | nil => simp [Event.forLines, afterOutcome, Run.takeLines]
  | cons l rest ih =>
    have later := ih (e.afterOutcome (e.run.takeLine l) 1)
    have same : (e.run.takeLine l).run.actions.perLine.length = e.run.actions.perLine.length :=
      (takeLine_actions e.run l).1
    have next : (e.run.takeLine l).run.state.recordNumber = e.run.state.recordNumber + 1 := rfl
    simp only [afterOutcome, same, next] at later
    rw [Event.forLines_cons, steps_append, steps_takeLine, afterOutcome, later]
    simp [afterOutcome, Run.takeLines, Nat.add_comm, Nat.add_left_comm]

/-- Running to the end by sweeps is going through the whole list of work. -/
theorem steps_agenda (e : Eager) (input : List Line) :
    e.steps (Event.agenda e.run.actions e.run.state.recordNumber input) =
      e.afterOutcome (e.run.exhaust input) input.length := by
  obtain ⟨closing, records⟩ := takeLines_closing e.run.openUp.run input
  let opened := e.afterOutcome e.run.openUp 0
  let taken := opened.afterOutcome (e.run.openUp.run.takeLines input) input.length
  have lines : opened.steps
      (Event.forLines e.run.actions.perLine.length e.run.state.recordNumber input) = taken :=
    steps_takeLines opened input
  have closed : taken.steps (Event.applyFrom .closing 0 e.run.actions.closing.length
      (e.run.state.recordNumber + input.length) none) =
        taken.afterOutcome taken.run.closeDown 0 := by
    have same : taken.run.actions.closing = e.run.actions.closing := closing
    have count : taken.run.state.recordNumber = e.run.state.recordNumber + input.length := records
    rw [← same, ← count]
    exact steps_closeDown taken
  rw [Event.agenda, steps_append, steps_append, steps_openUp, lines, closed]
  simp [taken, opened, afterOutcome, Run.exhaust]

end Eager

end LineRules
