import LineRules.Proofs.Metrics

namespace LineRules

namespace Drive

theorem made_of_idle {d : Drive} (idle : d.pull = (none, d)) (handed : List Line) :
    d.made handed = ⟨d.current, d.consumed, handed, d.calls⟩ := by
  have drained : d.pending.next? = none := by
    cases next : d.pending.next? with
    | none => rfl
    | some x => simp [pull_of_next next] at idle
  have nothing : d.pending.toList = [] := drained_of_next drained
  have size : d.pending.size = 0 := by rw [← Output.size_toList, nothing]; rfl
  simp only [made, nothing, size, List.append_nil, Nat.add_zero, ← current_metrics]

theorem handed_of_items {sights : List Sight} {lines : List Line}
    (items : sights.map Sight.item = lines.map some ++ [none]) :
    sights.filterMap Sight.item = lines := by
  have handed : (sights.map Sight.item).filterMap id = lines := by
    rw [items]
    simp
  rwa [List.filterMap_map] at handed

end Drive

namespace Run

/-- A call on a run in any state, pulled until nothing comes, gives and leaves what the list of its
work gives and leaves. -/
theorem drained_call (r : Run) (input : List Line) :
    let drained := (r.drive input).pullAll
    let done := (Eager.start r).steps (Event.agenda r.actions r.state.recordNumber input)
    drained.1.map Drive.Sight.item = done.output.map some ++ [none] ∧
      drained.2.current = done.run ∧ drained.2.calls = done.calls := by
  intro drained done
  have whole : (r.drive input).whole [] = done := by
    rw [Drive.whole, Drive.made_drive, Drive.left_drive]
  have all : drained = (r.drive input).pulls (done.output.length + 1) := by
    have pulls := (r.drive input).pullAll_pulls []
    rwa [whole] at pulls
  have items := (r.drive input).pulls_items [] (done.output.length + 1)
  obtain ⟨made, idle⟩ := (r.drive input).pulls_beyond [] (done.output.length + 1)
    (by rw [whole]; simp)
  rw [whole, ← all] at items
  rw [Drive.made_of_idle idle, ← all, whole] at made
  refine ⟨?_, congrArg Eager.run made, congrArg Eager.calls made⟩
  rw [items, List.length_nil, items_to_end]

theorem drained_exhaust (r : Run) (input : List Line) :
    let drained := (r.drive input).pullAll
    let done := r.exhaust input
    drained.1.filterMap Drive.Sight.item = done.output ∧ drained.2.current = done.run ∧
      drained.2.calls = done.calls := by
  intro drained done
  obtain ⟨items, current, calls⟩ := r.drained_call input
  have swept : (Eager.start r).steps (Event.agenda r.actions r.state.recordNumber input) =
      (Eager.start r).afterOutcome done input.length := (Eager.start r).steps_agenda input
  rw [swept] at items current calls
  exact ⟨Drive.handed_of_items items, current, calls⟩

theorem left_sizes (r : Run) (input : List Line) (k : Nat) :
    ((r.drive input).pulls k).2.current.actions.sizes = r.actions.sizes := by
  have same := ((r.drive input).pulls_progress k).sizes
  rwa [Drive.current_drive] at same

theorem takeLines_append (r : Run) (xs ys : List Line) :
    let first := r.takeLines xs
    let later := first.run.takeLines ys
    r.takeLines (xs ++ ys) =
      ⟨first.output ++ later.output, first.calls ++ later.calls, later.run⟩ := by
  induction xs generalizing r with
  | nil => rfl
  | cons l rest ih => simp [takeLines, ih]

def LinesOnly (r : Run) : Prop :=
  r.actions.opening = [] ∧ r.actions.closing = []

variable {r : Run}

theorem LinesOnly.openUp (only : r.LinesOnly) : r.openUp = ⟨[], [], r⟩ := by
  obtain ⟨state, ⟨opening, perLine, closing⟩, metrics⟩ := r
  obtain ⟨rfl, -⟩ := only
  rfl

theorem LinesOnly.closeDown (only : r.LinesOnly) : r.closeDown = ⟨[], [], r⟩ := by
  obtain ⟨state, ⟨opening, perLine, closing⟩, metrics⟩ := r
  obtain ⟨-, rfl⟩ := only
  rfl

theorem takeLines_opening (r : Run) (input : List Line) :
    (r.takeLines input).run.actions.opening = r.actions.opening := by
  induction input generalizing r with
  | nil => rfl
  | cons l rest ih => exact ih (r.takeLine l).run

theorem LinesOnly.takeLines (only : r.LinesOnly) (input : List Line) :
    (r.takeLines input).run.LinesOnly :=
  ⟨(takeLines_opening r input).trans only.1, (Eager.takeLines_closing r input).1.trans only.2⟩

theorem LinesOnly.exhaust (only : r.LinesOnly) (input : List Line) :
    r.exhaust input = r.takeLines input := by
  simp only [Run.exhaust, only.openUp, (only.takeLines input).closeDown, List.nil_append,
    List.append_nil]

theorem exhaust_opening (r : Run) (input : List Line) :
    (r.exhaust input).run.actions.opening =
      (Action.sweep r.state none r.actions.opening).next :=
  takeLines_opening r.openUp.run input

theorem exhaust_recordNumber (r : Run) (input : List Line) :
    (r.exhaust input).run.state.recordNumber = r.state.recordNumber + input.length :=
  (Eager.takeLines_closing r.openUp.run input).2

end Run

/-- Lines that come in two calls on one run are treated as in one call, if the program has neither
openers nor closers: the output, the states, the record number, the counters and the predicates that
are asked are the same. In general the second call does all the work again, the openers first: their
states are those that the first call left, and the records and the counters go on from there, be it
that the first call was pulled to its end or dropped before. -/
theorem calls_continue_each_other (p : Program) (options : Options) (xs ys : List Line) :
    let fresh := p.start options
    let first := (fresh.drive xs).pullAll
    let second := (first.2.current.drive ys).pullAll
    let whole := (fresh.drive (xs ++ ys)).pullAll
    (p.opening = [] → p.closing = [] →
      first.1.filterMap Drive.Sight.item ++ second.1.filterMap Drive.Sight.item =
        whole.1.filterMap Drive.Sight.item ∧
      second.2.current = whole.2.current ∧ first.2.calls ++ second.2.calls = whole.2.calls) ∧
    first.2.current.state.recordNumber = xs.length ∧
    first.2.current.actions.opening = (Action.sweep fresh.state none p.opening).next ∧
    ∀ left, (left = first.2.current ∨ ∃ k, left = ((fresh.drive xs).pulls k).2.current) →
      let again := (left.drive ys).pullAll
      let replay :=
        (Eager.start left).steps (Event.agenda left.actions left.state.recordNumber ys)
      left.actions.sizes = p.sizes ∧
        again.1.map Drive.Sight.item = replay.output.map some ++ [none] ∧
        again.2.current = replay.run ∧ again.2.calls = replay.calls := by
  intro fresh first second whole
  obtain ⟨firstOutput, firstRun, firstCalls⟩ := fresh.drained_exhaust xs
  refine ⟨?_, ?_, ?_, ?_⟩
  · intro noOpeners noClosers
    have only : fresh.LinesOnly := ⟨noOpeners, noClosers⟩
    obtain ⟨output, run, calls⟩ := first.2.current.drained_exhaust ys
    obtain ⟨wholeOutput, wholeRun, wholeCalls⟩ := fresh.drained_exhaust (xs ++ ys)
    rw [firstRun, only.exhaust, (only.takeLines xs).exhaust] at output run calls
    rw [only.exhaust] at firstRun firstOutput firstCalls
    rw [only.exhaust, fresh.takeLines_append] at wholeOutput wholeRun wholeCalls
    refine ⟨?_, ?_, ?_⟩
    · rw [wholeOutput, firstOutput, ← output, ← firstRun]
    · rw [wholeRun, ← run, ← firstRun]
    · rw [wholeCalls, firstCalls, ← calls, ← firstRun]
  · rw [firstRun, Run.exhaust_recordNumber]
    exact Nat.zero_add _
  · rw [firstRun, Run.exhaust_opening]
    rfl
  · intro left start again replay
    refine ⟨?_, left.drained_call ys⟩
    rcases start with rfl | ⟨k, rfl⟩
    · have all : first = _ := (fresh.drive xs).pullAll_pulls []
      rw [all]
      exact fresh.left_sizes xs _
    · exact fresh.left_sizes xs k

theorem count_and_range_go_on :
    let opener : Pattern := .test ⟨"a", fun line => line = "a\n"⟩
    let p := Program.ofList [.increment, ⟨.closedRange opener .never, .emit ["inside\n"]⟩]
    let first := ((p.start {}).drive ["a\n"]).pullAll
    let second := (first.2.current.drive ["b\n"]).pullAll
    p.opening = [] ∧ p.closing = [] ∧
      first.1.filterMap Drive.Sight.item ++ second.1.filterMap Drive.Sight.item =
        (["0: a\n", "inside\n", "0: b\n", "1: b\n", "inside\n"] : List Line) := by
  intro opener p first second
  obtain ⟨together, -⟩ := calls_continue_each_other p {} ["a\n"] ["b\n"]
  obtain ⟨output, -, -⟩ := together rfl rfl
  obtain ⟨lines, -, -⟩ := (p.start {}).drained_exhaust ["a\n", "b\n"]
  exact ⟨rfl, rfl, output.trans (lines.trans (by decide))⟩

end LineRules
