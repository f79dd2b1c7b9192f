import LineRules.Proofs.Schedule

/-!
A drive does the work of the list, entry by entry, and each pull does just as much of it as one more
line takes. At every point what a drive has done, with the output that waits to be handed out, is
what the list gives up to that entry; so pulling to the end gives the whole list, and a pull that
gave a line leaves what the list gives up to the entry that made the line.
-/
namespace LineRules

theorem Output.size_toList (o : Output) : o.toList.length = o.size := by
  cases o <;> simp [toList, size]

theorem Output.toList_next (o : Output) :
    o.toList = match o.next? with
      | some (l, rest) => l :: rest.toList
      | .none => [] := by
  cases o with
  | lines rest => cases rest <;> rfl
  | copies l left => cases left <;> rfl
  | numbered l next stop =>
    by_cases less : next < stop
    · have more : stop - next = (stop - (next + 1)) + 1 := by omega
      simp [toList, next?, less, more, List.range'_succ]
    · have past : stop - next = 0 := by omega
      simp [toList, next?, less, past]

namespace Drive

def passLeft (stage : Stage) (pass : Pass) (record : Nat) (line : Option Line) : List Event :=
  Event.applyFrom stage pass.applied.length pass.waiting.length record line

def linesLeft (d : Drive) (record : Nat) : List Event :=
  Event.forLines d.current.actions.perLine.length record d.input ++
    Event.applyFrom .closing 0 d.current.actions.closing.length (record + d.input.length) none

/-- The entries of the list of work that a drive has not done. -/
def left (d : Drive) : List Event :=
  let record := d.run.state.recordNumber
  match d.phase with
  | .opening pass => passLeft .opening pass record none ++ d.linesLeft record
  | .reading => d.linesLeft record
  | .line l pass =>
    passLeft .perLine pass record (some l) ++ .finish :: d.linesLeft (record + 1)
  | .closing pass => passLeft .closing pass record none
  | .finished => []

/-- What a drive has done, given the lines that it handed out. Lines that wait are counted as made.
-/
def made (d : Drive) (handed : List Line) : Eager :=
  ⟨{ d.current with
      metrics := { d.run.metrics with emitted := d.run.metrics.emitted + d.pending.size } },
    d.consumed, handed ++ d.pending.toList, d.calls⟩

theorem left_drive (r : Run) (input : List Line) :
    (r.drive input).left = Event.agenda r.actions r.state.recordNumber input := by
  simp [left, Run.drive, passLeft, linesLeft, Pass.start, Pass.actions, current, Event.agenda]

theorem made_drive (r : Run) (input : List Line) : (r.drive input).made [] = Eager.start r := by
  simp [made, Run.drive, Pass.start, Pass.actions, current, Eager.start, Output.none, Output.size,
    Output.toList]

def Applies (stage : Stage) (phase : Pass → Phase) : Prop :=
  ∀ (d : Drive) (pass : Pass), d.phase = phase pass →
    d.current = { d.run with actions := d.run.actions.putAt stage pass.actions }

theorem opening_applies : Applies .opening .opening := by
  intro d pass here
  simp [current, here, Program.putAt]

theorem line_applies (l : Line) : Applies .perLine (.line l) := by
  intro d pass here
  simp [current, here, Program.putAt]

theorem closing_applies : Applies .closing .closing := by
  intro d pass here
  simp [current, here, Program.putAt]

theorem applyNext_made {stage : Stage} {phase : Pass → Phase} (applies : Applies stage phase)
    {d : Drive} (drained : d.pending.toList = []) (line : Option Line) {pass : Pass} {a : Action}
    {waiting : List Action} (here : d.phase = phase pass) (next : pass.waiting = a :: waiting)
    (handed : List Line) :
    (d.applyNext phase line pass a waiting).made handed = (d.made handed).step
      (.apply stage pass.applied.length d.run.state.recordNumber line) := by
  have nothing : d.pending.size = 0 := by rw [← Output.size_toList, drained]; rfl
  have before := applies d pass here
  have after := applies (d.applyNext phase line pass a waiting) _ rfl
  have stand : (d.made handed).run.actions.actionsAt stage = pass.applied ++ a :: waiting := by
    simp [made, before, Pass.actions, next]
  rw [Eager.step_apply _ _ _ stand]
  simp only [made, before, after, Eager.applyAction, drained, nothing]
  simp only [applyNext, Pass.actions, next, Program.putAt_putAt, Program.actionsAt_putAt]
  generalize a.apply d.run.state line = applied
  cases applied.output with
  | none => simp [Eager.counted, Output.none, Output.size, Output.toList]
  | some o => simp [Eager.counted, Output.size_toList]

/-- A piece of work is an entry of the list, or a change from one stage to the next. -/
theorem work_made {d e : Drive} (drained : d.pending.toList = []) (more : d.work = some e)
    (handed : List Line) :
    d.left = e.left ∧ e.made handed = d.made handed ∨
      ∃ event, d.left = event :: e.left ∧ e.made handed = (d.made handed).step event := by
  -- At the end of a pass the stage changes, which is no entry, except that a line is finished.
  cases here : d.phase with
  | opening pass =>
    cases next : pass.waiting with
    | nil =>
      left
      simp only [work, here, next, Option.some.injEq] at more
      subst more
      simp [left, linesLeft, passLeft, made, current, Pass.actions, Event.applyFrom, here, next]
    | cons a waiting =>
      right
      simp only [work, here, next, Option.some.injEq] at more
      subst more
      refine ⟨_, ?_, applyNext_made opening_applies drained none here next handed⟩
      simp [left, linesLeft, passLeft, here, next, applyNext, Event.applyFrom_succ, current,
        Pass.actions]
  | reading =>
    cases next : d.input with
    | nil =>
      left
      simp only [work, here, next, Option.some.injEq] at more
      subst more
      simp [left, linesLeft, passLeft, made, current, Pass.actions, Pass.start, Event.forLines,
        here, next]
    | cons l input =>
      right
      simp only [work, here, next, Option.some.injEq] at more
      subst more
      refine ⟨.read, ?_, ?_⟩
      · simp [left, linesLeft, passLeft, current, Pass.actions, Pass.start, Event.forLines_cons,
          Event.forLine, Nat.add_assoc, Nat.add_comm 1, here, next]
      · simp [made, current, Pass.actions, Pass.start, Eager.step, here]
  | line l pass =>
    cases next : pass.waiting with
    | nil =>
      right
      simp only [work, here, next, Option.some.injEq] at more
      subst more
      refine ⟨.finish, ?_, ?_⟩
      · simp [left, linesLeft, passLeft, current, Pass.actions, Event.applyFrom, here, next]
      · simp [made, current, Pass.actions, Eager.step, here, next]
    | cons a waiting =>
      right
      simp only [work, here, next, Option.some.injEq] at more
      subst more
      refine ⟨_, ?_, applyNext_made (line_applies l) drained (some l) here next handed⟩
      simp [left, linesLeft, passLeft, here, next, applyNext, Event.applyFrom_succ, current,
        Pass.actions]
  | closing pass =>
    cases next : pass.waiting with
    | nil =>
      left
      simp only [work, here, next, Option.some.injEq] at more
      subst more
      simp [left, passLeft, made, current, Pass.actions, Event.applyFrom, here, next]
    | cons a waiting =>
      right
      simp only [work, here, next, Option.some.injEq] at more
      subst more
      refine ⟨_, ?_, applyNext_made closing_applies drained none here next handed⟩
      simp [left, passLeft, here, next, applyNext, Event.applyFrom_succ]
  | finished => simp [work, here] at more

theorem drained_of_next {o : Output} (none_left : o.next? = none) : o.toList = [] := by
  rw [Output.toList_next, none_left]

theorem hand_out_made {d : Drive} {l : Line} {pending : Output}
    (next : d.pending.next? = some (l, pending)) (handed : List Line) :
    let metrics := { d.run.metrics with emitted := d.run.metrics.emitted + 1 }
    let e : Drive := { d with run := { d.run with metrics }, pending }
    e.made (handed ++ [l]) = d.made handed ∧ e.left = d.left := by
  have waiting : d.pending.toList = l :: pending.toList := by rw [Output.toList_next, next]
  have size := Output.size_next next
  have count :
      d.run.metrics.emitted + 1 + pending.size = d.run.metrics.emitted + d.pending.size := by
    omega
  cases here : d.phase <;> simp [made, current, left, linesLeft, here, waiting, count]

theorem finished_of_work {d : Drive} (idle : d.work = none) : d.phase = .finished := by
  unfold work at idle
  split at idle
  all_goals try (split at idle)
  all_goals simp_all

theorem pull_idle {d : Drive} (drained : d.pending.next? = none) (idle : d.work = none) :
    d.pull = (none, d) := by
  rw [pull]
  split
  · simp_all
  · split <;> simp_all

/-- A pull that gives a line stops the list of work as soon as that line is made. -/
theorem pull_some {d e : Drive} {l : Line} (given : d.pull = (some l, e)) (handed : List Line) :
    (d.made handed).produce (handed.length + 1) d.left = (e.made (handed ++ [l]), e.left) := by
  fun_induction pull d with
  | case1 d line pending next metrics =>
    simp only [Prod.mk.injEq, Option.some.injEq] at given
    obtain ⟨rfl, rfl⟩ := given
    obtain ⟨sameMade, sameLeft⟩ := hand_out_made next handed
    have waiting : d.pending.toList = line :: pending.toList := by
      rw [Output.toList_next, next]
    -- The line is made already, so the list of work stops before its next entry.
    rw [Eager.produce_enough (by simp [made, waiting]), sameMade, sameLeft]
  | case2 d drained f more ih =>
    have drained := drained_of_next drained
    have lacking : (d.made handed).output.length < handed.length + 1 := by simp [made, drained]
    rw [← ih given]
    rcases work_made drained more handed with ⟨sameLeft, sameMade⟩ | ⟨event, entry, done⟩
    · rw [sameLeft, sameMade]
    · rw [entry, done, Eager.produce_more lacking]
  | case3 => simp at given

theorem pull_none {d e : Drive} (past : d.pull = (none, e)) (handed : List Line) :
    e.made handed = (d.made handed).steps d.left ∧ (e.made handed).output = handed ∧ e.left = [] ∧
      e.pull = (none, e) := by
  fun_induction pull d with
  | case1 => simp at past
  | case2 d drained f more ih =>
    obtain ⟨done, same⟩ := ih past
    refine ⟨done.trans ?_, same⟩
    rcases work_made (drained_of_next drained) more handed with
      ⟨sameLeft, sameMade⟩ | ⟨event, entry, made⟩
    · rw [sameLeft, sameMade]
    · rw [entry, made, Eager.steps_cons]
  | case3 d drained idle =>
    simp only [Prod.mk.injEq, true_and] at past
    subst past
    have nothing : d.left = [] := by simp [left, finished_of_work idle]
    refine ⟨by rw [nothing, Eager.steps_nil], ?_, nothing, pull_idle drained idle⟩
    simp [made, drained_of_next drained]

/-- Where a drive leads that has handed out some lines: the list of work done to its end. -/
def whole (d : Drive) (handed : List Line) : Eager :=
  (d.made handed).steps d.left

theorem handed_first (d : Drive) (handed : List Line) :
    ∃ more, (d.whole handed).output = handed ++ more := by
  obtain ⟨more, added⟩ := (d.made handed).steps_output d.left
  exact ⟨d.pending.toList ++ more, by rw [whole, added]; simp [made]⟩

theorem whole_pull_some {d e : Drive} {l : Line} (given : d.pull = (some l, e))
    (handed : List Line) : e.whole (handed ++ [l]) = d.whole handed := by
  have stopped := pull_some given handed
  have same := (d.made handed).steps_produce (handed.length + 1) d.left
  rwa [stopped] at same

theorem output_pull_some {d e : Drive} {l : Line} (given : d.pull = (some l, e))
    (handed : List Line) : ∃ more, (d.whole handed).output = handed ++ l :: more := by
  obtain ⟨more, first⟩ := handed_first e (handed ++ [l])
  exact ⟨more, by rw [← whole_pull_some given handed, first]; simp⟩

theorem output_pull_none {d e : Drive} (past : d.pull = (none, e)) (handed : List Line) :
    (d.whole handed).output = handed := by
  obtain ⟨done, output, _⟩ := pull_none past handed
  rw [whole, ← done, output]

theorem pulls_over {d : Drive} (past : d.pull = (none, d)) (n : Nat) :
    d.pulls n = (List.replicate n (d.sight none), d) := by
  induction n with
  | zero => rfl
  | succ n ih => simp [pulls, past, ih, List.replicate_succ]

theorem pulls_succ_some {d e : Drive} {l : Line} (given : d.pull = (some l, e)) (n : Nat) :
    d.pulls (n + 1) = (e.sight (some l) :: (e.pulls n).1, (e.pulls n).2) := by
  simp [pulls, given]

theorem pulls_succ_none {d e : Drive} (past : d.pull = (none, e)) (n : Nat) :
    d.pulls (n + 1) = (List.replicate (n + 1) (e.sight none), e) := by
  have idle := (pull_none past []).2.2.2
  simp [pulls, past, pulls_over idle, List.replicate_succ]

theorem pulls_items (d : Drive) (handed : List Line) (n : Nat) :
    (d.pulls n).1.map Sight.item =
      (List.range' handed.length n).map fun i => (d.whole handed).output[i]? := by
  induction n generalizing d handed with
  | zero => rfl
  | succ n ih =>
    cases given : d.pull with
    | mk item e =>
      cases item with
      | some l =>
        obtain ⟨more, first⟩ := output_pull_some given handed
        have later := ih e (handed ++ [l])
        rw [whole_pull_some given] at later
        rw [pulls_succ_some given, List.map_cons, later, List.range'_succ, List.map_cons]
        simp [sight, first]
      | none =>
        have output := output_pull_none given handed
        rw [pulls_succ_none given, output]
        apply List.ext_getElem (by simp)
        intro i _ _
        simp [sight]

theorem pulls_made (d : Drive) (handed : List Line) (n : Nat)
    (enough : handed.length + n ≤ (d.whole handed).output.length) :
    ((d.pulls n).2.made ((d.whole handed).output.take (handed.length + n)), (d.pulls n).2.left) =
      (d.made handed).produce (handed.length + n) d.left := by
  induction n generalizing d handed with
  | zero =>
    obtain ⟨more, first⟩ := handed_first d handed
    rw [Eager.produce_enough (by simp [made]), first]
    simp [pulls]
  | succ n ih =>
    cases given : d.pull with
    | mk item e =>
      cases item with
      | some l =>
        have stopped := pull_some given handed
        have same := whole_pull_some given handed
        have later := ih e (handed ++ [l]) (by simp [same]; omega)
        have sum : (handed ++ [l]).length + n = handed.length + (n + 1) := by simp; omega
        rw [same, sum] at later
        -- Stopping at every line on the way is stopping at the last of them.
        have goOn : (e.made (handed ++ [l])).produce (handed.length + (n + 1)) e.left =
            (d.made handed).produce (handed.length + (n + 1)) d.left := by
          have both := (d.made handed).produce_produce
            (show handed.length + 1 ≤ handed.length + (n + 1) by omega) d.left
          rwa [stopped] at both
        rw [pulls_succ_some given, later, goOn]
      | none =>
        rw [output_pull_none given] at enough
        omega

theorem pulls_beyond (d : Drive) (handed : List Line) (n : Nat)
    (beyond : (d.whole handed).output.length < handed.length + n) :
    (d.pulls n).2.made (d.whole handed).output = d.whole handed ∧
      (d.pulls n).2.pull = (none, (d.pulls n).2) := by
  induction n generalizing d handed with
  | zero =>
    obtain ⟨more, first⟩ := handed_first d handed
    rw [first, List.length_append] at beyond
    omega
  | succ n ih =>
    cases given : d.pull with
    | mk item e =>
      cases item with
      | some l =>
        have same := whole_pull_some given handed
        have later := ih e (handed ++ [l]) (by rw [same]; simp; omega)
        rw [same] at later
        rwa [pulls_succ_some given]
      | none =>
        obtain ⟨done, output, _, idle⟩ := pull_none given handed
        rw [output_pull_none given, pulls_succ_none given]
        exact ⟨done, idle⟩

theorem pullAll_pulls (d : Drive) (handed : List Line) :
    d.pullAll = d.pulls ((d.whole handed).output.length - handed.length + 1) := by
  fun_induction pullAll d generalizing handed with
  | case1 d l e given later ih =>
    obtain ⟨more, first⟩ := output_pull_some given handed
    have count : (d.whole handed).output.length - handed.length =
        (e.whole (handed ++ [l])).output.length - (handed ++ [l]).length + 1 := by
      rw [whole_pull_some given, first]
      simp only [List.length_append, List.length_cons, List.length_nil]
      omega
    rw [count, pulls_succ_some given, ← ih (handed ++ [l])]
  | case2 d e given =>
    rw [output_pull_none given, Nat.sub_self, pulls_succ_none given]
    rfl

def Late (d : Drive) : Prop :=
  match d.phase with
  | .closing _ | .finished => True
  | _ => False

theorem late_work {d e : Drive} (more : d.work = some e) (late : d.Late) : e.Late := by
  unfold work at more
  split at more
  all_goals try (split at more)
  all_goals simp_all [Late, applyNext]
  all_goals subst more
  all_goals trivial

theorem late_pull {d e : Drive} {item : Option Line} (given : d.pull = (item, e))
    (late : d.Late) : e.Late := by
  fun_induction pull d with
  | case1 d line pending next metrics =>
    simp only [Prod.mk.injEq] at given
    obtain ⟨rfl, rfl⟩ := given
    exact late
  | case2 d drained f more ih => exact ih given (late_work more late)
  | case3 =>
    simp only [Prod.mk.injEq] at given
    exact given.2 ▸ late

/-- A way from one drive to another that takes some lines and looks at none of those after them:
whatever comes instead of these, the way is the same. -/
def Ahead (way : Drive → Drive → Prop) (d e : Drive) : Prop :=
  ∃ used, d.input = used ++ e.input ∧ e.consumed = d.consumed + used.length ∧
    ∀ rest, way { d with input := used ++ rest } { e with input := rest }

theorem ahead_trans {first second both : Drive → Drive → Prop} {d e f : Drive}
    (start : Ahead first d e) (stop : Ahead second e f)
    (join : ∀ i j k, first { d with input := i } { e with input := j } →
      second { e with input := j } { f with input := k } →
      both { d with input := i } { f with input := k }) : Ahead both d f := by
  obtain ⟨earlier, input, count, way⟩ := start
  obtain ⟨later, follow, total, onward⟩ := stop
  refine ⟨earlier ++ later, by rw [input, follow, List.append_assoc], ?_, fun rest => ?_⟩
  · rw [total, count, List.length_append, Nat.add_assoc]
  · exact join _ _ _ (List.append_assoc .. ▸ way (later ++ rest)) (onward rest)

theorem work_ahead {d e : Drive} (more : d.work = some e) (early : ¬ e.Late) :
    Ahead (fun x y => x.work = some y) d e := by
  cases here : d.phase with
  | opening pass =>
    cases next : pass.waiting <;> simp only [work, here, next, Option.some.injEq] at more <;>
      subst more <;> exact ⟨[], rfl, rfl, fun rest => by simp [work, here, next, applyNext]⟩
  | reading =>
    cases next : d.input with
    | nil =>
      simp only [work, here, next, Option.some.injEq] at more
      subst more
      exact absurd trivial early
    | cons l input =>
      simp only [work, here, next, Option.some.injEq] at more
      subst more
      exact ⟨[l], next, rfl, fun rest => by simp [work, here]⟩
  | line l pass =>
    cases next : pass.waiting <;> simp only [work, here, next, Option.some.injEq] at more <;>
      subst more <;> exact ⟨[], rfl, rfl, fun rest => by simp [work, here, next, applyNext]⟩
  | closing pass => exact absurd (late_work more (by simp [Late, here])) early
  | finished => simp [work, here] at more

theorem pull_of_work {d e : Drive} (drained : d.pending.next? = none) (more : d.work = some e) :
    d.pull = e.pull := by
  fun_cases pull d with
  | case1 l pending next => simp_all
  | case2 _ f found => rw [Option.some.inj (found.symm.trans more)]
  | case3 _ idle => simp_all

theorem pull_of_next {d : Drive} {l : Line} {pending : Output}
    (next : d.pending.next? = some (l, pending)) :
    d.pull = (some l, { d with
      run := { d.run with metrics := { d.run.metrics with emitted := d.run.metrics.emitted + 1 } },
      pending }) := by
  fun_cases pull d with
  | case1 first rest found =>
    obtain ⟨rfl, rfl⟩ : first = l ∧ rest = pending := by simpa [found] using next
    rfl
  | case2 drained => simp_all
  | case3 drained => simp_all

theorem pull_ahead {d e : Drive} {l : Line} (given : d.pull = (some l, e)) (early : ¬ e.Late) :
    Ahead (fun x y => x.pull = (some l, y)) d e := by
  fun_induction pull d with
  | case1 d line pending next metrics =>
    simp only [Prod.mk.injEq, Option.some.injEq] at given
    obtain ⟨rfl, rfl⟩ := given
    exact ⟨[], rfl, rfl, fun rest => pull_of_next next⟩
  | case2 d drained f more ih =>
    have between : ¬ f.Late := fun late => early (late_pull given late)
    apply ahead_trans (work_ahead more between) (ih given)
    intro i j k worked pulled
    rw [← pulled]
    exact pull_of_work drained worked
  | case3 => simp at given

theorem late_of_none {d e : Drive} (past : d.pull = (none, e)) : e.Late := by
  fun_induction pull d with
  | case1 => simp at past
  | case2 d drained f more ih => exact ih past
  | case3 d drained idle =>
    simp only [Prod.mk.injEq, true_and] at past
    simp [← past, Late, finished_of_work idle]

theorem late_pulls {d : Drive} (late : d.Late) (n : Nat) : (d.pulls n).2.Late := by
  induction n generalizing d with
  | zero => exact late
  | succ n ih => exact ih (late_pull rfl late)

theorem pulls_ahead (d : Drive) (n : Nat) (early : ¬ (d.pulls n).2.Late) :
    Ahead (fun x y => x.pulls n = ((d.pulls n).1, y)) d (d.pulls n).2 := by
  induction n generalizing d with
  | zero => exact ⟨[], rfl, rfl, fun rest => rfl⟩
  | succ n ih =>
    cases given : d.pull with
    | mk item e =>
      cases item with
      | some l =>
        rw [pulls_succ_some given] at early ⊢
        have between : ¬ e.Late := fun late => early (late_pulls late n)
        apply ahead_trans (pull_ahead given between) (ih e early)
        intro i j k one rest
        rw [pulls_succ_some one, rest]
        rfl
      | none =>
        rw [pulls_succ_none given] at early
        exact absurd (late_of_none given) early

theorem pulls_last {d : Drive} {n : Nat} {sight : Sight}
    (last : (d.pulls n).1.getLast? = some sight) : sight = (d.pulls n).2.sight sight.item := by
  induction n generalizing d with
  | zero => simp [pulls] at last
  | succ n ih =>
    cases n with
    | zero =>
      simp only [pulls, List.getLast?_singleton, Option.some.injEq] at last
      exact last ▸ rfl
    | succ n =>
      have later : (d.pull.2.pulls (n + 1)).1.getLast? = some sight := by
        simpa [pulls] using last
      exact ih later

theorem current_metrics (d : Drive) : d.current.metrics = d.run.metrics := by
  cases here : d.phase <;> simp [current, here]

theorem current_of_made {e : Drive} {handed : List Line} {done : Eager}
    (made : e.made handed = done) (counted : done.run.metrics.emitted = done.output.length) :
    e.current = { done.run with metrics := { done.run.metrics with emitted := handed.length } } ∧
      e.consumed = done.consumed ∧ e.calls = done.calls := by
  subst made
  simp only [Drive.made, List.length_append, Output.size_toList] at counted
  have emitted : e.run.metrics.emitted = handed.length := by omega
  refine ⟨?_, rfl, rfl⟩
  simp only [Drive.made, ← emitted, ← current_metrics]

end Drive

section Fresh

variable (actions : List Action) (options : Options) (input : List Line)

theorem items_to_end (lines : List Line) :
    (List.range' 0 (lines.length + 1)).map (lines[·]?) = lines.map some ++ [none] := by
  have upTo : (List.range lines.length).map (lines[·]?) = lines.map some :=
    List.ext_getElem (by simp) fun i _ _ => by simp_all
  rw [← List.range_eq_range', List.range_succ, List.map_append, upTo]
  simp

theorem fresh_whole :
    (((Program.ofList actions).start options).drive input).whole [] =
      (Eager.start ((Program.sorted actions).start options)).steps
        (Event.agenda (Program.sorted actions) 0 input) := by
  rw [Drive.whole, Drive.made_drive, Drive.left_drive, Program.ofList_sorted]
  rfl

theorem given_iff_enough {lines : List Line} {sights : List Drive.Sight} {k : Nat}
    {sight : Drive.Sight} (items : sights.map Drive.Sight.item = (List.range k).map (lines[·]?))
    (last : sights.getLast? = some sight) : sight.item ≠ none ↔ 0 < k ∧ k ≤ lines.length := by
  have lastItem : (sights.map Drive.Sight.item).getLast? = some sight.item := by
    rw [List.getLast?_map, last, Option.map_some]
  cases k with
  | zero => simp [items] at lastItem
  | succ j =>
    rw [items, List.range_succ] at lastItem
    simp only [List.map_append, List.map_cons, List.map_nil, List.getLast?_append,
      List.getLast?_singleton, Option.some_or, Option.some.injEq] at lastItem
    rw [← lastItem, ne_eq, List.getElem?_eq_none_iff]
    omega

theorem fresh_stops {k : Nat} :
    let p := Program.sorted actions
    let begun := Eager.start (p.start options)
    let agenda := Event.agenda p 0 input
    k ≤ (begun.steps agenda).output.length →
      (((((Program.ofList actions).start options).drive input).pulls k).2.made
        ((begun.steps agenda).output.take k)) = (begun.produce k agenda).1 := by
  intro p begun agenda enough
  have whole := fresh_whole actions options input
  have made := (((Program.ofList actions).start options).drive input).pulls_made [] k
    (by rw [whole]; simpa using enough)
  rw [whole, Drive.made_drive, Drive.left_drive, Program.ofList_sorted, List.length_nil,
    Nat.zero_add] at made
  rw [Program.ofList_sorted]
  exact congrArg Prod.fst made

theorem fresh_emitted (p : Program) (events : List Event) :
    let done := (Eager.start (p.start options)).steps events
    done.run.metrics.emitted = done.output.length := by
  have counted := (Eager.start (p.start options)).steps_emitted events
  simpa [Eager.start, Program.start] using counted

end Fresh

/-- A fresh run that is pulled until nothing comes ends after as many pulls as it has lines of
output, and one more. It gives what the actions give when all openers are applied first, then the
actions of every line, line by line, and then all closers, each at its record number and with the
states that its last application left; and it leaves the same states and counters. -/
theorem lazy_run_follows_agenda (actions : List Action) (options : Options) (input : List Line) :
    let p := Program.sorted actions
    let done := (Eager.start (p.start options)).steps (Event.agenda p 0 input)
    let d := ((Program.ofList actions).start options).drive input
    d.pullAll = d.pulls (done.output.length + 1) ∧
      d.pullAll.1.map Drive.Sight.item = done.output.map some ++ [none] ∧
      d.pullAll.2.current = done.run ∧ d.pullAll.2.consumed = input.length ∧
      d.pullAll.2.calls = done.calls := by
  intro p done d
  have whole : d.whole [] = done := fresh_whole actions options input
  have all : d.pullAll = d.pulls (done.output.length + 1) := by
    have pulls := d.pullAll_pulls []
    rwa [whole] at pulls
  have items := d.pulls_items [] (done.output.length + 1)
  obtain ⟨made, _⟩ := d.pulls_beyond [] (done.output.length + 1) (by rw [whole]; simp)
  rw [whole] at items made
  have counted : done.run.metrics.emitted = done.output.length := fresh_emitted options p _
  obtain ⟨current, consumed, calls⟩ := Drive.current_of_made made counted
  refine ⟨all, ?_, ?_, ?_, ?_⟩
  · rw [all, items, List.length_nil, items_to_end]
  · rw [all, current, ← counted]
  · have count : done.consumed = input.length := by
      have reads := (Eager.start (p.start options)).steps_agenda input
      exact (congrArg Eager.consumed reads).trans (Nat.zero_add _)
    rw [all, consumed, count]
  · rw [all, calls]

/-- After `k` pulls a fresh run has given the first `k` lines of the whole output, and nothing
where there is none. If the last pull gave a line, what was done is the list of work up to the
application that made this line: no later line is taken and no later action applied. If it gave
nothing, further pulls give nothing and change nothing. As long as no closing action is applied,
inputs that start with the lines taken so far cannot be told apart. -/
theorem pulls_do_least_work (actions : List Action) (options : Options) (input : List Line)
    (k : Nat) :
    let p := Program.sorted actions
    let begun := Eager.start (p.start options)
    let agenda := Event.agenda p 0 input
    let r := (Program.ofList actions).start options
    let pulled := (r.drive input).pulls k
    pulled.1.map Drive.Sight.item = (List.range k).map ((begun.steps agenda).output[·]?) ∧
    (∀ sight, pulled.1.getLast? = some sight → sight.item ≠ none →
      ∃ done stage n record line todo, agenda = done ++ .apply stage n record line :: todo ∧
        (begun.steps done).output.length < k ∧
        let stop := begun.steps (done ++ [.apply stage n record line])
        k ≤ stop.output.length ∧
          pulled.2.current =
            { stop.run with metrics := { stop.run.metrics with emitted := k } } ∧
          pulled.2.consumed = stop.consumed ∧ pulled.2.calls = stop.calls) ∧
    (∀ sight, pulled.1.getLast? = some sight → sight.item = none →
      ∀ n, pulled.2.pulls n = (List.replicate n sight, pulled.2)) ∧
    (∀ sight, pulled.1.getLast? = some sight → sight.item ≠ none → ¬ pulled.2.Late →
      ∀ rest, ((r.drive (input.take pulled.2.consumed ++ rest)).pulls k).1 = pulled.1) := by
  intro p begun agenda r pulled
  have whole : (r.drive input).whole [] = begun.steps agenda := fresh_whole actions options input
  have items := (r.drive input).pulls_items [] k
  rw [whole, List.length_nil, ← List.range_eq_range'] at items
  refine ⟨items, ?_, ?_, ?_⟩
  · intro sight last given
    obtain ⟨positive, enough⟩ := given_iff_enough items last |>.1 given
    obtain ⟨done, stage, n, record, line, todo, split, before, after, stop⟩ :=
      Eager.produce_split (e := begun) (k := k) positive enough
    have made := fresh_stops actions options input enough
    have counted := fresh_emitted options p (done ++ [.apply stage n record line])
    obtain ⟨current, consumed, calls⟩ :=
      Drive.current_of_made (made.trans (congrArg Prod.fst stop)) counted
    rw [List.length_take, Nat.min_eq_left enough] at current
    exact ⟨done, stage, n, record, line, todo, split, before, after, current, consumed, calls⟩
  · intro sight last past n
    have lacking := mt (given_iff_enough items last).2 (not_not_intro past)
    have positive : 0 < k := by
      cases k with
      | zero => simp [pulled, Drive.pulls] at last
      | succ k => omega
    have beyond : (begun.steps agenda).output.length < k := by omega
    obtain ⟨_, idle⟩ := (r.drive input).pulls_beyond [] k (by rw [whole]; simpa using beyond)
    rw [Drive.pulls_over idle, Drive.pulls_last last, past]
  · intro sight last given early rest
    obtain ⟨used, start, count, same⟩ := (r.drive input).pulls_ahead k early
    have taken : input.take pulled.2.consumed = used := by
      have length : pulled.2.consumed = used.length := count.trans (Nat.zero_add _)
      have shape : input = used ++ pulled.2.input := start
      rw [length, shape, List.take_left]
    have again : (r.drive (used ++ rest)).pulls k = (pulled.1, { pulled.2 with input := rest }) :=
      same rest
    rw [taken, again]

end LineRules
