import LineRules.Proofs.LazyRun
import LineRules.SpecFile

/-!
The counters of a run. Every piece of work that a drive does, and every line that it hands out,
moves the counters by what it did: an application fires or is skipped, a line that is done with is a
record, a line that is handed out is emitted. This holds between any two points of a process call,
so it holds across calls that are broken off and from one call to the next, and the counters of a
run account for all that was ever done with it.
-/
namespace LineRules

structure Application where
  action : Action
  state : RunState
  line : Option Line

def Application.fires (x : Application) : Bool :=
  (x.action.apply x.state x.line).output.isSome

namespace Program

def sizes (p : Program) : Nat × Nat × Nat :=
  (p.opening.length, p.perLine.length, p.closing.length)

def applicationsFor (p : Program) (lines : Nat) : Nat :=
  p.opening.length + lines * p.perLine.length + p.closing.length

theorem applicationsFor_of_sizes {p q : Program} (same : p.sizes = q.sizes) (lines : Nat) :
    p.applicationsFor lines = q.applicationsFor lines := by
  simp only [sizes, Prod.mk.injEq] at same
  simp only [applicationsFor, same]

theorem sizes_putAt (p : Program) (stage : Stage) {actions others : List Action}
    (same : actions.length = others.length) :
    (p.putAt stage actions).sizes = (p.putAt stage others).sizes := by
  cases stage <;> simp [sizes, putAt, same]

end Program

namespace Event

def isApplication : Event → Bool
  | .apply .. => true
  | .read | .finish => false

@[simp]
theorem applications_applyFrom (stage : Stage) (first count record : Nat) (line : Option Line) :
    (applyFrom stage first count record line).countP isApplication = count := by
  induction count generalizing first with
  | zero => rfl
  | succ count ih =>
    rw [applyFrom_succ, List.countP_cons, ih]
    simp [isApplication]

@[simp]
theorem applications_forLines (actions record : Nat) (input : List Line) :
    (forLines actions record input).countP isApplication = input.length * actions := by
  induction input generalizing record with
  | nil => simp [forLines]
  | cons l rest ih =>
    rw [forLines_cons, List.countP_append, ih, List.length_cons, Nat.succ_mul]
    simp only [forLine, List.cons_append, List.countP_cons, List.countP_append,
      applications_applyFrom, List.countP_nil, isApplication]
    simp
    omega

theorem applications_agenda (p : Program) (record : Nat) (input : List Line) :
    (agenda p record input).countP isApplication = p.applicationsFor input.length := by
  simp only [agenda, List.countP_append, applications_applyFrom, applications_forLines,
    Program.applicationsFor]
  omega

end Event

namespace Drive

def application? (d : Drive) : Option Application :=
  match d.phase with
  | .opening pass | .closing pass => pass.waiting.head?.map (⟨·, d.run.state, none⟩)
  | .line l pass => pass.waiting.head?.map (⟨·, d.run.state, some l⟩)
  | .reading | .finished => none

def applications (d : Drive) : List Application :=
  match d.pending.next? with
  | some _ => []
  | none =>
    match _more : d.work with
    | some e => d.application?.toList ++ e.applications
    | none => []
termination_by d.rank
decreasing_by exact rank_work _more

theorem applications_pending {d : Drive} {x : Line × Output} (next : d.pending.next? = some x) :
    d.applications = [] := by
  fun_cases applications d with
  | case1 y found => rfl
  | case2 drained f more => simp [next] at drained
  | case3 drained idle => rfl

theorem applications_work {d e : Drive} (drained : d.pending.next? = none)
    (more : d.work = some e) : d.applications = d.application?.toList ++ e.applications := by
  fun_cases applications d with
  | case1 x next => simp [drained] at next
  | case2 _ f found => rw [Option.some.inj (found.symm.trans more)]
  | case3 _ idle => simp [more] at idle

theorem applications_idle {d : Drive} (idle : d.work = none) : d.applications = [] := by
  fun_cases applications d with
  | case1 x next => rfl
  | case2 drained f more => simp [idle] at more
  | case3 drained _ => rfl

def applicationsIn (d : Drive) : Nat → List Application
  | 0 => []
  | n + 1 => d.applications ++ d.pull.2.applicationsIn n

def held (d : Drive) : Option Line :=
  match d.phase with
  | .line l _ => some l
  | _ => none

/-- What happened between two points of a process call: the actions that were applied and the lines
that were handed out, and what the counters say of them. -/
structure Progress (d e : Drive) (applied : List Application) (handed : List Line) : Prop where
  numbered : e.run.state.recordNumber + d.run.metrics.records =
    d.run.state.recordNumber + e.run.metrics.records
  recorded : e.run.metrics.records + e.held.toList.length + d.consumed =
    d.run.metrics.records + d.held.toList.length + e.consumed
  taken : e.consumed + e.input.length = d.consumed + d.input.length
  emitted : e.run.metrics.emitted = d.run.metrics.emitted + handed.length
  fired : e.run.metrics.fired = d.run.metrics.fired + applied.countP (·.fires)
  skipped : e.run.metrics.skipped = d.run.metrics.skipped + applied.countP (!·.fires)
  left : d.left.countP Event.isApplication = e.left.countP Event.isApplication + applied.length
  sizes : e.current.actions.sizes = d.current.actions.sizes
  past : (d.Late → d.input = []) → e.Late → e.input = []

theorem Progress.refl (d : Drive) : d.Progress d [] [] :=
  ⟨rfl, rfl, rfl, rfl, rfl, rfl, rfl, rfl, id⟩

theorem Progress.trans {d e f : Drive} {earlier later : List Application} {first last : List Line}
    (start : d.Progress e earlier first) (stop : e.Progress f later last) :
    d.Progress f (earlier ++ later) (first ++ last) := by
  obtain ⟨numbered, recorded, taken, emitted, fired, skipped, left, sizes, past⟩ := start
  obtain ⟨numbered', recorded', taken', emitted', fired', skipped', left', sizes', past'⟩ := stop
  constructor
  case numbered => omega
  case recorded => omega
  case taken => omega
  case emitted => rw [List.length_append]; omega
  case fired => rw [List.countP_append]; omega
  case skipped => rw [List.countP_append]; omega
  case left => rw [List.length_append]; omega
  case sizes => exact sizes'.trans sizes
  case past => exact fun drained => past' (past drained)

theorem applyNext_counters (d : Drive) (phase : Pass → Phase) (line : Option Line) (pass : Pass)
    (a : Action) (waiting : List Action) :
    let x : Application := ⟨a, d.run.state, line⟩
    (d.applyNext phase line pass a waiting).run.metrics =
      { d.run.metrics with
        fired := d.run.metrics.fired + [x].countP (·.fires)
        skipped := d.run.metrics.skipped + [x].countP (!·.fires) } := by
  simp only [applyNext, List.countP_singleton, Application.fires]
  cases (a.apply d.run.state line).output <;> simp

theorem applyNext_sizes {stage : Stage} {phase : Pass → Phase} (applies : Applies stage phase)
    {d : Drive} (line : Option Line) {pass : Pass} {a : Action} {waiting : List Action}
    (here : d.phase = phase pass) (next : pass.waiting = a :: waiting) :
    (d.applyNext phase line pass a waiting).current.actions.sizes = d.current.actions.sizes := by
  rw [applies d pass here, applies (d.applyNext phase line pass a waiting) _ rfl]
  apply Program.sizes_putAt
  simp [Pass.actions, next]

theorem applyNext_progress {stage : Stage} {phase : Pass → Phase} (applies : Applies stage phase)
    {d : Drive} (line : Option Line) {pass : Pass} {a : Action} {waiting : List Action}
    (here : d.phase = phase pass) (next : pass.waiting = a :: waiting)
    (left : d.left = .apply stage pass.applied.length d.run.state.recordNumber line ::
      (d.applyNext phase line pass a waiting).left)
    (held : (d.applyNext phase line pass a waiting).held = d.held)
    (late : (d.applyNext phase line pass a waiting).Late → d.Late) :
    d.Progress (d.applyNext phase line pass a waiting) [⟨a, d.run.state, line⟩] [] := by
  have counters := applyNext_counters d phase line pass a waiting
  refine ⟨?_, ?_, rfl, ?_, ?_, ?_, ?_, applyNext_sizes applies line here next,
    fun drained last => drained (late last)⟩
  · rw [counters]
    rfl
  · rw [counters, held]
    rfl
  · rw [counters]
    rfl
  · rw [counters]
  · rw [counters]
  · rw [left, List.countP_cons]
    rfl

theorem work_progress {d e : Drive} (more : d.work = some e) :
    d.Progress e d.application?.toList [] := by
  -- In front of an action the work is its application; otherwise the phase changes.
  cases here : d.phase with
  | opening pass =>
    cases next : pass.waiting with
    | nil =>
      simp only [work, here, next, Option.some.injEq] at more
      subst more
      constructor <;> simp [application?, held, left, linesLeft, passLeft, current, Late,
        Event.applyFrom, Program.sizes, Pass.actions, here, next]
    | cons a waiting =>
      simp only [work, here, next, Option.some.injEq] at more
      subst more
      simp only [application?, here, next, List.head?_cons, Option.map_some, Option.toList_some]
      apply applyNext_progress opening_applies none here next
      · simp [left, linesLeft, passLeft, here, next, applyNext, Event.applyFrom_succ, current,
          Pass.actions]
      · simp [held, applyNext, here]
      · simp [Late, applyNext]
  | reading =>
    cases next : d.input with
    | nil =>
      simp only [work, here, next, Option.some.injEq] at more
      subst more
      constructor <;> simp [application?, held, left, linesLeft, passLeft, current, Late,
        Event.forLines, Program.sizes, Pass.actions, Pass.start, here, next]
    | cons l input =>
      simp only [work, here, next, Option.some.injEq] at more
      subst more
      constructor <;> simp [application?, held, left, linesLeft, passLeft, current, Late,
        Event.forLines_cons, Event.forLine, Event.isApplication, Program.sizes, Pass.actions,
        Pass.start, here, next]
      case recorded => omega
      case taken => omega
  | line l pass =>
    cases next : pass.waiting with
    | nil =>
      simp only [work, here, next, Option.some.injEq] at more
      subst more
      constructor <;> simp [application?, held, left, linesLeft, passLeft, current, Late,
        Event.applyFrom, Event.isApplication, Program.sizes, Pass.actions, here, next]
      case numbered => omega
    | cons a waiting =>
      simp only [work, here, next, Option.some.injEq] at more
      subst more
      simp only [application?, here, next, List.head?_cons, Option.map_some, Option.toList_some]
      apply applyNext_progress (line_applies l) (some l) here next
      · simp [left, linesLeft, passLeft, here, next, applyNext, Event.applyFrom_succ, current,
          Pass.actions]
      · simp [held, applyNext, here]
      · simp [Late, applyNext]
  | closing pass =>
    cases next : pass.waiting with
    | nil =>
      simp only [work, here, next, Option.some.injEq] at more
      subst more
      constructor <;> simp [application?, held, left, passLeft, current, Late, Event.applyFrom,
        Program.sizes, Pass.actions, here, next]
    | cons a waiting =>
      simp only [work, here, next, Option.some.injEq] at more
      subst more
      simp only [application?, here, next, List.head?_cons, Option.map_some, Option.toList_some]
      apply applyNext_progress closing_applies none here next
      · simp [left, passLeft, here, next, applyNext, Event.applyFrom_succ]
      · simp [held, applyNext, here]
      · simp [Late, here]
  | finished => simp [work, here] at more

theorem hand_out_progress {d : Drive} {l : Line} {pending : Output} :
    d.Progress { d with
      run := { d.run with metrics := { d.run.metrics with emitted := d.run.metrics.emitted + 1 } },
      pending } [] [l] := by
  cases here : d.phase <;> constructor <;> simp [held, left, linesLeft, current, Late, here]

theorem pull_progress {d e : Drive} {item : Option Line} (given : d.pull = (item, e)) :
    d.Progress e d.applications item.toList := by
  fun_induction pull d with
  | case1 d line pending next metrics =>
    simp only [Prod.mk.injEq] at given
    obtain ⟨rfl, rfl⟩ := given
    rw [applications_pending next]
    exact hand_out_progress
  | case2 d drained f more ih =>
    rw [applications_work drained more]
    exact (work_progress more).trans (ih given)
  | case3 d drained idle =>
    simp only [Prod.mk.injEq] at given
    obtain ⟨rfl, rfl⟩ := given
    rw [applications_idle idle]
    exact .refl d

theorem pulls_progress (d : Drive) (n : Nat) :
    d.Progress (d.pulls n).2 (d.applicationsIn n) ((d.pulls n).1.filterMap Sight.item) := by
  induction n generalizing d with
  | zero => exact .refl d
  | succ n ih =>
    have seen : (d.pulls (n + 1)).1.filterMap Sight.item =
        d.pull.1.toList ++ (d.pull.2.pulls n).1.filterMap Sight.item := by
      simp only [pulls, List.filterMap_cons, sight]
      cases d.pull.1 <;> rfl
    rw [seen]
    exact (pull_progress rfl).trans (ih d.pull.2)

theorem finished_pull {d e : Drive} (stopped : d.pull = (none, e)) : e.phase = .finished := by
  fun_induction pull d with
  | case1 => simp at stopped
  | case2 d drained f more ih => exact ih stopped
  | case3 d drained idle =>
    simp only [Prod.mk.injEq, true_and] at stopped
    exact stopped ▸ finished_of_work idle

theorem finished_pulls {d : Drive} {n : Nat} (stopped : none ∈ (d.pulls n).1.map Sight.item) :
    (d.pulls n).2.phase = .finished := by
  induction n generalizing d with
  | zero => simp [pulls] at stopped
  | succ n ih =>
    cases given : d.pull with
    | mk item e =>
      cases item with
      | some l =>
        rw [pulls_succ_some given] at stopped ⊢
        exact ih (by simpa [sight] using stopped)
      | none =>
        rw [pulls_succ_none given]
        exact finished_pull given

theorem current_state (d : Drive) : d.current.state = d.run.state := by
  cases here : d.phase <;> simp [current, here]

theorem current_drive (r : Run) (input : List Line) : (r.drive input).current = r := by
  simp [current, Run.drive, Pass.start, Pass.actions]

end Drive

/-- One process call: the lines that are offered, and how often a line is asked for before the call
is dropped. -/
structure Use where
  input : List Line
  pulls : Nat

structure Tally where
  run : Run
  applied : List Application
  handed : List Line

namespace Tally

def use (t : Tally) (u : Use) : Tally :=
  let d := t.run.drive u.input
  let pulled := d.pulls u.pulls
  ⟨pulled.2.current, t.applied ++ d.applicationsIn u.pulls,
    t.handed ++ pulled.1.filterMap Drive.Sight.item⟩

/-- The counters of the run say what was done with it. -/
structure Accounts (p : Program) (t : Tally) : Prop where
  numbered : t.run.state.recordNumber = t.run.metrics.records
  emitted : t.run.metrics.emitted = t.handed.length
  fired : t.run.metrics.fired = t.applied.countP (·.fires)
  skipped : t.run.metrics.skipped = t.applied.countP (!·.fires)
  sizes : t.run.actions.sizes = p.sizes

theorem Accounts.use {p : Program} {t : Tally} (accounts : t.Accounts p) (u : Use) :
    (t.use u).Accounts p := by
  have progress := (t.run.drive u.input).pulls_progress u.pulls
  obtain ⟨numbered, emitted, fired, skipped, sizes⟩ := accounts
  constructor
  case numbered =>
    have together := progress.numbered
    simp only [Tally.use, Drive.current_state, Drive.current_metrics]
    simp only [Run.drive] at together
    simp only [Run.drive]
    omega
  case emitted =>
    simp only [Tally.use, Drive.current_metrics, progress.emitted, List.length_append]
    exact congrArg (· + _) emitted
  case fired =>
    simp only [Tally.use, Drive.current_metrics, progress.fired, List.countP_append]
    exact congrArg (· + _) fired
  case skipped =>
    simp only [Tally.use, Drive.current_metrics, progress.skipped, List.countP_append]
    exact congrArg (· + _) skipped
  case sizes =>
    have same := progress.sizes
    rw [Drive.current_drive] at same
    exact same.trans sizes

end Tally

def Program.tally (p : Program) (options : Options) (uses : List Use) : Tally :=
  uses.foldl Tally.use ⟨p.start options, [], []⟩

theorem tally_accounts (p : Program) (options : Options) (uses : List Use) :
    (p.tally options uses).Accounts p := by
  have all (t : Tally) (accounts : t.Accounts p) : (uses.foldl Tally.use t).Accounts p := by
    induction uses generalizing t with
    | nil => exact accounts
    | cons u uses ih => exact ih (t.use u) (accounts.use u)
  exact all _ ⟨rfl, rfl, rfl, rfl, rfl⟩

theorem applied_fires_or_not (applied : List Application) :
    applied.countP (·.fires) + applied.countP (!·.fires) = applied.length := by
  simpa using (List.length_eq_countP_add_countP (·.fires) (l := applied)).symm

/-- A call that is pulled until nothing comes applies every action as often as it is due. -/
theorem applications_of_call {r : Run} {input : List Line} {k : Nat}
    (stopped : none ∈ ((r.drive input).pulls k).1.map Drive.Sight.item) :
    ((r.drive input).applicationsIn k).length = r.actions.applicationsFor input.length := by
  have left := ((r.drive input).pulls_progress k).left
  have done : ((r.drive input).pulls k).2.left = [] := by
    simp [Drive.left, Drive.finished_pulls stopped]
  rw [done, Drive.left_drive, Event.applications_agenda] at left
  simpa using left.symm

theorem consumed_of_call {r : Run} {input : List Line} {k : Nat}
    (stopped : none ∈ ((r.drive input).pulls k).1.map Drive.Sight.item) :
    ((r.drive input).pulls k).2.consumed = input.length ∧
      ((r.drive input).pulls k).2.held = none := by
  have progress := (r.drive input).pulls_progress k
  have finished := Drive.finished_pulls stopped
  have drained : ((r.drive input).pulls k).2.input = [] := by
    apply progress.past
    · simp [Drive.Late, Run.drive]
    · simp [Drive.Late, finished]
  have taken := progress.taken
  rw [drained] at taken
  refine ⟨?_, by simp [Drive.held, finished]⟩
  simpa [Run.drive] using taken

theorem records_of_call (r : Run) (input : List Line) (k : Nat) :
    let pulled := (r.drive input).pulls k
    pulled.2.current.metrics.records + pulled.2.held.toList.length =
      r.metrics.records + pulled.2.consumed := by
  intro pulled
  rw [Drive.current_metrics]
  exact ((r.drive input).pulls_progress k).recorded

theorem counted_in_call (r : Run) (input : List Line) (k : Nat) :
    let metrics := ((r.drive input).pulls k).2.current.metrics
    metrics.fired + metrics.skipped =
      r.metrics.fired + r.metrics.skipped + ((r.drive input).applicationsIn k).length := by
  intro metrics
  have progress := (r.drive input).pulls_progress k
  have fired : metrics.fired = r.metrics.fired + _ :=
    (congrArg Metrics.fired (Drive.current_metrics _)).trans progress.fired
  have skipped : metrics.skipped = r.metrics.skipped + _ :=
    (congrArg Metrics.skipped (Drive.current_metrics _)).trans progress.skipped
  rw [fired, skipped, ← applied_fires_or_not]
  omega

theorem takeLines_records (r : Run) (input : List Line) :
    (r.takeLines input).run.metrics.records = r.metrics.records + input.length := by
  induction input generalizing r with
  | nil => rfl
  | cons l rest ih =>
    rw [Run.takeLines, ih]
    simp only [Run.takeLine, Run.count, List.length_cons]
    omega

namespace SpecFile

theorem edit_records (f : SpecFile) (p : Program) (options : Options) :
    (f.edit p options).2.records = f.lines.length := by
  have taken := takeLines_records (p.start options).openUp.run f.lines
  simpa [edit, Run.exhaust, Run.closeDown, Run.openUp, Run.count, Program.start] using taken

theorem edit_emitted (f : SpecFile) (p : Program) (options : Options) :
    (f.edit p options).2.emitted = (f.edit p options).1.lines.length := by
  let start := Eager.start (p.start options)
  have counted : (start.steps (Event.agenda p 0 f.lines)).run.metrics.emitted =
      (start.steps (Event.agenda p 0 f.lines)).output.length := fresh_emitted options p _
  have swept : start.steps (Event.agenda p 0 f.lines) =
      start.afterOutcome ((p.start options).exhaust f.lines) f.lines.length :=
    start.steps_agenda f.lines
  rw [swept] at counted
  exact counted

end SpecFile

/-- However often a run is used, with whatever input and dropped after however many pulls: its
record number is its number of records, the lines that were handed out are those emitted, and every
application has fired or was skipped. A call that is pulled until nothing comes adds a record for
every line, and applies the actions for every line and the others once. Up to any other point the
records are the lines taken so far, without the one that the call was dropped in the middle of. So
the counters of an edit give the lines of the file before and after it. -/
theorem counters_account_for_work (p : Program) (options : Options) (uses : List Use) :
    let t := p.tally options uses
    t.run.state.recordNumber = t.run.metrics.records ∧
    t.run.metrics.emitted = t.handed.length ∧
    t.run.metrics.fired = t.applied.countP (·.fires) ∧
    t.run.metrics.fired + t.run.metrics.skipped = t.applied.length ∧
    (∀ input k,
      let pulled := (t.run.drive input).pulls k
      let run := pulled.2.current
      (none ∈ pulled.1.map Drive.Sight.item →
        run.metrics.records = t.run.metrics.records + input.length ∧
        run.metrics.fired + run.metrics.skipped = t.run.metrics.fired + t.run.metrics.skipped +
          (p.opening.length + input.length * p.perLine.length + p.closing.length)) ∧
      (pulled.2.held = none → run.metrics.records = t.run.metrics.records + pulled.2.consumed) ∧
      (pulled.2.held ≠ none →
        run.metrics.records + 1 = t.run.metrics.records + pulled.2.consumed)) ∧
    ∀ f : SpecFile,
      (f.edit p options).2.records = f.lines.length ∧
        (f.edit p options).2.emitted = (f.edit p options).1.lines.length := by
  intro t
  have accounts : t.Accounts p := tally_accounts p options uses
  refine ⟨accounts.numbered, accounts.emitted, accounts.fired, ?_, ?_, fun f =>
    ⟨f.edit_records p options, f.edit_emitted p options⟩⟩
  · rw [accounts.fired, accounts.skipped, applied_fires_or_not]
  · intro input k pulled run
    have records : run.metrics.records + pulled.2.held.toList.length =
        t.run.metrics.records + pulled.2.consumed := records_of_call t.run input k
    refine ⟨?_, ?_, ?_⟩
    · intro stopped
      obtain ⟨consumed, idle⟩ := consumed_of_call stopped
      have applied := applications_of_call stopped
      rw [Program.applicationsFor_of_sizes accounts.sizes] at applied
      constructor
      · rw [idle, consumed] at records
        simpa using records
      · exact (counted_in_call t.run input k).trans (congrArg _ applied)
    · intro idle
      simpa [idle] using records
    · intro busy
      obtain ⟨l, holds⟩ := Option.ne_none_iff_exists'.mp busy
      simpa [holds] using records

end LineRules
