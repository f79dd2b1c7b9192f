import LineRules.Program

/-!
Driving a run lazily. A drive hands out one output line for each pull and does no more work for it
than is needed: it first hands out what the last action still has to give, then applies the next
action, and takes a line from the input only when every action has seen the line before.
-/
namespace LineRules

structure Pass where
  applied : List Action
  waiting : List Action

namespace Pass

def start (actions : List Action) : Pass :=
  ⟨[], actions⟩

def actions (p : Pass) : List Action :=
  p.applied ++ p.waiting

end Pass

inductive Phase where
  | opening (pass : Pass)
  | reading
  | line (l : Line) (pass : Pass)
  | closing (pass : Pass)
  | finished

structure Drive where
  run : Run
  phase : Phase
  input : List Line
  consumed : Nat
  pending : Output
  calls : List Call

def Run.drive (r : Run) (input : List Line) : Drive :=
  ⟨r, .opening (.start r.actions.opening), input, 0, .none, []⟩

namespace Drive

def applyNext (d : Drive) (phase : Pass → Phase) (line : Option Line) (pass : Pass) (a : Action)
    (waiting : List Action) : Drive :=
  let applied := a.apply d.run.state line
  let metrics := d.run.metrics
  { d with
    phase := phase ⟨pass.applied ++ [applied.next], waiting⟩
    run := { d.run with
      metrics := match applied.output with
        | some _ => { metrics with fired := metrics.fired + 1 }
        | none => { metrics with skipped := metrics.skipped + 1 } }
    pending := applied.output.getD .none
    calls := d.calls ++ applied.calls }

/-- The next piece of work that hands out nothing; none when the drive is finished. -/
def work (d : Drive) : Option Drive :=
  match d.phase with
  | .opening pass =>
    match pass.waiting with
    | a :: waiting => some (d.applyNext .opening none pass a waiting)
    | [] =>
      let actions := { d.run.actions with opening := pass.applied }
      some { d with run := { d.run with actions }, phase := .reading }
  | .reading =>
    match d.input with
    | l :: input =>
      some { d with
        phase := .line l (.start d.run.actions.perLine), input, consumed := d.consumed + 1 }
    | [] => some { d with phase := .closing (.start d.run.actions.closing) }
  | .line l pass =>
    match pass.waiting with
    | a :: waiting => some (d.applyNext (.line l) (some l) pass a waiting)
    | [] =>
      let state := { d.run.state with recordNumber := d.run.state.recordNumber + 1 }
      let actions := { d.run.actions with perLine := pass.applied }
      let metrics := { d.run.metrics with records := d.run.metrics.records + 1 }
      some { d with run := { state, actions, metrics }, phase := .reading }
  | .closing pass =>
    match pass.waiting with
    | a :: waiting => some (d.applyNext .closing none pass a waiting)
    | [] =>
      let actions := { d.run.actions with closing := pass.applied }
      some { d with run := { d.run with actions }, phase := .finished }
  | .finished => none

/-- How much is left to do: the stage, then the lines left, then the actions left for the line that
was taken. -/
def rank (d : Drive) : Nat × Nat × Nat :=
  match d.phase with
  | .opening pass => (3, 0, pass.waiting.length)
  | .reading => (2, 2 * d.input.length, 0)
  | .line _ pass => (2, 2 * d.input.length + 1, pass.waiting.length)
  | .closing pass => (1, 0, pass.waiting.length)
  | .finished => (0, 0, 0)

theorem rank_work {d e : Drive} (h : d.work = some e) :
    Prod.Lex (· < ·) (Prod.Lex (· < ·) (· < ·)) e.rank d.rank := by
  unfold work at h
  split at h
  all_goals try (split at h)
  all_goals simp only [Option.some.injEq, reduceCtorEq] at h
  all_goals subst h
  all_goals simp_all [rank, applyNext, Pass.start, Prod.lex_def]
  omega

/-- Hands out the next line, after as much work as that takes; nothing once all work is done. -/
def pull (d : Drive) : Option Line × Drive :=
  match d.pending.next? with
  | some (l, pending) =>
    let metrics := { d.run.metrics with emitted := d.run.metrics.emitted + 1 }
    (some l, { d with run := { d.run with metrics }, pending })
  | none =>
    match _more : d.work with
    | some e => pull e
    | none => (none, d)
termination_by d.rank
decreasing_by exact rank_work _more

def current (d : Drive) : Run :=
  match d.phase with
  | .opening pass => { d.run with actions := { d.run.actions with opening := pass.actions } }
  | .line _ pass => { d.run with actions := { d.run.actions with perLine := pass.actions } }
  | .closing pass => { d.run with actions := { d.run.actions with closing := pass.actions } }
  | .reading | .finished => d.run

theorem rank_trans {a b c : Nat × Nat × Nat}
    (first : Prod.Lex (· < ·) (Prod.Lex (· < ·) (· < ·)) a b)
    (second : Prod.Lex (· < ·) (Prod.Lex (· < ·) (· < ·)) b c) :
    Prod.Lex (· < ·) (Prod.Lex (· < ·) (· < ·)) a c := by
  simp only [Prod.lex_def] at *
  omega

theorem rank_pull (d : Drive) {l : Line} {e : Drive} (h : d.pull = (some l, e)) :
    Prod.Lex (Prod.Lex (· < ·) (Prod.Lex (· < ·) (· < ·))) (· < ·)
      (e.rank, e.pending.size) (d.rank, d.pending.size) := by
  fun_induction pull d with
  | case1 d line pending next metrics =>
    simp only [Prod.mk.injEq, Option.some.injEq] at h
    obtain ⟨rfl, rfl⟩ := h
    have taken := Output.size_next next
    have same : rank { d with run := { d.run with metrics }, pending } = d.rank := rfl
    rw [same]
    exact .right _ (by simp only; omega)
  | case2 d _ f more ih =>
    rcases Prod.lex_def.1 (ih h) with less | ⟨same, _⟩
    · exact .left _ _ (rank_trans less (rank_work more))
    · have level : e.rank = f.rank := same
      exact .left _ _ (level ▸ rank_work more)
  | case3 => simp at h

structure Sight where
  item : Option Line
  recordNumber : Nat
  metrics : Metrics
  consumed : Nat
deriving DecidableEq, Repr

def sight (d : Drive) (item : Option Line) : Sight :=
  ⟨item, d.run.state.recordNumber, d.run.metrics, d.consumed⟩

def pulls (d : Drive) : Nat → List Sight × Drive
  | 0 => ([], d)
  | n + 1 =>
    let (item, e) := d.pull
    let later := e.pulls n
    (e.sight item :: later.1, later.2)

/-- Pulls until nothing comes: what was seen after each pull, that one included, and the drive after
it. -/
def pullAll (d : Drive) : List Sight × Drive :=
  match _given : d.pull with
  | (some l, e) =>
    let later := e.pullAll
    (e.sight (some l) :: later.1, later.2)
  | (none, e) => ([e.sight none], e)
termination_by (d.rank, d.pending.size)
decreasing_by exact d.rank_pull _given

end Drive

end LineRules
