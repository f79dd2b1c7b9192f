import LineRules.Workshop

/-!
What a workshop keeps apart. A run never sees the steps that are made on other runs or on the
template: it shows and becomes the same as in a workshop of its own, made from the template as it
stood at the start, in which nothing but the calls on it are made. Only added actions change the
template, and they leave those that were there as they are.
-/
namespace LineRules

structure Program.Within (p q : Program) : Prop where
  opening : p.opening <+: q.opening
  perLine : p.perLine <+: q.perLine
  closing : p.closing <+: q.closing

namespace Program.Within

variable {p q r : Program}

theorem refl (p : Program) : p.Within p :=
  ⟨List.prefix_rfl, List.prefix_rfl, List.prefix_rfl⟩

theorem trans (first : p.Within q) (second : q.Within r) : p.Within r where
  opening := first.opening.trans second.opening
  perLine := first.perLine.trans second.perLine
  closing := first.closing.trans second.closing

theorem add (p : Program) (a : Action) : p.Within (p.add a) := by
  unfold Program.add
  split
  · exact ⟨List.prefix_append _ _, List.prefix_rfl, List.prefix_rfl⟩
  · split
    · exact ⟨List.prefix_rfl, List.prefix_rfl, List.prefix_append _ _⟩
    · exact ⟨List.prefix_rfl, List.prefix_append _ _, List.prefix_rfl⟩

theorem addAll (p : Program) (actions : List Action) : p.Within (actions.foldl Program.add p) := by
  induction actions generalizing p with
  | nil => exact refl p
  | cons a rest ih => exact (add p a).trans (ih (p.add a))

end Program.Within

namespace Workshop

namespace Step

def action? : Step → Option Action
  | .add a => some a
  | .start _ | .process _ _ _ | .apply _ => none

def isStart : Step → Bool
  | .start _ => true
  | .add _ | .process _ _ _ | .apply _ => false

/-- The step as one in the run's own workshop, where the run is number zero; only calls on the run
are steps there. -/
def callOn (n : Nat) : Step → Option Step
  | .process run input pulls => if run = n then some (.process 0 input pulls) else none
  | .add _ | .start _ | .apply _ => none

end Step

def added (steps : List Step) : List Action :=
  steps.filterMap Step.action?

def started (steps : List Step) : Nat :=
  steps.countP Step.isStart

def callsOn (n : Nat) (steps : List Step) : List Step :=
  steps.filterMap (Step.callOn n)

def shownOn (n : Nat) (steps : List Step) (shown : List Shown) : List Shown :=
  ((steps.zip shown).filter fun seen => (seen.1.callOn n).isSome).map Prod.snd

theorem added_append (first rest : List Step) : added (first ++ rest) = added first ++ added rest :=
  List.filterMap_append

theorem started_append (first rest : List Step) :
    started (first ++ rest) = started first + started rest :=
  List.countP_append

variable {w : Workshop} {r : Run} {n : Nat}

theorem steps_append (w : Workshop) (before after : List Step) :
    w.steps (before ++ after) =
      (((w.steps before).1.steps after).1,
        (w.steps before).2 ++ ((w.steps before).1.steps after).2) := by
  induction before generalizing w with
  | nil => rfl
  | cons s rest ih => simp [steps, ih]

theorem shown_length (w : Workshop) (steps : List Step) :
    (w.steps steps).2.length = steps.length := by
  induction steps generalizing w with
  | nil => rfl
  | cons s rest ih => simp [Workshop.steps, ih]

theorem shown_behind (w : Workshop) (before : List Step) (s : Step) (after : List Step) :
    let there := (w.steps before).1.step s
    let all := w.steps (before ++ s :: after)
    all.2[before.length]? = some there.2 ∧
      all.2.drop (before.length + 1) = (there.1.steps after).2 ∧ all.1 = (there.1.steps after).1 := by
  intro there all
  have whole : all = _ := w.steps_append before (s :: after)
  have length := w.shown_length before
  rw [whole]
  refine ⟨?_, ?_, rfl⟩
  · rw [List.getElem?_append_right (by omega), length, Nat.sub_self]
    rfl
  · rw [← length, ← List.drop_drop, List.drop_left]
    rfl

theorem step_template (w : Workshop) (s : Step) :
    (w.step s).1.template = (added [s]).foldl Program.add w.template := by
  cases s with
  | add a => rfl
  | start options => rfl
  | apply input => rfl
  | process run input pulls =>
    rw [step]
    cases w.runs[run]? <;> rfl

theorem steps_template (w : Workshop) (steps : List Step) :
    (w.steps steps).1.template = (added steps).foldl Program.add w.template := by
  induction steps generalizing w with
  | nil => rfl
  | cons s rest ih =>
    have split : added (s :: rest) = added [s] ++ added rest := added_append [s] rest
    rw [Workshop.steps, ih, step_template, split, List.foldl_append]

theorem step_runs (w : Workshop) (s : Step) :
    (w.step s).1.runs.length = w.runs.length + started [s] := by
  cases s with
  | add a => rfl
  | start options => simp [step, started, Step.isStart]
  | apply input => rfl
  | process run input pulls =>
    rw [step]
    cases w.runs[run]? <;> simp [started, Step.isStart]

theorem steps_runs (w : Workshop) (steps : List Step) :
    (w.steps steps).1.runs.length = w.runs.length + started steps := by
  induction steps generalizing w with
  | nil => rfl
  | cons s rest ih =>
    have split : started (s :: rest) = started [s] + started rest := started_append [s] rest
    rw [Workshop.steps, ih, step_runs, split, Nat.add_assoc]

theorem step_other {s : Step} (here : w.runs[n]? = some r) (other : s.callOn n = none) :
    (w.step s).1.runs[n]? = some r := by
  cases s with
  | add a => exact here
  | apply input => exact here
  | start options =>
    have less : n < w.runs.length := (List.getElem?_eq_some_iff.mp here).1
    exact (List.getElem?_append_left less).trans here
  | process run input pulls =>
    have apart : run ≠ n := by
      intro same
      simp [Step.callOn, same] at other
    rw [step]
    cases w.runs[run]? with
    | none => exact here
    | some others => exact (List.getElem?_set_ne apart).trans here

/-- A call on a run shows and leaves the same in the run's own workshop. -/
theorem step_call {s call : Step} (here : w.runs[n]? = some r) (asked : s.callOn n = some call)
    (template : Program) :
    ∃ left, (w.step s).1.runs[n]? = some left ∧
      (Workshop.mk template [r]).step call = (⟨template, [left]⟩, (w.step s).2) := by
  cases s with
  | add a => cases asked
  | start options => cases asked
  | apply input => cases asked
  | process run input pulls =>
    simp only [Step.callOn, Option.ite_none_right_eq_some, Option.some.injEq] at asked
    obtain ⟨rfl, rfl⟩ := asked
    have less : run < w.runs.length := (List.getElem?_eq_some_iff.mp here).1
    refine ⟨(processRun r input pulls).2.current, ?_, ?_⟩
    · simp only [step, here, List.getElem?_set_self less]
    · simp [step, here]

theorem steps_alone (here : w.runs[n]? = some r) (template : Program) (rest : List Step) :
    let all := w.steps rest
    let alone := (Workshop.mk template [r]).steps (callsOn n rest)
    ∃ left, all.1.runs[n]? = some left ∧ alone = (⟨template, [left]⟩, shownOn n rest all.2) := by
  induction rest generalizing w r with
  | nil => exact ⟨r, here, rfl⟩
  | cons s rest ih =>
    cases asked : s.callOn n with
    | none =>
      obtain ⟨left, there, shown⟩ := ih (step_other here asked)
      refine ⟨left, there, ?_⟩
      simpa [callsOn, shownOn, Workshop.steps, asked] using shown
    | some call =>
      obtain ⟨next, kept, called⟩ := step_call here asked template
      obtain ⟨left, there, shown⟩ := ih kept
      refine ⟨left, there, ?_⟩
      simp only [callsOn] at shown
      simp [callsOn, shownOn, Workshop.steps, asked, called, shown]

/-- However additions, starts, runs at once and calls, pulled as far as may be, follow each other, a
run shows and becomes what it does in a workshop that is made from the template as it stood when the
run was started, and in which only the calls on it are made, in their order. Running the template at
once gives what the actions give that were added before, from their first states. The template is
the program with the added actions behind it: no other step changes it, and the actions that it had
keep their flags and counts. -/
theorem runs_stay_apart (p : Program) (before : List Step) :
    let template := (added before).foldl Program.add p
    (∀ options after,
      let n := started before
      let all := (ofProgram p).steps (before ++ .start options :: after)
      let alone := (ofProgram template).steps (.start options :: callsOn n after)
      all.2[before.length]? = some (.started n (template.start options)) ∧
        alone.2 = .started 0 (template.start options) ::
          shownOn n after (all.2.drop (before.length + 1)) ∧
        ∃ left, all.1.runs[n]? = some left ∧ alone.1 = ⟨template, [left]⟩) ∧
    (∀ input after,
      let done := (template.start {}).exhaust input
      ((ofProgram p).steps (before ++ .apply input :: after)).2[before.length]? =
        some (.applied done.output done.calls)) ∧
    ∀ after,
      let later := ((ofProgram p).steps (before ++ after)).1.template
      later = (added after).foldl Program.add template ∧ template.Within later := by
  intro template
  have stood : ((ofProgram p).steps before).1.template = template := steps_template _ before
  refine ⟨?_, ?_, ?_⟩
  · intro options after n all alone
    obtain ⟨shown, later, left⟩ := (ofProgram p).shown_behind before (.start options) after
    have number : ((ofProgram p).steps before).1.runs.length = n := by
      rw [steps_runs]
      exact Nat.zero_add _
    have here : (((ofProgram p).steps before).1.step (.start options)).1.runs[n]? =
        some (template.start options) := by
      simp [step, ← number, stood]
    obtain ⟨run, there, calls⟩ := steps_alone here template after
    rw [← left] at there
    rw [← later] at calls
    have own : alone = (_, _ :: _) := congrArg (fun later => (later.1, _ :: later.2)) calls
    refine ⟨?_, congrArg Prod.snd own, run, there, congrArg Prod.fst own⟩
    rw [shown, step, stood, number]
  · intro input after done
    rw [((ofProgram p).shown_behind before (.apply input) after).1, step, stood]
  · intro after later
    have grown : later = (added after).foldl Program.add template := by
      have whole : later = _ := steps_template _ (before ++ after)
      rw [whole, added_append, List.foldl_append]
      rfl
    exact ⟨grown, grown ▸ .addAll template (added after)⟩

end Workshop

end LineRules
