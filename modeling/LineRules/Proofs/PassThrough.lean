import LineRules.Proofs.LineEdit

namespace LineRules.Action

def after (a : Action) (steps : List (RunState × Option Line)) : Action :=
  steps.foldl (fun a step => (a.apply step.1 step.2).next) a

variable {p : Pattern} {h : Handler}

theorem apply_hit {state : RunState} {line : Option Line}
    (hit : (p.evaluate line).report.isHit = true) :
    let made := h.invoke state line (p.evaluate line).report
    (⟨p, h⟩ : Action).apply state line =
      ⟨some made.1, ⟨(p.evaluate line).next, made.2⟩, (p.evaluate line).calls⟩ := by
  simp only [apply, hit, if_true]

theorem apply_miss {state : RunState} {line : Option Line}
    (miss : (p.evaluate line).report.isHit = false) :
    (⟨p, h⟩ : Action).apply state line =
      ⟨none, ⟨(p.evaluate line).next, h⟩, (p.evaluate line).calls⟩ := by
  simp [apply, miss]

theorem orPrint_apply (p : Pattern) (h : Handler) (state : RunState) (line : Option Line) :
    let plain := (⟨p, h⟩ : Action).apply state line
    (orPrint p h).apply state line =
      ⟨some (plain.output.getD (.ofLine? line (.copies · 1))),
        orPrint plain.next.pattern plain.next.handler, plain.calls⟩ := by
  intro plain
  rw [apply_orPrint]
  cases hit : (p.evaluate line).report.isHit with
  | true => simp [plain, apply_hit hit, hit]
  | false => simp [plain, apply_miss hit, hit]

theorem orPrint_after (p : Pattern) (h : Handler) (steps : List (RunState × Option Line)) :
    let plain := (⟨p, h⟩ : Action).after steps
    (orPrint p h).after steps = orPrint plain.pattern plain.handler := by
  induction steps generalizing p h with
  | nil => rfl
  | cons step rest ih =>
    have first := congrArg Applied.next (orPrint_apply p h step.1 step.2)
    simp only [after, List.foldl_cons, first]
    exact ih _ _

theorem unchanged_line (line : Option Line) :
    (Output.ofLine? line (.copies · 1)).toList = line.toList := by
  cases line <;> rfl

/-- After any number of lines, a rule that prints what it misses makes output for every line: what the
rule without that makes of a line that its pattern matches, by invoking the handler with what the
pattern itself reports, and else just the line, without invoking the handler. Both are left with the
same pattern and the same handler. -/
theorem or_print_transforms_or_passes (p : Pattern) (h : Handler)
    (steps : List (RunState × Option Line)) (state : RunState) (line : Option Line) :
    let plain := (⟨p, h⟩ : Action).after steps
    let printing := (orPrint p h).after steps
    let one := plain.apply state line
    let other := printing.apply state line
    let report := (plain.pattern.evaluate line).report
    let made := plain.handler.invoke state line report
    printing = orPrint plain.pattern plain.handler ∧
    other.output.isSome = true ∧
    (∀ output, one.output = some output → other.output = some output) ∧
    (one.output = none → other.output.map Output.toList = some line.toList) ∧
    other.next = orPrint one.next.pattern one.next.handler ∧ other.calls = one.calls ∧
    (report.isHit = true → one.output = some made.1 ∧ one.next.handler = made.2) ∧
    (report.isHit = false → one.output = none ∧ one.next.handler = plain.handler) := by
  intro plain printing one other report made
  have same : printing = orPrint plain.pattern plain.handler := orPrint_after p h steps
  have applied : other = ⟨some (one.output.getD (.ofLine? line (.copies · 1))),
      orPrint one.next.pattern one.next.handler, one.calls⟩ := by
    rw [← orPrint_apply plain.pattern plain.handler state line, ← same]
  refine ⟨same, by rw [applied]; rfl, ?_, ?_, by rw [applied], by rw [applied], ?_, ?_⟩
  · intro output fired
    rw [applied, fired]
    rfl
  · intro skipped
    rw [applied, skipped]
    exact congrArg some (unchanged_line line)
  · intro hit
    have fired : one = _ := apply_hit hit
    rw [fired]
    exact ⟨rfl, rfl⟩
  · intro miss
    have skipped : one = _ := apply_miss miss
    rw [skipped]
    exact ⟨rfl, rfl⟩

theorem opening_line_counted :
    let p : Pattern := .range (.test ⟨"from", fun line => line.startsWith "<"⟩) .never false
    let steps : List (RunState × Option Line) := [(⟨0, " ", "\n"⟩, some "a")]
    let next := ((orPrint p .counting).after steps).apply ⟨1, " ", "\n"⟩ (some "<")
    next.output = some (.numbered "<" 0 1) ∧
      next.next = orPrint (.range (.test ⟨"from", fun line => line.startsWith "<"⟩) .never true)
        (.increment 1) := by
  intro p steps next
  obtain ⟨-, -, fired, -, left, -, hit, -⟩ :=
    or_print_transforms_or_passes p .counting steps ⟨1, " ", "\n"⟩ (some "<")
  exact ⟨fired _ (hit (by decide)).1, left⟩

end LineRules.Action
