import LineRules.Program

namespace LineRules

namespace Action

theorem apply_orPrint (p : Pattern) (h : Handler) (state : RunState) (line : Option Line) :
    (orPrint p h).apply state line =
      let seen := p.evaluate line
      if seen.report.isHit then
        let made := h.invoke state line seen.report
        ⟨some made.1, orPrint seen.next made.2, seen.calls⟩
      else ⟨some (.ofLine? line (.copies · 1)), orPrint seen.next h, seen.calls⟩ := by
  simp only [orPrint, apply, Pattern.evaluate, Handler.matchOrPrint]
  split
  · rfl
  · rfl

/-- Puts some lines in place of every line, by the line only, and stays as it is. -/
def Edits (a : Action) (f : Line → List Line) : Prop :=
  ∀ state line, ∃ output calls,
    a.apply state (some line) = ⟨some output, a, calls⟩ ∧ output.toList = f line

def EveryLine (a : Action) : Prop :=
  a.pattern.isAtStart = false ∧ a.pattern.isAtEnd = false

theorem everyLine_orPrint (p : Pattern) (h : Handler) : (orPrint p h).EveryLine :=
  ⟨rfl, rfl⟩

end Action

namespace Run

variable {a : Action} {f : Line → List Line}

theorem takeLine_edits (edits : a.Edits f) {r : Run} (only : r.actions = ⟨[], [a], []⟩)
    (line : Line) :
    (r.takeLine line).output = f line ∧ (r.takeLine line).run.actions = ⟨[], [a], []⟩ := by
  obtain ⟨output, calls, applied, gives⟩ := edits r.state line
  simp [takeLine, only, Action.sweep, applied, gives]

theorem takeLines_edits (edits : a.Edits f) {r : Run} (only : r.actions = ⟨[], [a], []⟩)
    (lines : List Line) :
    (r.takeLines lines).output = lines.flatMap f ∧
      (r.takeLines lines).run.actions = ⟨[], [a], []⟩ := by
  induction lines generalizing r with
  | nil => exact ⟨rfl, only⟩
  | cons line rest ih =>
    obtain ⟨gives, still⟩ := takeLine_edits edits only line
    obtain ⟨later, last⟩ := ih still
    exact ⟨by rw [takeLines, List.flatMap_cons, gives, later], last⟩

theorem exhaust_edits (edits : a.Edits f) (perLine : a.EveryLine) (options : Options)
    (lines : List Line) :
    (((Program.ofList [a]).start options).exhaust lines).output = lines.flatMap f := by
  have only : Program.ofList [a] = ⟨[], [a], []⟩ := by
    simp [Program.ofList, Program.add, perLine.1, perLine.2, Program.empty]
  have opened : ((Program.ofList [a]).start options).openUp.output = [] ∧
      ((Program.ofList [a]).start options).openUp.run.actions = ⟨[], [a], []⟩ := by
    simp [openUp, Program.start, only, Action.sweep]
  obtain ⟨gives, last⟩ := takeLines_edits edits opened.2 lines
  simp [exhaust, opened.1, gives, closeDown, last, Action.sweep]

end Run

end LineRules
