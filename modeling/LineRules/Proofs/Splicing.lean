import LineRules.Action
import LineRules.Proofs.Pattern.Parts
import LineRules.Proofs.Regex.Spans

namespace LineRules

def Text.splice? (line : Line) (span : Span) (replacement : Text) : Option Line := do
  let (before, _) ← line.splitAt? span.start
  let (_, after) ← line.splitAt? span.stop
  return before ++ replacement ++ after

theorem Span.Fits.splice {span : Span} {line : Line} (fits : span.Fits line) (new : Text) :
    ∃ before old after, line = before ++ old ++ after ∧
      span = ⟨Text.byteLength before, Text.byteLength (before ++ old)⟩ ∧
      Text.splice? line span new = some (before ++ new ++ after) ∧
      Text.splice line span new = before ++ new ++ after := by
  obtain ⟨before, old, after, rfl, rfl⟩ := Span.fits_iff.mp fits
  refine ⟨before, old, after, rfl, rfl, ?_, Text.splice_append before old after new⟩
  have starts : (before ++ old ++ after).splitAt? before.byteLength = some (before, old ++ after) := by
    rw [List.append_assoc, Text.splitAt_append]
  have stops := Text.splitAt_append (before ++ old) after
  simp only [Text.splice?, starts, stops, Option.bind_eq_bind, Option.bind_some]
  rfl

namespace Match

def found? : Match → Option Captures
  | .flag _ => none
  | .captures found => some found
  | .tagged _ inner => inner.found?

/-- All captures of a report come from the line, and their spans fit it. -/
def Fits (line : Option Line) (report : Match) : Prop :=
  ∀ found, report.found? = some found →
    line = some found.line ∧ ∀ span, some span ∈ found.groups → span.Fits found.line

variable {line : Option Line} {report : Match}

theorem fits_flag (hit : Bool) : Fits line (.flag hit) :=
  nofun

theorem Fits.tagged (fits : Fits line report) (side : Side) : Fits line (.tagged side report) :=
  fits

end Match

namespace Pattern

variable {line : Option Line}

theorem first_fits {ps : List Pattern} (each : ∀ p ∈ ps, (p.evaluate line).report.Fits line) :
    (evaluateFirst line ps).report.Fits line := by
  induction ps with
  | nil => exact Match.fits_flag false
  | cons p ps ih =>
    obtain ⟨here, later⟩ := List.forall_mem_cons.mp each
    rw [report_first]
    split
    · exact here
    · exact ih later

theorem report_fits (line : Option Line) (p : Pattern) : (p.evaluate line).report.Fits line := by
  induction p using part_induction with
  | step p ih =>
    cases p with
    | atStart | atEnd | always | never | negation p => exact Match.fits_flag _
    | test t => cases line <;> exact Match.fits_flag _
    | regex m =>
      cases line with
      | none => exact Match.fits_flag _
      | some l =>
        cases search : m.find? l with
        | none => simpa [evaluate, search] using Match.fits_flag false
        | some captured =>
          intro found same
          obtain rfl : captured = found := by simpa [evaluate, search, Match.found?] using same
          obtain ⟨rfl, spans⟩ := Matcher.find_fits search
          exact ⟨rfl, spans⟩
    | both p q =>
      rw [report_both]
      split
      · exact ih q (by simp [parts])
      · exact ih p (by simp [parts])
    | either p q =>
      rw [report_either]
      split
      · exact ih p (by simp [parts])
      · exact ih q (by simp [parts])
    | range start stop isOpen =>
      rw [report_range]
      split <;> split
      · exact ih stop (by simp [parts])
      · exact Match.fits_flag _
      · exact ih start (by simp [parts])
      · exact Match.fits_flag _
    | ifThen condition yes no =>
      rw [report_ifThen]
      split
      · exact ih yes (by simp [parts])
      · exact ih no (by simp [parts])
    | oneOf ps =>
      rw [evaluate_oneOf, Evaluation.after_report]
      exact first_fits ih
    | eitherOr p q =>
      rw [evaluate]
      split
      · exact (ih p (by simp [parts])).tagged .right
      · exact (ih q (by simp [parts])).tagged .left
    | orAlways p =>
      rw [evaluate]
      split
      · exact (ih p (by simp [parts])).tagged .right
      · exact (Match.fits_flag true).tagged .left

end Pattern

/-- A way to put a text in place of a span of a line, which may fail. -/
abbrev Cut := Line → Span → Text → Option Line

namespace Handler

def withValueBy (cut : Cut) (report : Match) (line : Line) (value : Text) : Option Line :=
  match report.captures?.bind (·.namedSpan? Spec.valueName) with
  | some span => cut line span value
  | none => some line

def withBumpBy (cut : Cut) (report : Match) (line : Line) (rightmost : Bool) : Option Line :=
  match report.captures? with
  | none => some line
  | some found =>
    match found.named? Spec.releaseName, found.namedSpan? Spec.releaseName with
    | some old, some span => cut line span (Release.increase old rightmost)
    | _, _ => some line

def editBy (edit : Line → Option Line) : Option Line → Option Output
  | none => some .none
  | some l => (edit l).map (.copies · 1)

/-- A handler with another way to cut in lines; nothing if that fails. -/
def invokeBy (cut : Cut) (state : RunState) (line : Option Line) :
    Handler → Match → Option (Output × Handler)
  | .replaceValue value, report =>
    (editBy (withValueBy cut report · value) line).map (·, .replaceValue value)
  | .bumpRelease rightmost, report =>
    (editBy (withBumpBy cut report · rightmost) line).map (·, .bumpRelease rightmost)
  | .eitherOr left right, report =>
    match report with
    | .tagged .left inner =>
      (left.invokeBy cut state line inner).map fun made => (made.1, .eitherOr made.2 right)
    | .tagged .right inner =>
      (right.invokeBy cut state line inner).map fun made => (made.1, .eitherOr left made.2)
    | plain =>
      (right.invokeBy cut state line plain).map fun made => (made.1, .eitherOr left made.2)
  | leaf, report => some (leaf.invoke state line report)

variable {cut : Cut} {report : Match}

theorem mem_groups {found : Captures} {name : Text} {span : Span}
    (named : found.namedSpan? name = some span) : some span ∈ found.groups := by
  obtain ⟨n, -, here⟩ := Option.bind_eq_some_iff.mp named
  exact List.mem_of_getElem? (Option.join_eq_some_iff.mp here)

theorem found_of_captures {found : Captures} (captures : report.captures? = some found) :
    report.found? = some found := by
  cases report with
  | captures c => exact captures
  | flag hit => simp [Match.captures?] at captures
  | tagged side inner => simp [Match.captures?] at captures

def CutsAlike (cut : Cut) (line : Option Line) (report : Match) : Prop :=
  ∀ l found span new, line = some l → report.found? = some found → some span ∈ found.groups →
    cut l span new = some (Text.splice l span new)

theorem withValueBy_eq {l : Line} (alike : CutsAlike cut (some l) report) (value : Text) :
    withValueBy cut report l value = some (withValue report l value) := by
  rw [withValueBy, withValue]
  cases named : report.captures?.bind (·.namedSpan? Spec.valueName) with
  | none => rfl
  | some span =>
    obtain ⟨found, captures, named⟩ := Option.bind_eq_some_iff.mp named
    exact alike l found span value rfl (found_of_captures captures) (mem_groups named)

theorem withBumpBy_eq {l : Line} (alike : CutsAlike cut (some l) report) (rightmost : Bool) :
    withBumpBy cut report l rightmost = some (withBump report l rightmost) := by
  cases captures : report.captures? with
  | none => simp only [withBumpBy, withBump, captures]
  | some found =>
    cases text : found.named? Spec.releaseName with
    | none => simp only [withBumpBy, withBump, captures, text]
    | some old =>
      cases named : found.namedSpan? Spec.releaseName with
      | none => simp only [withBumpBy, withBump, captures, text, named]
      | some span =>
        simp only [withBumpBy, withBump, captures, text, named]
        exact alike l found span _ rfl (found_of_captures captures) (mem_groups named)

theorem editBy_eq {edit : Line → Option Line} {f : Line → Line} {line : Option Line}
    (same : ∀ l, line = some l → edit l = some (f l)) :
    editBy edit line = some (.ofLine? line fun l => .copies (f l) 1) := by
  cases line with
  | none => rfl
  | some l =>
    rw [editBy, same l rfl]
    rfl

theorem invokeBy_eq (state : RunState) {line : Option Line} (h : Handler)
    (alike : CutsAlike cut line report) :
    h.invokeBy cut state line report = some (h.invoke state line report) := by
  induction h generalizing report with
  | print | double | increment count | emit lines | compute f | changelog entry date => rfl
  | replaceValue value =>
    rw [invokeBy, editBy_eq fun l here => withValueBy_eq (here ▸ alike) value]
    rfl
  | bumpRelease rightmost =>
    rw [invokeBy, editBy_eq fun l here => withBumpBy_eq (here ▸ alike) rightmost]
    rfl
  | eitherOr left right first second =>
    cases report with
    | flag hit | captures found => simp [invokeBy, invoke, second alike]
    | tagged side inner =>
      -- A tag hides no captures.
      have within : CutsAlike cut line inner := alike
      cases side with
      | left => simp [invokeBy, invoke, first within]
      | right => simp [invokeBy, invoke, second within]

end Handler

def Action.applyBy (cut : Cut) (a : Action) (state : RunState) (line : Option Line) :
    Option Applied :=
  let seen := a.pattern.evaluate line
  if seen.report.isHit then
    (a.handler.invokeBy cut state line seen.report).map fun made =>
      ⟨some made.1, ⟨seen.next, made.2⟩, seen.calls⟩
  else some ⟨none, ⟨seen.next, a.handler⟩, seen.calls⟩

theorem Action.applyBy_eq {cut : Cut}
    (alike : ∀ l span new, span.Fits l → cut l span new = Text.splice? l span new) (a : Action)
    (state : RunState) (line : Option Line) :
    a.applyBy cut state line = some (a.apply state line) := by
  have within : Handler.CutsAlike cut line (a.pattern.evaluate line).report := by
    intro l found span new here captured member
    obtain ⟨same, spans⟩ := Pattern.report_fits line a.pattern found captured
    obtain rfl : l = found.line := Option.some.inj (here.symm.trans same)
    obtain ⟨before, old, after, -, -, cuts, stays⟩ := (spans span member).splice new
    rw [alike _ span new (spans span member), cuts, stays]
  rw [applyBy, apply]
  split
  · rw [Handler.invokeBy_eq state a.handler within]
    rfl
  · rfl

/-- Whatever state a pattern is in, all that it captures on a line is captured in that very line, in
spans that fit it. So an action never cuts a line where it cannot be cut: it gets along with any way
to cut that works for spans that fit, and need not work for others. What stands outside of the span
stays. -/
theorem actions_cut_within_line (a : Action) (state : RunState) (line : Option Line) :
    (∀ found, (a.pattern.evaluate line).report.found? = some found →
      line = some found.line ∧ ∀ span, some span ∈ found.groups → span.Fits found.line) ∧
    a.applyBy Text.splice? state line = some (a.apply state line) ∧
    (∀ cut : Cut, (∀ l span new, span.Fits l → cut l span new = Text.splice? l span new) →
      a.applyBy cut state line = some (a.apply state line)) ∧
    ∀ (l : Line) (span : Span) (new : Text), span.Fits l →
      ∃ before old after, l = before ++ old ++ after ∧
        span = ⟨Text.byteLength before, Text.byteLength (before ++ old)⟩ ∧
        Text.splice? l span new = some (before ++ new ++ after) ∧
        Text.splice l span new = before ++ new ++ after :=
  ⟨Pattern.report_fits line a.pattern, Action.applyBy_eq (fun _ _ _ _ => rfl) a state line,
    fun _ alike => Action.applyBy_eq alike a state line, fun _ _ new fits => fits.splice new⟩

theorem value_behind_accent_replaced :
    let value : Matcher := ⟨.seq (.text "é=") (.group 1 (.many (.single '1'))), [(Spec.valueName, 1)]⟩
    let a : Action := ⟨.orAlways (.regex value), .matchOrPrint (.replaceValue "22")⟩
    let line : Line := "é=1."
    (⟨3, 4⟩ : Span).Fits line ∧
      (a.applyBy Text.splice? ⟨0, " ", "\n"⟩ (some line)).map (·.output) =
        some (some (.copies "é=22." 1)) := by
  intro value a line
  obtain ⟨within, cuts, -⟩ := actions_cut_within_line a ⟨0, " ", "\n"⟩ (some line)
  have found : (a.pattern.evaluate (some line)).report.found? =
      some ⟨line, [some ⟨0, 4⟩, some ⟨3, 4⟩], [(Spec.valueName, 1)]⟩ := by decide
  refine ⟨(within _ found).2 ⟨3, 4⟩ (by decide), ?_⟩
  rw [cuts]
  decide

end LineRules
