import LineRules.Pattern

/-!
Laws of the combinators. Ordinary laws of logic may fail where a part is not looked at or keeps a
state, so a law compares two ways to put the same parts together by all that can be seen: on every
line both report the same, ask the same predicates in the same order, and leave every part in the
same state. What no single line tells apart, no run of lines does.
-/
namespace LineRules

namespace Evaluation

variable {α β γ : Type}

@[simp] theorem after_report (e : Evaluation α) (calls : List Call) (wrap : α → β) :
    (e.after calls wrap).report = e.report :=
  rfl

@[simp] theorem after_next (e : Evaluation α) (calls : List Call) (wrap : α → β) :
    (e.after calls wrap).next = wrap e.next :=
  rfl

@[simp] theorem after_calls (e : Evaluation α) (calls : List Call) (wrap : α → β) :
    (e.after calls wrap).calls = calls ++ e.calls :=
  rfl

theorem after_after (e : Evaluation α) (calls earlier : List Call) (inner : α → β)
    (outer : β → γ) :
    (e.after calls inner).after earlier outer = e.after (earlier ++ calls) (outer ∘ inner) := by
  simp only [after, Function.comp_apply, List.append_assoc]

end Evaluation

namespace Pattern

section Steps

variable {p q : Pattern} {ps : List Pattern} {line : Option Line}

theorem both_hit (hit : (p.evaluate line).report.isHit = true) :
    (both p q).evaluate line =
      (q.evaluate line).after (p.evaluate line).calls (.both (p.evaluate line).next) := by
  simp only [evaluate, hit, if_true]

theorem both_miss (miss : ¬(p.evaluate line).report.isHit = true) :
    (both p q).evaluate line = (p.evaluate line).after [] (.both · q) := by
  simp only [evaluate, if_neg miss]
  rfl

theorem either_hit (hit : (p.evaluate line).report.isHit = true) :
    (either p q).evaluate line = (p.evaluate line).after [] (.either · q) := by
  simp only [evaluate, hit, if_true]
  rfl

theorem either_miss (miss : ¬(p.evaluate line).report.isHit = true) :
    (either p q).evaluate line =
      (q.evaluate line).after (p.evaluate line).calls (.either (p.evaluate line).next) := by
  simp only [evaluate, if_neg miss]

theorem evaluate_negation :
    (negation p).evaluate line =
      ⟨.flag !(p.evaluate line).report.isHit, .negation (p.evaluate line).next,
        (p.evaluate line).calls⟩ := by
  rw [evaluate]

theorem negation_hit :
    ((negation p).evaluate line).report.isHit = !(p.evaluate line).report.isHit := by
  rw [evaluate_negation]
  rfl

theorem evaluate_oneOf : (oneOf ps).evaluate line = (evaluateFirst line ps).after [] .oneOf := by
  rw [evaluate]

theorem first_hit (hit : (p.evaluate line).report.isHit = true) :
    evaluateFirst line (p :: ps) = (p.evaluate line).after [] (· :: ps) := by
  simp only [evaluateFirst, hit, if_true]
  rfl

theorem first_miss (miss : ¬(p.evaluate line).report.isHit = true) :
    evaluateFirst line (p :: ps) =
      (evaluateFirst line ps).after (p.evaluate line).calls ((p.evaluate line).next :: ·) := by
  simp only [evaluateFirst, if_neg miss]

end Steps

section Alike

variable {σ : Type} {left right : σ → Pattern}

/-- On every line the outcome for both ways to put the parts together is the outcome for the parts:
one report, one list of calls, and one new state of the parts. -/
def StepsAlike (left right : σ → Pattern) : Prop :=
  ∀ parts line, ∃ seen : Evaluation σ,
    (left parts).evaluate line = seen.after [] left ∧
      (right parts).evaluate line = seen.after [] right

/-- Over a run both ways report the same on every line, ask the same, and hold the same parts. -/
structure RunsAlike (left right : σ → Pattern) (parts : σ) (lines : List (Option Line)) : Prop where
  reports : ((left parts).evaluateAll lines).map (·.report) =
    ((right parts).evaluateAll lines).map (·.report)
  calls : ((left parts).evaluateAll lines).map (·.calls) =
    ((right parts).evaluateAll lines).map (·.calls)
  states : ∃ held : List σ,
    ((left parts).evaluateAll lines).map (·.next) = held.map left ∧
      ((right parts).evaluateAll lines).map (·.next) = held.map right

theorem StepsAlike.runs (alike : StepsAlike left right) (parts : σ) (lines : List (Option Line)) :
    RunsAlike left right parts lines := by
  induction lines generalizing parts with
  | nil => exact ⟨rfl, rfl, [], rfl, rfl⟩
  | cons line rest ih =>
    obtain ⟨seen, first, second⟩ := alike parts line
    -- Both sides go on from the same parts.
    obtain ⟨reports, calls, held, one, two⟩ := ih seen.next
    have leftRun : (left parts).evaluateAll (line :: rest) =
        seen.after [] left :: (left seen.next).evaluateAll rest := by
      rw [evaluateAll, first]
      rfl
    have rightRun : (right parts).evaluateAll (line :: rest) =
        seen.after [] right :: (right seen.next).evaluateAll rest := by
      rw [evaluateAll, second]
      rfl
    constructor
    · rw [leftRun, rightRun, List.map_cons, List.map_cons, reports]
      rfl
    · rw [leftRun, rightRun, List.map_cons, List.map_cons, calls]
      rfl
    · refine ⟨seen.next :: held, ?_, ?_⟩
      · rw [leftRun, List.map_cons, List.map_cons, one]
        rfl
      · rw [rightRun, List.map_cons, List.map_cons, two]
        rfl

end Alike

def alternation (ps : List Pattern) : Pattern :=
  ps.foldr .either .never

theorem evaluate_alternation (line : Option Line) (ps : List Pattern) :
    (alternation ps).evaluate line = (evaluateFirst line ps).after [] alternation := by
  induction ps with
  | nil => rfl
  | cons p ps ih =>
    have head : alternation (p :: ps) = .either p (alternation ps) := rfl
    by_cases hit : (p.evaluate line).report.isHit = true
    · rw [head, either_hit hit, first_hit hit, Evaluation.after_after]
      rfl
    · rw [head, either_miss hit, first_miss hit, ih, Evaluation.after_after,
        Evaluation.after_after, List.append_nil]
      rfl

theorem first_append_hit {ps : List Pattern} {line : Option Line}
    (hit : (evaluateFirst line ps).report.isHit = true) (qs : List Pattern) :
    evaluateFirst line (ps ++ qs) = (evaluateFirst line ps).after [] (· ++ qs) := by
  induction ps with
  | nil => simp [evaluateFirst, Match.isHit] at hit
  | cons p ps ih =>
    rw [List.cons_append]
    by_cases here : (p.evaluate line).report.isHit = true
    · rw [first_hit here, first_hit here, Evaluation.after_after]
      rfl
    · rw [first_miss here] at hit
      rw [first_miss here, first_miss here, ih hit, Evaluation.after_after,
        Evaluation.after_after, List.append_nil]
      rfl

theorem first_append_miss {ps : List Pattern} {line : Option Line}
    (miss : ¬(evaluateFirst line ps).report.isHit = true) (qs : List Pattern) :
    evaluateFirst line (ps ++ qs) =
      (evaluateFirst line qs).after (evaluateFirst line ps).calls
        ((evaluateFirst line ps).next ++ ·) := by
  induction ps with
  | nil => rfl
  | cons p ps ih =>
    rw [List.cons_append]
    by_cases here : (p.evaluate line).report.isHit = true
    · rw [first_hit here] at miss
      exact absurd here miss
    · rw [first_miss here] at miss
      rw [first_miss here, first_miss here, ih miss, Evaluation.after_after]
      rfl

theorem oneOf_alternation : StepsAlike .oneOf alternation :=
  fun ps line => ⟨evaluateFirst line ps, evaluate_oneOf, evaluate_alternation line ps⟩

theorem oneOf_append :
    StepsAlike (fun parts : List Pattern × List Pattern => .oneOf (parts.1 ++ parts.2))
      fun parts => .either (.oneOf parts.1) (.oneOf parts.2) := by
  intro parts line
  obtain ⟨ps, qs⟩ := parts
  by_cases hit : (evaluateFirst line ps).report.isHit = true
  · refine ⟨(evaluateFirst line ps).after [] (·, qs), ?_, ?_⟩
    · rw [evaluate_oneOf, first_append_hit hit, Evaluation.after_after, Evaluation.after_after]
      rfl
    · rw [either_hit (by rwa [evaluate_oneOf]), evaluate_oneOf, Evaluation.after_after,
        Evaluation.after_after]
      rfl
  · let first := evaluateFirst line ps
    refine ⟨(evaluateFirst line qs).after first.calls (first.next, ·), ?_, ?_⟩
    · rw [evaluate_oneOf, first_append_miss hit, Evaluation.after_after, Evaluation.after_after]
      rfl
    · rw [either_miss (by rwa [evaluate_oneOf]), evaluate_oneOf, evaluate_oneOf,
        Evaluation.after_after, Evaluation.after_after, List.append_nil]
      rfl

theorem either_assoc :
    StepsAlike (fun parts : Pattern × Pattern × Pattern =>
        .either (.either parts.1 parts.2.1) parts.2.2)
      fun parts => .either parts.1 (.either parts.2.1 parts.2.2) := by
  intro parts line
  obtain ⟨p, q, r⟩ := parts
  by_cases first : (p.evaluate line).report.isHit = true
  · refine ⟨(p.evaluate line).after [] (·, q, r), ?_, ?_⟩
    · have inner := either_hit (q := q) first
      rw [either_hit (by rwa [inner]), inner, Evaluation.after_after, Evaluation.after_after]
      rfl
    · rw [either_hit first, Evaluation.after_after]
      rfl
  · have inner := either_miss (q := q) first
    by_cases second : (q.evaluate line).report.isHit = true
    · refine ⟨(q.evaluate line).after (p.evaluate line).calls ((p.evaluate line).next, ·, r), ?_, ?_⟩
      · rw [either_hit (by rwa [inner]), inner, Evaluation.after_after, Evaluation.after_after]
        rfl
      · rw [either_miss first, either_hit second, Evaluation.after_after, Evaluation.after_after,
          List.append_nil]
        rfl
    · refine ⟨(r.evaluate line).after ((p.evaluate line).calls ++ (q.evaluate line).calls)
        ((p.evaluate line).next, (q.evaluate line).next, ·), ?_, ?_⟩
      · rw [either_miss (by rwa [inner]), inner, Evaluation.after_after]
        rfl
      · rw [either_miss first, either_miss second, Evaluation.after_after, Evaluation.after_after]
        rfl

theorem both_assoc :
    StepsAlike (fun parts : Pattern × Pattern × Pattern =>
        .both (.both parts.1 parts.2.1) parts.2.2)
      fun parts => .both parts.1 (.both parts.2.1 parts.2.2) := by
  intro parts line
  obtain ⟨p, q, r⟩ := parts
  by_cases first : (p.evaluate line).report.isHit = true
  · have inner := both_hit (q := q) first
    by_cases second : (q.evaluate line).report.isHit = true
    · refine ⟨(r.evaluate line).after ((p.evaluate line).calls ++ (q.evaluate line).calls)
        ((p.evaluate line).next, (q.evaluate line).next, ·), ?_, ?_⟩
      · rw [both_hit (by rwa [inner]), inner, Evaluation.after_after]
        rfl
      · rw [both_hit first, both_hit second, Evaluation.after_after, Evaluation.after_after]
        rfl
    · refine ⟨(q.evaluate line).after (p.evaluate line).calls ((p.evaluate line).next, ·, r), ?_, ?_⟩
      · rw [both_miss (by rwa [inner]), inner, Evaluation.after_after, Evaluation.after_after]
        rfl
      · rw [both_hit first, both_miss second, Evaluation.after_after, Evaluation.after_after,
          List.append_nil]
        rfl
  · refine ⟨(p.evaluate line).after [] (·, q, r), ?_, ?_⟩
    · have inner := both_miss (q := q) first
      rw [both_miss (by rwa [inner]), inner, Evaluation.after_after, Evaluation.after_after]
      rfl
    · rw [both_miss first, Evaluation.after_after]
      rfl

theorem negation_both :
    StepsAlike (fun parts : Pattern × Pattern => .negation (.both parts.1 parts.2))
      fun parts => .either (.negation parts.1) (.negation parts.2) := by
  intro parts line
  obtain ⟨p, q⟩ := parts
  by_cases first : (p.evaluate line).report.isHit = true
  · have other : ¬((negation p).evaluate line).report.isHit = true := by
      simp [negation_hit, first]
    refine ⟨⟨.flag !(q.evaluate line).report.isHit, ((p.evaluate line).next, (q.evaluate line).next),
      (p.evaluate line).calls ++ (q.evaluate line).calls⟩, ?_, ?_⟩
    · rw [evaluate_negation, both_hit first]
      rfl
    · rw [either_miss other, evaluate_negation, evaluate_negation]
      rfl
  · have other : ((negation p).evaluate line).report.isHit = true := by
      simp [negation_hit, first]
    refine ⟨⟨.hit, ((p.evaluate line).next, q), (p.evaluate line).calls⟩, ?_, ?_⟩
    · rw [evaluate_negation, both_miss first, Evaluation.after_report,
        Bool.eq_false_iff.mpr first]
      rfl
    · rw [either_hit other, evaluate_negation, Bool.eq_false_iff.mpr first]
      rfl

theorem negation_either :
    StepsAlike (fun parts : Pattern × Pattern => .negation (.either parts.1 parts.2))
      fun parts => .both (.negation parts.1) (.negation parts.2) := by
  intro parts line
  obtain ⟨p, q⟩ := parts
  by_cases first : (p.evaluate line).report.isHit = true
  · have other : ¬((negation p).evaluate line).report.isHit = true := by
      simp [negation_hit, first]
    refine ⟨⟨.miss, ((p.evaluate line).next, q), (p.evaluate line).calls⟩, ?_, ?_⟩
    · rw [evaluate_negation, either_hit first, Evaluation.after_report, first]
      rfl
    · rw [both_miss other, evaluate_negation, first]
      rfl
  · have other : ((negation p).evaluate line).report.isHit = true := by
      simp [negation_hit, first]
    refine ⟨⟨.flag !(q.evaluate line).report.isHit, ((p.evaluate line).next, (q.evaluate line).next),
      (p.evaluate line).calls ++ (q.evaluate line).calls⟩, ?_, ?_⟩
    · rw [evaluate_negation, either_miss first]
      rfl
    · rw [both_hit other, evaluate_negation, evaluate_negation]
      rfl

theorem orAlways_eitherOr : StepsAlike .orAlways (.eitherOr · .always) := by
  intro p line
  by_cases first : (p.evaluate line).report.isHit = true
  · refine ⟨⟨.tagged .right (p.evaluate line).report, (p.evaluate line).next,
      (p.evaluate line).calls⟩, ?_, ?_⟩
    · simp only [evaluate, if_pos first]
      rfl
    · simp only [evaluate, if_pos first]
      rfl
  · refine ⟨⟨.tagged .left .hit, (p.evaluate line).next, (p.evaluate line).calls⟩, ?_, ?_⟩
    · simp only [evaluate, if_neg first]
      rfl
    · simp only [evaluate, if_neg first, List.append_nil]
      rfl

/-- The laws of the combinators hold along every run, whatever the parts are and whatever states they
start in: a choice of the first match is a choice two by two and may be cut anywhere, alternatives
and conjunctions may be grouped in any way, negation goes into them, and an alternative that always
matches is the choice with what always matches. -/
theorem laws_hold_along_runs (lines : List (Option Line)) :
    (∀ ps, RunsAlike .oneOf alternation ps lines) ∧
    (∀ ps qs, RunsAlike
      (fun parts : List Pattern × List Pattern => .oneOf (parts.1 ++ parts.2))
      (fun parts => .either (.oneOf parts.1) (.oneOf parts.2)) (ps, qs) lines) ∧
    (∀ p q r, RunsAlike
      (fun parts : Pattern × Pattern × Pattern => .either (.either parts.1 parts.2.1) parts.2.2)
      (fun parts => .either parts.1 (.either parts.2.1 parts.2.2)) (p, q, r) lines) ∧
    (∀ p q r, RunsAlike
      (fun parts : Pattern × Pattern × Pattern => .both (.both parts.1 parts.2.1) parts.2.2)
      (fun parts => .both parts.1 (.both parts.2.1 parts.2.2)) (p, q, r) lines) ∧
    (∀ p q, RunsAlike
      (fun parts : Pattern × Pattern => .negation (.both parts.1 parts.2))
      (fun parts => .either (.negation parts.1) (.negation parts.2)) (p, q) lines) ∧
    (∀ p q, RunsAlike
      (fun parts : Pattern × Pattern => .negation (.either parts.1 parts.2))
      (fun parts => .both (.negation parts.1) (.negation parts.2)) (p, q) lines) ∧
    ∀ p, RunsAlike .orAlways (.eitherOr · .always) p lines :=
  ⟨fun ps => oneOf_alternation.runs ps lines,
    fun ps qs => oneOf_append.runs (ps, qs) lines,
    fun p q r => either_assoc.runs (p, q, r) lines,
    fun p q r => both_assoc.runs (p, q, r) lines,
    fun p q => negation_both.runs (p, q) lines,
    fun p q => negation_either.runs (p, q) lines,
    fun p => orAlways_eitherOr.runs p lines⟩

end Pattern
end LineRules
