import LineRules.Action
import LineRules.Proofs.Pattern.Parts
import LineRules.Proofs.Pattern.RangeFree

namespace LineRules

@[simp] theorem Match.isHit_flag (hit : Bool) : (Match.flag hit).isHit = hit :=
  rfl

theorem Match.eq_miss {report : Match} (miss : report.isHit = false) : report = .miss := by
  cases report with
  | flag hit => exact congrArg Match.flag miss
  | captures found => simp [isHit] at miss
  | tagged side inner => simp [isHit] at miss

namespace Pattern

mutual

/-- The formula that a pattern stands for, on a line or without one. A range holds if it is open or
what opens it holds. -/
def truth (line : Option Line) : Pattern → Bool
  | .atStart | .atEnd | .always | .eitherOr _ _ | .orAlways _ => true
  | .never => false
  | .regex m => line.any fun l => (m.find? l).isSome
  | .test t => line.any t.holds
  | .both p q => p.truth line && q.truth line
  | .either p q => p.truth line || q.truth line
  | .negation p => !p.truth line
  | .range start _ isOpen => isOpen || start.truth line
  | .ifThen condition yes no => if condition.truth line then yes.truth line else no.truth line
  | .oneOf ps => anyTruth line ps

def anyTruth (line : Option Line) : List Pattern → Bool
  | [] => false
  | p :: ps => p.truth line || anyTruth line ps

end

mutual

/-- Leaves under combinators that report what the part reports that decides. -/
def passesOn : Pattern → Bool
  | .atStart | .atEnd | .always | .never | .regex _ | .test _ => true
  | .both p q | .either p q => p.passesOn && q.passesOn
  | .ifThen condition yes no => condition.passesOn && yes.passesOn && no.passesOn
  | .oneOf ps => !ps.isEmpty && allPassOn ps
  | .negation _ | .range _ _ _ | .eitherOr _ _ | .orAlways _ => false

def allPassOn : List Pattern → Bool
  | [] => true
  | p :: ps => p.passesOn && allPassOn ps

end

section Reports

variable {line : Option Line} {p q : Pattern} {ps : List Pattern}

theorem hits_both : (both p q).hits line = (p.hits line && q.hits line) := by
  rw [hits, report_both]
  cases hit : p.hits line <;> simp [isHit_evaluate, hit]

theorem hits_either : (either p q).hits line = (p.hits line || q.hits line) := by
  rw [hits, report_either]
  cases hit : p.hits line <;> simp [isHit_evaluate, hit]

theorem hits_ifThen {condition : Pattern} : (ifThen condition p q).hits line =
    if condition.hits line then p.hits line else q.hits line := by
  rw [hits, report_ifThen]
  cases hit : condition.hits line <;> simp [isHit_evaluate]

theorem hits_range {isOpen : Bool} : (range p q isOpen).hits line = (isOpen || p.hits line) := by
  rw [hits, report_range]
  cases isOpen with
  | true => cases hit : q.hits line <;> simp [isHit_evaluate, hit]
  | false => cases hit : p.hits line <;> simp [isHit_evaluate, hit]

theorem hits_oneOf : (oneOf ps).hits line = ps.any fun p => p.hits line := by
  rw [hits, evaluate_oneOf, Evaluation.after_report]
  induction ps with
  | nil => rfl
  | cons p ps ih =>
    rw [report_first, List.any_cons, ← ih]
    cases hit : p.hits line <;> simp [isHit_evaluate, hit]

theorem anyTruth_eq (ps : List Pattern) : anyTruth line ps = ps.any fun p => p.truth line := by
  induction ps with
  | nil => rfl
  | cons p ps ih => rw [anyTruth, ih, List.any_cons]

theorem allPassOn_iff : allPassOn ps = true ↔ ∀ p ∈ ps, p.passesOn = true := by
  induction ps with
  | nil => simp [allPassOn]
  | cons p ps ih => simp [allPassOn, ih]

end Reports

theorem hits_eq_truth (line : Option Line) (p : Pattern) : p.hits line = p.truth line := by
  induction p using part_induction with
  | step p ih =>
    cases p with
    | atStart | atEnd | always | never => rfl
    | regex m => cases line with
      | none => rfl
      | some l => cases found : m.find? l <;> simp [hits, evaluate, truth, found, Match.isHit]
    | test t => cases line <;> rfl
    | both p q => rw [hits_both, truth, ih p (by simp [parts]), ih q (by simp [parts])]
    | either p q => rw [hits_either, truth, ih p (by simp [parts]), ih q (by simp [parts])]
    | negation p => rw [hits, negation_hit, isHit_evaluate, truth, ih p (by simp [parts])]
    | range start stop isOpen => rw [hits_range, truth, ih start (by simp [parts])]
    | ifThen condition yes no =>
      rw [hits_ifThen, truth, ih condition (by simp [parts]), ih yes (by simp [parts]),
        ih no (by simp [parts])]
    | oneOf ps =>
      rw [hits_oneOf, truth, anyTruth_eq]
      rw [Bool.eq_iff_iff, List.any_eq_true, List.any_eq_true]
      exact exists_congr fun q => and_congr_right fun member => by rw [ih q member]
    | eitherOr p q =>
      simp only [hits, evaluate, truth]
      split <;> rfl
    | orAlways p =>
      simp only [hits, evaluate, truth]
      split <;> rfl

def ReportedLast (line : Option Line) (leaves : List Pattern) (report : Match) : Prop :=
  ∃ leaf, leaves.getLast? = some leaf ∧ report = (leaf.evaluate line).report

section Last

variable {line : Option Line} {leaves : List Pattern} {report : Match}

theorem ReportedLast.behind (last : ReportedLast line leaves report) (front : List Pattern) :
    ReportedLast line (front ++ leaves) report := by
  obtain ⟨leaf, here, same⟩ := last
  exact ⟨leaf, by rw [List.getLast?_append, here, Option.some_or], same⟩

theorem first_last {ps : List Pattern} (some : ps ≠ [])
    (each : ∀ p ∈ ps, ReportedLast line (p.reached line) (p.evaluate line).report) :
    ReportedLast line (fromAsked line (.oneOf ps) (·.reached line))
      (evaluateFirst line ps).report := by
  induction ps with
  | nil => exact absurd rfl some
  | cons p ps ih =>
    obtain ⟨here, later⟩ := List.forall_mem_cons.mp each
    rw [fromAsked_cons, report_first]
    cases hit : p.hits line with
    | true => simpa using here
    | false =>
      by_cases more : ps = []
      · -- The last member misses, and all misses are one.
        have miss : (p.evaluate line).report = .miss := Match.eq_miss hit
        rw [miss] at here
        simpa [more, fromAsked, parts, evaluateFirst] using here
      · simpa using (ih more later).behind (p.reached line)

theorem last_reports (line : Option Line) {p : Pattern} (passes : p.passesOn = true) :
    ReportedLast line (p.reached line) (p.evaluate line).report := by
  induction p using part_induction with
  | step p ih =>
    cases p with
    | atStart | atEnd | always | never | regex m | test t =>
      exact ⟨_, by rw [reached_leaf rfl]; rfl, rfl⟩
    | both p q =>
      simp only [passesOn, Bool.and_eq_true] at passes
      have first := ih p (by simp [parts]) passes.1
      have second := ih q (by simp [parts]) passes.2
      rw [reached_both, report_both]
      split
      · exact second.behind (p.reached line)
      · simpa using first
    | either p q =>
      simp only [passesOn, Bool.and_eq_true] at passes
      have first := ih p (by simp [parts]) passes.1
      have second := ih q (by simp [parts]) passes.2
      rw [reached_either, report_either]
      split
      · simpa using first
      · exact second.behind (p.reached line)
    | ifThen condition yes no =>
      simp only [passesOn, Bool.and_eq_true] at passes
      have first := ih yes (by simp [parts]) passes.1.2
      have second := ih no (by simp [parts]) passes.2
      rw [reached_ifThen, report_ifThen]
      split
      · exact first.behind (condition.reached line)
      · exact second.behind (condition.reached line)
    | oneOf ps =>
      simp only [passesOn, Bool.and_eq_true, allPassOn_iff] at passes
      rw [reached_parts rfl, evaluate_oneOf, Evaluation.after_report]
      exact first_last (by simpa using passes.1) fun q member => ih q member (passes.2 q member)
    | negation p | range start stop isOpen | eitherOr p q | orAlways p =>
      simp [passesOn] at passes

end Last

/-- Whether a pattern matches is the value of its formula, and without ranges that is so for every
line of a run, whatever lines came before. Under combinators that pass on what decides, the report is
that of the leaf that was come to last, and it is what the handler is invoked with. -/
theorem formula_decides_and_last_leaf_reports :
    (∀ (p : Pattern) (line : Option Line), (p.evaluate line).report.isHit = p.truth line) ∧
    (∀ p : Pattern, p.rangeFree = true → ∀ lines,
      (p.evaluateAll lines).map (·.report.isHit) = lines.map fun line => p.truth line) ∧
    ∀ p : Pattern, p.passesOn = true → ∀ line, ∃ leaf,
      (p.reached line).getLast? = some leaf ∧
      (p.evaluate line).report = (leaf.evaluate line).report ∧
      ∀ handler state, ((⟨p, handler⟩ : Action).apply state line).output =
        if (leaf.evaluate line).report.isHit then
          some (handler.invoke state line (leaf.evaluate line).report).1
        else none := by
  refine ⟨fun p line => hits_eq_truth line p, fun p free lines => ?_, fun p passes line => ?_⟩
  · rw [evaluateAll_rangeFree free, List.map_map]
    exact List.map_congr_left fun line _ => hits_eq_truth line p
  · obtain ⟨leaf, last, report⟩ := last_reports line passes
    refine ⟨leaf, last, report, fun handler state => ?_⟩
    rw [Action.apply, ← report]
    split <;> rfl

theorem member_of_branch_reports :
    let head : Pattern := .test ⟨"head", fun line => line.startsWith "#"⟩
    let body : Pattern := .test ⟨"body", fun line => line.endsWith "."⟩
    let p : Pattern := .ifThen head (.oneOf [.never, body]) .always
    let line : Option Line := some "# text."
    p.passesOn = true ∧ (p.reached line).getLast? = some body ∧
      ((⟨p, .double⟩ : Action).apply ⟨0, " ", "\n"⟩ line).output =
        some (.copies "# text." 2) := by
  intro head body p line
  obtain ⟨-, -, passed⟩ := formula_decides_and_last_leaf_reports
  obtain ⟨leaf, last, -, applied⟩ := passed p rfl line
  obtain rfl : leaf = body := Option.some.inj (last.symm.trans rfl)
  exact ⟨rfl, last, applied .double ⟨0, " ", "\n"⟩⟩

end Pattern
end LineRules
