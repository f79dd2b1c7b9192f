import LineRules.Pattern

namespace LineRules.Pattern

mutual

def rangeFree : Pattern → Bool
  | .atStart | .atEnd | .always | .never | .regex _ | .test _ => true
  | .both p q | .either p q | .eitherOr p q => p.rangeFree && q.rangeFree
  | .negation p | .orAlways p => p.rangeFree
  | .range _ _ _ => false
  | .ifThen condition yes no => condition.rangeFree && yes.rangeFree && no.rangeFree
  | .oneOf ps => allRangeFree ps

def allRangeFree : List Pattern → Bool
  | [] => true
  | p :: ps => p.rangeFree && allRangeFree ps

end

mutual

theorem next_of_rangeFree (line : Option Line) :
    ∀ p : Pattern, p.rangeFree = true → (p.evaluate line).next = p
  | .atStart, _ | .atEnd, _ | .always, _ | .never, _ => rfl
  | .regex _, _ | .test _, _ => by
    simp only [evaluate]
    split <;> rfl
  | .both p q, free | .either p q, free | .eitherOr p q, free => by
    simp only [rangeFree, Bool.and_eq_true] at free
    have first := next_of_rangeFree line p free.1
    have second := next_of_rangeFree line q free.2
    simp only [evaluate]
    split <;> simp [Evaluation.after, first, second]
  | .negation p, free | .orAlways p, free => by
    have inner := next_of_rangeFree line p (by simpa [rangeFree] using free)
    simp [evaluate, inner]
  | .range _ _ _, free => by simp [rangeFree] at free
  | .ifThen condition yes no, free => by
    simp only [rangeFree, Bool.and_eq_true] at free
    have asked := next_of_rangeFree line condition free.1.1
    have first := next_of_rangeFree line yes free.1.2
    have second := next_of_rangeFree line no free.2
    simp only [evaluate]
    split <;> simp [Evaluation.after, asked, first, second]
  | .oneOf ps, free => by
    have all := nextAll_of_rangeFree line ps (by simpa [rangeFree] using free)
    simp [evaluate, Evaluation.after, all]

theorem nextAll_of_rangeFree (line : Option Line) :
    ∀ ps : List Pattern, allRangeFree ps = true → (evaluateFirst line ps).next = ps
  | [], _ => rfl
  | p :: ps, free => by
    simp only [allRangeFree, Bool.and_eq_true] at free
    have first := next_of_rangeFree line p free.1
    have later := nextAll_of_rangeFree line ps free.2
    simp only [evaluateFirst]
    split <;> simp [Evaluation.after, first, later]

end

theorem evaluateAll_rangeFree {p : Pattern} (free : p.rangeFree = true)
    (lines : List (Option Line)) : p.evaluateAll lines = lines.map fun line => p.evaluate line := by
  induction lines with
  | nil => rfl
  | cons line rest ih =>
    rw [evaluateAll, next_of_rangeFree line p free, ih]
    rfl

end LineRules.Pattern
