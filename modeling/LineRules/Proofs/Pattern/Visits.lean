import LineRules.Proofs.Pattern.Parts
import LineRules.Proofs.Pattern.RangeFree

namespace LineRules.Pattern

mutual

def closeAll : Pattern → Pattern
  | .both p q => .both p.closeAll q.closeAll
  | .either p q => .either p.closeAll q.closeAll
  | .negation p => .negation p.closeAll
  | .range start stop _ => .range start.closeAll stop.closeAll false
  | .ifThen condition yes no => .ifThen condition.closeAll yes.closeAll no.closeAll
  | .oneOf ps => .oneOf (closeEach ps)
  | .eitherOr p q => .eitherOr p.closeAll q.closeAll
  | .orAlways p => .orAlways p.closeAll
  | leaf => leaf

def closeEach : List Pattern → List Pattern
  | [] => []
  | p :: ps => p.closeAll :: closeEach ps

end

mutual

theorem next_closeAll (line : Option Line) :
    ∀ p : Pattern, (p.evaluate line).next.closeAll = p.closeAll
  | .atStart | .atEnd | .always | .never => rfl
  | .regex _ | .test _ => by
    simp only [evaluate]
    split <;> rfl
  | .both p q | .either p q | .eitherOr p q => by
    have first := next_closeAll line p
    have second := next_closeAll line q
    simp only [evaluate]
    split <;> simp [Evaluation.after, closeAll, first, second]
  | .negation p | .orAlways p => by
    have inner := next_closeAll line p
    simp [evaluate, closeAll, inner]
  | .range start stop isOpen => by
    have first := next_closeAll line start
    have last := next_closeAll line stop
    simp only [evaluate]
    split <;> split <;> simp [closeAll, first, last]
  | .ifThen condition yes no => by
    have asked := next_closeAll line condition
    have first := next_closeAll line yes
    have second := next_closeAll line no
    simp only [evaluate]
    split <;> simp [Evaluation.after, closeAll, asked, first, second]
  | .oneOf ps => by
    have each := next_closeEach line ps
    simp [evaluate, Evaluation.after, closeAll, each]

theorem next_closeEach (line : Option Line) :
    ∀ ps : List Pattern, closeEach (evaluateFirst line ps).next = closeEach ps
  | [] => rfl
  | p :: ps => by
    have first := next_closeAll line p
    have later := next_closeEach line ps
    simp only [evaluateFirst]
    split <;> simp [Evaluation.after, closeEach, first, later]

end

def predicate? : Pattern → Option Predicate
  | .test t => some t
  | _ => none

def predicates (p : Pattern) : List Predicate :=
  (p.leaves.map (·.2)).filterMap predicate?

def asked (p : Pattern) (line : Option Line) : List Predicate :=
  (p.reached line).filterMap predicate?

def callsOn : Option Line → List Predicate → List Call
  | none, _ => []
  | some l, asked => asked.map fun t => ⟨t.name, l⟩

theorem asked_sublist (p : Pattern) (line : Option Line) :
    (p.asked line).Sublist p.predicates :=
  ((List.filter_sublist).map _).filterMap predicate?

theorem callsOn_append (line : Option Line) (one other : List Predicate) :
    callsOn line (one ++ other) = callsOn line one ++ callsOn line other := by
  cases line with
  | none => rfl
  | some l => exact List.map_append

theorem calls_leaf (line : Option Line) {p : Pattern} (leaf : p.isLeaf = true) :
    (p.evaluate line).calls = callsOn line p.predicate?.toList := by
  cases p with
  | regex m =>
    simp only [evaluate, predicate?]
    cases line <;> split <;> rfl
  | test t => cases line <;> rfl
  | atStart | atEnd | always | never => cases line <;> rfl
  | _ => simp [isLeaf] at leaf

theorem calls_leaves (line : Option Line) {ps : List Pattern} (leaves : ∀ p ∈ ps, p.isLeaf = true) :
    (ps.flatMap fun p => (p.evaluate line).calls) = callsOn line (ps.filterMap predicate?) := by
  induction ps with
  | nil => cases line <;> rfl
  | cons p ps ih =>
    obtain ⟨leaf, later⟩ := List.forall_mem_cons.mp leaves
    rw [List.flatMap_cons, ih later, calls_leaf line leaf, ← callsOn_append]
    cases here : p.predicate? <;> simp [here]

theorem leaf_of_reached {line : Option Line} {p q : Pattern} (member : q ∈ p.reached line) :
    q.isLeaf = true := by
  obtain ⟨⟨place, r⟩, kept, rfl⟩ := List.mem_map.mp member
  exact (mem_leaves.mp (List.mem_of_mem_filter kept)).2

theorem calls_asked (line : Option Line) (p : Pattern) :
    (p.evaluate line).calls = callsOn line (p.asked line) := by
  rw [calls_reached]
  exact calls_leaves line fun q member => leaf_of_reached member

/-- Looking at a line asks the predicates that it comes to among those of the pattern, from left to
right, each once and about that line; without a line it asks none. It leaves every part that it comes
to as one look at the line leaves that part, every other part as it was, and all of the pattern the
same but for flags of ranges. So a pattern without ranges stays as it is over any run of lines, and
what it makes of a line does not depend on the lines before. -/
theorem parts_visited_once :
    (∀ p : Pattern, (p.leaves.map (·.1)).Pairwise (· < ·) ∧
      ∀ place q, (place, q) ∈ p.leaves ↔ p.part? place = some q ∧ q.isLeaf = true) ∧
    (∀ (p : Pattern) (line : Option Line),
      let seen := p.evaluate line
      seen.calls = callsOn line (p.asked line) ∧ (p.asked line).Sublist p.predicates ∧
      seen.next.closeAll = p.closeAll ∧
      ∀ place, seen.next.part? place =
        if p.reaches line place then (p.part? place).map fun q => (q.evaluate line).next
        else p.part? place) ∧
    ∀ p : Pattern, p.rangeFree = true → ∀ lines,
      (p.evaluateAll lines = lines.map fun line => p.evaluate line) ∧
        ∀ e ∈ p.evaluateAll lines, e.next = p := by
  refine ⟨fun p => ⟨leaves_ascend p, fun place q => mem_leaves⟩, fun p line => ?_,
    fun p free lines => ⟨evaluateAll_rangeFree free lines, fun e member => ?_⟩⟩
  · exact ⟨calls_asked line p, asked_sublist p line, next_closeAll line p, next_part line p⟩
  · rw [evaluateAll_rangeFree free] at member
    obtain ⟨line, -, rfl⟩ := List.mem_map.mp member
    exact next_of_rangeFree line p free

/-- Behind a miss the range is not come to, and stays open on the line that would close it; the
predicate for its end, by itself, looks at every line. -/
theorem range_behind_miss_stays_open :
    let head : Predicate := ⟨"head", fun line => line.startsWith "#"⟩
    let stop : Pattern := .test ⟨"stop", fun line => line.endsWith "."⟩
    let p : Pattern := .both (.test head) (.range .never stop true)
    let line : Option Line := some "end."
    (p.evaluate line).calls = [⟨"head", "end."⟩] ∧
      (p.evaluate line).next.part? [1] = some (.range .never stop true) ∧
      stop.rangeFree = true ∧
      (stop.evaluateAll [none, line]).map (·.calls) = [[], [⟨"stop", "end."⟩]] := by
  intro head stop p line
  obtain ⟨-, visit, free⟩ := parts_visited_once
  obtain ⟨calls, -, -, places⟩ := visit p line
  refine ⟨calls.trans (by decide), (places [1]).trans rfl, rfl, ?_⟩
  rw [(free stop rfl [none, line]).1]
  rfl

end LineRules.Pattern
