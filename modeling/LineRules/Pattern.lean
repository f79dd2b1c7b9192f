import LineRules.Match
import LineRules.Regex.Source

/-!
Patterns decide, line by line, whether a rule applies and what it matched. They form trees:
combinators stop at the part that decides and report what that part reported. A range is the only
part with a state of its own, which is open or closed between lines. Without a line, expressions and
predicates do not match.
-/
namespace LineRules

structure Predicate where
  name : Text
  holds : Line → Bool

structure Call where
  predicate : Text
  line : Line
deriving DecidableEq, Repr

inductive Pattern where
  | atStart
  | atEnd
  | always
  | never
  | regex (m : Matcher)
  | test (p : Predicate)
  | both (p q : Pattern)
  | either (p q : Pattern)
  | negation (p : Pattern)
  /-- From a line that matches `start` to the next later one that matches `stop`, both included. -/
  | range (start stop : Pattern) (isOpen : Bool)
  | ifThen (condition yes no : Pattern)
  | oneOf (ps : List Pattern)
  /-- What the first reports, tagged right, or else what the second reports, tagged left. -/
  | eitherOr (p q : Pattern)
  /-- What the pattern reports, tagged right, or else a hit tagged left. -/
  | orAlways (p : Pattern)

structure PatternError where
  source : Text
  fault : Regex.Fault
deriving DecidableEq, Repr

namespace PatternError

def heading (e : PatternError) : Text :=
  ("invalid regular expression `" : Text) ++ e.source ++ "`: "

def message (e : PatternError) : Text :=
  e.heading ++ e.fault.message

end PatternError

/-- The outcome of looking at one line: the report, what is left for the next line, and the
predicates that were asked, in order. -/
structure Evaluation (α : Type) where
  report : Match
  next : α
  calls : List Call

namespace Evaluation

def after {α β : Type} (calls : List Call) (wrap : α → β) (e : Evaluation α) : Evaluation β :=
  ⟨e.report, wrap e.next, calls ++ e.calls⟩

end Evaluation

namespace Pattern

def isAtStart : Pattern → Bool
  | .atStart => true
  | _ => false

def isAtEnd : Pattern → Bool
  | .atEnd => true
  | _ => false

def inRange : Pattern → Bool
  | .range _ _ isOpen => isOpen
  | _ => false

def ofSource (limit : Regex.Limit) (source : Text) (flags : Regex.Flags) :
    Except PatternError Pattern :=
  match Regex.ofSource limit source flags with
  | .ok m => .ok (.regex m)
  | .error fault => .error ⟨source, fault⟩

def closedRange (start stop : Pattern) : Pattern :=
  .range start stop false

mutual

def evaluate (line : Option Line) : Pattern → Evaluation Pattern
  | .atStart => ⟨.hit, .atStart, []⟩
  | .atEnd => ⟨.hit, .atEnd, []⟩
  | .always => ⟨.hit, .always, []⟩
  | .never => ⟨.miss, .never, []⟩
  | .regex m =>
    match line.bind m.find? with
    | some found => ⟨.captures found, .regex m, []⟩
    | none => ⟨.miss, .regex m, []⟩
  | .test p =>
    match line with
    | some l => ⟨.flag (p.holds l), .test p, [⟨p.name, l⟩]⟩
    | none => ⟨.miss, .test p, []⟩
  | .both p q =>
    let first := evaluate line p
    if first.report.isHit then
      (evaluate line q).after first.calls fun q => .both first.next q
    else ⟨first.report, .both first.next q, first.calls⟩
  | .either p q =>
    let first := evaluate line p
    if first.report.isHit then ⟨first.report, .either first.next q, first.calls⟩
    else (evaluate line q).after first.calls fun q => .either first.next q
  | .negation p =>
    let inner := evaluate line p
    ⟨.flag !inner.report.isHit, .negation inner.next, inner.calls⟩
  | .range start stop isOpen =>
    if isOpen then
      let last := evaluate line stop
      if last.report.isHit then ⟨last.report, .range start last.next false, last.calls⟩
      else ⟨.hit, .range start last.next true, last.calls⟩
    else
      let first := evaluate line start
      if first.report.isHit then ⟨first.report, .range first.next stop true, first.calls⟩
      else ⟨.miss, .range first.next stop false, first.calls⟩
  | .ifThen condition yes no =>
    let asked := evaluate line condition
    if asked.report.isHit then
      (evaluate line yes).after asked.calls fun yes => .ifThen asked.next yes no
    else (evaluate line no).after asked.calls fun no => .ifThen asked.next yes no
  | .oneOf ps => (evaluateFirst line ps).after [] .oneOf
  | .eitherOr p q =>
    let first := evaluate line p
    if first.report.isHit then
      ⟨.tagged .right first.report, .eitherOr first.next q, first.calls⟩
    else
      let second := evaluate line q
      ⟨.tagged .left second.report, .eitherOr first.next second.next, first.calls ++ second.calls⟩
  | .orAlways p =>
    let inner := evaluate line p
    ⟨if inner.report.isHit then .tagged .right inner.report else .tagged .left .hit,
      .orAlways inner.next, inner.calls⟩

def evaluateFirst (line : Option Line) : List Pattern → Evaluation (List Pattern)
  | [] => ⟨.miss, [], []⟩
  | p :: ps =>
    let first := evaluate line p
    if first.report.isHit then ⟨first.report, first.next :: ps, first.calls⟩
    else (evaluateFirst line ps).after first.calls (first.next :: ·)

end

def evaluateAll : Pattern → List (Option Line) → List (Evaluation Pattern)
  | _, [] => []
  | p, line :: rest =>
    let seen := p.evaluate line
    seen :: evaluateAll seen.next rest

end Pattern

end LineRules
