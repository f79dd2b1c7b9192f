import LineRules.Handler
import Mathlib.Data.List.Basic

/-!
Trees of handlers. A report takes one turn at each node, to the side that its outermost tag names or
else to the right, and loses that tag. So every call comes to one leaf, which does all the work: the
output is the leaf's, and the tree changes only where a counting leaf was reached. The turns depend on
the shape of the tree, which never changes, so counts add up along any calls.
-/
namespace LineRules

def Match.turn : Match → Side × Match
  | .tagged side inner => (side, inner)
  | plain => (.right, plain)

namespace Handler

/-- The turns of a report from the root to a leaf, and what is left of the report there. -/
def way : Handler → Match → List Side × Match
  | .eitherOr left right, report =>
    match report.turn with
    | (.left, inner) => (.left :: (left.way inner).1, (left.way inner).2)
    | (.right, inner) => (.right :: (right.way inner).1, (right.way inner).2)
  | _, report => ([], report)

/-- The leaf that some turns lead to, if they end at one. -/
def leaf? : Handler → List Side → Option Handler
  | .eitherOr left _, .left :: turns => left.leaf? turns
  | .eitherOr _ right, .right :: turns => right.leaf? turns
  | .eitherOr _ _, [] => none
  | leaf, [] => some leaf
  | _, _ :: _ => none

def raisedBy (times : Nat) : Handler → Handler
  | .increment count => .increment (count + times)
  | h => h

def needsLine : Handler → Bool
  | .emit _ | .compute _ => false
  | .eitherOr left right => left.needsLine && right.needsLine
  | _ => true

def after (h : Handler) (calls : List (RunState × Match × Option Line)) : Handler :=
  calls.foldl (fun h call => (h.invoke call.1 call.2.2 call.2.1).2) h

def reached (h : Handler) (place : List Side) (calls : List (RunState × Match × Option Line)) :
    Nat :=
  calls.countP fun call => (h.way call.2.1).1 = place

theorem raisedBy_zero (h : Handler) : h.raisedBy 0 = h := by
  cases h <;> rfl

theorem raisedBy_raisedBy (h : Handler) (once more : Nat) :
    (h.raisedBy once).raisedBy more = h.raisedBy (once + more) := by
  cases h with
  | increment count => simp [raisedBy, Nat.add_assoc]
  | _ => rfl

section Node

variable {left right : Handler} {report inner : Match} {state : RunState} {line : Option Line}

theorem way_left (turn : report.turn = (.left, inner)) :
    (eitherOr left right).way report = (.left :: (left.way inner).1, (left.way inner).2) := by
  simp only [way, turn]

theorem way_right (turn : report.turn = (.right, inner)) :
    (eitherOr left right).way report = (.right :: (right.way inner).1, (right.way inner).2) := by
  simp only [way, turn]

theorem invoke_left (turn : report.turn = (.left, inner)) :
    (eitherOr left right).invoke state line report =
      let made := left.invoke state line inner
      (made.1, .eitherOr made.2 right) := by
  cases report with
  | tagged side inner =>
    obtain ⟨rfl, rfl⟩ := Prod.mk.inj turn
    rfl
  | flag hit => simp [Match.turn] at turn
  | captures found => simp [Match.turn] at turn

theorem invoke_right (turn : report.turn = (.right, inner)) :
    (eitherOr left right).invoke state line report =
      let made := right.invoke state line inner
      (made.1, .eitherOr left made.2) := by
  cases report with
  | tagged side inner =>
    obtain ⟨rfl, rfl⟩ := Prod.mk.inj turn
    rfl
  | flag hit =>
    obtain ⟨-, rfl⟩ := Prod.mk.inj turn
    rfl
  | captures found =>
    obtain ⟨-, rfl⟩ := Prod.mk.inj turn
    rfl

end Node

/-- One call: the leaf at the end of the report's way makes the output, and it alone is raised. -/
theorem invoke_leaf (h : Handler) (report : Match) (state : RunState) (line : Option Line) :
    let made := h.invoke state line report
    ∃ leaf, h.leaf? (h.way report).1 = some leaf ∧
      made.1 = (leaf.invoke state line (h.way report).2).1 ∧
      ∀ place, made.2.leaf? place =
        if place = (h.way report).1 then some (leaf.raisedBy 1) else h.leaf? place := by
  induction h generalizing report with
  | eitherOr left right first second =>
    cases turn : report.turn with
    | mk side inner =>
      cases side with
      | left =>
        obtain ⟨leaf, found, output, leaves⟩ := first inner
        rw [way_left turn, invoke_left turn]
        refine ⟨leaf, found, output, ?_⟩
        rintro (_ | ⟨_ | _, place⟩)
        · rfl
        · simpa [leaf?] using leaves place
        · simp [leaf?]
      | right =>
        obtain ⟨leaf, found, output, leaves⟩ := second inner
        rw [way_right turn, invoke_right turn]
        refine ⟨leaf, found, output, ?_⟩
        rintro (_ | ⟨_ | _, place⟩)
        · rfl
        · simp [leaf?]
        · simpa [leaf?] using leaves place
  | _ =>
    refine ⟨_, rfl, rfl, ?_⟩
    intro place
    cases place <;> rfl

theorem way_invoke (h : Handler) (report other : Match) (state : RunState) (line : Option Line) :
    (h.invoke state line report).2.way other = h.way other := by
  induction h generalizing report other with
  | eitherOr left right first second =>
    cases turn : report.turn with
    | mk side inner =>
      cases later : other.turn with
      | mk toward rest =>
        cases side <;> cases toward <;>
          simp [invoke_left, invoke_right, turn, way_left, way_right, later, first, second]
  | _ => rfl

theorem eq_of_leaves {h g : Handler} (same : ∀ place, h.leaf? place = g.leaf? place) : h = g := by
  induction h generalizing g with
  | eitherOr left right first second =>
    cases g with
    | eitherOr left' right' =>
      rw [first fun place => same (.left :: place), second fun place => same (.right :: place)]
    | _ => cases same []
  | _ =>
    have root := same []
    cases g with
    | eitherOr left' right' => cases root
    | _ => exact Option.some.inj root

theorem way_after (h : Handler) (calls : List (RunState × Match × Option Line)) (report : Match) :
    (h.after calls).way report = h.way report := by
  induction calls generalizing h with
  | nil => rfl
  | cons call rest ih => exact (ih _).trans (way_invoke h _ _ _ _)

theorem leaf_after (h : Handler) (calls : List (RunState × Match × Option Line))
    (place : List Side) :
    (h.after calls).leaf? place = (h.leaf? place).map (raisedBy (h.reached place calls)) := by
  induction calls generalizing h with
  | nil =>
    have still : raisedBy 0 = id := funext raisedBy_zero
    simp [after, reached, still]
  | cons call rest ih =>
    obtain ⟨leaf, found, -, leaves⟩ := invoke_leaf h call.2.1 call.1 call.2.2
    let next := (h.invoke call.1 call.2.2 call.2.1).2
    have same : next.reached place rest = h.reached place rest := by
      simp only [reached, next, way_invoke]
    have later : (h.after (call :: rest)).leaf? place =
        (next.leaf? place).map (raisedBy (h.reached place rest)) := by
      rw [← same]
      exact ih next
    have count : h.reached place (call :: rest) =
        h.reached place rest + if (h.way call.2.1).1 = place then 1 else 0 := by
      simp [reached, List.countP_cons]
    rw [later, leaves, count]
    by_cases here : place = (h.way call.2.1).1
    · subst here
      rw [found]
      simp [raisedBy_raisedBy, Nat.add_comm]
    · rw [if_neg here, if_neg (Ne.symm here), Nat.add_zero]

theorem needsLine_invoke (h : Handler) (report : Match) (state : RunState) (line : Option Line) :
    (h.invoke state line report).2.needsLine = h.needsLine := by
  induction h generalizing report with
  | eitherOr left right first second =>
    cases turn : report.turn with
    | mk side inner =>
      cases side with
      | left => simp [invoke_left turn, needsLine, first]
      | right => simp [invoke_right turn, needsLine, second]
  | _ => rfl

theorem needsLine_after (h : Handler) (calls : List (RunState × Match × Option Line)) :
    (h.after calls).needsLine = h.needsLine := by
  induction calls generalizing h with
  | nil => rfl
  | cons call rest ih => exact (ih _).trans (needsLine_invoke h _ _ _)

theorem quiet_without_line {h : Handler} (needs : h.needsLine = true) (report : Match)
    (state : RunState) : (h.invoke state none report).1.toList = [] := by
  induction h generalizing report with
  | eitherOr left right first second =>
    obtain ⟨one, other⟩ := Bool.and_eq_true_iff.mp needs
    cases turn : report.turn with
    | mk side inner =>
      cases side with
      | left =>
        rw [invoke_left turn]
        exact first one inner
      | right =>
        rw [invoke_right turn]
        exact second other inner
  | emit lines => cases needs
  | compute f => cases needs
  | _ => rfl

theorem numbered_lines (count : Nat) (state : RunState) (line : Option Line) (report : Match) :
    ((increment count).invoke state line report).1.toList =
      line.elim [] fun l => (List.range (count + 1)).map (Output.numberedLine · l) := by
  cases line with
  | none => rfl
  | some l => simp [invoke, Output.ofLine?, Output.toList, List.range_eq_range']

/-- A call of a tree, after any others, is a call of the one leaf that the tags of the report lead to,
with what is left of the report. It counts the leaf up by one if that counts, with a line or without,
and leaves everything else as it was. So each counting leaf has counted the calls that came to it, and
the call that is the j-th for such a leaf gives the line numbered from 0, once more often than its
count so far. Without a line a tree makes output only by leaves that have output of their own. -/
theorem calls_reach_one_leaf (h : Handler) (calls : List (RunState × Match × Option Line))
    (state : RunState) (report : Match) (line : Option Line) :
    let now := h.after calls
    let turns := (h.way report).1
    let rest := (h.way report).2
    let made := now.invoke state line report
    (∃ leaf, now.leaf? turns = some leaf ∧ made.1 = (leaf.invoke state line rest).1 ∧
      (∀ place, made.2.leaf? place =
        if place = turns then some (leaf.raisedBy 1) else now.leaf? place) ∧
      ((∀ count, leaf ≠ .increment count) → made.2 = now)) ∧
    (∀ place, now.leaf? place = (h.leaf? place).map (raisedBy (h.reached place calls))) ∧
    (∀ count, h.leaf? turns = some (.increment count) →
      let j := h.reached turns calls + 1
      made.1.toList =
        line.elim [] fun l => (List.range (count + j)).map (Output.numberedLine · l)) ∧
    (line = none → h.needsLine = true → made.1.toList = []) := by
  intro now turns rest made
  have way : now.way report = h.way report := way_after h calls report
  obtain ⟨leaf, found, output, leaves⟩ := invoke_leaf now report state line
  rw [way] at found output leaves
  refine ⟨⟨leaf, found, output, leaves, ?_⟩, leaf_after h calls, ?_, ?_⟩
  · intro other
    have still : leaf.raisedBy 1 = leaf := by
      cases leaf with
      | increment count => exact absurd rfl (other count)
      | _ => rfl
    apply eq_of_leaves
    intro place
    rw [leaves, still]
    split
    · rename_i here
      rw [here]
      exact found.symm
    · rfl
  · intro count here j
    have counted : now.leaf? turns = some (.increment (count + h.reached turns calls)) := by
      rw [leaf_after, here]
      rfl
    obtain rfl := Option.some.inj (counted.symm.trans found)
    rw [output]
    exact numbered_lines _ state line rest
  · intro absent needs
    subst absent
    exact quiet_without_line ((needsLine_after h calls).trans needs) report state

theorem second_call_of_leaf_numbers_twice :
    let h : Handler := .eitherOr (.increment 5) (.eitherOr .print .counting)
    let state : RunState := ⟨0, " ", "\n"⟩
    let calls : List (RunState × Match × Option Line) :=
      [(state, .tagged .right (.tagged .right .hit), none), (state, .tagged .left .hit, some "a")]
    ((h.after calls).invoke state (some "b") .hit).1.toList = ["0: b", "1: b"] := by
  intro h state calls
  obtain ⟨-, -, numbered, -⟩ := calls_reach_one_leaf h calls state .hit (some "b")
  exact (numbered 0 rfl).trans (by decide)

end Handler

end LineRules
