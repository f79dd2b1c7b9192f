import LineRules.Proofs.Pattern.Laws
import Mathlib.Data.List.Basic

/-!
The parts of a pattern, and which of them looking at a line comes to. A part has a place, given by
the numbers of the direct parts on the way to it. Combinators ask some of their direct parts and
skip the others; what a pattern asks and what it leaves behind is put together from the direct parts
that it asks, from left to right.
-/
namespace LineRules.Pattern

def parts : Pattern → List Pattern
  | .both p q | .either p q | .range p q _ | .eitherOr p q => [p, q]
  | .negation p | .orAlways p => [p]
  | .ifThen condition yes no => [condition, yes, no]
  | .oneOf ps => ps
  | .atStart | .atEnd | .always | .never | .regex _ | .test _ => []

def isLeaf : Pattern → Bool
  | .atStart | .atEnd | .always | .never | .regex _ | .test _ => true
  | _ => false

def hits (p : Pattern) (line : Option Line) : Bool :=
  (p.evaluate line).report.isHit

/-- Whether looking at a line comes to the direct part of a number. It skips what cannot change the
outcome: the second part of a conjunction behind a miss and of an alternative behind a hit, members
of a choice behind a hit, the branch that was not taken, and the boundary that a range does not wait
for. -/
def asks (line : Option Line) : Pattern → Nat → Bool
  | .both p _, n => n == 0 || p.hits line
  | .either p _, n | .eitherOr p _, n => n == 0 || !p.hits line
  | .negation _, _ | .orAlways _, _ => true
  | .range _ _ isOpen, n => n == if isOpen then 1 else 0
  | .ifThen condition _ _, n => n == 0 || n == if condition.hits line then 1 else 2
  | .oneOf ps, n => (ps.take n).all fun p => !p.hits line
  | _, _ => false

def part? : Pattern → List Nat → Option Pattern
  | p, [] => some p
  | p, n :: place => p.parts[n]?.bind fun q => q.part? place

def reaches (line : Option Line) : Pattern → List Nat → Bool
  | _, [] => true
  | p, n :: place => p.asks line n && p.parts[n]?.any fun q => q.reaches line place

mutual

theorem part_induction {motive : Pattern → Prop}
    (step : ∀ p, (∀ q ∈ p.parts, motive q) → motive p) : ∀ p, motive p
  | .atStart | .atEnd | .always | .never | .regex _ | .test _ => step _ (by simp [parts])
  | .both p q | .either p q | .range p q _ | .eitherOr p q => by
    have first := part_induction step p
    have second := part_induction step q
    exact step _ (by simp [parts, first, second])
  | .negation p | .orAlways p => by
    have inner := part_induction step p
    exact step _ (by simp [parts, inner])
  | .ifThen condition yes no => by
    have asked := part_induction step condition
    have first := part_induction step yes
    have second := part_induction step no
    exact step _ (by simp [parts, asked, first, second])
  | .oneOf ps => step _ (parts_induction step ps)

theorem parts_induction {motive : Pattern → Prop}
    (step : ∀ p, (∀ q ∈ p.parts, motive q) → motive p) : ∀ ps : List Pattern, ∀ q ∈ ps, motive q
  | [] => by simp
  | p :: ps => List.forall_mem_cons.mpr ⟨part_induction step p, parts_induction step ps⟩

end

section Step

variable {line : Option Line} {p q : Pattern} {ps : List Pattern}

theorem evaluateFirst_next (line : Option Line) (ps : List Pattern) :
    (evaluateFirst line ps).next = ps.mapIdx fun n q =>
      if (ps.take n).all (fun p => !p.hits line) then (q.evaluate line).next else q := by
  induction ps with
  | nil => rfl
  | cons p ps ih =>
    by_cases hit : p.hits line = true
    · rw [first_hit hit]
      have rest : ps.mapIdx (fun _ q => q) = ps := List.ext_getElem? (by simp)
      simp [List.mapIdx_cons, hit, rest]
    · rw [first_miss hit]
      simp [List.mapIdx_cons, hit, ih]

theorem next_parts (line : Option Line) (p : Pattern) :
    (p.evaluate line).next.parts = p.parts.mapIdx fun n q =>
      if p.asks line n then (q.evaluate line).next else q := by
  cases p with
  | atStart | atEnd | always | never => rfl
  | regex m =>
    simp only [evaluate]
    split <;> rfl
  | test t =>
    simp only [evaluate]
    split <;> rfl
  | both p q | either p q | eitherOr p q =>
    cases hit : p.hits line <;> simp_all [hits, evaluate, parts, asks, Evaluation.after]
  | negation p | orAlways p => simp [evaluate, parts, asks]
  | range start stop isOpen =>
    cases isOpen with
    | true => cases hit : stop.hits line <;> simp_all [hits, evaluate, parts, asks]
    | false => cases hit : start.hits line <;> simp_all [hits, evaluate, parts, asks]
  | ifThen condition yes no =>
    cases hit : condition.hits line <;> simp_all [hits, evaluate, parts, asks, Evaluation.after]
  | oneOf ps => exact evaluateFirst_next line ps

def fromAsked {α : Type} (line : Option Line) (p : Pattern) (give : Pattern → List α) : List α :=
  p.parts.zipIdx.flatMap fun part => if p.asks line part.2 then give part.1 else []

theorem fromAsked_congr {α : Type} {one other : Pattern → List α}
    (same : ∀ q ∈ p.parts, one q = other q) : fromAsked line p one = fromAsked line p other := by
  apply List.flatMap_congr
  intro part member
  rw [same part.1 (List.fst_mem_of_mem_zipIdx member)]

theorem flatMap_fromAsked {α β : Type} (give : Pattern → List α) (more : α → List β) :
    (fromAsked line p give).flatMap more = fromAsked line p fun q => (give q).flatMap more := by
  rw [fromAsked, fromAsked, List.flatMap_assoc]
  apply List.flatMap_congr
  intro part _
  split <;> rfl

theorem fromAsked_cons {α : Type} (ps : List Pattern) (give : Pattern → List α) :
    fromAsked line (.oneOf (p :: ps)) give =
      give p ++ if p.hits line then [] else fromAsked line (.oneOf ps) give := by
  cases hit : p.hits line <;>
    simp [fromAsked, parts, asks, List.zipIdx_succ, List.flatMap_map, hit]

theorem evaluateFirst_calls (line : Option Line) (ps : List Pattern) :
    (evaluateFirst line ps).calls = fromAsked line (.oneOf ps) fun q => (q.evaluate line).calls := by
  induction ps with
  | nil => rfl
  | cons p ps ih =>
    rw [fromAsked_cons]
    by_cases hit : p.hits line = true
    · rw [first_hit hit, if_pos hit, List.append_nil]
      rfl
    · rw [first_miss hit, if_neg hit, ← ih]
      rfl

theorem calls_parts (inner : p.isLeaf = false) :
    (p.evaluate line).calls = fromAsked line p fun q => (q.evaluate line).calls := by
  cases p with
  | atStart | atEnd | always | never | regex m | test t => simp [isLeaf] at inner
  | both p q | either p q | eitherOr p q =>
    cases hit : p.hits line <;>
      simp_all [hits, evaluate, parts, asks, Evaluation.after, fromAsked]
  | negation p | orAlways p => simp [evaluate, parts, asks, fromAsked]
  | range start stop isOpen =>
    cases isOpen with
    | true => cases hit : stop.hits line <;> simp_all [hits, evaluate, parts, asks, fromAsked]
    | false => cases hit : start.hits line <;> simp_all [hits, evaluate, parts, asks, fromAsked]
  | ifThen condition yes no =>
    cases hit : condition.hits line <;>
      simp_all [hits, evaluate, parts, asks, Evaluation.after, fromAsked]
  | oneOf ps => exact evaluateFirst_calls line ps

/-- Behind a line, a part that was reached is as one look at the line leaves it, and any other part
is as it was before. -/
theorem next_part (line : Option Line) (p : Pattern) (place : List Nat) :
    (p.evaluate line).next.part? place =
      if p.reaches line place then (p.part? place).map fun q => (q.evaluate line).next
      else p.part? place := by
  induction place generalizing p with
  | nil => rfl
  | cons n place ih =>
    rw [part?, part?, reaches, next_parts, List.getElem?_mapIdx]
    cases here : p.parts[n]? with
    | none => simp
    | some q =>
      cases asked : p.asks line n with
      | true => simp [ih]
      | false => simp

theorem isHit_evaluate (p : Pattern) (line : Option Line) :
    (p.evaluate line).report.isHit = p.hits line :=
  rfl

theorem report_both : ((both p q).evaluate line).report =
    if p.hits line then (q.evaluate line).report else (p.evaluate line).report := by
  cases hit : p.hits line <;> simp [evaluate, isHit_evaluate, hit]

theorem report_either : ((either p q).evaluate line).report =
    if p.hits line then (p.evaluate line).report else (q.evaluate line).report := by
  cases hit : p.hits line <;> simp [evaluate, isHit_evaluate, hit]

theorem report_ifThen {condition : Pattern} : ((ifThen condition p q).evaluate line).report =
    if condition.hits line then (p.evaluate line).report else (q.evaluate line).report := by
  cases hit : condition.hits line <;> simp [evaluate, isHit_evaluate, hit]

theorem report_range {isOpen : Bool} : ((range p q isOpen).evaluate line).report =
    if isOpen then (if q.hits line then (q.evaluate line).report else .hit)
    else if p.hits line then (p.evaluate line).report else .miss := by
  cases isOpen with
  | true => cases hit : q.hits line <;> simp [evaluate, isHit_evaluate, hit]
  | false => cases hit : p.hits line <;> simp [evaluate, isHit_evaluate, hit]

theorem report_first : (evaluateFirst line (p :: ps)).report =
    if p.hits line then (p.evaluate line).report else (evaluateFirst line ps).report := by
  cases hit : p.hits line <;> simp [evaluateFirst, isHit_evaluate, hit]

end Step

section Leaves

def under (n : Nat) (found : List (List Nat × Pattern)) : List (List Nat × Pattern) :=
  found.map fun leaf => (n :: leaf.1, leaf.2)

mutual

def leaves : Pattern → List (List Nat × Pattern)
  | .both p q | .either p q | .range p q _ | .eitherOr p q => under 0 p.leaves ++ under 1 q.leaves
  | .negation p | .orAlways p => under 0 p.leaves
  | .ifThen condition yes no => under 0 condition.leaves ++ under 1 yes.leaves ++ under 2 no.leaves
  | .oneOf ps => leavesFrom 0 ps
  | leaf => [([], leaf)]

def leavesFrom (n : Nat) : List Pattern → List (List Nat × Pattern)
  | [] => []
  | p :: ps => under n p.leaves ++ leavesFrom (n + 1) ps

end

variable {line : Option Line} {p q : Pattern} {place : List Nat}

theorem leavesFrom_eq (n : Nat) (ps : List Pattern) :
    leavesFrom n ps = (ps.zipIdx n).flatMap fun part => under part.2 part.1.leaves := by
  induction ps generalizing n with
  | nil => rfl
  | cons p ps ih => rw [leavesFrom, ih, List.zipIdx_cons, List.flatMap_cons]

theorem leaves_leaf (leaf : p.isLeaf = true) : p.leaves = [([], p)] := by
  cases p <;> simp_all [isLeaf, leaves]

theorem leaves_parts (inner : p.isLeaf = false) :
    p.leaves = p.parts.zipIdx.flatMap fun part => under part.2 part.1.leaves := by
  cases p <;> simp_all [isLeaf, leaves, parts, leavesFrom_eq]

theorem parts_leaf (leaf : p.isLeaf = true) : p.parts = [] := by
  cases p <;> simp_all [isLeaf, parts]

theorem mem_under {n : Nat} {found : List (List Nat × Pattern)} :
    (place, q) ∈ under n found ↔ ∃ rest, place = n :: rest ∧ (rest, q) ∈ found := by
  simp only [under, List.mem_map, Prod.mk.injEq, Prod.exists]
  constructor
  · intro given
    obtain ⟨rest, r, member, rfl, rfl⟩ := given
    exact ⟨rest, rfl, member⟩
  · intro given
    obtain ⟨rest, rfl, member⟩ := given
    exact ⟨rest, q, member, rfl, rfl⟩

theorem mem_leaves : (place, q) ∈ p.leaves ↔ p.part? place = some q ∧ q.isLeaf = true := by
  induction place generalizing p with
  | nil =>
    cases leaf : p.isLeaf with
    | true =>
      simp only [leaves_leaf leaf, part?, List.mem_singleton, Prod.mk.injEq, true_and,
        Option.some.injEq]
      constructor
      · rintro rfl
        exact ⟨rfl, leaf⟩
      · rintro ⟨rfl, -⟩
        rfl
    | false =>
      simp only [leaves_parts leaf, part?, List.mem_flatMap, mem_under, Option.some.injEq]
      constructor
      · rintro ⟨_, _, _, none, _⟩
        simp at none
      · rintro ⟨rfl, other⟩
        simp [leaf] at other
  | cons n place ih =>
    rw [part?]
    cases leaf : p.isLeaf with
    | true => simp [leaves_leaf leaf, parts_leaf leaf]
    | false =>
      simp only [leaves_parts leaf, List.mem_flatMap, mem_under, List.cons.injEq,
        Option.bind_eq_some_iff]
      constructor
      · rintro ⟨⟨r, m⟩, here, _, ⟨rfl, rfl⟩, member⟩
        obtain ⟨there, last⟩ := ih.mp member
        exact ⟨⟨r, List.mem_zipIdx_iff_getElem?.mp here, there⟩, last⟩
      · rintro ⟨⟨r, here, there⟩, last⟩
        exact ⟨(r, n), List.mem_zipIdx_iff_getElem?.mpr here, place, ⟨rfl, rfl⟩,
          ih.mpr ⟨there, last⟩⟩

theorem numbers_ascend {α : Type} (parts : List α) (n : Nat) :
    (parts.zipIdx n).Pairwise fun one other => one.2 < other.2 := by
  induction parts generalizing n with
  | nil => exact .nil
  | cons p ps ih =>
    exact List.pairwise_cons.mpr ⟨fun part member => List.le_snd_of_mem_zipIdx member, ih (n + 1)⟩

theorem leaves_ascend (p : Pattern) : (p.leaves.map (·.1)).Pairwise (· < ·) := by
  rw [List.pairwise_map]
  induction p using part_induction with
  | step p ih =>
    cases leaf : p.isLeaf with
    | true => simp [leaves_leaf leaf]
    | false =>
      rw [leaves_parts leaf, List.pairwise_flatMap]
      refine ⟨fun part member => ?_, (numbers_ascend p.parts 0).imp ?_⟩
      · rw [under, List.pairwise_map]
        exact (ih part.1 (List.fst_mem_of_mem_zipIdx member)).imp List.cons_lt_cons_self.mpr
      · intro one other less x here y there
        obtain ⟨u, -, rfl⟩ := List.mem_map.mp here
        obtain ⟨v, -, rfl⟩ := List.mem_map.mp there
        exact List.cons_lt_cons_iff.mpr (.inl less)

def reached (line : Option Line) (p : Pattern) : List Pattern :=
  (p.leaves.filter fun leaf => p.reaches line leaf.1).map (·.2)

theorem reached_leaf (leaf : p.isLeaf = true) : p.reached line = [p] := by
  have here : p.reaches line [] = true := rfl
  simp [reached, leaves_leaf leaf, here]

theorem reached_parts (inner : p.isLeaf = false) :
    p.reached line = fromAsked line p (·.reached line) := by
  rw [reached, leaves_parts inner, List.filter_flatMap, List.map_flatMap, fromAsked]
  apply List.flatMap_congr
  rintro ⟨q, n⟩ member
  have here : p.parts[n]? = some q := List.mem_zipIdx_iff_getElem?.mp member
  rw [under, List.filter_map, List.map_map]
  cases asked : p.asks line n <;>
    simp [Function.comp_def, reaches, here, asked, reached]

theorem reached_both : (both p q).reached line =
    p.reached line ++ if p.hits line then q.reached line else [] := by
  rw [reached_parts rfl]
  cases hit : p.hits line <;> simp [fromAsked, parts, asks, hit]

theorem reached_either : (either p q).reached line =
    p.reached line ++ if p.hits line then [] else q.reached line := by
  rw [reached_parts rfl]
  cases hit : p.hits line <;> simp [fromAsked, parts, asks, hit]

theorem reached_ifThen {condition : Pattern} : (ifThen condition p q).reached line =
    condition.reached line ++
      if condition.hits line then p.reached line else q.reached line := by
  rw [reached_parts rfl]
  cases hit : condition.hits line <;> simp [fromAsked, parts, asks, hit]

/-- Looking at a line asks just what the leaves ask that it comes to. -/
theorem calls_reached (line : Option Line) (p : Pattern) :
    (p.evaluate line).calls = (p.reached line).flatMap fun leaf => (leaf.evaluate line).calls := by
  induction p using part_induction with
  | step p ih =>
    cases leaf : p.isLeaf with
    | true => simp [reached_leaf leaf]
    | false =>
      rw [calls_parts leaf, reached_parts leaf, flatMap_fromAsked]
      exact fromAsked_congr ih

end Leaves

end LineRules.Pattern
