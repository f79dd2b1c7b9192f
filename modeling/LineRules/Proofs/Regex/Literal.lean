import LineRules.Proofs.Regex.First
import LineRules.Regex.Source

namespace LineRules.Regex

/-- What is matched by characters that meet conditions, one after the other. -/
def follow : List (Char → Bool) → Cursor → List Cursor
  | [], c => [c]
  | fits :: more, c =>
    match c.rest with
    | [] => []
    | x :: _ => if fits x then follow more c.advance else []

theorem follow_append (ps qs : List (Char → Bool)) (c : Cursor) :
    follow (ps ++ qs) c = (follow ps c).flatMap (follow qs) := by
  induction ps generalizing c with
  | nil => simp [follow]
  | cons fits ps ih =>
    rw [List.cons_append, follow, follow]
    cases c.rest with
    | nil => rfl
    | cons x rest =>
      by_cases met : fits x
      · simp only [met, if_true, ih]
      · simp only [met]
        rfl

theorem ways_set_seq (s : CharSet) (r : Regex) (c : Cursor) :
    (Regex.seq (.set s) r).ways c =
      match c.rest with
      | [] => []
      | x :: _ => if s.mem x then r.ways c.advance else [] := by
  rw [ways, ways]
  cases c.rest with
  | nil => rfl
  | cons x rest =>
    by_cases met : s.mem x
    · simp only [met, if_true, List.flatMap_singleton]
    · simp only [met]
      rfl

theorem ways_text (t : Text) (c : Cursor) :
    (text t).ways c = follow (t.map fun x => (CharSet.single x).mem) c := by
  induction t generalizing c with
  | nil => rfl
  | cons x t ih =>
    rw [text, ways_set_seq, List.map_cons, follow]
    simp only [ih]

theorem ways_textAnyCase (t : Text) (c : Cursor) :
    (textAnyCase t).ways c = follow (t.map fun x => (CharSet.sameFold x).mem) c := by
  induction t generalizing c with
  | nil => rfl
  | cons x t ih =>
    rw [textAnyCase, ways_set_seq, List.map_cons, follow]
    simp only [ih]

namespace Expr

/-- An expression for characters that meet conditions, one after the other. -/
inductive Spells : Expr → List (Char → Bool) → Prop
  | empty : Spells .empty []
  | literal (t : Text) : Spells (.literal t) (t.map fun c => (CharSet.single c).mem)
  | set (s : CharSet) : Spells (.set s) [s.mem]
  | seq {a b : Expr} {ps qs : List (Char → Bool)} (first : Spells a ps) (second : Spells b qs) :
    Spells (.seq a b) (ps ++ qs)

inductive SpellsAll : List Expr → List (Char → Bool) → Prop
  | nil : SpellsAll [] []
  | cons {e : Expr} {es : List Expr} {ps qs : List (Char → Bool)} (first : Spells e ps)
    (rest : SpellsAll es qs) : SpellsAll (e :: es) (ps ++ qs)

variable {e : Expr} {es fs : List Expr} {ps qs : List (Char → Bool)}

theorem SpellsAll.single (spells : Spells e ps) : SpellsAll [e] ps :=
  List.append_nil ps ▸ .cons spells .nil

theorem SpellsAll.append (one : SpellsAll es ps) (two : SpellsAll fs qs) :
    SpellsAll (es ++ fs) (ps ++ qs) := by
  induction one with
  | nil => exact two
  | cons first _ ih =>
    rw [List.cons_append, List.append_assoc]
    exact .cons first ih

theorem Spells.factors (spells : Spells e ps) : SpellsAll e.factors ps := by
  induction spells with
  | empty => exact .nil
  | literal t => exact .single (.literal t)
  | set s => exact .single (.set s)
  | seq first _ _ rest => exact .cons first rest

theorem SpellsAll.factors (spells : SpellsAll es ps) : SpellsAll (es.flatMap Expr.factors) ps := by
  induction spells with
  | nil => exact .nil
  | cons first _ ih => exact first.factors.append ih

theorem SpellsAll.join (first : Spells e ps) (rest : SpellsAll es qs) :
    SpellsAll (consFactor e es) (ps ++ qs) := by
  unfold consFactor
  split
  · rename_i s t es
    cases first
    cases rest with
    | cons second rest =>
      cases second
      rw [← List.append_assoc, ← List.map_append]
      exact .cons (.literal _) rest
  · exact .cons first rest

theorem SpellsAll.merged (spells : SpellsAll es ps) : SpellsAll (es.foldr consFactor []) ps := by
  induction spells with
  | nil => exact .nil
  | cons first _ ih => exact .join first ih

theorem SpellsAll.inRow (spells : SpellsAll es ps) : Spells (ofFactors es) ps := by
  induction spells with
  | nil => exact .empty
  | cons first rest ih =>
    cases rest with
    | nil =>
      rw [List.append_nil]
      exact first
    | cons second rest => exact .seq first ih

theorem spells_sequence (spells : SpellsAll es ps) : Spells (sequence es) ps :=
  spells.factors.merged.inRow

theorem spells_ofSet (s : CharSet) : Spells (ofSet s) [s.mem] := by
  unfold ofSet
  split
  · rename_i r single
    split
    · rename_i same
      have mem : s.mem = (CharSet.single r.lo).mem := by
        funext c
        simp [CharSet.mem, single, CharSet.single, CharSet.range, CharRange.mem, same]
      rw [mem]
      exact .literal [r.lo]
    · exact .set s
  · exact .set s

/-- A choice with one branch asks for the same, although a set is put together anew. -/
theorem Spells.choice (spells : Spells e ps) (single : ∀ a b, e ≠ .seq a b) :
    Spells (choice [e]) ps := by
  cases spells with
  | empty => exact .empty
  | seq first second => exact absurd rfl (single _ _)
  | set s =>
    have again : s.mem = (CharSet.union .empty s).mem := by
      funext c
      rw [Bool.eq_iff_iff, CharSet.union, CharSet.mem_ofRanges]
      exact CharSet.mem_iff
    change Spells (ofSet (CharSet.union .empty s)) [s.mem]
    rw [again]
    exact spells_ofSet _
  | literal t =>
    match t with
    | [] => exact .literal []
    | [c] =>
      change Spells (ofSet (CharSet.ofList [c])) [(CharSet.single c).mem]
      exact spells_ofSet (.single c)
    | c :: d :: t => exact .literal _

/-- Of one sequence all factors are shared, and nothing is left behind them. -/
theorem alternatives_seq (a b : Expr) :
    alternatives [.seq a b] = sequence ((Expr.seq a b).factors ++ [.empty]) := by
  have left : (Expr.seq a b).factors.drop (Expr.seq a b).factors.length = [] := List.drop_length
  change sequence ((Expr.seq a b).factors ++
    [choice [sequence ((Expr.seq a b).factors.drop (Expr.seq a b).factors.length)]]) = _
  rw [left]
  rfl

theorem spells_alternatives (spells : Spells e ps) : Spells (alternatives [e]) ps := by
  cases spells with
  | seq first second =>
    have factors := (Spells.seq first second).factors.append (.single .empty)
    rw [List.append_nil] at factors
    rw [alternatives_seq]
    exact spells_sequence factors
  | empty => exact .choice .empty (by simp)
  | literal t => exact .choice (.literal t) (by simp)
  | set s => exact .choice (.set s) (by simp)

theorem toRegex_seq {a b : Expr} {r s : Regex} {n m l : Nat} (one : a.toRegex.run n = (r, m))
    (two : b.toRegex.run m = (s, l)) : (Expr.seq a b).toRegex.run n = (.seq r s, l) := by
  have unfolded : (Expr.seq a b).toRegex.run n =
      (.seq (a.toRegex.run n).1 (b.toRegex.run (a.toRegex.run n).2).1,
        (b.toRegex.run (a.toRegex.run n).2).2) := rfl
  rw [unfolded, one, two]

theorem toRegex_group {r : Regex} {n m i : Nat} (inner : e.toRegex.run n = (r, m)) :
    (Expr.group i e).toRegex.run n = (.group i r, m) := by
  have unfolded : (Expr.group i e).toRegex.run n =
      (.group i (e.toRegex.run n).1, (e.toRegex.run n).2) := rfl
  rw [unfolded, inner]

theorem spells_toRegex (spells : Spells e ps) :
    ∃ r : Regex, (∀ n, e.toRegex.run n = (r, n)) ∧ r.Plain ∧ ∀ c, r.ways c = follow ps c := by
  induction spells with
  | empty => exact ⟨.empty, fun n => rfl, trivial, fun c => rfl⟩
  | literal t => exact ⟨.text t, fun n => rfl, plain_text t, ways_text t⟩
  | set s =>
    exact ⟨.set s, fun n => rfl, trivial, fun c => rfl⟩
  | seq _ _ first second =>
    obtain ⟨r, one, plain, ends⟩ := first
    obtain ⟨s, two, plain', ends'⟩ := second
    refine ⟨.seq r s, fun n => toRegex_seq (one n) (two n), ⟨plain, plain'⟩, fun c => ?_⟩
    rw [follow_append, ways, ends, funext ends']

end Expr
end LineRules.Regex
