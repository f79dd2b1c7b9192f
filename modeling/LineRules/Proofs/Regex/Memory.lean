import LineRules.Proofs.Regex.Reading
import Mathlib.Algebra.GroupWithZero.Nat

namespace LineRules.Regex

namespace Expr

variable {e : Expr} {ps : List (Char → Bool)}

theorem memory_factors (e : Expr) : (e.factors.map memory).sum = e.memory := by
  induction e with
  | empty => rfl
  | seq a b _ ih => rw [factors, List.map_cons, List.sum_cons, ih, memory]
  | literal | set | look | alt | group | rep => exact Nat.add_zero _

theorem memory_consFactor (e : Expr) (es : List Expr) :
    ((consFactor e es).map memory).sum = e.memory + (es.map memory).sum := by
  unfold consFactor
  split
  · simp only [List.map_cons, List.sum_cons, memory, Text.byteLength_append]
    omega
  · rfl

theorem memory_ofFactors (es : List Expr) : (ofFactors es).memory = (es.map memory).sum := by
  induction es with
  | nil => rfl
  | cons e es ih =>
    cases es with
    | nil => exact (Nat.add_zero _).symm
    | cons f es => exact congrArg (e.memory + ·) ih

theorem memory_sequence (es : List Expr) : (sequence es).memory = (es.map memory).sum := by
  have merged (fs : List Expr) :
      ((fs.foldr consFactor []).map memory).sum = (fs.map memory).sum := by
    induction fs with
    | nil => rfl
    | cons f fs ih => rw [List.foldr_cons, memory_consFactor, ih, List.map_cons, List.sum_cons]
  rw [sequence, memory_ofFactors, merged]
  induction es with
  | nil => rfl
  | cons e es ih =>
    rw [List.flatMap_cons, List.map_append, List.sum_append, memory_factors, ih, List.map_cons,
      List.sum_cons]

theorem memory_alternatives (spells : Spells e ps) (several : 1 < ps.length) :
    (alternatives [e]).memory = e.memory := by
  cases spells with
  | empty => simp at several
  | set s => simp at several
  | literal t =>
    match t with
    | [] => simp at several
    | [c] => simp at several
    | c :: d :: t => rfl
  | seq first second =>
    rw [alternatives_seq, memory_sequence, List.map_append, List.sum_append, memory_factors]
    rfl

end Expr

theorem memory_literalPart (flags : Flags) {t : Text} (several : 1 < t.length) :
    (literalPart flags t).expr.memory =
      (t.map fun c => (Expr.ofSet (meantBy flags c)).memory).sum := by
  have parts : (Part.sequence (literalParts flags t).reverse).expr =
      .sequence (t.map fun c => Expr.ofSet (meantBy flags c)) := by
    simp only [Part.sequence, literalParts, List.reverse_reverse, List.map_map]
    rfl
  have whole : (literalPart flags t).expr =
      .alternatives [(Part.sequence (literalParts flags t).reverse).expr] := rfl
  rw [whole, parts, Expr.memory_alternatives (Expr.spells_sequence (spellsAll_literal flags t)),
    Expr.memory_sequence, List.map_map]
  · rfl
  · simpa using several

end LineRules.Regex
