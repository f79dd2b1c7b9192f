import LineRules.Proofs.Release.Successive

namespace LineRules.Release

open Decimal

def EndsInMark (t : Text) : Prop :=
  ∃ a c, IsDigit c ∧ t = a ++ c :: "jpp."

structure CutAtLastMark (r front rest : Text) : Prop where
  parts : r = front ++ rest
  mark : EndsInMark front
  last : ∀ a b, r = a ++ b → EndsInMark a → a.length ≤ front.length

variable {r front rest : Text}

theorem CutAtLastMark.unmarked (cut : CutAtLastMark r front rest) : ¬Marked rest := by
  intro given
  obtain ⟨a, c, b, digit, rfl⟩ := given
  have later : EndsInMark (front ++ (a ++ c :: "jpp.")) :=
    ⟨front ++ a, c, digit, by rw [List.append_assoc]⟩
  have bound := cut.last _ b (by rw [cut.parts]; simp) later
  simp only [List.length_append, List.length_cons] at bound
  omega

theorem cutAtLastMark {x q : Text} {c : Char} (digit : IsDigit c) (unmarked : ¬Marked q) :
    CutAtLastMark (x ++ c :: ("jpp." ++ q)) (x ++ c :: "jpp.") q := by
  refine ⟨by simp, ⟨x, c, digit, rfl⟩, ?_⟩
  intro front' rest' whole mark
  obtain ⟨y, d, digit', rfl⟩ := mark
  have seam : x ++ c :: ("jpp." ++ q) = y ++ (d :: ("jpp." ++ rest')) := by
    rw [whole]
    simp
  rcases List.append_eq_append_iff.mp seam with ⟨w, rfl, behind⟩ | ⟨w, rfl, -⟩
  · cases w with
    | nil => simp
    | cons z w =>
      -- A mark that starts later lies behind the first one, since a mark has but one digit.
      obtain ⟨-, behind⟩ := List.cons.inj behind
      exact absurd (marked_of_append mark_noDigit ⟨w, d, rest', digit', behind⟩) unmarked
  · simp

theorem Marked.exists_cut (marked : Marked r) : ∃ front rest, CutAtLastMark r front rest := by
  obtain ⟨x, c, q, digit, rfl, unmarked⟩ := exists_last_mark marked
  exact ⟨x ++ c :: "jpp.", q, cutAtLastMark digit unmarked⟩

theorem increaseJpp_cut (cut : CutAtLastMark r front rest) (line : '\n' ∉ r) :
    increaseJpp r = (increaseMain rest).map (front ++ ·) := by
  have unmarked := cut.unmarked
  obtain ⟨x, c, digit, rfl⟩ := cut.mark
  have parts : r = x ++ c :: ("jpp." ++ rest) := by
    rw [cut.parts]
    simp
  rw [parts] at line ⊢
  rw [increaseJpp_marked digit unmarked line]
  simp

theorem increaseMain_noMatch (line : '\n' ∉ r) :
    increaseMain r = .error (.noMatch r) ↔ leadingDigits (afterMark r) = [] := by
  rw [increaseMain_eq line]
  constructor
  · intro refused
    split at refused
    · assumption
    · split at refused <;> simp at refused
  · intro none
    rw [if_pos none]

theorem increaseMain_rejected (line : '\n' ∉ r) :
    increaseMain r = .error (.rejected r) ↔ leadingDigits (afterMark r) ≠ [] ∧
      preReleaseMark r = [] ∧ ("rc" : Text) <:+: afterDigits (afterMark r) := by
  rw [increaseMain_eq line, ← Text.contains_iff]
  constructor
  · intro refused
    split at refused
    · simp at refused
    · rename_i filled
      split at refused
      · rename_i candidate
        exact ⟨filled, candidate⟩
      · simp at refused
  · intro given
    rw [if_neg given.1, if_pos given.2]

theorem increaseMain_error {e : BumpError} (line : '\n' ∉ r) (refused : increaseMain r = .error e) :
    e = .noMatch r ∨ e = .rejected r := by
  rw [increaseMain_eq line] at refused
  split at refused
  · exact .inl (Except.error.inj refused).symm
  · split at refused
    · exact .inr (Except.error.inj refused).symm
    · simp at refused

theorem increaseJpp_noMatch (line : '\n' ∉ r) :
    increaseJpp r = .error (.noMatch r) ↔ ¬Marked r := by
  constructor
  · intro refused marked
    obtain ⟨front, rest, cut⟩ := marked.exists_cut
    have inner : '\n' ∉ rest := by
      rw [cut.parts] at line
      exact fun member => line (List.mem_append_right front member)
    rw [increaseJpp_cut cut line] at refused
    cases made : increaseMain rest with
    | ok b => simp [made, Except.map] at refused
    | error e =>
      -- The main scheme names what it was asked about, which is shorter than the release.
      have named : e = .noMatch r := by simpa [made, Except.map] using refused
      rw [named] at made
      have same : rest = r := by
        rcases increaseMain_error inner made with one | two
        · exact (BumpError.noMatch.inj one).symm
        · simp at two
      obtain ⟨a, c, -, rfl⟩ := cut.mark
      have lengths := congrArg List.length cut.parts
      simp only [same, List.length_append, List.length_cons] at lengths
      omega
  · exact fun unmarked => increaseJpp_unmarked unmarked line

/-- A release without line feeds is a pre-release mark or nothing, digits, and a rest. The main
scheme refuses it just if there are no digits, or if it is a release candidate without the mark, and
names it in the refusal; otherwise only the digits change, to the next numeral. The scheme for `jpp`
releases refuses what has no mark; otherwise everything up to the last mark is kept as it is, and
the main scheme decides on what follows. -/
theorem schemes_take_their_shapes (r : Text) (line : '\n' ∉ r) :
    preReleaseMark r ++ leadingDigits (afterMark r) ++ afterDigits (afterMark r) = r ∧
    (increaseMain r = .error (.noMatch r) ↔ leadingDigits (afterMark r) = []) ∧
    (increaseMain r = .error (.rejected r) ↔ leadingDigits (afterMark r) ≠ [] ∧
      preReleaseMark r = [] ∧ ("rc" : Text) <:+: afterDigits (afterMark r)) ∧
    (leadingDigits (afterMark r) ≠ [] →
      ¬(preReleaseMark r = [] ∧ ("rc" : Text) <:+: afterDigits (afterMark r)) →
        increaseMain r = .ok (preReleaseMark r ++
          Decimal.numeral (value (leadingDigits (afterMark r)) + 1) ++
            afterDigits (afterMark r))) ∧
    (increaseJpp r = .error (.noMatch r) ↔ ¬∃ c, IsDigit c ∧ c :: "jpp." <:+: r) ∧
    ((∃ c, IsDigit c ∧ c :: "jpp." <:+: r) → ∃ front rest, CutAtLastMark r front rest) ∧
    ∀ front rest, CutAtLastMark r front rest →
      increaseJpp r = (increaseMain rest).map (front ++ ·) := by
  refine ⟨?_, increaseMain_noMatch line, increaseMain_rejected line, ?_, ?_, ?_, ?_⟩
  · rw [List.append_assoc, leadingDigits_append, preReleaseMark_append]
  · intro filled final
    rw [← Text.contains_iff] at final
    rw [increaseMain_eq line, if_neg filled, if_neg final]
  · rw [increaseJpp_noMatch line, marked_iff]
  · exact fun given => (marked_iff.mpr given).exists_cut
  · exact fun front rest cut => increaseJpp_cut cut line

theorem last_of_two_marks_counts :
    '\n' ∉ ("007jpp.05jpp.0.09rc" : Text) ∧
      CutAtLastMark "007jpp.05jpp.0.09rc" "007jpp.05jpp." "0.09rc" ∧
      increaseJpp "007jpp.05jpp.0.09rc" = .ok "007jpp.05jpp.0.10rc" := by
  have line : '\n' ∉ ("007jpp.05jpp.0.09rc" : Text) := by decide
  have inner : '\n' ∉ ("0.09rc" : Text) := by decide
  have unmarked : ¬Marked "0.09rc" := by
    intro given
    obtain ⟨c, -, inside⟩ := marked_iff.mp given
    exact absurd (inside.subset (List.mem_cons_of_mem c List.mem_cons_self)) (by decide)
  have cut : CutAtLastMark "007jpp.05jpp.0.09rc" "007jpp.05jpp." "0.09rc" :=
    cutAtLastMark (x := "007jpp.0") (c := '5') (by decide) unmarked
  have bumped := (schemes_take_their_shapes "0.09rc" inner).2.2.2.1 (by decide) (by decide)
  refine ⟨line, cut, ?_⟩
  rw [(schemes_take_their_shapes _ line).2.2.2.2.2.2 _ _ cut, bumped]
  rfl

end LineRules.Release
