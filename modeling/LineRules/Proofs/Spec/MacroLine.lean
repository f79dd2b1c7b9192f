import LineRules.Proofs.Spec.ValueField

namespace LineRules.Spec

open Regex

variable {name line gap space value cr lf : Text}

/-- The way that the rule prefers: no other one has a longer gap. -/
structure PreferredMacroLine (name line gap space value cr lf : Text) : Prop
    extends MacroLine name line gap space value cr lf where
  longest : ∀ {gap' space' value' cr' lf'}, MacroLine name line gap' space' value' cr' lf' →
    gap'.length ≤ gap.length

theorem MacroLine.gap_le (macroLine : MacroLine name line gap space value cr lf) :
    gap.length ≤ line.length := by
  rw [macroLine.parts]
  simp only [List.length_append]
  omega

theorem MacroLine.exists_preferred (macroLine : MacroLine name line gap space value cr lf) :
    ∃ gap space value cr lf, PreferredMacroLine name line gap space value cr lf := by
  -- A longer gap leaves less of the line, so going on to longer ones comes to an end.
  induction left : line.length - gap.length using Nat.strongRecOn generalizing
    gap space value cr lf with
  | ind n ih =>
    by_cases longer : ∃ gap' space' value' cr' lf',
        MacroLine name line gap' space' value' cr' lf' ∧ gap.length < gap'.length
    · obtain ⟨gap', space', value', cr', lf', other, more⟩ := longer
      have bound := other.gap_le
      exact ih (line.length - gap'.length) (by omega) other rfl
    · refine ⟨gap, space, value, cr, lf, macroLine, fun other => ?_⟩
      by_contra more
      exact longer ⟨_, _, _, _, _, other, by omega⟩

theorem MacroLine.blanks_gap (macroLine : MacroLine name line gap space value cr lf) :
    ∀ c ∈ gap, CharSet.blank.mem c = true :=
  fun c member => CharSet.mem_blank.mpr (macroLine.gapped.1 c member)

theorem find_macroLine_none (oneFeed : line.OneFeed)
    (absent : ∀ gap space value cr lf, ¬MacroLine name line gap space value cr lf) :
    (macroMatcher name).find? line = none := by
  rw [find_macroMatcher oneFeed]
  cases goes : (all (macroParts name)).first (.between [] line []) some with
  | none => rfl
  | some d =>
    obtain ⟨gap, space, value, cr, lf, macroLine, -⟩ := macroLine_of_first oneFeed goes
    exact absurd macroLine (absent gap space value cr lf)

theorem find_macroLine (preferred : PreferredMacroLine name line gap space value cr lf)
    (oneFeed : line.OneFeed) :
    (macroMatcher name).find? line =
      some ((macroMatcher name).captured line 0 (macroFound name gap space value cr lf)) := by
  have way : (all (macroParts name)).first (.between [] line []) some =
      some (macroFound name gap space value cr lf) := by
    rw [preferred.parts] at oneFeed
    rw [preferred.parts, macroParts, first_all_cons, first_text, first_all_cons]
    apply first_many1_longest preferred.gapped.2 preferred.blanks_gap
    · rw [first_all_cons, first_group, first_text, Cursor.between_record,
        first_blanks1_value preferred.toValueBehind, if_neg preferred.spaced]
      rfl
    · intro w rest whole filled blank
      -- What can be completed behind a longer gap would be a way with that gap.
      by_contra completed
      obtain ⟨d, goes⟩ := Option.ne_none_iff_exists'.mp completed
      have later : Text.OneFeed rest := by
        have behind := oneFeed.right.right
        rw [whole] at behind
        exact behind.right
      obtain ⟨space', value', cr', lf', rfl, behind, spaced, -⟩ := first_behind_gap later goes
      have other : MacroLine name line (gap ++ w) space' value' cr' lf' := by
        refine ⟨behind, ?_, ⟨?_, ?_⟩, spaced⟩
        · rw [preferred.parts, whole, List.append_assoc]
        · intro c member
          rcases List.mem_append.mp member with first | second
          · exact preferred.gapped.1 c first
          · exact CharSet.mem_blank.mp (blank c second)
        · exact List.append_ne_nil_of_right_ne_nil gap filled
      have longest := preferred.longest other
      rw [List.length_append] at longest
      exact filled (List.length_eq_zero_iff.mp (by omega))
  rw [find_macroMatcher oneFeed, way]
  rfl

theorem withValueIn_preferred (preferred : PreferredMacroLine name line gap space value cr lf)
    (oneFeed : line.OneFeed) (other : Text) :
    withValueIn (macroMatcher name) other line =
      "%global" ++ (gap ++ (name ++ (space ++ (other ++ (cr ++ lf))))) :=
  withValueIn_macroFound preferred.toMacroLine (find_macroLine preferred oneFeed) other

theorem withValueIn_no_macroLine (oneFeed : line.OneFeed)
    (absent : ∀ gap space value cr lf, ¬MacroLine name line gap space value cr lf)
    (other : Text) : withValueIn (macroMatcher name) other line = line := by
  rw [withValueIn, find_macroLine_none oneFeed absent]

end LineRules.Spec
