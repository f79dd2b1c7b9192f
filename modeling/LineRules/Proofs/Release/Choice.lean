import LineRules.Proofs.Release.Successive
import Mathlib.Order.Nat

namespace LineRules

namespace Text

def FirstAt (part : Text) (n : Nat) (t : Text) : Prop :=
  part <+: t.drop n ∧ ∀ m < n, ¬part <+: t.drop m

theorem exists_firstAt {part t : Text} : (∃ n, FirstAt part n t) ↔ part <:+: t := by
  constructor
  · intro given
    obtain ⟨n, here, -⟩ := given
    exact here.isInfix.trans (List.drop_suffix n t).isInfix
  · intro inside
    obtain ⟨a, b, rfl⟩ := inside
    have somewhere : ∃ n, part <+: (a ++ part ++ b).drop n :=
      ⟨a.length, by rw [List.append_assoc, List.drop_left]; exact List.prefix_append part b⟩
    classical
    exact ⟨Nat.find somewhere, Nat.find_spec somewhere, fun m less => Nat.find_min somewhere less⟩

theorem firstAt_zero {part t : Text} : FirstAt part 0 t ↔ part <+: t := by
  simp [FirstAt]

theorem FirstAt.unique {part t : Text} {m n : Nat} (one : FirstAt part m t)
    (other : FirstAt part n t) : m = n := by
  rcases Nat.lt_trichotomy m n with less | same | more
  · exact absurd one.1 (other.2 m less)
  · exact same
  · exact absurd other.1 (one.2 n more)

end Text

namespace Release

open Decimal

theorem mentionsJpp_firstAt {r : Text} :
    mentionsJpp r = true ↔ ∃ n, 0 < n ∧ Text.FirstAt "jpp" n r := by
  rw [mentionsJpp_iff, ← Text.exists_firstAt, ← Text.firstAt_zero]
  constructor
  · intro given
    obtain ⟨⟨n, first⟩, later⟩ := given
    exact ⟨n, Nat.pos_of_ne_zero fun zero => later (zero ▸ first), first⟩
  · intro given
    obtain ⟨n, positive, first⟩ := given
    exact ⟨⟨n, first⟩, fun start => absurd (first.unique start) (Nat.ne_of_gt positive)⟩

theorem increase_scheme (r : Text) :
    increase r false = (scheme r).toOption.getD (increaseFallback r) := by
  cases asked : scheme r with
  | ok b => exact increase_of_ok asked
  | error e => exact increase_of_error asked

theorem fallback_space {r : Text} (line : '\n' ∉ r) (space : r.AllSpace) :
    increaseFallback r = ".1" := by
  have other : ¬Dotted r := by
    intro given
    obtain ⟨x, d, -, -, -, rfl⟩ := given
    exact dot_not_space space (List.mem_append_right x List.mem_cons_self)
  rw [increaseFallback_other other line, Text.trimEnd_eq_nil.mpr space, List.nil_append]

theorem scheme_space {r : Text} (line : '\n' ∉ r) (space : r.AllSpace) :
    ∃ e, scheme r = .error e := by
  have plain : ¬mentionsJpp r = true := by
    intro mentions
    obtain ⟨inside, -⟩ := mentionsJpp_iff.mp mentions
    exact absurd (space 'j' (inside.subset (by decide))) (by decide)
  have other : ¬("0." : Text) <+: r := fun start =>
    dot_not_space space (start.subset (by decide))
  rw [scheme, if_neg plain]
  apply (increaseMain_refuses line).mpr
  left
  rw [afterMark_other other]
  exact leadingDigits_of_head fun c => ending_head (.inr space)

theorem increase_space {r : Text} (rightmost : Bool) (line : '\n' ∉ r) (space : r.AllSpace) :
    increase r rightmost = ".1" := by
  cases rightmost with
  | true => exact fallback_space line space
  | false =>
    obtain ⟨e, error⟩ := scheme_space line space
    exact (increase_of_error error).trans (fallback_space line space)

theorem increase_ne {r : Text} (rightmost : Bool) (line : '\n' ∉ r) :
    increase r rightmost ≠ r := by
  intro same
  by_cases space : r.AllSpace
  · rw [increase_space rightmost line space] at same
    exact absurd (space '1' (same ▸ by decide)) (by decide)
  · obtain ⟨P, S, n, frame, origin⟩ := exists_frame rightmost line space
    rw [frame.first] at same
    rcases origin with ⟨z, -, -, rfl, rfl⟩ | ⟨rfl, -, rfl⟩
    · -- The same texts stand around both numerals, whose values differ.
      have numeral : Decimal.numeral (value z + 1) = z :=
        List.append_cancel_left (List.append_cancel_right same)
      have next := value_numeral (value z + 1)
      rw [numeral] at next
      omega
    · -- Behind the trimmed part stands only white space, and no dot.
      obtain ⟨w, white, whole⟩ := r.trimEnd_add_space
      have tail : ("." : Text) ++ Decimal.numeral (n + 1) = w := by
        rw [List.append_nil, List.append_assoc] at same
        exact List.append_cancel_left (same.trans whole)
      exact dot_not_space white (tail ▸ List.mem_cons_self)

/-- Without line feeds, a release is bumped by the fallback where the rightmost numeral is asked for.
Otherwise the scheme for `jpp` releases is asked if `jpp` first occurs behind the start, and the
main scheme if not, and the fallback takes what they refuse. The fallback advances the digits behind
the last dot, if something stands before the dot and nothing but digits behind it, and appends a
numeral otherwise. No bump gives the release back. -/
theorem bump_by_scheme_or_fallback (r : Text) (line : '\n' ∉ r) :
    (∀ x d, x ≠ [] → d ≠ [] → AllDigits d → r = x ++ '.' :: d →
      increaseFallback r = x ++ '.' :: Decimal.numeral (value d + 1)) ∧
    ((¬∃ x d, x ≠ [] ∧ d ≠ [] ∧ AllDigits d ∧ r = x ++ '.' :: d) →
      increaseFallback r = r.trimEnd ++ ".1") ∧
    increase r true = increaseFallback r ∧
    ((∃ n, 0 < n ∧ Text.FirstAt "jpp" n r) →
      increase r false = (increaseJpp r).toOption.getD (increaseFallback r)) ∧
    ((¬∃ n, 0 < n ∧ Text.FirstAt "jpp" n r) →
      increase r false = (increaseMain r).toOption.getD (increaseFallback r)) ∧
    ∀ rightmost, increase r rightmost ≠ r := by
  refine ⟨?_, fun other => increaseFallback_other other line, rfl, ?_, ?_,
    fun rightmost => increase_ne rightmost line⟩
  · intro x d start filled digits whole
    rw [whole] at line ⊢
    exact increaseFallback_dotted start filled digits line
  · intro mentions
    rw [increase_scheme, scheme, if_pos (mentionsJpp_firstAt.mpr mentions)]
  · intro plain
    rw [increase_scheme, scheme, if_neg (mt mentionsJpp_firstAt.mp plain)]

theorem late_mark_left_to_fallback :
    '\n' ∉ ("jpp1jpp.2" : Text) ∧ increaseFallback "jpp1jpp.2" = "jpp1jpp.3" ∧
      increase "jpp1jpp.2" false =
        (increaseMain "jpp1jpp.2").toOption.getD (increaseFallback "jpp1jpp.2") ∧
      increase "jpp1jpp.2" false ≠ "jpp1jpp.2" := by
  have line : '\n' ∉ ("jpp1jpp.2" : Text) := by decide
  obtain ⟨dotted, -, -, -, plain, differs⟩ := bump_by_scheme_or_fallback "jpp1jpp.2" line
  refine ⟨line, ?_, plain ?_, differs false⟩
  · exact dotted "jpp1jpp" "2" (by decide) (by decide) (by decide) rfl
  · intro given
    obtain ⟨n, positive, first⟩ := given
    have start : Text.FirstAt "jpp" 0 "jpp1jpp.2" := Text.firstAt_zero.mpr (by decide)
    exact absurd (first.unique start) (Nat.ne_of_gt positive)

end Release
end LineRules
