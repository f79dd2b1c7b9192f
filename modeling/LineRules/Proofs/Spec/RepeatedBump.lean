import LineRules.Proofs.Lines
import LineRules.Proofs.Release.Successive
import LineRules.Proofs.Spec.Bump

namespace LineRules.Spec

open Decimal

/-- What the rule for bumping finds in a line: the release that it captures, with the text before it
and the text behind it. -/
structure Recognised (line head release space : Text) : Prop where
  parts : line = head ++ release ++ space
  captured : ∃ found, (bumpableField.evaluate (some line)).report = .captures found ∧
    found.named? releaseName = some release ∧
    found.namedSpan? releaseName = some ⟨head.byteLength, (head ++ release).byteLength⟩

def Bumpable (line : Line) : Prop :=
  (bumpableField.evaluate (some line)).report.isHit = true

variable {form : FieldForm} {line h r w : Text}

theorem bumpable_of_releaseIn : Bumpable line ↔ ∃ found, releaseIn line = some found := by
  rw [Bumpable, evaluate_bumpableField]
  cases releaseIn line with
  | none => simp [Match.isHit]
  | some found => simp [Match.isHit]

theorem fits_of_releaseIn {found : Captures} (some : releaseIn line = .some found) :
    ¬("$Revision:" : Text) <:+: line ∧ ∃ form h r w, Fits form line h r w := by
  constructor
  · intro keyword
    rw [releaseIn_none (.inl keyword)] at some
    simp at some
  · by_contra unfit
    rw [releaseIn_none (.inr unfit)] at some
    simp at some

theorem recognised_of_fits (clear : ¬("$Revision:" : Text) <:+: line)
    (fits : Fits form line h r w) : Recognised line h r w := by
  obtain ⟨f, found⟩ := releaseIn_fits clear fits
  refine ⟨fits.parts, _, ?_, releaseFound_named f fits.parts⟩
  rw [evaluate_bumpableField, found]
  rfl

theorem recognised_iff :
    Recognised line h r w ↔
      ¬("$Revision:" : Text) <:+: line ∧ ∃ form, Fits form line h r w := by
  constructor
  · intro given
    obtain ⟨parts, found, report, named, span⟩ := given
    rw [evaluate_bumpableField] at report
    cases some : releaseIn line with
    | none => simp [some] at report
    | some c =>
      obtain rfl : c = found := by simpa [some] using report
      obtain ⟨clear, form, h', r', w', fits⟩ := fits_of_releaseIn some
      obtain ⟨f, same⟩ := releaseIn_fits clear fits
      obtain rfl := Option.some.inj (some.symm.trans same)
      obtain ⟨named', span'⟩ := releaseFound_named f fits.parts
      obtain rfl : r' = r := Option.some.inj (named'.symm.trans named)
      have start : h'.byteLength = h.byteLength :=
        congrArg Span.start (Option.some.inj (span'.symm.trans span))
      -- Both heads end at the same place of the line.
      have cut := Text.splitAt_append h' (r' ++ w')
      rw [start, ← List.append_assoc, ← fits.parts, parts, List.append_assoc,
        Text.splitAt_append, Option.some.injEq, Prod.mk.injEq] at cut
      obtain ⟨rfl, rest⟩ := cut
      obtain rfl := List.append_cancel_left rest
      exact ⟨clear, form, fits⟩
  · intro given
    obtain ⟨clear, form, fits⟩ := given
    exact recognised_of_fits clear fits

theorem bumpable_iff : Bumpable line ↔ ∃ h r w, Recognised line h r w := by
  rw [bumpable_of_releaseIn]
  constructor
  · intro given
    obtain ⟨found, some⟩ := given
    obtain ⟨clear, form, h, r, w, fits⟩ := fits_of_releaseIn some
    exact ⟨h, r, w, recognised_of_fits clear fits⟩
  · intro given
    obtain ⟨h, r, w, recognised⟩ := given
    obtain ⟨clear, form, fits⟩ := recognised_iff.mp recognised
    obtain ⟨f, found⟩ := releaseIn_fits clear fits
    exact ⟨_, found⟩

theorem ReleaseFirst.not_space (release : ReleaseFirst r w) : ¬r.AllSpace := by
  intro space
  obtain ⟨c, start, digit⟩ := release.starts
  have white := space c (List.mem_of_head? start)
  rw [digit_not_space digit] at white
  simp at white

theorem ReleaseFirst.increase_parts (release : ReleaseFirst r w) (rightmost : Bool) :
    ∃ P S n, Release.increase r rightmost = P ++ numeral n ++ S ∧
      ((∃ z, z ≠ [] ∧ AllDigits z ∧ r = P ++ z ++ S) ∨ P = r ++ "." ∧ S = []) := by
  obtain ⟨P, S, n, frame, origin⟩ :=
    Release.exists_frame rightmost release.oneLine release.not_space
  refine ⟨P, S, n + 1, frame.first, ?_⟩
  rcases origin with ⟨z, filled, digits, -, whole⟩ | ⟨behind, -, last⟩
  · exact .inl ⟨z, filled, digits, whole⟩
  · rw [Text.trimEnd_of_trimmed release.trimmed] at behind
    exact .inr ⟨behind, last⟩

theorem numeral_trimmed (n : Nat) (t : Text) : (t ++ numeral n).Trimmed := by
  intro c last
  exact digit_not_space (numeral_allDigits n c (Text.getLast?_mem_append last (numeral_ne_nil n)))

theorem ReleaseFirst.bumped (release : ReleaseFirst r w) (rightmost : Bool) :
    ReleaseFirst (Release.increase r rightmost) w := by
  obtain ⟨P, S, n, next, origin⟩ := release.increase_parts rightmost
  have digits := numeral_allDigits n
  have feed : '\n' ∉ numeral n := fun member => absurd (digits _ member) (by decide)
  obtain ⟨c, start, digit⟩ := release.starts
  have line := release.oneLine
  rw [next]
  rcases origin with ⟨z, filled, -, rfl⟩ | ⟨rfl, rfl⟩
  · simp only [List.mem_append, not_or] at line
    refine ⟨?_, by simp [line, feed], ?_, release.onlySpace⟩
    · cases P with
      | nil =>
        obtain ⟨x, rest, first⟩ := List.exists_cons_of_ne_nil (numeral_ne_nil n)
        exact ⟨x, by simp [first], digits x (by simp [first])⟩
      | cons x P => exact ⟨c, by simpa using start, digit⟩
    · by_cases empty : S = []
      · rw [empty, List.append_nil]
        exact numeral_trimmed n P
      · intro x last
        refine release.trimmed x ?_
        rw [List.getLast?_append_of_ne_nil _ empty] at last ⊢
        exact last
  · rw [List.append_nil]
    refine ⟨⟨c, ?_, digit⟩, ?_, numeral_trimmed n _, release.onlySpace⟩
    · simp [start]
    · simp [line, feed]

theorem Fits.bumped (fits : Fits form line h r w) (rightmost : Bool) :
    Fits form (h ++ Release.increase r rightmost ++ w) h (Release.increase r rightmost) w :=
  ⟨fits.toReleaseFirst.bumped rightmost, rfl, fits.isHead⟩

/-- No keyword comes about: the digits of the new numeral are no part of it. -/
theorem Fits.bumped_clear (fits : Fits form line h r w) (clear : ¬("$Revision:" : Text) <:+: line)
    (rightmost : Bool) :
    ¬("$Revision:" : Text) <:+: h ++ Release.increase r rightmost ++ w := by
  obtain ⟨P, S, n, next, origin⟩ := fits.toReleaseFirst.increase_parts rightmost
  have absent : ∀ c ∈ ("$Revision:" : Text), c ∉ numeral n := by
    have plain : NoDigit "$Revision:" := by decide
    exact fun c member within => plain c member (numeral_allDigits n c within)
  intro keyword
  apply clear
  rw [fits.parts]
  have seam : h ++ (P ++ numeral n ++ S) ++ w = h ++ P ++ numeral n ++ (S ++ w) := by simp
  rw [next, seam] at keyword
  rcases Text.infix_around (by decide) (numeral_ne_nil n) absent keyword with before | behind
  · rcases origin with ⟨z, -, -, rfl⟩ | ⟨rfl, rfl⟩
    · exact before.trans ⟨[], z ++ S ++ w, by simp⟩
    · rw [← List.append_assoc] at before
      have inside := Text.infix_left (c := ':') rfl (by decide) before
      exact inside.trans ⟨[], w, by simp⟩
  · rcases origin with ⟨z, -, -, rfl⟩ | ⟨rfl, rfl⟩
    · exact behind.trans ⟨h ++ P ++ z, [], by simp⟩
    · exact behind.trans ⟨h ++ r, [], by simp⟩

/-- A bumped line is recognised again, with the same text around the new release. -/
theorem Recognised.bumped (recognised : Recognised line h r w) (rightmost : Bool) :
    bumpedLine rightmost line = h ++ Release.increase r rightmost ++ w ∧
      Recognised (bumpedLine rightmost line) h (Release.increase r rightmost) w := by
  obtain ⟨clear, form, fits⟩ := recognised_iff.mp recognised
  have made : bumpedLine rightmost line = _ := bumpedLine_fits clear fits
  rw [made]
  exact ⟨rfl, recognised_of_fits (fits.bumped_clear clear rightmost) (fits.bumped rightmost)⟩

theorem Recognised.bumped_times (recognised : Recognised line h r w) (rightmost : Bool) (k : Nat) :
    (bumpedLine rightmost)^[k] line = h ++ (Release.increase · rightmost)^[k] r ++ w ∧
      Recognised ((bumpedLine rightmost)^[k] line) h ((Release.increase · rightmost)^[k] r) w := by
  induction k with
  | zero => exact ⟨recognised.parts, recognised⟩
  | succ k ih =>
    rw [Function.iterate_succ_apply', Function.iterate_succ_apply']
    exact ih.2.bumped rightmost

theorem bumpedLine_other {rightmost : Bool} (other : ¬Bumpable line) :
    bumpedLine rightmost line = line := by
  rw [bumpable_of_releaseIn] at other
  rw [bumpedLine]
  split
  · rfl
  · rename_i found some
    exact absurd ⟨found, some⟩ other

theorem bumpedLine_keeps (rightmost : Bool) (filled : line ≠ []) (oneFeed : line.OneFeed) :
    KeepsLine line (bumpedLine rightmost line) := by
  by_cases bumpable : Bumpable line
  · obtain ⟨h, r, w, recognised⟩ := bumpable_iff.mp bumpable
    obtain ⟨-, form, fits⟩ := recognised_iff.mp recognised
    have next := fits.toReleaseFirst.bumped rightmost
    have front : '\n' ∉ h := by
      rw [fits.parts, List.append_assoc] at oneFeed
      exact oneFeed.left (List.append_ne_nil_of_left_ne_nil fits.ne_nil w)
    rw [(recognised.bumped rightmost).1]
    rw [fits.parts] at oneFeed ⊢
    exact keepsLine_replace oneFeed front fits.oneLine next.oneLine
      (List.append_ne_nil_of_right_ne_nil h next.ne_nil)
  · rw [bumpedLine_other bumpable]
    exact .refl filled oneFeed

theorem bumpedLine_other_times {rightmost : Bool} (other : ¬Bumpable line) (k : Nat) :
    (bumpedLine rightmost)^[k] line = line :=
  Function.iterate_fixed (bumpedLine_other other) k

theorem bumpLines_times (options : Options) (k : Nat) (lines : List Line) :
    (bumpLines options)^[k] lines = lines.map (bumpedLine options.rightmost)^[k] := by
  induction k with
  | zero => simp
  | succ k ih =>
    rw [Function.iterate_succ_apply', ih, bumpLines_map, List.map_map, ← Function.iterate_succ']

/-- Passes of bumping compose: line by line, some passes are one pass that bumps every recognised
release as many times and keeps what stands around it. A bumped line is recognised by the same parts
around the bumped release, and no line starts or stops to be bumpable. -/
theorem bumps_compose (options : Options) (k : Nat) :
    ∃ bumped : Line → Line,
      (∀ lines, (bumpLines options)^[k] lines = lines.map bumped) ∧
      (∀ line head release space, Recognised line head release space →
        bumped line =
            head ++ (Release.increase · options.rightmost)^[k] release ++ space ∧
          Recognised (bumped line) head ((Release.increase · options.rightmost)^[k] release)
            space ∧
          space.AllSpace) ∧
      (∀ line, ¬Bumpable line → bumped line = line) ∧
      ∀ line, (Bumpable (bumped line) ↔ Bumpable line) ∧
        (Bumpable line ↔ ∃ head release space, Recognised line head release space) := by
  refine ⟨(bumpedLine options.rightmost)^[k], bumpLines_times options k, ?_, ?_, ?_⟩
  · intro line h r w recognised
    obtain ⟨made, again⟩ := recognised.bumped_times options.rightmost k
    obtain ⟨-, form, fits⟩ := recognised_iff.mp recognised
    exact ⟨made, again, fits.onlySpace⟩
  · exact fun line other => bumpedLine_other_times other k
  · intro line
    refine ⟨⟨?_, ?_⟩, bumpable_iff⟩
    · intro bumpable
      by_contra other
      rw [bumpedLine_other_times other] at bumpable
      exact other bumpable
    · intro bumpable
      obtain ⟨h, r, w, recognised⟩ := bumpable_iff.mp bumpable
      exact bumpable_iff.mpr ⟨h, _, w, (recognised.bumped_times options.rightmost k).2⟩

end LineRules.Spec
