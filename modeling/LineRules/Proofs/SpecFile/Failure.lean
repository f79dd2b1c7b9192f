import LineRules.Proofs.Release.Choice
import LineRules.Proofs.Spec.RepeatedBump
import LineRules.Proofs.SpecFile.Edits

namespace LineRules

namespace Spec

variable {line : Text}

theorem bumpedLine_eq_self (rightmost : Bool) :
    bumpedLine rightmost line = line ↔ ¬Bumpable line := by
  constructor
  · intro same bumpable
    obtain ⟨h, r, w, recognised⟩ := bumpable_iff.mp bumpable
    obtain ⟨-, form, fits⟩ := recognised_iff.mp recognised
    rw [(recognised.bumped rightmost).1, recognised.parts] at same
    exact Release.increase_ne rightmost fits.oneLine
      (List.append_cancel_left (List.append_cancel_right same))
  · exact bumpedLine_other

end Spec

namespace SpecFile

open Spec

variable {limit : Regex.Limit} {f : SpecFile} {e : Edit}

theorem orKept_error {done : Except SpecError (SpecFile × Metrics)} {why : SpecError}
    (failed : (f.orKept done).2 = .error why) : (f.orKept done).1 = f := by
  cases done with
  | error e => rfl
  | ok made => simp [orKept] at failed

theorem bumpRelease_error {entry email : Text} {rightmost : Bool} {date : Date} {why : SpecError}
    (failed : (f.bumpRelease limit entry email rightmost date).2 = .error why) :
    (f.bumpRelease limit entry email rightmost date).1 = (f.increaseRelease rightmost).1 ∧
      (f.increaseRelease rightmost).1.evr limit = .error why := by
  rcases bumpRelease_cases limit f entry email rightmost date with
    ⟨e, missing, fails⟩ | ⟨v, -, logs⟩
  · rw [fails] at failed ⊢
    obtain rfl := Except.error.inj failed
    exact ⟨rfl, missing⟩
  · simp [logs] at failed

theorem increaseRelease_same (f : SpecFile) (rightmost : Bool) :
    (f.increaseRelease rightmost).1.lines = f.lines ↔ ∀ line ∈ f.lines, ¬Bumpable line := by
  have pointwise := List.map_inj_left (f := bumpedLine rightmost) (g := id) (l := f.lines)
  rw [List.map_id] at pointwise
  rw [increaseRelease_lines, pointwise]
  exact forall₂_congr fun line _ => bumpedLine_eq_self rightmost

/-- An edit that fails leaves the file as it was, but for bumping the release and logging that: it
fails for the lack of a version or a release in the bumped file, and then leaves that one. So the
lines are as they were only if none of them holds a release to bump. -/
theorem failed_edit_keeps_file (limit : Regex.Limit) (f : SpecFile) (e : Edit) (why : SpecError)
    (failed : (f.attempt limit e).2 = .error why) :
    ((∀ entry email rightmost date, e ≠ .bumpRelease entry email rightmost date) →
        (f.attempt limit e).1 = f) ∧
      ∀ entry email rightmost date, e = .bumpRelease entry email rightmost date →
        (f.attempt limit e).1 = (f.increaseRelease rightmost).1 ∧
          (why = .missingTag "Version" ∨ why = .missingTag "Release") ∧
          ((f.attempt limit e).1.lines = f.lines ↔ ∀ line ∈ f.lines, ¬Bumpable line) := by
  constructor
  · intro other
    cases e with
    | bumpRelease entry email rightmost date => exact absurd rfl (other entry email rightmost date)
    | setVersion | setTag | setMacro | setAlphatag | increaseRelease | addChangelog =>
      exact orKept_error failed
  · rintro entry email rightmost date rfl
    obtain ⟨left, missing⟩ := bumpRelease_error failed
    refine ⟨left, ?_, ?_⟩
    · exact (evr_error missing).imp And.right And.right
    · rw [attempt, left]
      exact increaseRelease_same f rightmost

theorem bump_without_release_tag :
    let f := ofText "a.spec" "Version: 1\n%define release 2\n"
    let done := f.attempt .standard (.bumpRelease "Fix" "dev" true ⟨2013, 2, 12⟩)
    done.2 = .error (.missingTag "Release") ∧
      done.1.lines = [("Version: 1\n" : Text), ("%define release 2.1\n" : Text)] := by
  intro f done
  have lines : (f.increaseRelease true).1.lines =
      [("Version: 1\n" : Text), ("%define release 2.1\n" : Text)] := by
    decide +kernel
  have missing : (f.increaseRelease true).1.evr .standard = .error (.missingTag "Release") := by
    have version : (f.increaseRelease true).1.version .standard = .ok "1" :=
      version_ok.mpr (by decide +kernel)
    rw [evr_bind, version, release_missing (by decide +kernel)]
    rfl
  have failed : done.2 = .error (.missingTag "Release") :=
    congrArg Prod.snd (bumpRelease_missing missing)
  obtain ⟨left, -, -⟩ := (failed_edit_keeps_file .standard f _ _ failed).2 _ _ _ _ rfl
  exact ⟨failed, left ▸ lines⟩

/-- A file without a version is bumped all the same, although the edit fails. -/
theorem failed_bump_stays_bumped :
    let f := ofText "a.spec" "Release: 3\n"
    f.attempt .standard (.bumpRelease "Fix" "dev" false ⟨2013, 2, 12⟩) =
        (⟨"a.spec", [("Release: 4\n" : Text)]⟩, .error (.missingTag "Version")) ∧
      f.lines = [("Release: 3\n" : Text)] := by
  intro f
  have bumped : (f.increaseRelease false).1 = ⟨"a.spec", [("Release: 4\n" : Text)]⟩ := by
    decide +kernel
  have missing : (f.increaseRelease false).1.evr .standard = .error (.missingTag "Version") := by
    rw [evr_bind, bumped, version_missing (by decide +kernel)]
    rfl
  refine ⟨?_, by decide +kernel⟩
  rw [← bumped]
  exact bumpRelease_missing missing

end SpecFile

end LineRules
