import LineRules.Proofs.Spec.RepeatedBump
import LineRules.Proofs.SpecFile.Edits

/-!
The release tag as the rule for bumping sees it and as the reader of tags sees it. The rule allows
blanks between the name and the colon; the reader does not. Where the colon follows the name, both
find the same release, and the reader finds the new release after a bump; where blanks stand before
it, the rule bumps a line that the reader does not take for a release tag.
-/
namespace LineRules

namespace Spec

open Decimal

def TakenAsTag (line : Line) : Prop :=
  ∃ p ∈ releaseFields.head?, (p.evaluate (some line)).report.isHit = true

def ColonBehindName (head : Text) : Prop :=
  ∃ name space, SameFold name "Release" ∧ Blanks space ∧ head = name ++ (":" ++ space)

variable {name line h r w : Text}

theorem fits_of_takenAsTag (recognised : Recognised line h r w) (taken : TakenAsTag line) :
    Fits .tag line h r w := by
  obtain ⟨p, first, hit⟩ := taken
  obtain rfl : .regex (formMatcher .tag) = p := Option.some.inj first
  have found : (formMatcher .tag).find? line ≠ none := by
    intro none
    rw [evaluate_regex, none] at hit
    exact absurd hit (by decide)
  obtain ⟨h', r', w', fits⟩ := fits_of_find found
  obtain ⟨-, form, too⟩ := recognised_iff.mp recognised
  obtain ⟨rfl, rfl, rfl, rfl⟩ := fits_unique fits too
  exact fits

theorem prefix_before_digit {p t : Text} (plain : NoDigit p)
    (start : ∃ c, t.head? = some c ∧ IsDigit c) (front : p <+: h ++ t) : p <+: h := by
  rcases List.prefix_or_prefix_of_prefix front (List.prefix_append h t) with inside | ⟨z, rfl⟩
  · exact inside
  · cases z with
    | nil => simp
    | cons x z =>
      obtain ⟨c, first, digit⟩ := start
      obtain ⟨rest, rfl⟩ := (List.prefix_append_right_inj h).mp front
      obtain rfl : x = c := by simpa using first
      exact absurd digit (plain x (by simp))

theorem noDigit_releaseKey {key : Text} (named : SameFold key "Release") :
    NoDigit (key ++ (":" : Text)) :=
  noDigit_append (noDigit_sameFold named (by decide +kernel)) (by decide)

theorem startsTag_before_digit {t : Text} (start : ∃ c, t.head? = some c ∧ IsDigit c) :
    StartsTag "Release" (h ++ t) ↔ StartsTag "Release" h := by
  constructor
  · intro given
    obtain ⟨key, named, front⟩ := given
    exact ⟨key, named, prefix_before_digit (noDigit_releaseKey named) start front⟩
  · intro given
    obtain ⟨key, named, front⟩ := given
    exact ⟨key, named, front.trans (List.prefix_append h t)⟩

theorem startsTag_head (fits : Fits .tag line h r w) :
    StartsTag "Release" line ↔ ColonBehindName h := by
  rw [fits.parts, List.append_assoc, startsTag_before_digit fits.starts_text]
  constructor
  · intro given
    obtain ⟨key, named, rest, same⟩ := given
    obtain ⟨label, gap, space, labelled, blank, blankToo, rfl⟩ := fits.isHead
    -- Names of one tag have one length, so the colon is compared with what follows the name.
    have length : key.length = label.length := by
      have folded := congrArg List.length (named.trans labelled.symm)
      simpa using folded
    rw [List.append_assoc] at same
    obtain ⟨rfl, behind⟩ := List.append_inj same length
    cases gap with
    | nil => exact ⟨key, space, named, blankToo, rfl⟩
    | cons c gap =>
      obtain ⟨colon, -⟩ := List.cons.inj behind
      exact absurd (blank c List.mem_cons_self) (by rw [← colon]; decide)
  · intro given
    obtain ⟨label, space, named, -, rfl⟩ := given
    exact ⟨label, named, space, List.append_assoc ..⟩

/-- Where the colon follows the name, the value without the white space behind it is the release. -/
theorem valueIn_release (fits : Fits .tag line h r w) (oneFeed : line.OneFeed)
    (colon : ColonBehindName h) :
    (valueIn? "Release" line).map Text.trimEnd = some r := by
  obtain ⟨label, space, named, blank, rfl⟩ := colon
  have parts := fits.parts
  have left : Text.OneFeed (r ++ w) := by
    rw [parts, List.append_assoc] at oneFeed
    exact oneFeed.right
  obtain ⟨value, cr, lf, whole, ends⟩ := exists_value left
  have behind : ValueBehind space value cr lf := by
    refine ⟨ends, blank, fun c start blankToo => ?_⟩
    obtain ⟨d, first, digit⟩ := fits.starts_text
    rw [whole, List.head?_append, start, Option.some_or, Option.some.injEq] at first
    rcases blankToo with rfl | rfl
    · exact absurd (first ▸ digit) (by decide)
    · exact absurd (first ▸ digit) (by decide)
  have tagLine : TagLine "Release" line label space value cr lf := by
    refine ⟨behind, ?_, named⟩
    rw [← whole, parts]
    simp
  rw [valueIn_tag tagLine oneFeed, Option.map_some, ← Text.trimEnd_append ends.allSpace, ← whole,
    Text.trimEnd_append fits.onlySpace, Text.trimEnd_of_trimmed fits.trimmed]

theorem startsTag_bumped (rightmost : Bool) :
    StartsTag "Release" (bumpedLine rightmost line) ↔ StartsTag "Release" line := by
  by_cases bumpable : Bumpable line
  · obtain ⟨h, r, w, recognised⟩ := bumpable_iff.mp bumpable
    obtain ⟨-, form, fits⟩ := recognised_iff.mp recognised
    have next := fits.bumped rightmost
    rw [(recognised.bumped rightmost).1, fits.parts, List.append_assoc, List.append_assoc,
      startsTag_before_digit next.starts_text, startsTag_before_digit fits.starts_text]
  · rw [bumpedLine_other bumpable]

theorem valueIn_bumped_none (filled : line ≠ []) (oneFeed : line.OneFeed)
    (none : valueIn? "Release" line = .none) (rightmost : Bool) :
    valueIn? "Release" (bumpedLine rightmost line) = .none := by
  apply (valueIn_eq_none (bumpedLine_keeps rightmost filled oneFeed).oneFeed).mpr
  rw [startsTag_bumped]
  exact (valueIn_eq_none oneFeed).mp none

end Spec

namespace SpecFile

open Spec

variable {limit : Regex.Limit}

theorem release_after_bump (limit : Regex.Limit) {f : SpecFile} {before after : List Line}
    {line h r w : Text}
    (whole : f.lines = before ++ line :: after) (lines : LinesOfText f.lines)
    (first : ∀ l ∈ before, valueIn? "Release" l = none) (colon : ColonBehindName h)
    (fits : Fits .tag line h r w) (recognised : Recognised line h r w) (rightmost : Bool) :
    (f.increaseRelease rightmost).1.release limit = .ok (Release.increase r rightmost) := by
  rw [whole] at lines
  have inside : line ∈ before ++ line :: after := by simp
  have here := lines.oneFeed line inside
  have missed : (before.map (bumpedLine rightmost)).findSome?
      (fun l => (valueIn? "Release" l).map Text.trimEnd) = none := by
    apply List.findSome?_eq_none_iff.mpr
    intro l member
    obtain ⟨l, given, rfl⟩ := List.mem_map.mp member
    have early : l ∈ before ++ line :: after := List.mem_append_left _ given
    rw [valueIn_bumped_none (lines.filled l early) (lines.oneFeed l early) (first l given)]
    rfl
  have found : (valueIn? "Release" (bumpedLine rightmost line)).map Text.trimEnd =
      some (Release.increase r rightmost) := by
    have next := fits.bumped rightmost
    rw [← (recognised.bumped rightmost).1] at next
    have keeps := bumpedLine_keeps rightmost (lines.filled line inside) here
    exact valueIn_release next keeps.oneFeed colon
  apply release_ok.mpr
  rw [readTag, increaseRelease_lines, whole, List.map_append, List.map_cons,
    List.findSome?_append, missed, Option.none_or, List.findSome?_cons, found]

theorem bumpRelease_not_missing {f : SpecFile} {r : Text} (entry email : Text) (rightmost : Bool)
    (date : Date) (found : (f.increaseRelease rightmost).1.release limit = .ok r) :
    (f.bumpRelease limit entry email rightmost date).2 ≠ .error (.missingTag "Release") := by
  rcases bumpRelease_cases limit f entry email rightmost date with
    ⟨e, refused, fails⟩ | ⟨v, -, logs⟩
  · rcases evr_error refused with ⟨-, rfl⟩ | ⟨missing, -⟩
    · simp [fails]
    · simp [found] at missing
  · simp [logs]

/-- On a line that is bumped as a tag the reader finds the release if the colon follows the name,
and nothing if blanks stand before it. Where it is the first line that gives the reader a release,
the reader finds the bumped release in the bumped file, and bumping is not refused for the lack of
one. -/
theorem reader_finds_bumped_release (limit : Regex.Limit) (line head release space : Text)
    (oneFeed : line.OneFeed) (recognised : Recognised line head release space)
    (taken : TakenAsTag line) :
    ∃ p, tag limit "Release" = .ok p ∧
      (ColonBehindName head →
        (capturedValue? p line).map Text.trimEnd = some release ∧
          ∀ (path : String) (text : Text) (rightmost : Bool) (before after : List Line),
            (ofText path text).lines = before ++ line :: after →
            (∀ l ∈ before, capturedValue? p l = none) →
            ((ofText path text).increaseRelease rightmost).1.release limit =
                .ok (Release.increase release rightmost) ∧
              ∀ entry email date,
                ((ofText path text).bumpRelease limit entry email rightmost date).2 ≠
                  .error (.missingTag "Release")) ∧
      (¬ColonBehindName head → capturedValue? p line = none) := by
  have fits := fits_of_takenAsTag recognised taken
  obtain ⟨p, accepted⟩ := release_accepted limit
  refine ⟨p, accepted, ?_, ?_⟩
  · intro colon
    rw [capturedValue_tag accepted]
    refine ⟨valueIn_release fits oneFeed colon, ?_⟩
    intro path text rightmost before after whole first
    have found := release_after_bump limit whole (Text.linesOfText_lines text) first
      colon fits recognised rightmost
    exact ⟨found, fun entry email date => bumpRelease_not_missing entry email rightmost date found⟩
  · intro other
    rw [capturedValue_tag accepted, valueIn_eq_none oneFeed, startsTag_head fits]
    exact other

theorem fits_three (gap : Text) (blank : Blanks gap) :
    Fits .tag ("Release" ++ (gap ++ ": ") ++ "3" ++ "\n") ("Release" ++ (gap ++ ": ")) "3"
      "\n" := by
  refine ⟨⟨⟨'3', rfl, by decide⟩, by decide, ?_, by decide⟩, rfl, ?_⟩
  · intro c last
    obtain rfl : '3' = c := by simpa using last
    decide
  · exact ⟨"Release", gap, " ", rfl, blank, by decide, rfl⟩

theorem first_of_two_tags_read :
    let f := ofText "a.spec" "Release: 3\nrelease:\t5\n"
    (f.increaseRelease false).1.release .standard = .ok "4" ∧
      (f.bumpRelease .standard "Fix" "dev" false ⟨2013, 2, 12⟩).2 ≠
        .error (.missingTag "Release") := by
  intro f
  have fits := fits_three [] (by decide)
  have recognised := recognised_of_fits (by decide +kernel) fits
  have colon : ColonBehindName (("Release" : Text) ++ ([] ++ (": " : Text))) :=
    ⟨"Release", " ", rfl, by decide, rfl⟩
  obtain ⟨p, -, reads, -⟩ := reader_finds_bumped_release .standard "Release: 3\n" _ _ _ (by decide)
    recognised ⟨_, rfl, by decide +kernel⟩
  obtain ⟨found, refused⟩ := (reads colon).2 "a.spec" "Release: 3\nrelease:\t5\n" false []
    [("release:\t5\n" : Text)] (by decide +kernel) (by simp)
  refine ⟨found.trans (congrArg _ ?_), refused "Fix" "dev" ⟨2013, 2, 12⟩⟩
  decide +kernel

/-- A tag with a blank before its colon is bumped, but the reader does not find it, and bumping the
file fails half done. -/
theorem blank_hides_bumped_release :
    Recognised "Release : 3\n" "Release : " "3" "\n" ∧ TakenAsTag "Release : 3\n" ∧
      (∃ p, tag .standard "Release" = .ok p ∧ capturedValue? p "Release : 3\n" = none) ∧
      (ofText "a.spec" "Version: 1\nRelease : 3\n").bumpRelease .standard "Fix" "dev" false
          ⟨2013, 2, 12⟩ =
        (⟨"a.spec", [("Version: 1\n" : Text), ("Release : 4\n" : Text)]⟩,
          .error (.missingTag "Release")) := by
  have recognised := recognised_of_fits (by decide +kernel) (fits_three " " (by decide))
  obtain ⟨p, accepted⟩ := release_accepted .standard
  refine ⟨recognised, ⟨_, rfl, by decide +kernel⟩, ⟨p, accepted, ?_⟩, ?_⟩
  · rw [capturedValue_tag accepted]
    decide +kernel
  · have bumped : ((ofText "a.spec" "Version: 1\nRelease : 3\n").increaseRelease false).1 =
        ⟨"a.spec", [("Version: 1\n" : Text), ("Release : 4\n" : Text)]⟩ := by
      decide +kernel
    rw [← bumped]
    apply bumpRelease_missing
    have version : ((ofText "a.spec" "Version: 1\nRelease : 3\n").increaseRelease
        false).1.version .standard = .ok "1" :=
      version_ok.mpr (by decide +kernel)
    rw [evr_bind, version, release_missing (by decide +kernel)]
    rfl

end SpecFile

end LineRules
