import LineRules.Cli.Session
import LineRules.Proofs.Spec.LastWrite
import LineRules.Proofs.Spec.RepeatedBump
import LineRules.Proofs.Spec.StackedEntries
import LineRules.Proofs.SpecFile.Edits
import Mathlib.Dynamics.PeriodicPts.Lemmas

/-!
What a report says of the changes. It looks for lines that only one of the two texts holds, and does
not look at their order or how often they stand there. Edits that rewrite lines are never hidden by
that: to leave the same lines they would have to move them in a circle, and a value that is set stays,
while the numeral of a release only grows. Entries of the changelog can be hidden, as those are that
the file has already.
-/
namespace LineRules.Cli.Report

open Spec

def unchanged (colored : Bool) : Text :=
  row (paint colored .dim "  No lines changed")

section Rows

variable {colored : Bool} {before after : List Line}

theorem removed_eq_nil : removed before after = [] ↔ ∀ l ∈ before, l ∈ after := by
  simp [removed]

theorem row_ne_unchanged {style : Style} {mark : Text} (marks : mark = "- " ∨ mark = "+ ")
    (t rest : Text) :
    row ("  " ++ paint colored style (mark ++ t)) ++ rest ≠ unchanged colored := by
  intro same
  cases colored with
  | true =>
    have first : some ' ' = some '\x1b' := congrArg List.head? same
    simp at first
  | false =>
    have third := congrArg (fun t : Text => t[2]?) same
    rcases marks with rfl | rfl
    · have sign : some '-' = some 'N' := third
      simp at sign
    · have sign : some '+' = some 'N' := third
      simp at sign

theorem changes_unchanged_iff (colored : Bool) (before after : List Line) :
    changes colored before after = unchanged colored ↔ ∀ l, l ∈ before ↔ l ∈ after := by
  have same : (∀ l, l ∈ before ↔ l ∈ after) ↔ removed before after = [] ∧ added before after = [] := by
    rw [added, removed_eq_nil, removed_eq_nil]
    exact ⟨fun given => ⟨fun l => (given l).mp, fun l => (given l).mpr⟩,
      fun given l => ⟨given.1 l, given.2 l⟩⟩
  rw [same]
  unfold changes
  cases gone : removed before after with
  | nil =>
    cases new : added before after with
    | nil => exact ⟨fun _ => ⟨rfl, rfl⟩, fun _ => rfl⟩
    | cons l rest =>
      constructor
      · intro told
        exact absurd told (row_ne_unchanged (.inr rfl) _ _)
      · intro none
        simp at none
  | cons l rest =>
    constructor
    · intro told
      simp only [List.isEmpty_cons, Bool.false_and, Bool.false_eq_true, if_false, List.map_cons,
        List.flatten_cons, List.append_assoc] at told
      exact absurd told (row_ne_unchanged (.inl rfl) _ _)
    · intro none
      simp at none

end Rows

section Circles

variable {g : Line → Line} {lines : List Line}

/-- A rewriting that leaves the same lines moves each of them in a circle. -/
theorem returns_of_same_lines (same : ∀ l, l ∈ lines ↔ l ∈ lines.map g) {l : Line}
    (member : l ∈ lines) : ∃ k, g^[k + 1] l = l := by
  let moved : {l // l ∈ lines} → {l // l ∈ lines} :=
    fun x => ⟨g x, (same _).mpr (List.mem_map_of_mem x.2)⟩
  have onto : Function.Surjective moved := by
    intro y
    obtain ⟨x, inside, made⟩ := List.mem_map.mp ((same y).mp y.2)
    exact ⟨⟨x, inside⟩, Subtype.ext made⟩
  have finite : Finite {l // l ∈ lines} := (List.finite_toSet lines).to_subtype
  have apart : Function.Injective moved := Finite.injective_iff_surjective.mpr onto
  obtain ⟨n, positive, circle⟩ := apart.mem_periodicPts ⟨l, member⟩
  have steps : Function.Semiconj Subtype.val moved g := fun _ => rfl
  have back : g^[n] l = l := by
    rw [← (steps.iterate_right n).eq ⟨l, member⟩, circle]
  obtain ⟨k, rfl⟩ := Nat.exists_eq_add_of_le' positive
  exact ⟨k, back⟩

theorem same_lines_iff (settles : ∀ l ∈ lines, ∀ k, g^[k + 1] l = l → g l = l) :
    (∀ l, l ∈ lines ↔ l ∈ lines.map g) ↔ lines.map g = lines := by
  constructor
  · intro same
    have fixed : ∀ l ∈ lines, g l = l := by
      intro l member
      obtain ⟨k, circle⟩ := returns_of_same_lines same member
      exact settles l member k circle
    exact (List.map_congr_left fixed).trans (List.map_id' lines)
  · intro still l
    rw [still]

theorem settles_of_twice {l : Line} (twice : g (g l) = g l) (k : Nat) (circle : g^[k + 1] l = l) :
    g l = l := by
  have stays : g^[k + 1] l = g l := by
    rw [Function.iterate_succ_apply]
    exact Function.iterate_fixed twice k
  exact stays.symm.trans circle

/-- A release does not come back, for it has a numeral that grows with every bump. -/
theorem bumped_settles (rightmost : Bool) (l : Line) (k : Nat)
    (circle : (bumpedLine rightmost)^[k + 1] l = l) : bumpedLine rightmost l = l := by
  by_cases bumpable : Bumpable l
  · obtain ⟨h, r, w, recognised⟩ := bumpable_iff.mp bumpable
    obtain ⟨clear, form, fits⟩ := recognised_iff.mp recognised
    obtain ⟨P, S, n, frame, -⟩ :=
      Release.exists_frame rightmost fits.oneLine fits.toReleaseFirst.not_space
    have made := (recognised.bumped_times rightmost (k + 1)).1
    rw [circle, recognised.parts, List.append_cancel_right_eq, List.append_cancel_left_eq] at made
    have again := frame.iterate (k + 1)
    rw [Function.iterate_succ_apply', ← made, frame.first, List.append_cancel_right_eq,
      List.append_cancel_left_eq] at again
    have numbers := congrArg Decimal.value again
    rw [Decimal.value_numeral, Decimal.value_numeral] at numbers
    omega
  · exact bumpedLine_other bumpable

end Circles

section Edits

open SpecFile

/-- Edits that put one line in the place of one, with values that are found again as they were
written. -/
def ByLine : Edit → Prop
  | .setVersion value | .setTag _ value | .setMacro _ value | .setAlphatag value => Settled value
  | .increaseRelease _ => True
  | .addChangelog _ _ _ _ | .bumpRelease _ _ _ _ => False

theorem written_settles {lines : List Line} {m : Matcher} {value : Text}
    (twice : ∀ l ∈ lines, withValueIn m value (withValueIn m value l) = withValueIn m value l)
    (accepted : Bool) : ∀ l ∈ lines, ∀ k,
      (written accepted m value)^[k + 1] l = l → written accepted m value l = l := by
  intro l member
  cases accepted with
  | true => exact settles_of_twice (twice l member)
  | false => exact fun _ _ => rfl

theorem edit_settles (limit : Regex.Limit) {f : SpecFile} {e : Edit}
    (oneFeed : ∀ l ∈ f.lines, l.OneFeed) (byLine : ByLine e) :
    ∃ g, (f.after limit e).lines = f.lines.map g ∧
      ∀ l ∈ f.lines, ∀ k, g^[k + 1] l = l → g l = l := by
  have tag (name value : Text) (settled : Settled value) :=
    written_settles (m := tagMatcher name) fun l member =>
      withValueIn_tag_twice settled (oneFeed l member) value
  have globalMacro (name value : Text) (settled : Settled value) :=
    written_settles (m := macroMatcher name) fun l member =>
      withValueIn_macro_twice settled (oneFeed l member) value
  cases e with
  | setVersion value =>
    rw [after_setVersion]
    exact ⟨_, rfl, tag "Version" value byLine true⟩
  | setTag name value =>
    rw [after_setTag]
    exact ⟨_, rfl, tag name value byLine _⟩
  | setMacro name value =>
    rw [after_setMacro]
    exact ⟨_, rfl, globalMacro name value byLine _⟩
  | setAlphatag value =>
    rw [after_setAlphatag]
    exact ⟨_, rfl, globalMacro "alphatag" value byLine true⟩
  | increaseRelease rightmost =>
    exact ⟨_, increaseRelease_lines f rightmost, fun l _ => bumped_settles rightmost l⟩
  | addChangelog entry email evr date => exact byLine.elim
  | bumpRelease entry email rightmost date => exact byLine.elim

end Edits

section Entries

variable {entries : List (ChangelogEntry × Date)} {lines : List Line}

def addedAll (entries : List (ChangelogEntry × Date)) (lines : List Line) : List Line :=
  entries.foldl (fun lines e => addChangelogLines e.1 e.2 lines) lines

theorem mem_addedAll (quiet : ∀ e ∈ entries, e.1.Quiet) {l : Line} :
    l ∈ addedAll entries lines ↔ l ∈ lines ∨
      ∃ x ∈ lines, Mentions x ∧ ∃ e ∈ entries, l ∈ e.1.block e.2 x.terminator := by
  rw [addedAll, addChangelog_stacked quiet, List.mem_flatMap]
  constructor
  · intro given
    obtain ⟨x, member, inside⟩ := given
    rcases List.mem_cons.mp inside with rfl | behind
    · exact .inl member
    · split at behind
      · rename_i mentions
        obtain ⟨e, given, block⟩ := List.mem_flatMap.mp behind
        exact .inr ⟨x, member, mentions, e, List.mem_reverse.mp given, block⟩
      · simp at behind
  · rintro (member | ⟨x, member, mentions, e, given, block⟩)
    · exact ⟨l, member, List.mem_cons_self⟩
    · refine ⟨x, member, List.mem_cons_of_mem x ?_⟩
      rw [if_pos mentions]
      exact List.mem_flatMap.mpr ⟨e, List.mem_reverse.mpr given, block⟩

theorem added_again (quiet : ∀ e ∈ entries, e.1.Quiet) {e : ChangelogEntry × Date}
    (given : e ∈ entries) (l : Line) :
    l ∈ addedAll entries lines ↔ l ∈ addChangelogLines e.1 e.2 (addedAll entries lines) := by
  have more : ∀ x ∈ entries ++ [e], x.1.Quiet := by
    intro x member
    rcases List.mem_append.mp member with before | last
    · exact quiet x before
    · exact List.mem_singleton.mp last ▸ quiet e given
  have last : addChangelogLines e.1 e.2 (addedAll entries lines) =
      addedAll (entries ++ [e]) lines := by
    simp [addedAll]
  have members : ∀ x, x ∈ entries ↔ x ∈ entries ++ [e] := by
    intro x
    simp only [List.mem_append, List.mem_singleton]
    exact ⟨.inl, fun either => either.elim id fun same => same ▸ given⟩
  simp only [last, mem_addedAll quiet, mem_addedAll more, ← members]

theorem added_changes (quiet : ∀ e ∈ entries, e.1.Quiet) (e : ChangelogEntry × Date) :
    addChangelogLines e.1 e.2 (addedAll entries lines) ≠ addedAll entries lines ↔
      ∃ l ∈ lines, Mentions l := by
  have mentioned : (∃ l ∈ addedAll entries lines, Mentions l) ↔ ∃ l ∈ lines, Mentions l := by
    constructor
    · intro given
      obtain ⟨l, member, mentions⟩ := given
      rcases (mem_addedAll quiet).mp member with inside | ⟨x, inside, also, -⟩
      · exact ⟨l, inside, mentions⟩
      · exact ⟨x, inside, also⟩
    · intro given
      obtain ⟨l, member, mentions⟩ := given
      exact ⟨l, (mem_addedAll quiet).mpr (.inl member), mentions⟩
  rw [← mentioned, addChangelogLines_behind]
  constructor
  · intro differ
    by_contra none
    refine differ (behind_quiet fun l member mentions => none ⟨l, member, mentions⟩)
  · intro given same
    obtain ⟨l, member, mentions⟩ := given
    have length := congrArg List.length same
    have some : 0 < (addedAll entries lines).countP (Mentions ·) :=
      List.countP_pos_iff.mpr ⟨l, member, decide_eq_true mentions⟩
    rw [behind_length] at length
    omega

end Entries

/-- The report says that nothing changed exactly if both texts hold the same lines, in whatever order
and however often. For an edit that rewrites lines, this means that it left every line as it was. But
adding an entry that was added before is always reported so, although it does add lines if any line
mentions the changelog. -/
theorem unchanged_means_same_lines (limit : Regex.Limit) (colored : Bool) :
    (∀ before after,
      changes colored before after = unchanged colored ↔ ∀ l, l ∈ before ↔ l ∈ after) ∧
    (∀ (f : SpecFile) (e : SpecFile.Edit), (∀ l ∈ f.lines, l.OneFeed) → ByLine e →
      (changes colored f.lines (f.after limit e).lines = unchanged colored ↔
        (f.after limit e).lines = f.lines)) ∧
    (∀ (entries : List (ChangelogEntry × Date)) (lines : List Line),
      (∀ e ∈ entries, e.1.Quiet) → ∀ e ∈ entries,
        let before := addedAll entries lines
        let after := addChangelogLines e.1 e.2 before
        changes colored before after = unchanged colored ∧
          (after ≠ before ↔ ∃ l ∈ lines, Mentions l)) := by
  refine ⟨changes_unchanged_iff colored, ?_, ?_⟩
  · intro f e oneFeed byLine
    obtain ⟨g, made, settles⟩ := edit_settles limit oneFeed byLine
    rw [changes_unchanged_iff, made]
    exact same_lines_iff settles
  · intro entries lines quiet e given before after
    exact ⟨(changes_unchanged_iff colored before after).mpr (added_again quiet given),
      added_changes quiet e⟩

theorem version_shown_and_entry_hidden :
    let f := SpecFile.ofText "a.spec" "Version: 1\n%changelog\n"
    let e : ChangelogEntry × Date := (⟨"1-2", "Fix", "dev"⟩, ⟨2013, 2, 12⟩)
    let once := addChangelogLines e.1 e.2 f.lines
    let twice := addChangelogLines e.1 e.2 once
    (∀ l ∈ f.lines, l.OneFeed) ∧ ByLine (.setVersion "2") ∧ e.1.Quiet ∧
      changes false f.lines (f.after .standard (.setVersion "2")).lines ≠ unchanged false ∧
      changes false once twice = unchanged false ∧ twice ≠ once := by
  intro f e once twice
  have oneFeed : ∀ l ∈ f.lines, l.OneFeed := by decide +kernel
  have settled : Settled "2" := ⟨by decide, fun c first => by cases first; decide, by decide⟩
  have quiet : e.1.Quiet := ⟨by decide +kernel, by decide +kernel, by decide +kernel⟩
  obtain ⟨-, written, again⟩ := unchanged_means_same_lines .standard false
  obtain ⟨hidden, differ⟩ := again [e] f.lines (by simpa using quiet) e List.mem_cons_self
  refine ⟨oneFeed, settled, quiet, ?_, hidden, differ.mpr (by decide +kernel)⟩
  intro told
  have same := (written f (.setVersion "2") oneFeed settled).mp told
  rw [SpecFile.after_setVersion] at same
  exact absurd same (by decide +kernel)

/-- A run that adds an entry for the second time on a day saves a file with three more lines, and
reports that no lines changed. -/
theorem repeated_entry_hidden :
    let f := SpecFile.ofText "a.spec" "%changelog\n* Tue Feb 12 2013 dev - 1-2\n- Fix\n\n"
    let i : Invocation := ⟨"a.spec", .changelog "Fix" "dev" (some "1-2"), false, true, none⟩
    ∃ edited result, i.plan .standard ⟨2013, 2, 12⟩ f = .save edited result ∧
      edited.text = "%changelog\n* Tue Feb 12 2013 dev - 1-2\n- Fix\n\n" ++
        "* Tue Feb 12 2013 dev - 1-2\n- Fix\n\n" ∧
      edited.lines ≠ f.lines ∧ changes false f.lines edited.lines = unchanged false ∧
      result.stderr = "\n⚙  Rewriting: \"a.spec\"\n" ++ title false "Programs" ++
        "  changelog: 4 records → 7 lines │ fired 4 │ skipped 0\n" ++ title false "Changes" ++
        unchanged false ++ title false "Result" ++ "  ✓ file replaced\n\n" := by
  refine ⟨_, _, rfl, ?_, ?_, ?_, ?_⟩
  · decide +kernel
  · decide +kernel
  · decide +kernel
  · decide +kernel

end LineRules.Cli.Report
