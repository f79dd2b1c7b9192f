import LineRules.Proofs.Spec.EntryLines

/-!
Several entries, added one after the other. The mark of the changelog starts with a sign that no
date holds, does not end as a line end can, and holds neither a blank nor a dash; so it stands in a
line of an entry only if it stands in one of the texts of the entry. Where it stands in none of
them, a later entry goes behind the lines that were there at first, and only behind these: each of
them is followed by the entries from the latest to the earliest, and leaving these out gives the
lines back.
-/
namespace LineRules.Spec

variable {line : Line} {entry : ChangelogEntry}

/-- No text of the entry mentions the changelog. -/
structure ChangelogEntry.Quiet (e : ChangelogEntry) : Prop where
  evr : ¬Mentions e.evr
  entry : ¬Mentions e.entry
  email : ¬Mentions e.email

/-- What stands before and behind a text in a line of an entry does not complete the mark. -/
theorem quiet_line {front : Text} (clear : '%' ∉ front) {body : Text} (quiet : ¬Mentions body)
    (line : Line) : ¬Mentions (front ++ body ++ line.terminator) := by
  intro mentions
  apply quiet
  have stop : 'g' ∉ line.terminator := by
    unfold Text.terminator
    split
    · decide
    · split <;> decide
  exact Text.infix_right rfl clear (Text.infix_left rfl stop mentions)

theorem quiet_email (quiet : entry.Quiet) : ¬Mentions (entry.email ++ entry.headerEnd) := by
  unfold ChangelogEntry.headerEnd
  split
  · simpa using quiet.email
  · intro mentions
    have absent : ∀ c ∈ ("%changelog" : Text), c ∉ (" - " : Text) := by simp
    rw [← List.append_assoc] at mentions
    rcases Text.infix_around (by decide) (by decide) absent mentions with before | behind
    · exact quiet.email before
    · exact quiet.evr behind

theorem quiet_block (quiet : entry.Quiet) (date : Date) (line : Line) :
    ∀ l ∈ entry.block date line.terminator, ¬Mentions l := by
  have stamp : '%' ∉ date.stamp := fun member => absurd (date.stamp_stampText _ member) (by decide)
  have front : '%' ∉ "* " ++ date.stamp ++ " " := by simp [stamp]
  have dash : '%' ∉ ("- " : Text) := by decide
  have blank : ¬Mentions [] := by decide
  have header := quiet_line front (quiet_email quiet) line
  simp only [ChangelogEntry.block, List.forall_mem_cons]
  refine ⟨?_, quiet_line dash quiet.entry line, quiet_line List.not_mem_nil blank line, by simp⟩
  rwa [← List.append_assoc] at header

def stacked (entries : List (ChangelogEntry × Date)) (line : Line) : List Line :=
  line :: if Mentions line then
    entries.reverse.flatMap fun e => e.1.block e.2 line.terminator
  else []

theorem behind_stacked {entries : List (ChangelogEntry × Date)} (quiet : ∀ e ∈ entries, e.1.Quiet)
    (last : ChangelogEntry × Date) (line : Line) :
    (stacked entries line).flatMap (last.1.behind last.2) = stacked (entries ++ [last]) line := by
  by_cases mentions : Mentions line
  · have earlier : ∀ l ∈ entries.reverse.flatMap fun e => e.1.block e.2 line.terminator,
        ¬Mentions l := by
      intro l member
      obtain ⟨e, given, inside⟩ := List.mem_flatMap.mp member
      exact quiet_block (quiet e (List.mem_reverse.mp given)) e.2 line l inside
    simp only [stacked, if_pos mentions, List.flatMap_cons, behind_quiet earlier]
    simp [ChangelogEntry.behind, mentions, ChangelogEntry.insertedAt]
  · simp [stacked, ChangelogEntry.behind, mentions]

theorem addChangelog_stacked {entries : List (ChangelogEntry × Date)}
    (quiet : ∀ e ∈ entries, e.1.Quiet) (lines : List Line) :
    entries.foldl (fun lines e => addChangelogLines e.1 e.2 lines) lines =
      lines.flatMap (stacked entries) := by
  -- The last entry goes behind what the earlier ones made, so it is taken off first.
  induction entries using List.reverseRecOn with
  | nil =>
    have alone : stacked [] = fun line => [line] := by
      funext line
      simp [stacked]
    simp [alone]
  | append_singleton entries last ih =>
    have before : ∀ e ∈ entries, e.1.Quiet :=
      fun e member => quiet e (List.mem_append_left _ member)
    rw [List.foldl_append, ih before, List.foldl_cons, List.foldl_nil, addChangelogLines_behind,
      List.flatMap_assoc]
    exact congrArg (lines.flatMap ·) (funext (behind_stacked before last))

/-- Leaves out `n` lines behind every line that mentions the changelog, and `skip` lines before
that. -/
def leaveOut (n : Nat) : Nat → List Line → List Line
  | _, [] => []
  | skip + 1, _ :: rest => leaveOut n skip rest
  | 0, line :: rest => line :: leaveOut n (if Mentions line then n else 0) rest

theorem leaveOut_append {n skip : Nat} {skipped : List Line} (length : skipped.length = skip)
    (rest : List Line) : leaveOut n skip (skipped ++ rest) = leaveOut n 0 rest := by
  subst length
  induction skipped with
  | nil => rfl
  | cons line skipped ih => exact ih

theorem blocks_length (entries : List (ChangelogEntry × Date)) (terminator : Text) :
    (entries.flatMap fun e => e.1.block e.2 terminator).length = 3 * entries.length := by
  induction entries with
  | nil => rfl
  | cons e entries ih =>
    rw [List.flatMap_cons, List.length_append, ih, List.length_cons]
    simp only [ChangelogEntry.block, List.length_cons, List.length_nil]
    omega

theorem leaveOut_stacked (entries : List (ChangelogEntry × Date)) (lines : List Line) :
    leaveOut (3 * entries.length) 0 (lines.flatMap (stacked entries)) = lines := by
  induction lines with
  | nil => rfl
  | cons line rest ih =>
    rw [List.flatMap_cons]
    by_cases mentions : Mentions line
    · have length := blocks_length entries.reverse line.terminator
      rw [List.length_reverse] at length
      simp only [stacked, mentions, if_true, List.cons_append, leaveOut]
      rw [leaveOut_append length, ih]
    · simp only [stacked, mentions, if_false, List.cons_append, List.nil_append, leaveOut, ih]

/-- Entries that are added one after the other stack behind every line that mentions the changelog:
the latest follows it directly and the earliest comes last, each as a header, the entry and an empty
line, with the terminator of the line that they follow. No entry goes behind a line of another one,
and leaving out three lines for each entry gives the lines back. -/
theorem entries_stack_newest_first (entries : List (ChangelogEntry × Date))
    (quiet : ∀ e ∈ entries, ¬Mentions e.1.evr ∧ ¬Mentions e.1.entry ∧ ¬Mentions e.1.email)
    (lines : List Line) :
    let logged := entries.foldl (fun lines e => addChangelogLines e.1 e.2 lines) lines
    logged = lines.flatMap (fun line => line :: if Mentions line then
      entries.reverse.flatMap fun e =>
        ["* " ++ e.2.stamp ++ " " ++ e.1.email ++
            (if e.1.evr = [] then [] else " - " ++ e.1.evr : Text) ++ line.terminator,
          "- " ++ e.1.entry ++ line.terminator, line.terminator]
      else []) ∧
    leaveOut (3 * entries.length) 0 logged = lines := by
  intro logged
  have all : ∀ e ∈ entries, e.1.Quiet := by
    intro e member
    obtain ⟨evr, entry, email⟩ := quiet e member
    exact ⟨evr, entry, email⟩
  have made : logged = lines.flatMap (stacked entries) := addChangelog_stacked all lines
  refine ⟨made.trans (congrArg (lines.flatMap ·) (funext fun line => ?_)), ?_⟩
  · simp only [stacked, ChangelogEntry.block, ChangelogEntry.headerEnd, List.isEmpty_iff]
    rfl
  · rw [made, leaveOut_stacked]

theorem later_entry_above_earlier :
    let entries : List (ChangelogEntry × Date) :=
      [(⟨"1-2", "Fix %change", "log"⟩, ⟨2013, 2, 12⟩), (⟨[], "Log", "%changelo"⟩, ⟨2013, 3, 4⟩)]
    (∀ e ∈ entries, ¬Mentions e.1.evr ∧ ¬Mentions e.1.entry ∧ ¬Mentions e.1.email) ∧
      entries.foldl (fun lines e => addChangelogLines e.1 e.2 lines)
          [("%changelog\r\n" : Text), ("- Old\r\n" : Text), ("# %changelog" : Text)] =
        [("%changelog\r\n" : Text), ("* Mon Mar 04 2013 %changelo\r\n" : Text),
          ("- Log\r\n" : Text), ("\r\n" : Text), ("* Tue Feb 12 2013 log - 1-2\r\n" : Text),
          ("- Fix %change\r\n" : Text), ("\r\n" : Text), ("- Old\r\n" : Text),
          ("# %changelog" : Text), ("* Mon Mar 04 2013 %changelo" : Text), ("- Log" : Text), [],
          ("* Tue Feb 12 2013 log - 1-2" : Text), ("- Fix %change" : Text), []] := by
  intro entries
  have quiet : ∀ e ∈ entries, ¬Mentions e.1.evr ∧ ¬Mentions e.1.entry ∧ ¬Mentions e.1.email := by
    decide +kernel
  refine ⟨quiet, (entries_stack_newest_first entries quiet _).1.trans ?_⟩
  decide +kernel

end LineRules.Spec
