import LineRules.Proofs.Captures
import LineRules.Proofs.LineEdit
import LineRules.Spec.Edit

namespace LineRules.Spec

/-- The line that starts the changelog holds its mark and at most white space behind it. -/
def IsMarker (line : Line) : Prop :=
  line.trimEnd = "%changelog"

instance (line : Line) : Decidable (IsMarker line) :=
  inferInstanceAs (Decidable (_ = _))

def Mentions (line : Line) : Prop :=
  ("%changelog" : Text) <:+: line

instance (line : Line) : Decidable (Mentions line) :=
  decidable_of_iff _ (Text.contains_iff line "%changelog")

def ChangelogEntry.behind (entry : ChangelogEntry) (date : Date) (line : Line) : List Line :=
  if Mentions line then entry.insertedAt date line else [line]

theorem mentions_of_marker {line : Line} (marker : IsMarker line) : Mentions line := by
  rw [Mentions, ← marker]
  exact (Text.trimEnd_prefix line).isInfix

theorem changelogAction_edits (entry : ChangelogEntry) (date : Date) :
    (changelogAction entry date).Edits (entry.behind date) := by
  intro state line
  have mark := Matcher.find_text "%changelog" [] line
  rw [changelogAction, Action.apply_orPrint]
  simp only [changelogMarker, Pattern.evaluate, Option.bind_some, ChangelogEntry.behind, Mentions,
    ← Text.contains_iff, ← mark]
  cases (⟨Regex.text "%changelog", []⟩ : Matcher).find? line with
  | none => exact ⟨_, _, rfl, rfl⟩
  | some found => exact ⟨_, _, rfl, rfl⟩

theorem addChangelogLines_behind (entry : ChangelogEntry) (date : Date) (lines : List Line) :
    addChangelogLines entry date lines = lines.flatMap (entry.behind date) :=
  Run.exhaust_edits (changelogAction_edits entry date) (Action.everyLine_orPrint _ _) {} lines

variable {entry : ChangelogEntry} {date : Date}

theorem behind_quiet {lines : List Line} (quiet : ∀ line ∈ lines, ¬Mentions line) :
    lines.flatMap (entry.behind date) = lines := by
  induction lines with
  | nil => rfl
  | cons line rest ih =>
    obtain ⟨here, later⟩ := List.forall_mem_cons.mp quiet
    rw [List.flatMap_cons, ih later, ChangelogEntry.behind, if_neg here]
    rfl

theorem behind_length (entry : ChangelogEntry) (date : Date) (lines : List Line) :
    (lines.flatMap (entry.behind date)).length =
      lines.length + 3 * lines.countP (Mentions ·) := by
  induction lines with
  | nil => rfl
  | cons line rest ih =>
    rw [List.flatMap_cons, List.length_append, ih, List.length_cons, List.countP_cons,
      ChangelogEntry.behind]
    split
    · rename_i mentions
      simp only [ChangelogEntry.insertedAt, ChangelogEntry.block, mentions, decide_true, if_true,
        List.length_cons, List.length_nil]
      omega
    · rename_i quiet
      simp only [quiet, decide_false, Bool.false_eq_true, if_false, List.length_cons,
        List.length_nil]
      omega

/-- An entry is inserted once, behind the marker line and with its terminator, exactly if no other
line mentions the changelog. -/
theorem entry_inserted_once_iff (entry : ChangelogEntry) (date : Date) (before after : List Line)
    (marker : Line) (isMarker : IsMarker marker) :
    addChangelogLines entry date (before ++ marker :: after) =
        before ++ marker ::
          ("* " ++ date.stamp ++ " " ++ entry.email ++ entry.headerEnd ++ marker.terminator) ::
          ("- " ++ entry.entry ++ marker.terminator) :: marker.terminator :: after ↔
      ∀ line ∈ before ++ after, ¬Mentions line := by
  have mentions := mentions_of_marker isMarker
  constructor
  · intro once line member
    -- Every line that mentions the changelog makes the output longer by three lines.
    have length := congrArg List.length once
    rw [addChangelogLines_behind, behind_length] at length
    simp only [List.length_append, List.length_cons, List.countP_append, List.countP_cons,
      mentions, decide_true, if_true] at length
    have none : (before ++ after).countP (Mentions ·) = 0 := by
      rw [List.countP_append]
      omega
    simpa using List.countP_eq_zero.mp none line member
  · intro quiet
    have first := fun line member => quiet line (List.mem_append_left after member)
    have last := fun line member => quiet line (List.mem_append_right before member)
    rw [addChangelogLines_behind, List.flatMap_append, List.flatMap_cons, behind_quiet first,
      behind_quiet last, ChangelogEntry.behind, if_pos mentions]
    rfl

theorem entry_above_older_entry :
    IsMarker "%changelog \r\n" ∧
      addChangelogLines ⟨"1-2", "Fix", "dev"⟩ ⟨2013, 2, 12⟩
          [("Name: x\r\n" : Text), ("%changelog \r\n" : Text), ("- Old\r\n" : Text)] =
        [("Name: x\r\n" : Text), ("%changelog \r\n" : Text),
          ("* Tue Feb 12 2013 dev - 1-2\r\n" : Text), ("- Fix\r\n" : Text), ("\r\n" : Text),
          ("- Old\r\n" : Text)] := by
  have marker : IsMarker "%changelog \r\n" := by decide +kernel
  have quiet : ∀ line ∈ [("Name: x\r\n" : Text)] ++ [("- Old\r\n" : Text)], ¬Mentions line := by
    decide +kernel
  have once :=
    (entry_inserted_once_iff ⟨"1-2", "Fix", "dev"⟩ ⟨2013, 2, 12⟩ [_] [_] _ marker).mpr quiet
  refine ⟨marker, once.trans ?_⟩
  decide +kernel

/-- A comment that mentions the changelog gets the entry as well. -/
theorem entry_follows_comment :
    IsMarker "%changelog\n" ∧ ¬IsMarker "# see %changelog\n" ∧
      addChangelogLines ⟨"1-2", "Fix", "dev"⟩ ⟨2013, 2, 12⟩
          [("# see %changelog\n" : Text), ("%changelog\n" : Text)] =
        [("# see %changelog\n" : Text), ("* Tue Feb 12 2013 dev - 1-2\n" : Text),
          ("- Fix\n" : Text), ("\n" : Text), ("%changelog\n" : Text),
          ("* Tue Feb 12 2013 dev - 1-2\n" : Text), ("- Fix\n" : Text), ("\n" : Text)] := by
  decide +kernel

end LineRules.Spec
