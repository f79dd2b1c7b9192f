import LineRules.Proofs.Metrics
import LineRules.Proofs.SpecFile.WholeLines

namespace LineRules

namespace Spec

variable {entry : ChangelogEntry} {date : Date} {name : Text} {line : Line}

def entryStarts : Text :=
  "*-\r\n"

theorem block_starts (entry : ChangelogEntry) (date : Date) (line : Line) :
    ∀ l ∈ entry.block date line.terminator, ∀ c, l.head? = some c → c ∈ entryStarts := by
  have terminator : ∀ c, line.terminator.head? = some c → c ∈ entryStarts := by
    unfold Text.terminator
    split
    · rintro c ⟨⟩
      decide
    · split
      · rintro c ⟨⟩
        decide
      · rintro c ⟨⟩
  have star (t : Text) : ∀ c, ("* " ++ t : Text).head? = some c → c ∈ entryStarts := by
    rintro c ⟨⟩
    decide
  have dash (t : Text) : ∀ c, ("- " ++ t : Text).head? = some c → c ∈ entryStarts := by
    rintro c ⟨⟩
    decide
  simp only [ChangelogEntry.block, List.append_assoc, List.forall_mem_cons]
  exact ⟨star _, dash _, terminator, by simp⟩

/-- A tag whose name starts in no case as a line of an entry can. -/
def ApartFromEntries (name : Text) : Prop :=
  name ≠ [] ∧ ∀ c ∈ entryStarts, name.head?.map Unicode.fold ≠ some (Unicode.fold c)

instance (name : Text) : Decidable (ApartFromEntries name) :=
  have _other := List.decidableBAll
    (fun c => name.head?.map Unicode.fold ≠ some (Unicode.fold c)) entryStarts
  inferInstanceAs (Decidable (name ≠ [] ∧ _))

theorem block_no_tag (apart : ApartFromEntries name) (entry : ChangelogEntry) (date : Date)
    (line : Line) : ∀ l ∈ entry.block date line.terminator, ¬StartsTag name l := by
  obtain ⟨filled, other⟩ := apart
  intro l member starts
  have same := starts.head_fold filled
  cases first : l.head? with
  | none =>
    rw [first] at same
    exact filled (by simpa using same.symm)
  | some c =>
    rw [first] at same
    exact other c (block_starts entry date line l member c first) same.symm

theorem findSome?_behind {α : Type} {g : Line → Option α} {lines : List Line}
    (passes : ∀ line ∈ lines, ∀ l ∈ entry.block date line.terminator, g l = none) :
    (lines.flatMap (entry.behind date)).findSome? g = lines.findSome? g := by
  induction lines with
  | nil => rfl
  | cons line rest ih =>
    obtain ⟨here, later⟩ := List.forall_mem_cons.mp passes
    have block : (entry.behind date line).findSome? g = g line := by
      rw [ChangelogEntry.behind]
      split
      · rw [ChangelogEntry.insertedAt, List.findSome?_cons, List.findSome?_eq_none_iff.mpr here]
        cases g line <;> rfl
      · exact List.findSome?_singleton
    rw [List.flatMap_cons, List.findSome?_append, block, ih later, List.findSome?_cons]
    cases g line <;> rfl

end Spec

namespace SpecFile

open Spec

variable {limit : Regex.Limit} {f g : SpecFile} {entry : ChangelogEntry} {date : Date}
  {name e : Text}

/-- Logging a change does not touch the tags that the reader finds. -/
theorem readTag_logged (given : LinesOfText f.lines) (plain : entry.Plain)
    (apart : ApartFromEntries name) :
    (f.edit (Spec.addChangelog entry date) {}).1.readTag name = f.readTag name := by
  rw [logged_file]
  apply findSome?_behind
  intro line member l inside
  have oneFeed := block_oneFeed plain (given.oneFeed line member) l inside
  rw [valueIn_no_tag (block_no_tag apart entry date line l inside) oneFeed]
  rfl

theorem evr_congr (version : f.readTag "Version" = g.readTag "Version")
    (release : f.readTag "Release" = g.readTag "Release")
    (epoch : f.readTag "Epoch" = g.readTag "Epoch") : f.evr limit = g.evr limit := by
  simp only [evr, SpecFile.version, SpecFile.release, requiredTag, literalTag_congr version,
    literalTag_congr release, literalTag_congr epoch]

theorem evr_logged (given : LinesOfText f.lines) (plain : entry.Plain) :
    (f.edit (Spec.addChangelog entry date) {}).1.evr limit = f.evr limit := by
  apply evr_congr
  · exact readTag_logged given plain (by decide +kernel)
  · exact readTag_logged given plain (by decide +kernel)
  · exact readTag_logged given plain (by decide +kernel)

theorem evr_filled (found : f.evr limit = .ok e) : e ≠ [] := by
  obtain ⟨v, r, -, -, rfl⟩ := evr_ok found
  simp

theorem behind_release (filled : e ≠ []) (entry email : Text) (date : Date) (line : Line) :
    ChangelogEntry.behind ⟨e, entry, email⟩ date line =
      if Mentions line then
        [line, ("* " ++ date.stamp ++ " " ++ email ++ " - " ++ e ++ line.terminator : Text),
          ("- " ++ entry ++ line.terminator : Text), line.terminator]
      else [line] := by
  have header : ChangelogEntry.headerEnd ⟨e, entry, email⟩ = " - " ++ e :=
    if_neg (by simpa using filled)
  simp only [ChangelogEntry.behind, ChangelogEntry.insertedAt, ChangelogEntry.block, header,
    List.append_assoc]

/-- Bumping the release and logging it succeeds if the bumped file has a release to read. The entry
is for this one, and it is the release of the file that comes out. Behind every line that mentions
the changelog stand a header with the release, the entry and an empty line, with the terminator of
that line; the other lines are those of the bumped file. Both runs take all lines; the first gives
back as many, and the second three more for every line that mentions the changelog. -/
theorem bump_logs_its_release (limit : Regex.Limit) (path : String) (text entry email : Text)
    (clean : '\n' ∉ entry) (cleanEmail : '\n' ∉ email) (rightmost : Bool) (date : Date) :
    let f := ofText path text
    let bumped := (f.increaseRelease rightmost).1
    let done := f.bumpRelease limit entry email rightmost date
    ((∃ metrics, done.2 = .ok metrics) ↔ ∃ e, bumped.evr limit = .ok e) ∧
      ∀ metrics, done.2 = .ok metrics →
        ∃ e first second, bumped.evr limit = .ok e ∧ done.1.evr limit = .ok e ∧
          done.1.lines = bumped.lines.flatMap (fun line =>
            if Mentions line then
              [line, ("* " ++ date.stamp ++ " " ++ email ++ " - " ++ e ++ line.terminator : Text),
                ("- " ++ entry ++ line.terminator : Text), line.terminator]
            else [line]) ∧
          metrics = [first, second] ∧
          first.records = f.lines.length ∧ first.emitted = f.lines.length ∧
          second.records = f.lines.length ∧
          second.emitted = second.records + 3 * bumped.lines.countP (Mentions ·) := by
  intro f bumped done
  have given : LinesOfText bumped.lines :=
    increaseRelease_keeps (Text.linesOfText_lines text) rightmost
  have length : bumped.lines.length = f.lines.length := by
    rw [increaseRelease_lines, List.length_map]
  rcases bumpRelease_cases limit f entry email rightmost date with
    ⟨why, missing, fails⟩ | ⟨e, named, logs⟩
  · have refused : done.2 = .error why := congrArg Prod.snd fails
    have none : bumped.evr limit = .error why := missing
    simp [refused, none]
  · have made : done = _ := logs
    have found : bumped.evr limit = .ok e := named
    have plain : ChangelogEntry.Plain ⟨e, entry, email⟩ :=
      ⟨evr_plain given found, clean, cleanEmail⟩
    refine ⟨iff_of_true ⟨_, congrArg Prod.snd made⟩ ⟨e, found⟩, ?_⟩
    intro metrics succeeds
    obtain rfl := Except.ok.inj (succeeds.symm.trans (congrArg Prod.snd made))
    have lines : done.1.lines =
        bumped.lines.flatMap (ChangelogEntry.behind ⟨e, entry, email⟩ date) := by
      rw [made]
      exact congrArg SpecFile.lines (logged_file bumped _ date)
    refine ⟨e, _, _, found, ?_, ?_, rfl, f.edit_records _ _, ?_, ?_, ?_⟩
    · rw [made]
      exact (evr_logged given plain).trans found
    · rw [lines]
      exact congrArg (bumped.lines.flatMap ·) (funext (behind_release (evr_filled found) _ _ date))
    · exact (f.edit_emitted _ _).trans length
    · exact (bumped.edit_records _ _).trans length
    · rw [edit_emitted, edit_records, logged_file]
      exact behind_length _ date bumped.lines

theorem entry_in_front_of_tags :
    let f := ofText "a.spec" "%changelog\r\nEpoch: 7\nVersion: 1\nRelease: 2"
    let done := f.bumpRelease .standard "Release: 9" "Epoch: 5" false ⟨2013, 2, 12⟩
    '\n' ∉ ("Release: 9" : Text) ∧ '\n' ∉ ("Epoch: 5" : Text) ∧ (∃ metrics, done.2 = .ok metrics) ∧
      done.1.evr .standard = .ok "7:1-3" ∧
      done.1.lines =
        [("%changelog\r\n" : Text), ("* Tue Feb 12 2013 Epoch: 5 - 7:1-3\r\n" : Text),
          ("- Release: 9\r\n" : Text), ("\r\n" : Text), ("Epoch: 7\n" : Text),
          ("Version: 1\n" : Text), ("Release: 3" : Text)] := by
  intro f done
  have clean : '\n' ∉ ("Release: 9" : Text) := by decide
  have cleanEmail : '\n' ∉ ("Epoch: 5" : Text) := by decide
  have bumped : (f.increaseRelease false).1 = ofText "a.spec"
      "%changelog\r\nEpoch: 7\nVersion: 1\nRelease: 3" := by
    decide +kernel
  have evr : (f.increaseRelease false).1.evr .standard = .ok "7:1-3" := by
    have version : (f.increaseRelease false).1.version .standard = .ok "1" :=
      version_ok.mpr (by decide +kernel)
    have release : (f.increaseRelease false).1.release .standard = .ok "3" :=
      release_ok.mpr (by decide +kernel)
    have epoch : (f.increaseRelease false).1.readTag "Epoch" = some "7" := by decide +kernel
    have found := evr_of_ok version release
    rw [epochText, epoch] at found
    exact found
  obtain ⟨succeeds, results⟩ := bump_logs_its_release .standard "a.spec"
    "%changelog\r\nEpoch: 7\nVersion: 1\nRelease: 2" "Release: 9" "Epoch: 5" clean cleanEmail
    false ⟨2013, 2, 12⟩
  obtain ⟨metrics, ok⟩ := succeeds.mpr ⟨_, evr⟩
  obtain ⟨e, -, -, found, after, lines, -⟩ := results metrics ok
  obtain rfl := Except.ok.inj (found.symm.trans evr)
  rw [lines, bumped]
  refine ⟨clean, cleanEmail, ⟨metrics, ok⟩, after, ?_⟩
  decide +kernel

end SpecFile

end LineRules
