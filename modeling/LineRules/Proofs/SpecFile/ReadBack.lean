import LineRules.Proofs.SpecFile.Edits

namespace LineRules

theorem findSome?_congr {α β : Type} {g h : α → Option β} {l : List α}
    (same : ∀ a ∈ l, g a = h a) : l.findSome? g = l.findSome? h := by
  induction l with
  | nil => rfl
  | cons a l ih =>
    obtain ⟨here, later⟩ := List.forall_mem_cons.mp same
    rw [List.findSome?_cons, List.findSome?_cons, here, ih later]

namespace Spec

variable {name other line key value : Text}

def withoutBlanks (t : Text) : Text :=
  t.dropWhile fun c => decide (c = ' ' ∨ c = '\t')

theorem withoutBlanks_behind {space cr lf : Text} (behind : ValueBehind space value cr lf) :
    withoutBlanks (space ++ (value ++ (cr ++ lf))) = value ++ (cr ++ lf) := by
  have blank : ∀ c ∈ space, decide (c = ' ' ∨ c = '\t') = true :=
    fun c member => decide_eq_true (behind.blank c member)
  rw [withoutBlanks, List.dropWhile_append_of_pos blank]
  cases rest : value ++ (cr ++ lf) with
  | nil => rfl
  | cons c rest' =>
    have stops := behind.past c (by rw [rest]; rfl)
    rw [CharSet.mem_blank] at stops
    exact List.dropWhile_cons_of_neg (by simpa using stops)

theorem trimEnd_withoutBlanks {t w : Text} (space : w.AllSpace) :
    (withoutBlanks (t ++ w)).trimEnd = (withoutBlanks t).trimEnd := by
  rw [withoutBlanks, List.dropWhile_append]
  split
  · rename_i none
    rw [withoutBlanks, List.isEmpty_iff.mp none]
    exact Text.trimEnd_eq_nil.mpr fun c member => space c ((List.dropWhile_sublist _).subset member)
  · exact Text.trimEnd_append space

theorem valueIn_starts {t : Text} (named : SameFold key name)
    (oneFeed : Text.OneFeed (key ++ (":" ++ t))) :
    (valueIn? name (key ++ (":" ++ t))).map Text.trimEnd = some (withoutBlanks t).trimEnd := by
  obtain ⟨space, value, cr, lf, rfl, behind⟩ := exists_valueBehind oneFeed.right.right
  rw [valueIn_tag ⟨behind, rfl, named⟩ oneFeed, Option.map_some, withoutBlanks_behind behind,
    Text.trimEnd_append behind.allSpace]

/-- The value that was written is read without the blanks that the reader leaves out. -/
theorem valueIn_written (starts : StartsTag name line) (oneFeed : line.OneFeed)
    (clean : '\n' ∉ value) :
    (valueIn? name (withValueIn (tagMatcher name) value line)).map Text.trimEnd =
      some (withoutBlanks value).trimEnd := by
  obtain ⟨key, space, old, cr, lf, tagLine⟩ := starts.parts oneFeed
  have still : (withValueIn (tagMatcher name) value line).OneFeed := oneFeed_written oneFeed clean
  rw [withValueIn_tag tagLine oneFeed] at still ⊢
  rw [valueIn_starts tagLine.named still]
  have blank : ∀ c ∈ space, decide (c = ' ' ∨ c = '\t') = true :=
    fun c member => decide_eq_true (tagLine.blank c member)
  have skipped : withoutBlanks (space ++ (value ++ (cr ++ lf))) =
      withoutBlanks (value ++ (cr ++ lf)) := List.dropWhile_append_of_pos blank
  rw [skipped, trimEnd_withoutBlanks tagLine.allSpace]

theorem fold_colon {c : Char} (same : Unicode.fold c = ':') : c = ':' := by
  have colon : Unicode.fold ':' = ':' := by decide +kernel
  have variants : Unicode.caseVariants ':' = [':'] := by decide +kernel
  have member : c ∈ Unicode.caseVariants ':' := Unicode.mem_caseVariants.mpr (same.trans colon.symm)
  rw [variants] at member
  exact List.mem_singleton.mp member

theorem colon_not_mem (named : SameFold key name) (plain : ':' ∉ name) : ':' ∉ key := by
  intro member
  have colon : Unicode.fold ':' = ':' := by decide +kernel
  have folded : ':' ∈ key.map Unicode.fold := List.mem_map.mpr ⟨':', member, colon⟩
  rw [named] at folded
  obtain ⟨c, inside, same⟩ := List.mem_map.mp folded
  exact plain (fold_colon same ▸ inside)

theorem takeWhile_colon {t : Text} (clear : ':' ∉ key) :
    (key ++ (":" ++ t)).takeWhile (· ≠ ':') = key := by
  have before : ∀ c ∈ key, decide (c ≠ ':') = true := by
    intro c member
    exact decide_eq_true fun colon => clear (colon ▸ member)
  rw [List.takeWhile_append_of_pos before]
  exact List.append_nil key

theorem startsTag_unique (starts : StartsTag name line) (too : StartsTag other line)
    (plain : ':' ∉ name) (plainToo : ':' ∉ other) : SameFold other name := by
  obtain ⟨key, named, rest, rfl⟩ := starts
  obtain ⟨label, labelled, behind, same⟩ := too
  rw [List.append_assoc, List.append_assoc] at same
  have cut := congrArg (List.takeWhile (· ≠ ':')) same
  rw [takeWhile_colon (colon_not_mem named plain),
    takeWhile_colon (colon_not_mem labelled plainToo)] at cut
  rw [cut] at labelled
  exact labelled.symm.trans named

/-- Setting a tag does not touch the lines of another one. -/
theorem valueIn_other (distinct : ¬SameFold other name) (plain : ':' ∉ name)
    (plainToo : ':' ∉ other) (oneFeed : line.OneFeed) (clean : '\n' ∉ value) :
    valueIn? other (withValueIn (tagMatcher name) value line) = valueIn? other line := by
  by_cases starts : StartsTag name line
  · have again := starts.written oneFeed value
    rw [valueIn_no_tag _ (oneFeed_written oneFeed clean), valueIn_no_tag _ oneFeed]
    · exact fun too => distinct (startsTag_unique starts too plain plainToo)
    · exact fun too => distinct (startsTag_unique again too plain plainToo)
  · rw [withValueIn_no_tag starts oneFeed]

end Spec

namespace SpecFile

open Spec

variable {limit : Regex.Limit} {f : SpecFile} {p : Pattern} {name other value : Text}

def HasLine (f : SpecFile) (p : Pattern) : Prop :=
  ∃ line ∈ f.lines, (p.evaluate (some line)).report.isHit = true

theorem readTag_isSome (made : tag limit name = .ok p) (lines : LinesOfText f.lines) :
    (f.readTag name).isSome = true ↔ f.HasLine p := by
  rw [readTag, List.findSome?_isSome_iff]
  refine exists_congr fun line => and_congr_right fun member => ?_
  have oneFeed := lines.oneFeed line member
  rw [tag_hit made oneFeed, Option.isSome_map, Option.isSome_iff_ne_none, ne_eq,
    valueIn_eq_none oneFeed, Classical.not_not]

section Written

variable (lines : LinesOfText f.lines) (clean : '\n' ∉ value)

include lines clean

theorem readTag_written :
    readTag ⟨f.path, f.lines.map (withValueIn (tagMatcher name) value)⟩ name =
      (f.readTag name).map fun _ => (withoutBlanks value).trimEnd := by
  rw [readTag, readTag, List.findSome?_map, List.map_findSome?]
  apply findSome?_congr
  intro line member
  have oneFeed := lines.oneFeed line member
  simp only [Function.comp_apply]
  by_cases starts : StartsTag name line
  · obtain ⟨key, space, old, cr, lf, tagLine⟩ := starts.parts oneFeed
    rw [valueIn_written starts oneFeed clean, valueIn_tag tagLine oneFeed]
    rfl
  · rw [withValueIn_no_tag starts oneFeed, valueIn_no_tag starts oneFeed]
    rfl

theorem readTag_written_other (plain : ':' ∉ name) (plainToo : ':' ∉ other)
    (distinct : ¬SameFold other name) :
    readTag ⟨f.path, f.lines.map (withValueIn (tagMatcher name) value)⟩ other =
      f.readTag other := by
  rw [readTag, readTag, List.findSome?_map]
  apply findSome?_congr
  intro line member
  simp only [Function.comp_apply]
  rw [valueIn_other distinct plain plainToo (lines.oneFeed line member) clean]

end Written

theorem literalTag_after_other (name : Text) (lines : LinesOfText f.lines) (clean : '\n' ∉ value)
    (plain : ':' ∉ name) (plainToo : ':' ∉ other) (distinct : ¬SameFold other name) :
    (f.after limit (.setTag name value)).literalTag limit other = f.literalTag limit other := by
  apply literalTag_congr
  rw [after_setTag]
  cases (tag limit name).isOk with
  | true => exact readTag_written_other lines clean plain plainToo distinct
  | false => exact congrArg (fun lines => readTag ⟨f.path, lines⟩ other) (List.map_id f.lines)

theorem lines_of_closed {line : Line} (closed : Closed line) (path : String) :
    (ofText path line).lines = [line] := by
  have given := (linesOfText_iff _).mp (LinesOfText.single closed.filled closed.1)
  rwa [List.flatten_singleton] at given

/-- A tag that was set reads as the value without the blanks at its start and without the white
space at its end if the text has a line of the tag, and is missing if it has none. A tag whose name
is too long is not set. One whose name differs in more than case reads as before; so setting the
version changes neither the release nor the epoch. -/
theorem set_tag_reads_back (limit : Regex.Limit) (path : String) (text name value : Text)
    (clean : '\n' ∉ value) :
    let f := ofText path text
    let read := (withoutBlanks value).trimEnd
    let done := f.attempt limit (.setTag name value)
    let set := f.attempt limit (.setVersion value)
    (∀ why, tag limit name = .error why →
        why = ⟨tagSource name, .tooLarge⟩ ∧ done = (f, .error (.pattern why))) ∧
      (∀ p, tag limit name = .ok p →
        (∃ metrics, done.2 = .ok metrics) ∧
          (f.HasLine p → done.1.literalTag limit name = .ok (some read)) ∧
          (¬f.HasLine p →
            f.literalTag limit name = .ok none ∧ done.1.literalTag limit name = .ok none)) ∧
      (∀ other, ':' ∉ name → ':' ∉ other → ¬SameFold other name →
        done.1.literalTag limit other = f.literalTag limit other) ∧
      (∃ metrics, set.2 = .ok metrics) ∧
      set.1.version limit = (f.version limit).map (fun _ => read) ∧
      set.1.release limit = f.release limit ∧
      ∃ epoch, f.literalTag limit "Epoch" = .ok epoch ∧ set.1.literalTag limit "Epoch" = .ok epoch ∧
        ∀ version release, f.version limit = .ok version → f.release limit = .ok release →
          f.evr limit = .ok (epochPart epoch ++ version ++ "-" ++ release) ∧
            set.1.evr limit = .ok (epochPart epoch ++ read ++ "-" ++ release) := by
  intro f read done set
  have lines : LinesOfText f.lines := Text.linesOfText_lines text
  have other (tag : Text) (plain : ':' ∉ name) (plainToo : ':' ∉ tag)
      (distinct : ¬SameFold tag name) : done.1.literalTag limit tag = f.literalTag limit tag :=
    literalTag_after_other name lines clean plain plainToo distinct
  have beside (tag : Text) (plain : ':' ∉ tag) (distinct : ¬SameFold tag "Version") :
      set.1.literalTag limit tag = f.literalTag limit tag :=
    literalTag_after_other "Version" lines clean (by decide) plain distinct
  obtain ⟨metrics, made⟩ : ∃ metrics, set =
      (⟨f.path, f.lines.map (withValueIn (tagMatcher "Version") value)⟩, .ok [metrics]) :=
    attempt_setVersion limit f value
  have version : set.1.version limit = (f.version limit).map fun _ => read := by
    obtain ⟨p, accepted⟩ := version_accepted limit
    rw [made, SpecFile.version, SpecFile.version, requiredTag, requiredTag, literalTag_ok accepted,
      literalTag_ok accepted, readTag_written lines clean]
    cases f.readTag "Version" with
    | none => rfl
    | some old => rfl
  have release : set.1.release limit = f.release limit := by
    rw [SpecFile.release, SpecFile.release, requiredTag, requiredTag,
      beside "Release" (by decide) (by unfold SameFold; decide +kernel)]
  obtain ⟨q, epochAccepted⟩ := epoch_accepted limit
  have epoch : set.1.literalTag limit "Epoch" = f.literalTag limit "Epoch" :=
    beside "Epoch" (by decide) (by unfold SameFold; decide +kernel)
  have epochRead := literalTag_ok epochAccepted f
  refine ⟨?_, ?_, other, ⟨_, congrArg Prod.snd made⟩, version, release, f.readTag "Epoch",
    epochRead, epoch.trans epochRead, ?_⟩
  · intro why failed
    exact ⟨tag_error failed, attempt_setTag_error failed f value⟩
  · intro p accepted
    obtain ⟨metrics, after⟩ : ∃ metrics, done =
        (⟨f.path, f.lines.map (withValueIn (tagMatcher name) value)⟩, .ok [metrics]) :=
      attempt_setTag_ok accepted f value
    have own : done.1.literalTag limit name = .ok ((f.readTag name).map fun _ => read) := by
      rw [after, literalTag_ok accepted, readTag_written lines clean]
    have present : (f.readTag name).isSome = true ↔ f.HasLine p := readTag_isSome accepted lines
    refine ⟨⟨_, congrArg Prod.snd after⟩, fun has => ?_, fun lacks => ?_⟩
    · obtain ⟨old, found⟩ := Option.isSome_iff_exists.mp (present.mpr has)
      rw [own, found]
      rfl
    · have none : f.readTag name = none := by
        rw [← Option.not_isSome_iff_eq_none, present]
        exact lacks
      exact ⟨by rw [literalTag_ok accepted, none], by rw [own, none]; rfl⟩
  · intro v r hasVersion hasRelease
    rw [hasVersion] at version
    rw [hasRelease] at release
    have sameEpoch : set.1.epochText = f.epochText := by
      rw [literalTag_ok epochAccepted, epochRead] at epoch
      exact congrArg epochPart (Except.ok.inj epoch)
    have evr := evr_of_ok version release
    rw [sameEpoch] at evr
    exact ⟨evr_of_ok hasVersion hasRelease, evr⟩

theorem padded_version_reads_back :
    let f := ofText "a.spec" "Epoch: 7\nversion:\t1\r\nVersion: 2\nRelease: 3"
    let done := f.attempt .standard (.setTag "Version" " \t2.0 \r")
    '\n' ∉ (" \t2.0 \r" : Text) ∧
      (∃ p, tag .standard "Version" = .ok p ∧ f.HasLine p) ∧
      done.1.literalTag .standard "Version" = .ok (some "2.0") ∧
      done.1.literalTag .standard "Epoch" = .ok (some "7") := by
  intro f done
  have clean : '\n' ∉ (" \t2.0 \r" : Text) := by decide
  have lines : LinesOfText f.lines := Text.linesOfText_lines _
  obtain ⟨p, accepted⟩ := version_accepted .standard
  obtain ⟨q, epochAccepted⟩ := epoch_accepted .standard
  have has : f.HasLine p := (readTag_isSome accepted lines).mp (by decide +kernel)
  obtain ⟨-, own, other, -⟩ := set_tag_reads_back .standard "a.spec"
    "Epoch: 7\nversion:\t1\r\nVersion: 2\nRelease: 3" "Version" " \t2.0 \r" clean
  refine ⟨clean, ⟨p, accepted, has⟩, ((own p accepted).2.1 has).trans ?_,
    (other "Epoch" (by decide) (by decide) (by unfold SameFold; decide +kernel)).trans ?_⟩
  · exact congrArg _ (by decide +kernel)
  · rw [literalTag_ok epochAccepted]
    exact congrArg _ (by decide +kernel)

/-- A tag with a long name is neither set nor read, although the file has a line of it. -/
theorem long_tag_not_set :
    let name : Text := List.replicate 50000 'ι'
    let f := ofText "a.spec" (name ++ (": 1\n" : Text))
    let done := f.attempt .standard (.setTag name "2")
    let refused : SpecError := .pattern ⟨tagSource name, .tooLarge⟩
    '\n' ∉ name ∧ ':' ∉ name ∧ f.lines = [name ++ (": 1\n" : Text)] ∧
      StartsTag name (name ++ (": 1\n" : Text)) ∧
      done = (f, .error refused) ∧ done.1.literalTag .standard name = .error refused := by
  intro name f done refused
  have failed : tag .standard name = _ := iotas_tooLarge (by decide)
  have only (c : Char) (member : c ∈ name) : c = 'ι' := List.eq_of_mem_replicate member
  have plain : '\n' ∉ name := fun member => absurd (only _ member) (by decide)
  have noColon : ':' ∉ name := fun member => absurd (only _ member) (by decide)
  obtain ⟨closed, starts⟩ := closed_tag plain
  have kept : done = (f, .error refused) := attempt_setTag_error failed f "2"
  refine ⟨plain, noColon, lines_of_closed closed "a.spec", starts, kept, ?_⟩
  rw [kept]
  exact literalTag_error failed f

end SpecFile

end LineRules
