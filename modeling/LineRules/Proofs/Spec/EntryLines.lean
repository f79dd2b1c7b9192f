import LineRules.Proofs.Decimal
import LineRules.Proofs.Lines
import LineRules.Proofs.Spec.Changelog

namespace LineRules

namespace Date

def IsStampChar (c : Char) : Prop :=
  c.isAlphanum = true ∨ c = ' ' ∨ c = '+' ∨ c = '-'

instance (c : Char) : Decidable (IsStampChar c) :=
  inferInstanceAs (Decidable (_ ∨ _))

def StampText (t : Text) : Prop :=
  ∀ c ∈ t, IsStampChar c

instance (t : Text) : Decidable (StampText t) :=
  List.decidableBAll IsStampChar t

theorem digit_stampChar {c : Char} (digit : Decimal.IsDigit c) : IsStampChar c := by
  have every : ∀ e ∈ List.range 10, IsStampChar (Nat.digitChar e) := by decide
  rw [← Decimal.digitChar_digitValue digit]
  exact every _ (List.mem_range.mpr (Decimal.digitValue_lt digit))

theorem getD_stampText {names : List String} (plain : ∀ name ∈ names, StampText name.toList)
    (i : Nat) : StampText (names.getD i "").toList := by
  rw [List.getD_eq_getElem?_getD]
  cases found : names[i]? with
  | none => exact List.forall_mem_nil _
  | some name => exact plain name (List.mem_of_getElem? found)

theorem padded_stampText (width n : Nat) : StampText (padded width n) := by
  intro c member
  simp only [padded, List.leftpad, List.mem_append, List.mem_replicate] at member
  rcases member with ⟨-, rfl⟩ | digit
  · decide
  · exact digit_stampChar (Decimal.numeral_allDigits n c digit)

theorem yearText_stampText (year : Int) : StampText (yearText year) := by
  have digits := padded_stampText 4 year.natAbs
  unfold yearText
  split
  · exact List.forall_mem_cons.mpr ⟨by decide, digits⟩
  · split
    · exact List.forall_mem_cons.mpr ⟨by decide, digits⟩
    · exact digits

theorem stamp_stampText (d : Date) : StampText d.stamp := by
  have blank : StampText " " := by decide
  have weekdays : ∀ name ∈ weekdayNames, StampText name.toList := by decide
  have months : ∀ name ∈ monthNames, StampText name.toList := by decide
  intro c member
  simp only [stamp, List.mem_append] at member
  rcases member with (((((one | gap) | two) | gap) | three) | gap) | four
  · exact getD_stampText weekdays d.weekday c one
  · exact blank c gap
  · exact getD_stampText months (d.month - 1) c two
  · exact blank c gap
  · exact padded_stampText 2 d.day c three
  · exact blank c gap
  · exact yearText_stampText d.year c four

theorem stamp_plain (d : Date) : '\n' ∉ d.stamp :=
  fun member => absurd (d.stamp_stampText _ member) (by decide)

end Date

namespace Spec

variable {line : Line} {lines : List Line} {entry : ChangelogEntry} {date : Date}

structure ChangelogEntry.Plain (e : ChangelogEntry) : Prop where
  evr : '\n' ∉ e.evr
  entry : '\n' ∉ e.entry
  email : '\n' ∉ e.email

def EndsOpen (P : Line → Prop) (lines : List Line) : Prop :=
  ∃ last, last ∈ lines.getLast? ∧ last.getLast? ≠ some '\n' ∧ P last

instance (P : Line → Prop) [DecidablePred P] (lines : List Line) : Decidable (EndsOpen P lines) :=
  inferInstanceAs (Decidable (∃ last, last ∈ lines.getLast? ∧ _))

theorem terminator_closed (closed : line.getLast? = some '\n') :
    ∃ cr, line.terminator = cr ++ ['\n'] ∧ '\n' ∉ cr := by
  obtain ⟨body, rfl⟩ := List.getLast?_eq_some_iff.mp closed
  have feed : Text.endsWith (body ++ ['\n']) "\n" = true :=
    List.isSuffixOf_iff_suffix.mpr (List.suffix_append body _)
  rw [Text.terminator, if_pos feed]
  split
  · exact ⟨['\r'], rfl, by decide⟩
  · exact ⟨[], rfl, by simp⟩

theorem terminator_open (isOpen : line.getLast? ≠ some '\n') : line.terminator = [] := by
  have ends {stop : Text} (last : stop.getLast? = some '\n') : ¬line.endsWith stop = true := by
    intro ends
    obtain ⟨front, rfl⟩ := List.isSuffixOf_iff_suffix.mp ends
    exact isOpen (by rw [List.getLast?_append, last, Option.some_or])
  rw [Text.terminator, if_neg (ends rfl), if_neg (ends rfl)]
  rfl

theorem ChangelogEntry.Plain.headerEnd (plain : entry.Plain) : '\n' ∉ entry.headerEnd := by
  unfold ChangelogEntry.headerEnd
  split
  · simp
  · simp [plain.evr]

theorem block_closed (plain : entry.Plain) (closed : Closed line) :
    ∀ l ∈ entry.insertedAt date line, Closed l := by
  obtain ⟨cr, stop, clear⟩ := terminator_closed closed.2
  have ended (body : Text) (front : '\n' ∉ body) : Closed (body ++ line.terminator) := by
    rw [stop, ← List.append_assoc]
    exact Text.closed_feed (by simp [front, clear])
  simp only [ChangelogEntry.insertedAt, ChangelogEntry.block, List.forall_mem_cons]
  refine ⟨closed, ended _ ?_, ended _ ?_, ended [] (by simp), by simp⟩
  · simp [date.stamp_plain, plain.email, plain.headerEnd]
  · simp [plain.entry]

theorem block_oneFeed (plain : entry.Plain) (oneFeed : line.OneFeed) :
    ∀ l ∈ entry.block date line.terminator, l.OneFeed := by
  intro l member
  by_cases feed : line.getLast? = some '\n'
  · exact (block_closed plain ⟨oneFeed, feed⟩ l (List.mem_cons_of_mem line member)).1
  · apply Text.oneFeed_plain
    simp only [ChangelogEntry.block, terminator_open feed, List.append_nil, List.mem_cons,
      List.not_mem_nil, or_false] at member
    rcases member with rfl | rfl | rfl
    · simp [date.stamp_plain, plain.email, plain.headerEnd]
    · simp [plain.entry]
    · simp

theorem behind_closed (plain : entry.Plain) (closed : Closed line) :
    ∀ l ∈ entry.behind date line, Closed l := by
  unfold ChangelogEntry.behind
  split
  · exact block_closed plain closed
  · simpa using closed

theorem behind_keeps (given : LinesOfText lines) (plain : entry.Plain)
    (steady : ¬EndsOpen Mentions lines) : LinesOfText (lines.flatMap (entry.behind date)) := by
  rcases List.eq_nil_or_concat lines with rfl | ⟨init, last, rfl⟩
  · exact given
  · rw [List.concat_eq_append] at given steady ⊢
    obtain ⟨closed, filled, oneFeed⟩ := LinesOfText.concat_iff.mp given
    have early : ∀ l ∈ init.flatMap (entry.behind date), Closed l := by
      intro l member
      obtain ⟨line, inside, member⟩ := List.mem_flatMap.mp member
      exact behind_closed plain (closed line inside) l member
    rw [List.flatMap_append, List.flatMap_singleton]
    by_cases feed : last.getLast? = some '\n'
    · apply LinesOfText.of_closed
      intro l member
      rcases List.mem_append.mp member with first | final
      · exact early l first
      · exact behind_closed plain ⟨oneFeed, feed⟩ l final
    · have quiet : ¬Mentions last := fun mentions => steady ⟨last, by simp, feed, mentions⟩
      rw [ChangelogEntry.behind, if_neg quiet]
      exact LinesOfText.concat_iff.mpr ⟨early, filled, oneFeed⟩

/-- Behind a line without a line feed the block ends in an empty line. -/
theorem behind_breaks (isOpen : EndsOpen Mentions lines) :
    ¬LinesOfText (lines.flatMap (entry.behind date)) := by
  intro given
  obtain ⟨last, member, noFeed, mentions⟩ := isOpen
  apply given.filled [] _ rfl
  refine List.mem_flatMap.mpr ⟨last, List.mem_of_getLast? member, ?_⟩
  rw [ChangelogEntry.behind, if_pos mentions, ChangelogEntry.insertedAt, ChangelogEntry.block,
    terminator_open noFeed]
  simp

end Spec

end LineRules
