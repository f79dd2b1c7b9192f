import LineRules.Proofs.LineEdit
import LineRules.Proofs.Lines
import LineRules.Proofs.Spec.ReleaseField
import LineRules.Spec.Edit

/-!
The lines that hold a value: those of a tag and those of a global macro. Behind the name and blanks
the value goes on to the end of the line, where a carriage return and a line feed are left out. A
line of a tag starts with the name of the tag in any case and a colon, and then falls into its parts
in one way. Putting another value in the place of the old one keeps everything around it.
-/
namespace LineRules.Spec

open Regex

/-- The end of a line behind a value. A carriage return there is no part of the value. -/
structure EndsValue (value cr lf : Text) : Prop where
  oneLine : '\n' ∉ value
  carriage : cr = [] ∧ value.getLast? ≠ some '\r' ∨ cr = ['\r']
  feed : lf = [] ∨ lf = ['\n']

variable {name line key space value cr lf : Text}

theorem exists_value {t : Text} (oneFeed : t.OneFeed) :
    ∃ value cr lf, t = value ++ (cr ++ lf) ∧ EndsValue value cr lf := by
  have carried (body : Text) (line : '\n' ∉ body) : ∃ value cr, body = value ++ cr ∧
      '\n' ∉ value ∧ (cr = [] ∧ value.getLast? ≠ some '\r' ∨ cr = ['\r']) := by
    by_cases last : body.getLast? = some '\r'
    · obtain ⟨value, rfl⟩ := List.getLast?_eq_some_iff.mp last
      exact ⟨value, ['\r'], rfl, fun member => line (List.mem_append_left _ member), .inr rfl⟩
    · exact ⟨body, [], (List.append_nil body).symm, line, .inl ⟨rfl, last⟩⟩
  rcases oneFeed.body with line | ⟨body, line, rfl⟩
  · obtain ⟨value, cr, rfl, line, carriage⟩ := carried t line
    exact ⟨value, cr, [], by rw [List.append_nil], line, carriage, .inl rfl⟩
  · obtain ⟨value, cr, rfl, line, carriage⟩ := carried body line
    exact ⟨value, cr, ['\n'], List.append_assoc .., line, carriage, .inr rfl⟩

theorem EndsValue.allSpace (ends : EndsValue value cr lf) :
    (cr ++ lf).AllSpace := by
  have carriage : Unicode.isWhiteSpace '\r' = true := by decide
  have feed : Unicode.isWhiteSpace '\n' = true := by decide
  intro c member
  rcases List.mem_append.mp member with one | two
  · rcases ends.carriage with ⟨rfl, -⟩ | rfl
    · simp at one
    · rw [List.mem_singleton.mp one, carriage]
  · rcases ends.feed with rfl | rfl
    · simp at two
    · rw [List.mem_singleton.mp two, feed]

def valueToLineEnd : Regex :=
  all [.group 2 (fewest .notLineFeed), .alt (.set (.single '\r')) .empty, .look .lineEnd]

theorem lineEnd_holds (done rest : Text) (groups : List (Nat × Span)) :
    Look.lineEnd.holds (.between done rest groups) = rest.head?.all (· == '\n') :=
  rfl

def lineStop : List Regex :=
  [.alt (.set (.single '\r')) .empty, .look .lineEnd]

theorem first_lineStop_cons (done : Text) (x : Char) (rest : Text) (groups : List (Nat × Span)) :
    (all lineStop).first (.between done (x :: rest) groups) some =
      if x = '\r' ∧ rest.head?.all (· == '\n') = true then
        some (.between (done ++ [x]) rest groups)
      else if x = '\n' then some (.between done (x :: rest) groups) else none := by
  rw [lineStop, first_all_cons, first_alt, first_set_cons, first_empty]
  simp only [all, first_look, lineEnd_holds, List.head?_cons, Option.all_some, beq_iff_eq,
    CharSet.mem_single]
  by_cases carriage : x = '\r'
  · subst carriage
    by_cases last : rest.head?.all (· == '\n') = true <;> simp [last]
  · simp [carriage]

theorem first_lineStop_nil (done : Text) (groups : List (Nat × Span)) :
    (all lineStop).first (.between done [] groups) some = some (.between done [] groups) :=
  rfl

theorem first_lineStop (carriage : cr = [] ∨ cr = ['\r']) (feed : lf = [] ∨ lf = ['\n'])
    (done : Text) (groups : List (Nat × Span)) :
    (all lineStop).first (.between done (cr ++ lf) groups) some =
      some (.between (done ++ cr) lf groups) := by
  rcases carriage with rfl | rfl
  · rcases feed with rfl | rfl
    · simp [first_lineStop_nil]
    · simp [first_lineStop_cons]
  · rcases feed with rfl | rfl
    · simp [first_lineStop_cons]
    · simp [first_lineStop_cons]

/-- The value ends where the line does, before a carriage return if there is one. -/
theorem first_valueToLineEnd (ends : EndsValue value cr lf) (done : Text)
    (groups : List (Nat × Span)) :
    valueToLineEnd.first (.between done (value ++ (cr ++ lf)) groups) some =
      some (.between (done ++ value ++ cr) lf
        ((2, ⟨Text.byteLength done, Text.byteLength (done ++ value)⟩) :: groups)) := by
  have parts : valueToLineEnd = all (.group 2 (fewest .notLineFeed) :: lineStop) := rfl
  rw [parts, first_all_cons, first_group]
  apply first_fewest_shortest (CharSet.forall_notLineFeed.mpr ends.oneLine)
  · exact first_lineStop (ends.carriage.imp_left And.left) ends.feed _ _
  · -- Behind a shorter value there is more of the line than a carriage return.
    intro v z whole filled
    obtain ⟨x, rest, rfl⟩ := List.exists_cons_of_ne_nil filled
    have line := ends.oneLine
    rw [whole] at line
    simp only [List.mem_append, List.mem_cons, not_or] at line
    obtain ⟨-, notFeed, restLine⟩ := line
    rw [Cursor.between_record, List.cons_append, first_lineStop_cons, if_neg, if_neg]
    · exact fun feed => notFeed feed.symm
    · intro given
      obtain ⟨rfl, last⟩ := given
      cases rest with
      | nil =>
        rcases ends.carriage with ⟨-, other⟩ | rfl
        · simp [whole] at other
        · simp at last
      | cons y rest =>
        have feed : y = '\n' := by simpa using last
        exact restLine (by simp [feed])

/-- Blanks as far as they go, and behind them a value up to the end of the line. -/
structure ValueBehind (space value cr lf : Text) : Prop extends EndsValue value cr lf where
  blank : Blanks space
  behind : ∀ c, value.head? = some c → ¬(c = ' ' ∨ c = '\t')

theorem exists_valueBehind {t : Text} (oneFeed : t.OneFeed) :
    ∃ space value cr lf, t = space ++ (value ++ (cr ++ lf)) ∧ ValueBehind space value cr lf := by
  let blank := fun c : Char => decide (c = ' ' ∨ c = '\t')
  have seam : t.takeWhile blank ++ t.dropWhile blank = t := List.takeWhile_append_dropWhile
  have left : Text.OneFeed (t.dropWhile blank) := by
    rw [← seam] at oneFeed
    exact oneFeed.right
  obtain ⟨value, cr, lf, whole, ends⟩ := exists_value left
  refine ⟨t.takeWhile blank, value, cr, lf, by rw [← whole, seam], ends, ?_, ?_⟩
  · intro c member
    exact of_decide_eq_true (List.mem_takeWhile_imp (p := blank) member)
  · intro c start
    have stops := List.head?_dropWhile_not blank t
    rw [whole, List.head?_append, start, Option.some_or] at stops
    simpa [blank] using stops

theorem ValueBehind.past (parts : ValueBehind space value cr lf) (c : Char)
    (start : (value ++ (cr ++ lf)).head? = some c) : ¬CharSet.blank.mem c = true := by
  intro fits
  have blank := CharSet.mem_blank.mp fits
  rw [List.head?_append] at start
  cases first : value.head? with
  | some x =>
    obtain rfl : x = c := by simpa [first] using start
    exact parts.behind x first blank
  | none =>
    rw [first, Option.none_or] at start
    rcases parts.carriage with ⟨rfl, -⟩ | rfl
    · rcases parts.feed with rfl | rfl
      · simp at start
      · obtain rfl : '\n' = c := by simpa using start
        simp at blank
    · obtain rfl : '\r' = c := by simpa using start
      simp at blank

theorem ValueBehind.mem_blank (parts : ValueBehind space value cr lf) :
    ∀ c ∈ space, CharSet.blank.mem c = true :=
  fun c member => CharSet.mem_blank.mpr (parts.blank c member)

theorem ValueBehind.keepsLine {head other : Text} (parts : ValueBehind space value cr lf)
    (oneFeed : Text.OneFeed (head ++ (space ++ (value ++ (cr ++ lf))))) (front : '\n' ∉ head)
    (filled : head ≠ []) (clean : '\n' ∉ other) :
    KeepsLine (head ++ (space ++ (value ++ (cr ++ lf))))
      (head ++ (space ++ (other ++ (cr ++ lf)))) := by
  have seam (t : Text) :
      head ++ (space ++ (t ++ (cr ++ lf))) = head ++ space ++ t ++ (cr ++ lf) := by
    simp
  have blank : '\n' ∉ space := fun member => absurd (parts.blank _ member) (by decide)
  rw [seam] at oneFeed
  rw [seam, seam]
  apply keepsLine_replace oneFeed _ parts.oneLine clean
  · simp [filled]
  · simp [front, blank]

def valueFound (done space value cr lf : Text) (groups : List (Nat × Span)) : Cursor :=
  .between (done ++ space ++ value ++ cr) lf
    ((2, ⟨Text.byteLength (done ++ space), Text.byteLength (done ++ space ++ value)⟩) :: groups)

theorem first_blanks_value (parts : ValueBehind space value cr lf) (done : Text)
    (groups : List (Nat × Span)) :
    (all [blanks, valueToLineEnd]).first
        (.between done (space ++ (value ++ (cr ++ lf))) groups) some =
      some (valueFound done space value cr lf groups) := by
  rw [first_all_cons]
  refine first_many_run parts.mem_blank parts.past ?_
  exact first_valueToLineEnd parts.toEndsValue _ _

theorem first_blanks1_value (parts : ValueBehind space value cr lf) (done : Text)
    (groups : List (Nat × Span)) :
    (all [blanks1, valueToLineEnd]).first
        (.between done (space ++ (value ++ (cr ++ lf))) groups) some =
      if space = [] then none else some (valueFound done space value cr lf groups) := by
  rw [first_all_cons]
  split
  · rename_i none
    rw [none, List.nil_append]
    exact first_many1_none parts.past
  · rename_i filled
    refine first_many1_run filled parts.mem_blank parts.past ?_
    exact first_valueToLineEnd parts.toEndsValue _ _

theorem text_groupNumbers (w : Text) : (text w).groupNumbers = [] :=
  groupNumbers_of_plain (plain_text w)

theorem textAnyCase_groupNumbers (w : Text) : (textAnyCase w).groupNumbers = [] :=
  groupNumbers_of_plain (plain_textAnyCase w)

theorem valueToLineEnd_simple : valueToLineEnd.Simple :=
  ⟨trivial, ⟨trivial, trivial⟩, trivial⟩

section Replace

def withValueIn (m : Matcher) (value : Text) (line : Line) : Line :=
  match m.find? line with
  | none => line
  | some found => Handler.withValue (.captures found) line value

theorem evaluate_regex (m : Matcher) (line : Line) :
    (Pattern.regex m).evaluate (some line) =
      ⟨((m.find? line).map .captures).getD .miss, .regex m, []⟩ := by
  simp only [Pattern.evaluate, Option.bind_some]
  cases m.find? line with
  | none => rfl
  | some found => rfl

theorem regex_hit (m : Matcher) (line : Line) :
    ((Pattern.regex m).evaluate (some line)).report.isHit = (m.find? line).isSome := by
  rw [evaluate_regex]
  cases m.find? line with
  | none => rfl
  | some found => rfl

theorem replaceValue_edits {m n : Matcher} (finds : m.find? = n.find?) (value : Text) :
    (Action.orPrint (.regex m) (.replaceValue value)).Edits fun line =>
      [withValueIn n value line] := by
  intro state line
  rw [Action.apply_orPrint, evaluate_regex, finds]
  simp only [withValueIn]
  cases n.find? line with
  | none => exact ⟨_, _, rfl, rfl⟩
  | some found => exact ⟨_, _, rfl, rfl⟩

theorem withValueIn_found {m : Matcher} {found : Captures} {a old b : Text}
    (search : m.find? line = some found) (parts : line = a ++ old ++ b)
    (span : found.namedSpan? valueName =
      some ⟨Text.byteLength a, Text.byteLength (a ++ old)⟩) (value : Text) :
    withValueIn m value line = a ++ value ++ b := by
  simp only [withValueIn, search, Handler.withValue, Match.captures?, Option.bind_some, span]
  rw [parts]
  exact Text.splice_append a old b value

end Replace

section Tag

def tagParts (name : Text) : List Regex :=
  [.group 1 (textAnyCase name), text ":", blanks, valueToLineEnd]

def tagMatcher (name : Text) : Matcher :=
  ⟨all (.look .lineStart :: tagParts name), [("key", 1), (valueName, 2)]⟩

/-- A line of a tag: its name, a colon, blanks, and a value up to the end of the line. -/
structure TagLine (name line key space value cr lf : Text) : Prop
    extends ValueBehind space value cr lf where
  parts : line = key ++ (":" ++ (space ++ (value ++ (cr ++ lf))))
  named : SameFold key name

def StartsTag (name line : Text) : Prop :=
  ∃ key, SameFold key name ∧ key ++ (":" : Text) <+: line

theorem StartsTag.head_fold (starts : StartsTag name line) (filled : name ≠ []) :
    line.head?.map Unicode.fold = name.head?.map Unicode.fold := by
  obtain ⟨key, named, rest, rfl⟩ := starts
  have keyed : key ≠ [] := by
    rintro rfl
    exact filled (List.map_eq_nil_iff.mp named.symm)
  rw [← named.head_fold, List.append_assoc, List.head?_append_of_ne_nil _ keyed]

theorem closed_tag (plain : '\n' ∉ name) :
    Closed (name ++ (": 1\n" : Text)) ∧ StartsTag name (name ++ (": 1\n" : Text)) := by
  have front : '\n' ∉ name ++ (": 1" : Text) := by
    rw [List.mem_append, not_or]
    exact ⟨plain, by decide⟩
  have closed := Text.closed_feed front
  rw [List.append_assoc] at closed
  exact ⟨closed, name, rfl, (List.prefix_append_right_inj name).mpr ⟨" 1\n", rfl⟩⟩

theorem StartsTag.parts (starts : StartsTag name line) (oneFeed : line.OneFeed) :
    ∃ key space value cr lf, TagLine name line key space value cr lf := by
  obtain ⟨key, named, rest, rfl⟩ := starts
  obtain ⟨space, value, cr, lf, rfl, behind⟩ := exists_valueBehind oneFeed.right
  exact ⟨key, space, value, cr, lf, behind, List.append_assoc .., named⟩

def tagFound (key space value cr lf : Text) : Cursor :=
  valueFound (key ++ ":") space value cr lf [(1, ⟨0, Text.byteLength key⟩)]

theorem tagParts_simple (name : Text) : ∀ r ∈ tagParts name, r.Simple := by
  intro r member
  simp only [tagParts, List.mem_cons, List.not_mem_nil, or_false] at member
  rcases member with rfl | rfl | rfl | rfl
  · exact simple_of_plain (r := textAnyCase name) (plain_textAnyCase name)
  · exact simple_of_plain (plain_text _)
  · trivial
  · exact valueToLineEnd_simple

theorem first_tagParts_none {t : Text} (other : ¬StartsTag name t) (done : Text)
    (groups : List (Nat × Span)) :
    (all (tagParts name)).first (.between done t groups) some = none := by
  rw [tagParts, first_all_cons, first_group]
  apply first_eq_none.mpr
  intro d member
  obtain ⟨key, rest, rfl, taken, rfl⟩ := (mem_ways (plain_textAnyCase name)).mp member
  rw [Cursor.between_record, first_all_cons]
  refine first_text_none fun colon => other ⟨key, takes_textAnyCase.mp taken, ?_⟩
  exact (List.prefix_append_right_inj key).mpr colon

theorem find_tagMatcher (oneFeed : line.OneFeed) :
    (tagMatcher name).find? line =
      ((all (tagParts name)).first (.between [] line []) some).map
        ((tagMatcher name).captured line 0) := by
  apply Matcher.find_line _ (tagParts_simple name) oneFeed
  intro done
  apply first_tagParts_none
  intro starts
  obtain ⟨key, -, none⟩ := starts
  simp at none

theorem find_tag_none (other : ¬StartsTag name line) (oneFeed : line.OneFeed) :
    (tagMatcher name).find? line = none := by
  rw [find_tagMatcher oneFeed, first_tagParts_none other]
  rfl

theorem find_tag (tagLine : TagLine name line key space value cr lf) (oneFeed : line.OneFeed) :
    (tagMatcher name).find? line =
      some ((tagMatcher name).captured line 0 (tagFound key space value cr lf)) := by
  have way : (all (tagParts name)).first (.between [] line []) some =
      some (tagFound key space value cr lf) := by
    rw [tagLine.parts, tagParts, first_all_cons, first_group, first_textAnyCase tagLine.named,
      Cursor.between_record, first_all_cons, first_text]
    exact first_blanks_value tagLine.toValueBehind _ _
  rw [find_tagMatcher oneFeed, way]
  rfl

theorem tagMatcher_groupCount (name : Text) : (tagMatcher name).groupCount = 3 := by
  simp [Matcher.groupCount, tagMatcher, tagParts, all, groupNumbers, textAnyCase_groupNumbers,
    text_groupNumbers, blanks, many, valueToLineEnd, fewest]

theorem tagFound_named (tagLine : TagLine name line key space value cr lf) :
    ((tagMatcher name).captured line 0 (tagFound key space value cr lf)).named? valueName =
        some value ∧
      ((tagMatcher name).captured line 0 (tagFound key space value cr lf)).namedSpan? valueName =
        some ⟨Text.byteLength (key ++ ":" ++ space),
          Text.byteLength (key ++ ":" ++ space ++ value)⟩ := by
  have span : ((tagMatcher name).captured line 0 (tagFound key space value cr lf)).span? 2 =
      some ⟨Text.byteLength (key ++ ":" ++ space),
        Text.byteLength (key ++ ":" ++ space ++ value)⟩ :=
    Matcher.captured_span _ _ _ _ (by decide) (by rw [tagMatcher_groupCount]; decide)
  refine ⟨Captures.get_span (c := cr ++ lf) span ?_, span⟩
  simp [Matcher.captured, tagLine.parts]

theorem withValueIn_tag (tagLine : TagLine name line key space value cr lf)
    (oneFeed : line.OneFeed) (other : Text) :
    withValueIn (tagMatcher name) other line =
      key ++ (":" ++ (space ++ (other ++ (cr ++ lf)))) := by
  rw [withValueIn_found (find_tag tagLine oneFeed) (b := cr ++ lf) (by simp [tagLine.parts])
    (tagFound_named tagLine).2]
  simp

theorem StartsTag.written (starts : StartsTag name line) (oneFeed : line.OneFeed) (other : Text) :
    StartsTag name (withValueIn (tagMatcher name) other line) := by
  obtain ⟨key, space, value, cr, lf, tagLine⟩ := starts.parts oneFeed
  rw [withValueIn_tag tagLine oneFeed]
  exact ⟨key, tagLine.named, _, List.append_assoc ..⟩

theorem withValueIn_no_tag (absent : ¬StartsTag name line) (oneFeed : line.OneFeed)
    (other : Text) : withValueIn (tagMatcher name) other line = line := by
  rw [withValueIn, find_tag_none absent oneFeed]

theorem withValueIn_tag_keeps (filled : line ≠ []) (oneFeed : line.OneFeed) {other : Text}
    (clean : '\n' ∉ other) : KeepsLine line (withValueIn (tagMatcher name) other line) := by
  by_cases starts : StartsTag name line
  · obtain ⟨key, space, value, cr, lf, tagLine⟩ := starts.parts oneFeed
    have seam (t : Text) : key ++ (":" ++ t) = key ++ ":" ++ t := (List.append_assoc ..).symm
    rw [withValueIn_tag tagLine oneFeed]
    rw [tagLine.parts] at oneFeed ⊢
    have front : '\n' ∉ key := oneFeed.left (by simp)
    rw [seam] at oneFeed
    rw [seam, seam]
    exact tagLine.keepsLine oneFeed (by simp [front]) (by simp) clean
  · rw [withValueIn_no_tag starts oneFeed]
    exact .refl filled oneFeed

theorem oneFeed_written (oneFeed : line.OneFeed) {other : Text} (clean : '\n' ∉ other) :
    (withValueIn (tagMatcher name) other line).OneFeed := by
  by_cases filled : line = []
  · have absent : ¬StartsTag name line := by
      intro starts
      obtain ⟨key, -, front⟩ := starts
      simp [filled] at front
    rw [withValueIn_no_tag absent oneFeed]
    exact oneFeed
  · exact (withValueIn_tag_keeps filled oneFeed clean).oneFeed

def valueIn? (name : Text) (line : Line) : Option Text :=
  capturedValue? (.regex (tagMatcher name)) line

theorem valueIn_tag (tagLine : TagLine name line key space value cr lf)
    (oneFeed : line.OneFeed) : valueIn? name line = some value := by
  rw [valueIn?, capturedValue?, evaluate_regex, find_tag tagLine oneFeed]
  exact (tagFound_named tagLine).1

theorem valueIn_no_tag (absent : ¬StartsTag name line) (oneFeed : line.OneFeed) :
    valueIn? name line = none := by
  rw [valueIn?, capturedValue?, evaluate_regex, find_tag_none absent oneFeed]
  rfl

theorem valueIn_eq_none (oneFeed : line.OneFeed) :
    valueIn? name line = none ↔ ¬StartsTag name line := by
  constructor
  · intro none starts
    obtain ⟨key, space, value, cr, lf, tagLine⟩ := starts.parts oneFeed
    rw [valueIn_tag tagLine oneFeed] at none
    simp at none
  · exact fun absent => valueIn_no_tag absent oneFeed

theorem valueIn_plain (oneFeed : line.OneFeed) (given : valueIn? name line = some value) :
    '\n' ∉ value := by
  by_cases starts : StartsTag name line
  · obtain ⟨key, space, found, cr, lf, tagLine⟩ := starts.parts oneFeed
    rw [valueIn_tag tagLine oneFeed, Option.some.injEq] at given
    rw [← given]
    exact tagLine.oneLine
  · rw [valueIn_no_tag starts oneFeed] at given
    simp at given

end Tag

section Macro

variable {gap : Text}

def macroParts (name : Text) : List Regex :=
  [text "%global", blanks1, .group 1 (text name), blanks1, valueToLineEnd]

def macroMatcher (name : Text) : Matcher :=
  ⟨all (.look .lineStart :: macroParts name), [("key", 1), (valueName, 2)]⟩

/-- A line of a global macro: its name between blanks, and a value up to the end of the line. -/
structure MacroLine (name line gap space value cr lf : Text) : Prop
    extends ValueBehind space value cr lf where
  parts : line = "%global" ++ (gap ++ (name ++ (space ++ (value ++ (cr ++ lf)))))
  gapped : Blanks gap ∧ gap ≠ []
  spaced : space ≠ []

theorem macroParts_simple (name : Text) : ∀ r ∈ macroParts name, r.Simple := by
  intro r member
  simp only [macroParts, List.mem_cons, List.not_mem_nil, or_false] at member
  rcases member with rfl | rfl | rfl | rfl | rfl
  · exact simple_of_plain (plain_text _)
  · exact ⟨trivial, trivial⟩
  · exact simple_of_plain (r := text name) (plain_text name)
  · exact ⟨trivial, trivial⟩
  · exact valueToLineEnd_simple

theorem macroMatcher_groupCount (name : Text) : (macroMatcher name).groupCount = 3 := by
  simp [Matcher.groupCount, macroMatcher, macroParts, all, groupNumbers, text_groupNumbers,
    blanks1, many1, many, valueToLineEnd, fewest]

def macroFound (name gap space value cr lf : Text) : Cursor :=
  valueFound ("%global" ++ gap ++ name) space value cr lf
    [(1, ⟨Text.byteLength ("%global" ++ gap), Text.byteLength ("%global" ++ gap ++ name)⟩)]

theorem first_behind_gap {done t : Text} {groups : List (Nat × Span)} {d : Cursor}
    (oneFeed : t.OneFeed)
    (goes : (all [.group 1 (text name), blanks1, valueToLineEnd]).first
      (.between done t groups) some = some d) :
    ∃ space value cr lf, t = name ++ (space ++ (value ++ (cr ++ lf))) ∧
      ValueBehind space value cr lf ∧ space ≠ [] ∧
      d = valueFound (done ++ name) space value cr lf
        ((1, ⟨Text.byteLength done, Text.byteLength (done ++ name)⟩) :: groups) := by
  rw [first_all_cons, first_group] at goes
  by_cases named : name <+: t
  · obtain ⟨t, rfl⟩ := named
    obtain ⟨space, value, cr, lf, rfl, behind⟩ := exists_valueBehind oneFeed.right
    rw [first_text, Cursor.between_record, first_blanks1_value behind] at goes
    split at goes
    · simp at goes
    · rename_i spaced
      exact ⟨space, value, cr, lf, rfl, behind, spaced, (Option.some.inj goes).symm⟩
  · rw [first_text_none named] at goes
    simp at goes

theorem macroLine_of_first (oneFeed : line.OneFeed) {d : Cursor}
    (goes : (all (macroParts name)).first (.between [] line []) some = some d) :
    ∃ gap space value cr lf, MacroLine name line gap space value cr lf ∧
      d = macroFound name gap space value cr lf := by
  rw [macroParts, first_all_cons] at goes
  by_cases keyword : ("%global" : Text) <+: line
  · obtain ⟨t, rfl⟩ := keyword
    rw [first_text, first_all_cons] at goes
    obtain ⟨e, member, goes⟩ := List.exists_of_findSome?_eq_some goes
    obtain ⟨gap, t, rfl, taken, rfl⟩ := (mem_ways (r := blanks1) ⟨trivial, trivial⟩).mp member
    obtain ⟨space, value, cr, lf, rfl, behind, spaced, found⟩ :=
      first_behind_gap oneFeed.right.right goes
    exact ⟨gap, space, value, cr, lf, ⟨behind, rfl, takes_blanks1.mp taken, spaced⟩, found⟩
  · rw [first_text_none keyword] at goes
    simp at goes

theorem find_macroMatcher (oneFeed : line.OneFeed) :
    (macroMatcher name).find? line =
      ((all (macroParts name)).first (.between [] line []) some).map
        ((macroMatcher name).captured line 0) := by
  apply Matcher.find_line _ (macroParts_simple name) oneFeed
  intro done
  rw [macroParts, first_all_cons]
  exact first_text_none (by decide)

theorem withValueIn_macroFound (macroLine : MacroLine name line gap space value cr lf)
    (search : (macroMatcher name).find? line =
      some ((macroMatcher name).captured line 0 (macroFound name gap space value cr lf)))
    (other : Text) :
    withValueIn (macroMatcher name) other line =
      "%global" ++ (gap ++ (name ++ (space ++ (other ++ (cr ++ lf))))) := by
  have parts : line = "%global" ++ gap ++ name ++ space ++ value ++ (cr ++ lf) := by
    simp [macroLine.parts]
  rw [withValueIn_found search parts]
  · simp
  · exact Matcher.captured_span _ _ _ _ (by decide) (by rw [macroMatcher_groupCount]; decide)

theorem withValueIn_macro (oneFeed : line.OneFeed) (other : Text) :
    withValueIn (macroMatcher name) other line = line ∨
      ∃ gap space value cr lf, MacroLine name line gap space value cr lf ∧
        withValueIn (macroMatcher name) other line =
          "%global" ++ (gap ++ (name ++ (space ++ (other ++ (cr ++ lf))))) := by
  have search : (macroMatcher name).find? line = _ := find_macroMatcher oneFeed
  cases goes : (all (macroParts name)).first (.between [] line []) some with
  | none =>
    left
    rw [withValueIn, search, goes]
    rfl
  | some d =>
    obtain ⟨gap, space, value, cr, lf, macroLine, rfl⟩ := macroLine_of_first oneFeed goes
    rw [goes] at search
    exact .inr ⟨gap, space, value, cr, lf, macroLine, withValueIn_macroFound macroLine search other⟩

theorem withValueIn_macro_keeps (filled : line ≠ []) (oneFeed : line.OneFeed) {other : Text}
    (clean : '\n' ∉ other) : KeepsLine line (withValueIn (macroMatcher name) other line) := by
  rcases withValueIn_macro oneFeed other with same | ⟨gap, space, value, cr, lf, macroLine, made⟩
  · rw [same]
    exact .refl filled oneFeed
  · have seam (t : Text) : "%global" ++ (gap ++ (name ++ t)) = "%global" ++ gap ++ name ++ t := by
      simp
    rw [made]
    rw [macroLine.parts, seam] at oneFeed ⊢
    rw [seam]
    have front := oneFeed.left (List.append_ne_nil_of_left_ne_nil macroLine.spaced _)
    exact macroLine.keepsLine oneFeed front (by simp) clean

end Macro

end LineRules.Spec
