import LineRules.Proofs.LineEdit
import LineRules.Proofs.Release.Schemes
import LineRules.Proofs.Spec.ReleaseField
import LineRules.Spec.Edit

namespace LineRules.Spec

open Regex Decimal

theorem first_spaceToEnd {done w : Text} {groups : List (Nat × Span)} (space : w.AllSpace) :
    (all [many .space, .look .textEnd]).first (.between done w groups) some =
      some (.between (done ++ w) [] groups) := by
  have whole := List.append_nil w
  rw [first_all_cons, ← whole]
  refine first_many_run (fun c member => (CharSet.mem_space).trans (space c member)) (by simp) ?_
  rw [whole, all, first_look]
  rfl

theorem space_of_first {done t : Text} {groups : List (Nat × Span)}
    (goes : (all [many .space, .look .textEnd]).first (.between done t groups) some ≠ none) :
    t.AllSpace := by
  by_contra other
  refine goes ?_
  rw [first_all_cons]
  apply first_many_none.mpr
  intro u v whole all
  rw [Regex.all, first_look, if_neg]
  intro past
  have empty : v = [] := List.isEmpty_iff.mp past
  apply other
  intro c member
  rw [whole, empty, List.append_nil] at member
  exact CharSet.mem_space.symm.trans (all c member)

theorem ReleaseFirst.numeral_first {r w : Text} (release : ReleaseFirst r w) :
    ∃ d u, r = d ++ u ∧ d ≠ [] ∧ AllDigits d ∧
      ∀ c, (u ++ w).head? = some c → ¬IsDigit c := by
  obtain ⟨c, start, digit⟩ := release.starts
  have parts := Release.leadingDigits_append r
  refine ⟨_, _, parts.symm, ?_, Release.leadingDigits_allDigits r, ?_⟩
  · intro none
    rw [none, List.nil_append] at parts
    exact Release.afterDigits_head (t := r) (by rw [parts, start]) digit
  · intro c first digit
    cases rest : Release.afterDigits r with
    | nil =>
      rw [rest, List.nil_append] at first
      have space := release.onlySpace c (List.mem_of_head? first)
      rw [digit_not_space digit] at space
      simp at space
    | cons x u =>
      rw [rest, List.cons_append, List.head?_cons] at first
      exact Release.afterDigits_head (t := r) (by rw [rest, List.head?_cons, first]) digit

theorem first_releaseToEnd {done r w : Text} {groups : List (Nat × Span)}
    (release : ReleaseFirst r w) :
    releaseToEnd.first (.between done (r ++ w) groups) some =
      some (.between (done ++ r ++ w) []
        ((1, ⟨Text.byteLength done, Text.byteLength (done ++ r)⟩) :: groups)) := by
  obtain ⟨d, u, rfl, filled, digits, past⟩ := release.numeral_first
  rw [releaseToEnd, first_all_cons, first_group, first_seq, List.append_assoc]
  apply first_many1_run filled (Release.digit_mem digits)
  · intro c first fits
    exact past c first (CharSet.mem_asciiDigit.mp fits)
  have line : '\n' ∉ u := fun member => release.oneLine (List.mem_append_right d member)
  apply first_fewest_shortest (CharSet.forall_notLineFeed.mpr line)
  · rw [Cursor.between_record, first_spaceToEnd release.onlySpace]
    simp
    rfl
  · -- A shorter release would leave its last character to the white space.
    intro v z whole more
    by_contra goes
    rw [Cursor.between_record] at goes
    have space := space_of_first goes (z.getLast more)
      (List.mem_append_left w (List.getLast_mem more))
    have last : (d ++ u).getLast? = some (z.getLast more) := by
      rw [whole, ← List.append_assoc, List.getLast?_append_of_ne_nil _ more,
        List.getLast?_eq_some_getLast more]
    rw [release.trimmed _ last] at space
    simp at space

theorem releaseFirst_of_first {done t : Text} {groups : List (Nat × Span)}
    (goes : releaseToEnd.first (.between done t groups) some ≠ none) :
    ∃ r w, t = r ++ w ∧ ReleaseFirst r w := by
  by_contra other
  refine goes ?_
  rw [releaseToEnd, first_all_cons, first_group]
  apply first_eq_none.mpr
  intro d member
  have plain : (Regex.seq (many1 .asciiDigit) (fewest .notLineFeed)).Plain :=
    ⟨⟨trivial, trivial⟩, trivial⟩
  obtain ⟨-, v, rfl, ⟨d, u, rfl, taken, line⟩, rfl⟩ := (mem_ways plain).mp member
  obtain ⟨filled, digits⟩ := takes_many1.mp taken
  by_contra more
  rw [Cursor.between_record] at more
  have space := space_of_first more
  obtain ⟨w, spaceToo, whole⟩ := Text.trimEnd_add_space (d ++ u)
  refine other ⟨(d ++ u).trimEnd, w ++ v, by rw [← List.append_assoc, ← whole], ?_, ?_, ?_, ?_⟩
  · obtain ⟨c, rest, rfl⟩ := List.exists_cons_of_ne_nil filled
    have digit := CharSet.mem_asciiDigit.mp (digits c List.mem_cons_self)
    refine ⟨c, ?_, digit⟩
    cases start : Text.trimEnd (c :: rest ++ u) with
    | nil =>
      have white := Text.trimEnd_eq_nil.mp start c List.mem_cons_self
      rw [digit_not_space digit] at white
      simp at white
    | cons x y =>
      rw [start] at whole
      exact congrArg _ (List.cons.inj whole).1.symm
  · intro member
    rcases List.mem_append.mp ((Text.trimEnd_prefix _).subset member) with one | two
    · exact absurd (CharSet.mem_asciiDigit.mp (digits _ one)) (by decide)
    · exact CharSet.forall_notLineFeed.mp line two
  · exact Text.trimEnd_trimmed _
  · exact fun c member => (List.mem_append.mp member).elim (spaceToo c) (space c)

def formMatcher (form : FieldForm) : Matcher :=
  ⟨all (.look .textStart :: form.shape ++ [releaseToEnd]), [(releaseName, 1)]⟩

theorem releaseFields_regex :
    releaseFields = (FieldForm.every.map formMatcher).map .regex :=
  rfl

theorem formMatcher_simple (form : FieldForm) :
    ∀ r ∈ form.shape ++ [releaseToEnd], r.Simple := by
  intro r member
  rcases List.mem_append.mp member with inside | last
  · exact simple_of_plain (shape_plain form r inside)
  · rw [List.mem_singleton.mp last]
    exact ⟨⟨⟨trivial, trivial⟩, trivial⟩, trivial, trivial⟩

theorem formMatcher_groupCount (form : FieldForm) : (formMatcher form).groupCount = 2 := by
  cases form <;> rfl

theorem find_formMatcher (form : FieldForm) (line : Line) :
    (formMatcher form).find? line =
      ((all form.shape).first (.between [] line []) fun d => releaseToEnd.first d some).map
        ((formMatcher form).captured line 0) := by
  have search := Matcher.find_textStart [(releaseName, 1)] line (formMatcher_simple form)
  rw [first_all_append, Cursor.start_between] at search
  exact search

def releaseFound (h r w : Text) : Cursor :=
  .between (h ++ r ++ w) [] [(1, ⟨Text.byteLength h, Text.byteLength (h ++ r)⟩)]

theorem find_of_fits {form : FieldForm} {line : Line} {h r w : Text}
    (fits : Fits form line h r w) :
    (formMatcher form).find? line =
      some ((formMatcher form).captured line 0 (releaseFound h r w)) := by
  have plain := plain_all (shape_plain form)
  have seam : line = h ++ (r ++ w) := by rw [fits.parts, List.append_assoc]
  rw [find_formMatcher]
  refine congrArg _ (first_of_agree (d := .between h (r ++ w) []) ?_ ?_ ?_)
  · exact (mem_ways plain).mpr ⟨h, r ++ w, seam, takes_shape.mpr fits.isHead, rfl⟩
  · exact first_releaseToEnd fits.toReleaseFirst
  · -- However the head may be matched, only one way leaves a release behind it.
    intro e member z gives
    obtain ⟨g, t, whole, taken, rfl⟩ := (mem_ways plain).mp member
    have goes : releaseToEnd.first (.between ([] ++ g) t []) some ≠ none := by
      rw [gives]
      simp
    obtain ⟨s, v, rfl, release⟩ := releaseFirst_of_first goes
    have too : Fits form line g s v :=
      ⟨release, by rw [whole, List.append_assoc], takes_shape.mp taken⟩
    obtain ⟨-, rfl, rfl, rfl⟩ := fits_unique fits too
    rw [List.nil_append, first_releaseToEnd release] at gives
    exact (Option.some.inj gives).symm

theorem fits_of_find {form : FieldForm} {line : Line}
    (found : (formMatcher form).find? line ≠ none) : ∃ h r w, Fits form line h r w := by
  by_contra other
  refine found ?_
  rw [find_formMatcher, Option.map_eq_none_iff]
  apply first_eq_none.mpr
  intro d member
  obtain ⟨h, t, whole, taken, rfl⟩ := (mem_ways (plain_all (shape_plain form))).mp member
  by_contra goes
  obtain ⟨r, w, rfl, release⟩ := releaseFirst_of_first goes
  exact other ⟨h, r, w, release, by rw [whole, List.append_assoc], takes_shape.mp taken⟩

theorem evaluateFirst_regex (line : Line) (ms : List Matcher) :
    Pattern.evaluateFirst (some line) (ms.map .regex) =
      ⟨((ms.findSome? (·.find? line)).map .captures).getD .miss, ms.map .regex, []⟩ := by
  induction ms with
  | nil => rfl
  | cons m ms ih =>
    simp only [List.map_cons, Pattern.evaluateFirst, Pattern.evaluate, Option.bind_some,
      List.findSome?_cons, ih]
    cases m.find? line with
    | none => rfl
    | some found => rfl

def releaseIn (line : Line) : Option Captures :=
  if line.contains "$Revision:" then none
  else (FieldForm.every.map formMatcher).findSome? (·.find? line)

theorem evaluate_bumpableField (line : Line) :
    bumpableField.evaluate (some line) =
      ⟨((releaseIn line).map .captures).getD .miss, bumpableField, []⟩ := by
  have first := evaluateFirst_regex line (FieldForm.every.map formMatcher)
  rw [← releaseFields_regex] at first
  have keyword := Matcher.find_text "$Revision:" [] line
  simp only [bumpableField, releaseField, Pattern.evaluate, Option.bind_some, releaseIn, first]
  cases found : (⟨text "$Revision:", []⟩ : Matcher).find? line with
  | none =>
    rw [found, Option.isSome_none] at keyword
    rw [← keyword]
    rfl
  | some c =>
    rw [found, Option.isSome_some] at keyword
    rw [← keyword]
    rfl

theorem releaseIn_fits {form : FieldForm} {line : Line} {h r w : Text}
    (clear : ¬("$Revision:" : Text) <:+: line) (fits : Fits form line h r w) :
    ∃ f, releaseIn line = some ((formMatcher f).captured line 0 (releaseFound h r w)) := by
  have keyword : ¬line.contains "$Revision:" = true := fun inside =>
    clear ((Text.contains_iff _ _).mp inside)
  rw [releaseIn, if_neg keyword]
  cases found : (FieldForm.every.map formMatcher).findSome? (·.find? line) with
  | none =>
    have none := List.findSome?_eq_none_iff.mp found (formMatcher form)
      (List.mem_map_of_mem form.mem_every)
    rw [find_of_fits fits] at none
    simp at none
  | some c =>
    obtain ⟨m, member, gives⟩ := List.exists_of_findSome?_eq_some found
    obtain ⟨other, -, rfl⟩ := List.mem_map.mp member
    have goes : (formMatcher other).find? line ≠ none := by
      rw [gives]
      simp
    obtain ⟨g, s, v, too⟩ := fits_of_find goes
    obtain ⟨rfl, rfl, rfl, rfl⟩ := fits_unique fits too
    rw [find_of_fits fits] at gives
    exact ⟨form, gives.symm⟩

theorem releaseIn_none {line : Line}
    (other : ("$Revision:" : Text) <:+: line ∨ ¬∃ form h r w, Fits form line h r w) :
    releaseIn line = none := by
  rw [releaseIn]
  split
  · rfl
  · rename_i clear
    refine List.findSome?_eq_none_iff.mpr fun m member => ?_
    obtain ⟨form, -, rfl⟩ := List.mem_map.mp member
    by_contra goes
    rcases other with keyword | unfit
    · exact clear ((Text.contains_iff _ _).mpr keyword)
    · exact unfit ⟨form, fits_of_find goes⟩

def bumpedLine (rightmost : Bool) (line : Line) : Line :=
  match releaseIn line with
  | none => line
  | some found => Handler.withBump (.captures found) line rightmost

theorem bumpAction_edits (rightmost : Bool) :
    (bumpAction rightmost).Edits fun line => [bumpedLine rightmost line] := by
  intro state line
  rw [bumpAction, Action.apply_orPrint, evaluate_bumpableField]
  simp only [bumpedLine]
  cases releaseIn line with
  | none => exact ⟨_, _, rfl, rfl⟩
  | some found => exact ⟨_, _, rfl, rfl⟩

theorem bumpLines_map (options : Options) (lines : List Line) :
    bumpLines options lines = lines.map (bumpedLine options.rightmost) := by
  have edited := Run.exhaust_edits (bumpAction_edits options.rightmost)
    (Action.everyLine_orPrint _ _) options lines
  rw [bumpLines, bump, edited]
  exact List.map_eq_flatMap.symm

theorem releaseFound_named (form : FieldForm) {line : Line} {h r w : Text}
    (parts : line = h ++ r ++ w) :
    ((formMatcher form).captured line 0 (releaseFound h r w)).named? releaseName = some r ∧
      ((formMatcher form).captured line 0 (releaseFound h r w)).namedSpan? releaseName =
        some ⟨Text.byteLength h, Text.byteLength (h ++ r)⟩ := by
  have span : ((formMatcher form).captured line 0 (releaseFound h r w)).span? 1 =
      some ⟨Text.byteLength h, Text.byteLength (h ++ r)⟩ :=
    Matcher.captured_span _ _ _ _ (by decide) (by rw [formMatcher_groupCount]; decide)
  exact ⟨Captures.get_span span parts, span⟩

theorem bumpedLine_fits {rightmost : Bool} {form : FieldForm} {line : Line} {h r w : Text}
    (clear : ¬("$Revision:" : Text) <:+: line) (fits : Fits form line h r w) :
    bumpedLine rightmost line = h ++ Release.increase r rightmost ++ w := by
  obtain ⟨f, found⟩ := releaseIn_fits clear fits
  obtain ⟨named, span⟩ := releaseFound_named f fits.parts
  simp only [bumpedLine, found, Handler.withBump, Match.captures?, named, span]
  rw [fits.parts]
  exact Text.splice_append h r w _

/-- Bumping works on each line by itself. In a line that a form fits and that no keyword of version
control stands in, the release is bumped between its head and the white space behind it; every other
line stays. No line has two forms, or two releases of one form. -/
theorem bump_rewrites_release_fields (options : Options) :
    ∃ step : Line → Line, (∀ lines, bumpLines options lines = lines.map step) ∧
      (∀ line, ¬("$Revision:" : Text) <:+: line →
        ∀ form head release space, Fits form line head release space →
          step line = head ++ Release.increase release options.rightmost ++ space) ∧
      (∀ line, (("$Revision:" : Text) <:+: line ∨
          ¬∃ form head release space, Fits form line head release space) → step line = line) ∧
      ∀ line form head release space other head' release' space',
        Fits form line head release space → Fits other line head' release' space' →
          form = other ∧ head = head' ∧ release = release' ∧ space = space' := by
  refine ⟨bumpedLine options.rightmost, bumpLines_map options, ?_, ?_, ?_⟩
  · exact fun line clear form h r w fits => bumpedLine_fits clear fits
  · intro line other
    simp only [bumpedLine, releaseIn_none other]
  · exact fun line form h r w other g s v fits too => fits_unique fits too

end LineRules.Spec
