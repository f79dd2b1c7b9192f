import LineRules.Proofs.Captures
import LineRules.Proofs.Decimal
import LineRules.Release

namespace LineRules.Release

open Regex Decimal

def leadingDigits (t : Text) : Text :=
  t.takeWhile (IsDigit ·)

def afterDigits (t : Text) : Text :=
  t.dropWhile (IsDigit ·)

def preReleaseMark (r : Text) : Text :=
  if r.startsWith "0." then "0." else []

def afterMark (r : Text) : Text :=
  r.drop (preReleaseMark r).length

def Marked (t : Text) : Prop :=
  ∃ a c b, IsDigit c ∧ t = a ++ c :: ("jpp." ++ b)

def Dotted (t : Text) : Prop :=
  ∃ x d, x ≠ [] ∧ d ≠ [] ∧ AllDigits d ∧ t = x ++ '.' :: d

def AfterLine (w : Text) : Prop :=
  ∀ c, w.head? = some c → c = '\n'

theorem afterLine_nil : AfterLine [] := by
  simp [AfterLine]

theorem prefix_of_line {part r w : Text} (clean : '\n' ∉ part) (stops : AfterLine w)
    (start : part <+: r ++ w) : part <+: r := by
  obtain ⟨rest, whole⟩ := start
  rcases List.append_eq_append_iff.mp whole with ⟨z, inside, -⟩ | ⟨z, longer, behind⟩
  · exact ⟨z, inside.symm⟩
  · cases z with
    | nil => exact ⟨[], by rw [longer, List.append_nil, List.append_nil]⟩
    | cons c z =>
      obtain rfl := stops c (by rw [behind]; rfl)
      exact absurd (by simp [longer]) clean

theorem leadingDigits_append (t : Text) : leadingDigits t ++ afterDigits t = t :=
  List.takeWhile_append_dropWhile

theorem leadingDigits_allDigits (t : Text) : AllDigits (leadingDigits t) :=
  fun _ member => of_decide_eq_true (List.mem_takeWhile_imp (p := (IsDigit ·)) member)

theorem afterDigits_head {t : Text} {c : Char} (start : (afterDigits t).head? = some c) :
    ¬IsDigit c := by
  have stops := List.head?_dropWhile_not (IsDigit ·) t
  rw [afterDigits] at start
  simpa [start] using stops

theorem digit_mem {d : Text} (digits : AllDigits d) :
    ∀ x ∈ d, CharSet.asciiDigit.mem x = true :=
  fun x member => CharSet.mem_asciiDigit.mpr (digits x member)

theorem numeral_plain : numeral.Plain := ⟨trivial, trivial⟩

theorem restOfLine_plain : restOfLine.Plain := trivial

theorem part_captured {m : Matcher} {line : Line} {start n : Nat} {found : Cursor} {a b c : Text}
    (parts : line = a ++ b ++ c) (positive : 0 < n) (known : n < m.groupCount)
    (recorded : found.groups.lookup n = some ⟨Text.byteLength a, Text.byteLength (a ++ b)⟩) :
    part (m.captured line start found) n = b := by
  have span := m.captured_span line start found positive known
  rw [part, Captures.get_span (span.trans recorded) parts, Option.getD_some]

theorem first_restOfLine {s w : Text} (done : Text) (n : Nat) (groups : List (Nat × Span))
    (line : '\n' ∉ s) (stops : AfterLine w) :
    (Regex.group n restOfLine).first (.between done (s ++ w) groups) some =
      some (.between (done ++ s) w
        ((n, ⟨Text.byteLength done, Text.byteLength (done ++ s)⟩) :: groups)) := by
  rw [first_group]
  refine first_many_run (CharSet.forall_notLineFeed.mpr line) (fun c start fits => ?_) ?_
  · exact absurd (stops c start) (CharSet.mem_notLineFeed.mp fits)
  · rw [Cursor.between_record]
    rfl

theorem first_numeral_line (done : Text) {d s w : Text} (groups : List (Nat × Span))
    (filled : d ≠ []) (digits : AllDigits d) (past : ∀ c, (s ++ w).head? = some c → ¬IsDigit c)
    (line : '\n' ∉ s) (stops : AfterLine w) :
    (all [.group 1 numeral, .group 2 restOfLine]).first (.between done (d ++ (s ++ w)) groups) some =
      some (.between (done ++ d ++ s) w
        ((2, ⟨Text.byteLength (done ++ d), Text.byteLength (done ++ d ++ s)⟩) ::
          (1, ⟨Text.byteLength done, Text.byteLength (done ++ d)⟩) :: groups)) := by
  rw [first_all_cons, first_group]
  refine first_many1_run filled (digit_mem digits)
    (fun c start fits => past c start (CharSet.mem_asciiDigit.mp fits)) ?_
  rw [all, Cursor.between_record]
  exact first_restOfLine _ 2 _ line stops

theorem first_numeral_none {done t : Text} {groups : List (Nat × Span)} {rs : List Regex}
    (past : ∀ c, t.head? = some c → ¬IsDigit c) :
    (all (.group 1 numeral :: rs)).first (.between done t groups) some = none := by
  rw [first_all_cons, first_group]
  exact first_many1_none fun c start fits => past c start (CharSet.mem_asciiDigit.mp fits)

theorem plainShape_simple : ∀ r ∈ [Regex.group 1 numeral, .group 2 restOfLine], r.Simple := by
  simp [Regex.Simple, numeral, restOfLine, many1, many]

theorem plainShape_finds {d s w : Text} (filled : d ≠ []) (digits : AllDigits d)
    (past : ∀ c, (s ++ w).head? = some c → ¬IsDigit c) (line : '\n' ∉ s) (stops : AfterLine w) :
    ∃ found, plainShape.find? (d ++ (s ++ w)) = some found ∧ part found 1 = d ∧
      part found 2 = s := by
  have way := first_numeral_line [] [] filled digits past line stops
  have search := Matcher.find_textStart [] (d ++ (s ++ w)) plainShape_simple
  rw [Cursor.start_between, way, Option.map_some] at search
  refine ⟨_, search, ?_, ?_⟩
  · exact part_captured (a := []) rfl (by decide) (by decide) rfl
  · exact part_captured (c := w) (by simp) (by decide) (by decide) rfl

theorem plainShape_none {t : Text} (past : ∀ c, t.head? = some c → ¬IsDigit c) :
    plainShape.find? t = none := by
  rw [plainShape, Matcher.find_textStart _ _ plainShape_simple, Cursor.start_between,
    first_numeral_none past]
  rfl

theorem preReleaseShape_simple :
    ∀ r ∈ [text "0.", Regex.group 1 numeral, .group 2 restOfLine], r.Simple :=
  List.forall_mem_cons.mpr ⟨simple_of_plain (plain_text _), plainShape_simple⟩

theorem preReleaseShape_finds {d s w : Text} (filled : d ≠ []) (digits : AllDigits d)
    (past : ∀ c, (s ++ w).head? = some c → ¬IsDigit c) (line : '\n' ∉ s) (stops : AfterLine w) :
    ∃ found, preReleaseShape.find? ("0." ++ (d ++ (s ++ w))) = some found ∧ part found 1 = d ∧
      part found 2 = s := by
  have way := first_numeral_line "0." [] filled digits past line stops
  have search := Matcher.find_textStart [] (("0." : Text) ++ (d ++ (s ++ w)))
    preReleaseShape_simple
  rw [Cursor.start_between, first_all_cons, first_text, List.nil_append, way,
    Option.map_some] at search
  refine ⟨_, search, ?_, ?_⟩
  · exact part_captured (a := "0.") (c := s ++ w) (by simp) (by decide) (by decide) rfl
  · exact part_captured (a := "0." ++ d) (c := w) (by simp) (by decide) (by decide) rfl

theorem preReleaseShape_none {t : Text} (past : ∀ c, t.head? = some c → ¬IsDigit c) :
    preReleaseShape.find? ("0." ++ t) = none := by
  rw [preReleaseShape, Matcher.find_textStart _ _ preReleaseShape_simple, Cursor.start_between,
    first_all_cons, first_text, first_numeral_none past]
  rfl

theorem preReleaseMark_append (r : Text) : preReleaseMark r ++ afterMark r = r := by
  unfold afterMark preReleaseMark
  split
  · rename_i start
    obtain ⟨rest, whole⟩ := (Text.startsWith_iff r "0.").mp start
    rw [← whole, List.drop_left]
  · rfl

theorem preReleaseMark_start {t : Text} (start : ("0." : Text) <+: t) :
    preReleaseMark t = "0." := by
  rw [preReleaseMark, if_pos ((Text.startsWith_iff _ _).mpr start)]

theorem preReleaseMark_other {t : Text} (other : ¬("0." : Text) <+: t) :
    preReleaseMark t = [] := by
  rw [preReleaseMark, if_neg fun start => other ((Text.startsWith_iff _ _).mp start)]

/-- The main scheme advances the digits after the mark of a pre-release, if there are any, but no
release candidate without that mark. Whatever follows the first line is not looked at. -/
theorem increaseMain_line {r w : Text} (line : '\n' ∉ r) (stops : AfterLine w) :
    increaseMain (r ++ w) =
      if leadingDigits (afterMark r) = [] then .error (.noMatch (r ++ w))
      else if preReleaseMark r = [] ∧ (afterDigits (afterMark r)).contains "rc" = true then
        .error (.rejected (r ++ w))
      else .ok (preReleaseMark r ++
        Decimal.numeral (value (leadingDigits (afterMark r)) + 1) ++
          afterDigits (afterMark r)) := by
  have parts := leadingDigits_append (afterMark r)
  have digits := leadingDigits_allDigits (afterMark r)
  have past := @afterDigits_head (afterMark r)
  have marked := preReleaseMark_append r
  revert parts digits past
  generalize leadingDigits (afterMark r) = d
  generalize afterDigits (afterMark r) = s
  intro parts digits past
  have rest : '\n' ∉ s := fun member =>
    line (by rw [← marked, ← parts]; exact List.mem_append_right _ (List.mem_append_right _ member))
  have beyond : ∀ c, (s ++ w).head? = some c → ¬IsDigit c := by
    intro c start
    cases s with
    | nil =>
      rw [stops c start]
      decide
    | cons x s => exact past start
  by_cases start : ("0." : Text) <+: r
  · have mark : preReleaseMark r = "0." := preReleaseMark_start start
    have longer : (r ++ w).startsWith "0." = true :=
      (Text.startsWith_iff _ _).mpr (start.trans (List.prefix_append r w))
    rw [mark] at marked
    rw [increaseMain, if_pos longer, mark]
    by_cases empty : d = []
    · subst empty
      rw [List.nil_append] at parts
      have search := preReleaseShape_none beyond
      rw [← List.append_assoc, parts, marked] at search
      rw [if_pos rfl, search]
    · obtain ⟨found, search, first, second⟩ := preReleaseShape_finds empty digits beyond rest stops
      rw [← List.append_assoc d, parts, ← List.append_assoc, marked] at search
      rw [if_neg empty, if_neg (by simp), search]
      simp only [first, second, succ_eq_numeral digits, List.append_assoc]
  · have mark : preReleaseMark r = [] := preReleaseMark_other start
    have other : ¬(r ++ w).startsWith "0." = true := fun longer =>
      start (prefix_of_line (by decide) stops ((Text.startsWith_iff _ _).mp longer))
    rw [mark, List.nil_append] at marked
    rw [increaseMain, if_neg other, mark]
    by_cases empty : d = []
    · subst empty
      rw [List.nil_append] at parts
      have search := plainShape_none beyond
      rw [parts, marked] at search
      rw [if_pos rfl, search]
    · obtain ⟨found, search, first, second⟩ := plainShape_finds empty digits beyond rest stops
      rw [← List.append_assoc d, parts, marked] at search
      simp only [if_neg empty, search, first, second, succ_eq_numeral digits, true_and,
        List.nil_append]

theorem increaseMain_eq {r : Text} (line : '\n' ∉ r) :
    increaseMain r =
      if leadingDigits (afterMark r) = [] then .error (.noMatch r)
      else if preReleaseMark r = [] ∧ (afterDigits (afterMark r)).contains "rc" = true then
        .error (.rejected r)
      else .ok (preReleaseMark r ++
        Decimal.numeral (value (leadingDigits (afterMark r)) + 1) ++
          afterDigits (afterMark r)) := by
  have whole := increaseMain_line line afterLine_nil
  rwa [List.append_nil] at whole

theorem dot_not_digit {d : Text} (digits : AllDigits d) : '.' ∉ d :=
  fun member => absurd (digits '.' member) (by decide)

theorem last_dot_unique {x y d e : Text} (digits : AllDigits d) (too : AllDigits e)
    (same : x ++ '.' :: d = y ++ '.' :: e) : x = y ∧ d = e := by
  rcases List.append_eq_append_iff.mp same with ⟨z, more, rest⟩ | ⟨z, more, rest⟩
  · cases z with
    | nil => exact ⟨by rw [more, List.append_nil], (List.cons.inj rest).2⟩
    | cons a z =>
      have member : '.' ∈ d := by
        rw [(List.cons.inj rest).2]
        exact List.mem_append_right z List.mem_cons_self
      exact absurd member (dot_not_digit digits)
  · cases z with
    | nil => exact ⟨by rw [more, List.append_nil], (List.cons.inj rest).2.symm⟩
    | cons a z =>
      have member : '.' ∈ e := by
        rw [(List.cons.inj rest).2]
        exact List.mem_append_right z List.mem_cons_self
      exact absurd member (dot_not_digit too)

theorem first_lastNumeral {done d : Text} {groups : List (Nat × Span)} (filled : d ≠ [])
    (digits : AllDigits d) :
    (all [.group 2 numeral, .look .textEnd]).first (.between done d groups) some =
      some (.between (done ++ d) []
        ((2, ⟨Text.byteLength done, Text.byteLength (done ++ d)⟩) :: groups)) := by
  rw [first_all_cons, first_group, ← List.append_nil d]
  refine first_many1_run filled (digit_mem digits) (by simp) ?_
  rw [List.append_nil, all, first_look]
  rfl

theorem lastNumeral_of_first {done t : Text} {groups : List (Nat × Span)}
    (goes : (all [.group 2 numeral, .look .textEnd]).first (.between done t groups) some ≠ none) :
    t ≠ [] ∧ AllDigits t := by
  by_contra other
  refine goes ?_
  rw [first_all_cons, first_group]
  apply first_eq_none.mpr
  intro d member
  obtain ⟨u, v, rfl, taken, rfl⟩ := (mem_ways numeral_plain).mp member
  obtain ⟨filled, digits⟩ := takes_many1.mp taken
  rw [Cursor.between_record, all, first_look, if_neg]
  intro past
  have empty : v = [] := List.isEmpty_iff.mp past
  rw [empty, List.append_nil] at other
  exact other ⟨filled, fun c within => CharSet.mem_asciiDigit.mp (digits c within)⟩

theorem upToDot_takes {t : Text} :
    (all [many1 .notLineFeed, text "."]).Takes t ↔
      ∃ x, x ≠ [] ∧ '\n' ∉ x ∧ t = x ++ ['.'] := by
  constructor
  · intro given
    obtain ⟨x, v, rfl, taken, dot⟩ := given
    obtain ⟨filled, line⟩ := takes_many1.mp taken
    refine ⟨x, filled, CharSet.forall_notLineFeed.mp line, ?_⟩
    rw [takes_text.mp dot]
    rfl
  · intro given
    obtain ⟨x, filled, line, rfl⟩ := given
    exact ⟨x, ['.'], rfl, takes_many1.mpr ⟨filled, CharSet.forall_notLineFeed.mpr line⟩,
      takes_text.mpr rfl⟩

theorem upToDot_plain : (all [many1 .notLineFeed, text "."]).Plain :=
  ⟨⟨trivial, trivial⟩, plain_text _⟩

theorem dottedShape_simple :
    ∀ r ∈ [Regex.group 1 (all [many1 .notLineFeed, text "."]), .group 2 numeral, .look .textEnd],
      r.Simple := by
  intro r member
  simp only [List.mem_cons, List.not_mem_nil, or_false] at member
  rcases member with rfl | rfl | rfl
  · exact simple_of_plain (r := all [many1 .notLineFeed, text "."]) upToDot_plain
  · exact simple_of_plain (r := numeral) numeral_plain
  · trivial

theorem dottedShape_anywhere (release : Text) :
    dottedShape.find? release =
      (⟨all [.group 1 (all [many1 .notLineFeed, text "."]), .group 2 numeral, .look .textEnd],
        []⟩ : Matcher).find? release := by
  apply Matcher.find_anywhere [] release upToDot_plain
  · exact (List.forall_mem_cons.mp dottedShape_simple).2
  · intro x u inLine taken
    obtain ⟨y, filled, line, rfl⟩ := upToDot_takes.mp taken
    apply upToDot_takes.mpr
    exact ⟨x :: y, by simp, by simp [line, inLine.symm], rfl⟩

theorem dottedShape_finds {x d : Text} (start : x ≠ []) (filled : d ≠ []) (digits : AllDigits d)
    (line : '\n' ∉ x ++ '.' :: d) :
    ∃ found, dottedShape.find? (x ++ '.' :: d) = some found ∧ part found 1 = x ++ ['.'] ∧
      part found 2 = d := by
  have parts : x ++ '.' :: d = x ++ ['.'] ++ d := by simp
  have search := Matcher.find_lineStart [] dottedShape_simple line
  have way : (all [.group 1 (all [many1 .notLineFeed, text "."]), .group 2 numeral,
      .look .textEnd]).first (.start (x ++ '.' :: d)) some =
        some (.between (x ++ ['.'] ++ d) []
          [(2, ⟨Text.byteLength (x ++ ['.']), Text.byteLength (x ++ ['.'] ++ d)⟩),
            (1, ⟨0, Text.byteLength (x ++ ['.'])⟩)]) := by
    rw [first_all_cons, first_group, Cursor.start_between]
    refine first_of_agree (d := .between (x ++ ['.']) d []) ?_ ?_ ?_
    · exact (mem_ways upToDot_plain).mpr ⟨x ++ ['.'], d, parts, upToDot_takes.mpr
        ⟨x, start, fun member => line (List.mem_append_left _ member), rfl⟩, rfl⟩
    · exact first_lastNumeral filled digits
    · -- Only up to the last dot is there a way: no digits up to the end lie behind an earlier one.
      intro e member z gives
      obtain ⟨u, v, whole, taken, rfl⟩ := (mem_ways upToDot_plain).mp member
      obtain ⟨y, -, -, rfl⟩ := upToDot_takes.mp taken
      rw [Cursor.between_record] at gives
      have tail := lastNumeral_of_first (Option.ne_none_iff_exists'.mpr ⟨z, gives⟩)
      have same : x ++ '.' :: d = y ++ '.' :: v := by rw [whole]; simp
      obtain ⟨rfl, rfl⟩ := last_dot_unique digits tail.2 same
      rw [List.nil_append, first_lastNumeral filled digits] at gives
      exact (Option.some.inj gives).symm
  rw [way, Option.map_some] at search
  refine ⟨_, search, ?_, ?_⟩
  · exact part_captured (a := []) parts (by decide) (by decide) rfl
  · exact part_captured (parts.trans (List.append_nil _).symm) (by decide) (by decide) rfl

theorem dottedShape_none {t : Text} (other : ¬Dotted t) (line : '\n' ∉ t) :
    dottedShape.find? t = none := by
  rw [dottedShape, Matcher.find_lineStart _ dottedShape_simple line, Option.map_eq_none_iff,
    first_all_cons, first_group, Cursor.start_between]
  apply first_eq_none.mpr
  intro d member
  obtain ⟨u, v, rfl, taken, rfl⟩ := (mem_ways upToDot_plain).mp member
  obtain ⟨x, filled, -, rfl⟩ := upToDot_takes.mp taken
  rw [Cursor.between_record]
  by_contra goes
  obtain ⟨more, digits⟩ := lastNumeral_of_first goes
  exact other ⟨x, v, filled, more, digits, by simp⟩

theorem increaseFallback_dotted {x d : Text} (start : x ≠ []) (filled : d ≠ [])
    (digits : AllDigits d) (line : '\n' ∉ x ++ '.' :: d) :
    increaseFallback (x ++ '.' :: d) = x ++ '.' :: Decimal.numeral (value d + 1) := by
  obtain ⟨found, search, first, second⟩ := dottedShape_finds start filled digits line
  simp only [increaseFallback, search, first, second, succ_eq_numeral digits]
  simp

theorem increaseFallback_other {t : Text} (other : ¬Dotted t) (line : '\n' ∉ t) :
    increaseFallback t = t.trimEnd ++ ".1" := by
  simp only [increaseFallback, dottedShape_none other line]

theorem marked_append {t : Text} (u : Text) (marked : Marked t) : Marked (u ++ t) := by
  obtain ⟨a, c, b, digit, rfl⟩ := marked
  exact ⟨u ++ a, c, b, digit, by simp⟩

theorem marked_of_append {u t : Text} (plain : ∀ c ∈ u, ¬IsDigit c) (marked : Marked (u ++ t)) :
    Marked t := by
  obtain ⟨a, c, b, digit, whole⟩ := marked
  rcases List.append_eq_append_iff.mp whole with ⟨z, -, rest⟩ | ⟨z, more, rest⟩
  · exact ⟨z, c, b, digit, rest⟩
  · cases z with
    | nil => exact ⟨[], c, b, digit, rest.symm⟩
    | cons y z =>
      obtain ⟨rfl, -⟩ := List.cons.inj rest
      refine absurd digit (plain c ?_)
      rw [more]
      exact List.mem_append_right a List.mem_cons_self

theorem mark_noDigit : ∀ c ∈ ("jpp." : Text), ¬IsDigit c := by
  have each : (("jpp." : Text).all fun c => !decide (IsDigit c)) = true := by decide
  intro c member
  simpa using List.all_eq_true.mp each c member

theorem exists_last_mark {t : Text} (marked : Marked t) :
    ∃ x c q, IsDigit c ∧ t = x ++ c :: ("jpp." ++ q) ∧ ¬Marked q := by
  induction length : t.length using Nat.strong_induction_on generalizing t with
  | _ n ih =>
    obtain ⟨a, c, b, digit, whole⟩ := marked
    by_cases again : Marked b
    · have shorter : b.length < n := by
        rw [← length, whole]
        simp only [List.length_append, List.length_cons]
        omega
      obtain ⟨x, d, q, digit, rest, last⟩ := ih b.length shorter again rfl
      exact ⟨a ++ c :: ("jpp." ++ x), d, q, digit, by rw [whole, rest]; simp, last⟩
    · exact ⟨a, c, b, digit, whole, again⟩

theorem first_mark {done d q w : Text} {groups : List (Nat × Span)} (filled : d ≠ [])
    (digits : AllDigits d) (line : '\n' ∉ q) (stops : AfterLine w) :
    (all [.group 2 numeral, .group 3 (text "jpp."), .group 4 restOfLine]).first
        (.between done (d ++ ("jpp." ++ (q ++ w))) groups) some =
      some (.between (done ++ d ++ "jpp." ++ q) w
        ((4, ⟨Text.byteLength (done ++ d ++ "jpp."), Text.byteLength (done ++ d ++ "jpp." ++ q)⟩) ::
          (3, ⟨Text.byteLength (done ++ d), Text.byteLength (done ++ d ++ "jpp.")⟩) ::
          (2, ⟨Text.byteLength done, Text.byteLength (done ++ d)⟩) :: groups)) := by
  rw [first_all_cons, first_group]
  refine first_many1_run filled (digit_mem digits) (fun c start fits => ?_) ?_
  · obtain rfl : 'j' = c := Option.some.inj start
    exact absurd (CharSet.mem_asciiDigit.mp fits) (by decide)
  · rw [Cursor.between_record, first_all_cons, first_group, first_text, Cursor.between_record, all]
    exact first_restOfLine _ 4 _ line stops

theorem mark_of_first {done t : Text} {groups : List (Nat × Span)}
    (goes : (all [.group 2 numeral, .group 3 (text "jpp."), .group 4 restOfLine]).first
      (.between done t groups) some ≠ none) :
    ∃ d b, d ≠ [] ∧ AllDigits d ∧ t = d ++ ("jpp." ++ b) := by
  by_contra other
  refine goes ?_
  rw [first_all_cons, first_group]
  apply first_eq_none.mpr
  intro d member
  obtain ⟨u, v, rfl, taken, rfl⟩ := (mem_ways numeral_plain).mp member
  obtain ⟨filled, digits⟩ := takes_many1.mp taken
  rw [Cursor.between_record, first_all_cons, first_group]
  refine first_text_none ?_
  intro given
  obtain ⟨b, rfl⟩ := given
  exact other ⟨u, b, filled, fun c within => CharSet.mem_asciiDigit.mp (digits c within), rfl⟩

/-- What goes on to a mark of a text goes on to a mark of its first line. -/
theorem marked_of_first {done x v w : Text} {groups : List (Nat × Span)} (line : '\n' ∉ x)
    (stops : AfterLine w)
    (goes : (all [.group 2 numeral, .group 3 (text "jpp."), .group 4 restOfLine]).first
      (.between done v groups) some ≠ none) {body : Text} (whole : body ++ w = x ++ v) :
    ∃ d b, d ≠ [] ∧ AllDigits d ∧ body = x ++ (d ++ ("jpp." ++ b)) := by
  obtain ⟨d, b, filled, digits, rfl⟩ := mark_of_first goes
  have clean : '\n' ∉ x ++ (d ++ "jpp.") := by
    have noFeed : '\n' ∉ d := fun member => absurd (digits _ member) (by decide)
    have markLine : '\n' ∉ ("jpp." : Text) := by decide
    simp only [List.mem_append, not_or]
    exact ⟨line, noFeed, markLine⟩
  obtain ⟨b, rfl⟩ := prefix_of_line clean stops (r := body) ⟨b, by rw [whole]; simp⟩
  exact ⟨d, b, filled, digits, by simp⟩

theorem marked_of_digits {d b : Text} (x : Text) (filled : d ≠ []) (digits : AllDigits d) :
    Marked (x ++ (d ++ ("jpp." ++ b))) := by
  refine ⟨x ++ d.dropLast, d.getLast filled, b, digits _ (List.getLast_mem filled), ?_⟩
  have parts := List.dropLast_append_getLast filled
  rw [List.append_assoc, ← List.singleton_append, ← List.append_assoc d.dropLast, parts]

theorem jppShape_simple :
    ∀ r ∈ [Regex.group 1 restOfLine, .group 2 numeral, .group 3 (text "jpp."),
      .group 4 restOfLine], r.Simple := by
  intro r member
  simp only [List.mem_cons, List.not_mem_nil, or_false] at member
  rcases member with rfl | rfl | rfl | rfl
  · exact simple_of_plain (r := restOfLine) restOfLine_plain
  · exact simple_of_plain (r := numeral) numeral_plain
  · exact simple_of_plain (r := text "jpp.") (plain_text _)
  · exact simple_of_plain (r := restOfLine) restOfLine_plain

theorem jppShape_anywhere (release : Text) :
    jppShape.find? release =
      (⟨all [.group 1 restOfLine, .group 2 numeral, .group 3 (text "jpp."), .group 4 restOfLine],
        []⟩ : Matcher).find? release := by
  apply Matcher.find_anywhere [] release restOfLine_plain
  · exact (List.forall_mem_cons.mp jppShape_simple).2
  · intro x u inLine taken
    exact List.forall_mem_cons.mpr ⟨CharSet.mem_notLineFeed.mpr inLine, taken⟩

def jppParts : List Regex :=
  [.group 1 restOfLine, .group 2 numeral, .group 3 (text "jpp."), .group 4 restOfLine]

theorem first_jppParts {a x q w : Text} {c : Char} (digit : IsDigit c) (last : ¬Marked q)
    (line : '\n' ∉ x ++ c :: ("jpp." ++ q)) (stops : AfterLine w) :
    (all jppParts).first (.between a (x ++ c :: ("jpp." ++ (q ++ w))) []) some =
      some (.between (a ++ x ++ [c] ++ "jpp." ++ q) w
        [(4, ⟨Text.byteLength (a ++ x ++ [c] ++ "jpp."),
            Text.byteLength (a ++ x ++ [c] ++ "jpp." ++ q)⟩),
          (3, ⟨Text.byteLength (a ++ x ++ [c]), Text.byteLength (a ++ x ++ [c] ++ "jpp.")⟩),
          (2, ⟨Text.byteLength (a ++ x), Text.byteLength (a ++ x ++ [c])⟩),
          (1, ⟨Text.byteLength a, Text.byteLength (a ++ x)⟩)]) := by
  have single : AllDigits [c] := fun y member => List.mem_singleton.mp member ▸ digit
  have rest : '\n' ∉ q := fun member => line (by simp [member])
  have before : '\n' ∉ x := fun member => line (List.mem_append_left _ member)
  rw [jppParts, first_all_cons, first_group]
  apply first_many_longest (CharSet.forall_notLineFeed.mpr before)
  · exact first_mark (by simp) single rest stops
  · -- If more were taken before the numeral, a mark would lie behind the last one.
    intro y v whole filled taken
    by_contra goes
    rw [Cursor.between_record] at goes
    have more : c :: ("jpp." ++ q) ++ w = y ++ v := by
      rw [← whole]
      simp
    obtain ⟨d, b, some, digits, behind⟩ :=
      marked_of_first (CharSet.forall_notLineFeed.mp taken) stops goes more
    obtain ⟨z, y, rfl⟩ := List.exists_cons_of_ne_nil filled
    obtain ⟨-, behind⟩ := List.cons.inj behind
    have again : Marked ("jpp." ++ q) := behind ▸ marked_of_digits y some digits
    exact last (marked_of_append mark_noDigit again)

theorem first_jppParts_none {a body w : Text} (unmarked : ¬Marked body) (stops : AfterLine w) :
    (all jppParts).first (.between a (body ++ w) []) some = none := by
  rw [jppParts, first_all_cons, first_group]
  apply first_eq_none.mpr
  intro d member
  obtain ⟨u, v, whole, taken, rfl⟩ := (mem_ways restOfLine_plain).mp member
  by_contra goes
  rw [Cursor.between_record] at goes
  obtain ⟨d, b, filled, digits, rfl⟩ :=
    marked_of_first (CharSet.forall_notLineFeed.mp taken) stops goes whole
  exact unmarked (marked_of_digits u filled digits)

theorem jppShape_finds {x q : Text} {c : Char} (digit : IsDigit c) (last : ¬Marked q)
    (line : '\n' ∉ x ++ c :: ("jpp." ++ q)) :
    ∃ found, jppShape.find? (x ++ c :: ("jpp." ++ q)) = some found ∧ part found 1 = x ∧
      part found 2 = [c] ∧ part found 3 = "jpp." ∧ part found 4 = q := by
  have search := Matcher.find_lineStart [] jppShape_simple line
  have way := first_jppParts (a := []) digit last line afterLine_nil
  rw [List.append_nil] at way
  rw [Cursor.start_between] at search
  rw [jppParts] at way
  rw [way, Option.map_some] at search
  have seams : x ++ c :: ("jpp." ++ q) = x ++ [c] ++ "jpp." ++ q := by simp
  refine ⟨_, search, ?_, ?_, ?_, ?_⟩
  · exact part_captured (a := []) rfl (by decide) (by decide) rfl
  · exact part_captured (c := "jpp." ++ q) (by simp) (by decide) (by decide) rfl
  · exact part_captured seams (by decide) (by decide) rfl
  · exact part_captured (seams.trans (List.append_nil _).symm) (by decide) (by decide) rfl

theorem jppShape_none {t : Text} (other : ¬Marked t) (line : '\n' ∉ t) :
    jppShape.find? t = none := by
  have none := first_jppParts_none (a := []) other afterLine_nil
  rw [List.append_nil, jppParts] at none
  rw [jppShape, Matcher.find_lineStart _ jppShape_simple line, Cursor.start_between, none]
  rfl

theorem increaseJpp_marked {x q : Text} {c : Char} (digit : IsDigit c) (last : ¬Marked q)
    (line : '\n' ∉ x ++ c :: ("jpp." ++ q)) :
    increaseJpp (x ++ c :: ("jpp." ++ q)) =
      (increaseMain q).map fun bumped => x ++ c :: ("jpp." ++ bumped) := by
  obtain ⟨found, search, first, second, third, fourth⟩ := jppShape_finds digit last line
  simp only [increaseJpp, search, first, second, third, fourth, normalize_single]
  simp

theorem increaseJpp_unmarked {t : Text} (other : ¬Marked t) (line : '\n' ∉ t) :
    increaseJpp t = .error (.noMatch t) := by
  simp only [increaseJpp, jppShape_none other line]

end LineRules.Release
