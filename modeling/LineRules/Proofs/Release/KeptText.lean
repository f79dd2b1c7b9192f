import LineRules.Proofs.Release.Choice

/-!
What a bump keeps of a release that has several lines. Every scheme looks for its numeral in one
line, puts the next numeral in its place and gives the rest of that line back, but it gives nothing
of the other lines. So a bump without line feeds loses no text, and with line feeds it may.
-/
namespace LineRules.Release

open Regex Decimal

structure WholeLine (r before line after : Text) : Prop where
  parts : r = before ++ line ++ after
  oneLine : '\n' ∉ line
  starts : ∀ c, before.getLast? = some c → c = '\n'
  stops : AfterLine after

/-- A run of digits in a text that is no part of a longer one. -/
structure NumeralIn (t front digits back : Text) : Prop where
  parts : t = front ++ digits ++ back
  filled : digits ≠ []
  allDigits : AllDigits digits
  before : ∀ c, front.getLast? = some c → ¬IsDigit c
  behind : ∀ c, back.head? = some c → ¬IsDigit c

def OneNumeralUp (t bumped : Text) : Prop :=
  ∃ front digits back, NumeralIn t front digits back ∧
    bumped = front ++ Decimal.numeral (value digits + 1) ++ back

variable {r b body w : Text}

theorem exists_first_line (r : Text) : ∃ body w, r = body ++ w ∧ '\n' ∉ body ∧ AfterLine w := by
  let inLine := fun c : Char => decide (c ≠ '\n')
  refine ⟨r.takeWhile inLine, r.dropWhile inLine, List.takeWhile_append_dropWhile.symm, ?_, ?_⟩
  · intro member
    exact of_decide_eq_true (List.mem_takeWhile_imp (p := inLine) member) rfl
  · intro c start
    have stops := List.head?_dropWhile_not inLine r
    rw [start] at stops
    simpa [inLine] using stops

theorem WholeLine.whole {before line after : Text} (whole : WholeLine r before line after)
    (clean : '\n' ∉ r) : line = r := by
  have outside : ∀ t : Text, t ⊆ r → (∀ c, t.head? = some c → c = '\n') → t = [] := by
    intro t inside start
    cases t with
    | nil => rfl
    | cons c t =>
      obtain rfl := start c rfl
      exact absurd (inside List.mem_cons_self) clean
  have none_after : after = [] := by
    refine outside after ?_ whole.stops
    rw [whole.parts]
    exact List.subset_append_right _ _
  have none_before : before = [] := by
    refine List.reverse_eq_nil_iff.mp (outside before.reverse ?_ ?_)
    · intro c member
      rw [whole.parts, List.append_assoc]
      exact List.mem_append_left _ (List.mem_reverse.mp member)
    · intro c start
      exact whole.starts c (List.head?_reverse ▸ start)
  rw [whole.parts, none_before, none_after, List.nil_append, List.append_nil]

theorem increaseMain_first_line (line : '\n' ∉ body) (stops : AfterLine w) :
    increaseMain (body ++ w) = .ok b ↔ increaseMain body = .ok b := by
  rw [increaseMain_line line stops, increaseMain_eq line]
  split
  · simp
  · split <;> simp

theorem MainTakes.numeralIn {p d s : Text} (takes : MainTakes p d s) {front : Text}
    (before : ∀ c, front.getLast? = some c → ¬IsDigit c) :
    NumeralIn (front ++ (p ++ d ++ s)) (front ++ p) d s := by
  refine ⟨by simp, takes.filled, takes.digits, ?_, takes.past⟩
  rcases takes.mark with rfl | rfl
  · rwa [List.append_nil]
  · intro c last
    rw [List.getLast?_append_of_ne_nil _ (by decide)] at last
    obtain rfl : '.' = c := Option.some.inj last
    decide

theorem main_keeps_first_line (ok : increaseMain r = .ok b) :
    ∃ line after, WholeLine r [] line after ∧ OneNumeralUp line b := by
  obtain ⟨body, w, rfl, line, stops⟩ := exists_first_line r
  obtain ⟨p, d, s, takes, rfl, rfl⟩ :=
    mainTakes_of_ok line ((increaseMain_first_line line stops).mp ok)
  exact ⟨p ++ d ++ s, w, ⟨rfl, line, by simp, stops⟩, p, d, s,
    takes.numeralIn (by simp : ∀ c, ([] : Text).getLast? = some c → ¬IsDigit c), rfl⟩

theorem jppShape_line {found : Captures} (search : jppShape.find? r = some found) :
    ∃ (before x q after : Text) (c : Char),
      WholeLine r before (x ++ c :: ("jpp." ++ q)) after ∧
      part found 1 = x ∧ part found 2 = [c] ∧ part found 3 = ("jpp." : Text) ∧
        part found 4 = q := by
  obtain ⟨u, v, d, rfl, starts, way, rfl⟩ := Matcher.exists_of_find_lineStart jppShape_simple search
  obtain ⟨body, w, rfl, line, stops⟩ := exists_first_line v
  have marked : Marked body := by
    by_contra unmarked
    rw [← jppParts, first_jppParts_none unmarked stops] at way
    simp at way
  obtain ⟨x, c, q, digit, rfl, last⟩ := exists_last_mark marked
  have seam : x ++ c :: ("jpp." ++ q) ++ w = x ++ c :: ("jpp." ++ (q ++ w)) := by simp
  rw [← jppParts, seam, first_jppParts digit last line stops, Option.some.injEq] at way
  subst way
  refine ⟨u, x, q, w, c, ⟨by simp, line, starts, stops⟩, ?_, ?_, ?_, ?_⟩
  · exact part_captured (a := u) (b := x) (c := c :: ("jpp." ++ q) ++ w) (by simp) (by decide)
      (by decide) rfl
  · exact part_captured (a := u ++ x) (b := [c]) (c := ("jpp." : Text) ++ q ++ w) (by simp)
      (by decide) (by decide) rfl
  · exact part_captured (a := u ++ x ++ [c]) (b := "jpp.") (c := q ++ w) (by simp) (by decide)
      (by decide) rfl
  · exact part_captured (a := u ++ x ++ [c] ++ "jpp.") (b := q) (c := w) (by simp) (by decide)
      (by decide) rfl

theorem jpp_keeps_line (ok : increaseJpp r = .ok b) :
    ∃ before line after, WholeLine r before line after ∧ OneNumeralUp line b := by
  rw [increaseJpp] at ok
  cases search : jppShape.find? r with
  | none => simp [search] at ok
  | some found =>
    obtain ⟨before, x, q, after, c, whole, first, second, third, fourth⟩ := jppShape_line search
    simp only [search, first, second, third, fourth, normalize_single] at ok
    cases bumped : increaseMain q with
    | error e => simp [bumped, Except.map] at ok
    | ok q' =>
      have inner : '\n' ∉ q := fun member => whole.oneLine (by
        exact List.mem_append_right _ (List.mem_cons_of_mem _ (List.mem_append_right _ member)))
      obtain ⟨p, d, s, takes, rfl, rfl⟩ := mainTakes_of_ok inner bumped
      have mark : ∀ y, (x ++ c :: "jpp.").getLast? = some y → ¬IsDigit y := by
        intro y last
        have dot : (x ++ c :: "jpp.").getLast? = some '.' :=
          List.getLast?_append_of_ne_nil x (by simp)
        obtain rfl : '.' = y := Option.some.inj (dot.symm.trans last)
        decide
      have numeral := takes.numeralIn mark
      refine ⟨before, x ++ c :: ("jpp." ++ (p ++ d ++ s)), after, whole,
        x ++ c :: "jpp." ++ p, d, s, ?_, ?_⟩
      · simpa using numeral
      · rw [bumped, Except.map, Except.ok.injEq] at ok
        rw [← ok]
        simp

theorem dottedShape_line {found : Captures} (search : dottedShape.find? r = some found) :
    ∃ before x d, WholeLine r before (x ++ ['.'] ++ d) [] ∧ d ≠ [] ∧ AllDigits d ∧
      part found 1 = x ++ ['.'] ∧ part found 2 = d := by
  obtain ⟨u, v, e, rfl, starts, way, rfl⟩ :=
    Matcher.exists_of_find_lineStart dottedShape_simple search
  rw [first_all_cons, first_group] at way
  obtain ⟨m, member, goes⟩ := List.exists_of_findSome?_eq_some way
  obtain ⟨y, d, rfl, taken, rfl⟩ := (mem_ways upToDot_plain).mp member
  obtain ⟨x, -, line, rfl⟩ := upToDot_takes.mp taken
  rw [Cursor.between_record] at goes
  obtain ⟨filled, digits⟩ := lastNumeral_of_first (by rw [goes]; simp)
  rw [first_lastNumeral filled digits, Option.some.injEq] at goes
  subst goes
  have feed : '\n' ∉ d := fun member => absurd (digits _ member) (by decide)
  refine ⟨u, x, d, ⟨by simp, by simp [line, feed], starts, afterLine_nil⟩, filled, digits, ?_, ?_⟩
  · exact part_captured (a := u) (b := x ++ ['.']) (c := d) (by simp) (by decide) (by decide) rfl
  · exact part_captured (a := u ++ (x ++ ['.'])) (b := d) (c := []) (by simp) (by decide)
      (by decide) rfl

theorem fallback_keeps_line (r : Text) :
    increaseFallback r = r.trimEnd ++ ".1" ∨
      ∃ before line after, WholeLine r before line after ∧
        OneNumeralUp line (increaseFallback r) := by
  cases search : dottedShape.find? r with
  | none =>
    left
    simp only [increaseFallback, search]
  | some found =>
    right
    obtain ⟨before, x, d, whole, filled, digits, first, second⟩ := dottedShape_line search
    refine ⟨before, _, [], whole, x ++ ['.'], d, [], ⟨by simp, filled, digits, ?_, by simp⟩, ?_⟩
    · intro c last
      rw [List.getLast?_concat, Option.some.injEq] at last
      rw [← last]
      decide
    · simp only [increaseFallback, search, first, second, succ_eq_numeral digits, List.append_nil]

theorem scheme_keeps_line (ok : scheme r = .ok b) :
    ∃ before line after, WholeLine r before line after ∧ OneNumeralUp line b := by
  rw [scheme] at ok
  split at ok
  · exact jpp_keeps_line ok
  · exact ⟨[], main_keeps_first_line ok⟩

theorem increase_keeps_line (r : Text) (rightmost : Bool) :
    increase r rightmost = r.trimEnd ++ ".1" ∨
      ∃ before line after, WholeLine r before line after ∧
        OneNumeralUp line (increase r rightmost) := by
  cases rightmost with
  | true => exact fallback_keeps_line r
  | false =>
    cases asked : scheme r with
    | ok b =>
      rw [increase_of_ok asked]
      exact .inr (scheme_keeps_line asked)
    | error e =>
      rw [increase_of_error asked]
      exact fallback_keeps_line r

/-- Whatever a release is, a bump appends a numeral to all of it but white space at its end, or gives
one of its lines with one numeral advanced. What is lost in the second case are the other lines, so
nothing is lost of a release without line feeds. -/
theorem bump_loses_other_lines_only (r : Text) (rightmost : Bool) :
    (increase r rightmost = r.trimEnd ++ ".1" ∨
      ∃ before line after, WholeLine r before line after ∧
        OneNumeralUp line (increase r rightmost)) ∧
    ('\n' ∉ r → increase r rightmost = r.trimEnd ++ ".1" ∨
      OneNumeralUp r (increase r rightmost)) := by
  have kept := increase_keeps_line r rightmost
  refine ⟨kept, fun clean => kept.imp_right ?_⟩
  intro given
  obtain ⟨before, line, after, whole, up⟩ := given
  rwa [whole.whole clean] at up

theorem text_behind_numeral_kept :
    '\n' ∉ ("0.09é" : Text) ∧ increase "0.09é" false = "0.10é" ∧
      (increase "0.09é" false = Text.trimEnd "0.09é" ++ ".1" ∨
        OneNumeralUp "0.09é" (increase "0.09é" false)) := by
  have clean : '\n' ∉ ("0.09é" : Text) := by decide
  exact ⟨clean, by decide +kernel, (bump_loses_other_lines_only _ _).2 clean⟩

/-- Of two lines the first is bumped, and the second is lost. -/
theorem second_line_lost :
    ¬(increase "1\n2" false = Text.trimEnd "1\n2" ++ ".1" ∨
      OneNumeralUp "1\n2" (increase "1\n2" false)) := by
  have bumped : increase "1\n2" false = "2" := by
    decide +kernel
  rw [bumped]
  rintro (appended | up)
  · exact absurd appended (by decide)
  · obtain ⟨front, digits, back, numeral, parts⟩ := up
    have feed : '\n' ∈ front ++ digits ++ back := numeral.parts ▸ (by decide)
    have lost : '\n' ∉ front ++ Decimal.numeral (value digits + 1) ++ back := parts ▸ (by decide)
    simp only [List.mem_append, not_or] at feed lost
    rcases feed with (inside | inside) | inside
    · exact lost.1.1 inside
    · exact absurd (numeral.allDigits _ inside) (by decide)
    · exact lost.2 inside

end LineRules.Release
