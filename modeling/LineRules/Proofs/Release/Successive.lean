import LineRules.Proofs.Release.Schemes
import Mathlib.Logic.Function.Iterate

/-!
Successive bumps. Which scheme bumps a release is chosen anew every time, and a bump can change the
choice. Still all bumps after the first move the numeral that the first one moved: the text on both
sides of it keeps every scheme that was refused from taking over, except where that scheme moves the
same numeral.
-/
namespace LineRules.Release

open Decimal

/-- What the main scheme refuses: releases without a numeral, and release candidates without the
mark of a pre-release. -/
def MainRefuses (r : Text) : Prop :=
  leadingDigits (afterMark r) = [] ∨
    preReleaseMark r = [] ∧ ("rc" : Text) <:+: afterDigits (afterMark r)

/-- A digit and `jpp` at the end, which a dot turns into a mark. -/
def OpenMark (t : Text) : Prop :=
  ∃ a c, IsDigit c ∧ t = a ++ c :: "jpp"

/-- What stands behind the fixed part of a release that the fallback bumps: a dot and a numeral, or
white space. -/
def Ending (v : Text) : Prop :=
  (∃ d, d ≠ [] ∧ AllDigits d ∧ v = '.' :: d) ∨ v.AllSpace

theorem increaseMain_refuses {r : Text} (line : '\n' ∉ r) :
    (∃ e, increaseMain r = .error e) ↔ MainRefuses r := by
  rw [increaseMain_eq line, MainRefuses, ← Text.contains_iff]
  by_cases empty : leadingDigits (afterMark r) = []
  · rw [if_pos empty]
    exact ⟨fun _ => .inl empty, fun _ => ⟨_, rfl⟩⟩
  · rw [if_neg empty]
    by_cases rejected : preReleaseMark r = [] ∧ (afterDigits (afterMark r)).contains "rc" = true
    · rw [if_pos rejected]
      exact ⟨fun _ => .inr rejected, fun _ => ⟨_, rfl⟩⟩
    · rw [if_neg rejected]
      constructor
      · intro given
        obtain ⟨e, impossible⟩ := given
        simp at impossible
      · intro given
        rcases given with none | candidate
        · exact absurd none empty
        · exact absurd candidate rejected

theorem not_mem_ending {v : Text} {c : Char} (ending : Ending v) (letter : ¬IsDigit c)
    (dot : c ≠ '.') (mark : Unicode.isWhiteSpace c = false) : c ∉ v := by
  intro member
  rcases ending with ⟨d, -, digits, rfl⟩ | space
  · rcases List.mem_cons.mp member with same | within
    · exact dot same
    · exact letter (digits c within)
  · exact absurd (space c member) (by simp [mark])

theorem ending_head {v : Text} {c : Char} (ending : Ending v) (start : v.head? = some c) :
    ¬IsDigit c := by
  rcases ending with ⟨d, -, -, rfl⟩ | space
  · obtain rfl : '.' = c := Option.some.inj start
    decide
  · intro digit
    have white := space c (List.mem_of_head? start)
    rw [digit_not_space digit] at white
    simp at white

theorem leadingDigits_of_head {t : Text} (past : ∀ c, t.head? = some c → ¬IsDigit c) :
    leadingDigits t = [] := by
  cases t with
  | nil => rfl
  | cons c t => exact List.takeWhile_cons_of_neg (by simpa using past c rfl)

theorem leadingDigits_all {d s : Text} (digits : AllDigits d)
    (past : ∀ c, s.head? = some c → ¬IsDigit c) : leadingDigits (d ++ s) = d := by
  have inside : ∀ c ∈ d, decide (IsDigit c) = true :=
    fun c member => decide_eq_true (digits c member)
  rw [leadingDigits, List.takeWhile_append_of_pos inside]
  exact (congrArg _ (leadingDigits_of_head past)).trans (List.append_nil d)

theorem afterDigits_all {d s : Text} (digits : AllDigits d)
    (past : ∀ c, s.head? = some c → ¬IsDigit c) : afterDigits (d ++ s) = s := by
  have parts := leadingDigits_append (d ++ s)
  rw [leadingDigits_all digits past] at parts
  exact List.append_cancel_left parts

theorem leadingDigits_cons_eq_nil {c : Char} {t : Text} :
    leadingDigits (c :: t) = [] ↔ ¬IsDigit c := by
  simp [leadingDigits, List.takeWhile_cons]

theorem afterMark_append {z : Text} : afterMark ("0." ++ z) = z := by
  rw [afterMark, preReleaseMark_start (List.prefix_append _ _), List.drop_left]

theorem afterMark_other {t : Text} (other : ¬("0." : Text) <+: t) : afterMark t = t := by
  rw [afterMark, preReleaseMark_other other]
  rfl

theorem prefix_of_dot {x e : Text} (other : ¬("0." : Text) <+: x) (more : x ≠ "0")
    (digits : AllDigits e) : ¬("0." : Text) <+: x ++ '.' :: e := by
  intro start
  rw [← List.singleton_append, ← List.append_assoc] at start
  have short := Text.prefix_left (c := '.') rfl (dot_not_digit digits) start
  rcases List.prefix_concat_iff.mp short with same | inside
  · have zero : ['0'] ++ ['.'] = x ++ ['.'] := same
    exact more (List.append_cancel_right zero).symm
  · exact other inside

theorem afterDigits_append {x v : Text} (past : ∀ c, v.head? = some c → ¬IsDigit c) :
    afterDigits (x ++ v) = afterDigits x ++ v := by
  have whole : leadingDigits x ++ (afterDigits x ++ v) = x ++ v := by
    rw [← List.append_assoc, leadingDigits_append]
  rw [← whole]
  apply afterDigits_all (leadingDigits_allDigits x)
  intro c start
  cases rest : afterDigits x with
  | nil =>
    rw [rest, List.nil_append] at start
    exact past c start
  | cons y z =>
    rw [rest, List.cons_append, List.head?_cons] at start
    exact afterDigits_head (t := x) (by rw [rest, List.head?_cons, start])

theorem dot_not_space {v : Text} (space : v.AllSpace) : '.' ∉ v :=
  fun member => absurd (space '.' member) (by decide)

theorem zero_not_refused {v : Text} (ending : Ending v) : ¬MainRefuses ("0" ++ v) := by
  have noC : 'c' ∉ v := not_mem_ending ending (by decide) (by decide) (by decide)
  rcases ending with ⟨d, filled, digits, rfl⟩ | space
  · have same : ("0" : Text) ++ '.' :: d = "0." ++ d := rfl
    rw [MainRefuses, same, afterMark_append, preReleaseMark_start (List.prefix_append _ _)]
    intro given
    rcases given with none | ⟨mark, -⟩
    · have all := leadingDigits_all (s := []) digits (by simp)
      rw [List.append_nil, none] at all
      exact filled all.symm
    · exact absurd mark (by decide)
  · have other : ¬("0." : Text) <+: "0" ++ v := by
      intro start
      exact absurd (Text.prefix_left (c := '.') rfl (dot_not_space space) start) (by decide)
    rw [MainRefuses, afterMark_other other]
    intro given
    rcases given with none | ⟨-, candidate⟩
    · exact leadingDigits_cons_eq_nil.mp none (by decide)
    · rw [afterDigits_append (fun c => ending_head (.inr space))] at candidate
      have inside := Text.infix_left (c := 'c') rfl noC candidate
      exact absurd inside (by decide)

theorem mainRefuses_dot {x v e : Text} (ending : Ending v) (digits : AllDigits e)
    (refused : MainRefuses (x ++ v)) : MainRefuses (x ++ '.' :: e) := by
  have noC : 'c' ∉ v := not_mem_ending ending (by decide) (by decide) (by decide)
  by_cases start : ("0." : Text) <+: x
  · obtain ⟨z, rfl⟩ := start
    left
    rw [List.append_assoc, afterMark_append]
    rcases refused with none | ⟨mark, -⟩
    · rw [List.append_assoc, afterMark_append] at none
      cases z with
      | nil => exact leadingDigits_cons_eq_nil.mpr (by decide)
      | cons c z => exact leadingDigits_cons_eq_nil.mpr (leadingDigits_cons_eq_nil.mp none)
    · rw [List.append_assoc, preReleaseMark_start (List.prefix_append _ _)] at mark
      exact absurd mark (by decide)
  · -- A zero alone would make the mark of a pre-release with the dot.
    by_cases zero : x = "0"
    · exact absurd refused (by rw [zero]; exact zero_not_refused ending)
    · have kept : ¬("0." : Text) <+: x ++ '.' :: e := prefix_of_dot start zero digits
      have other : ¬("0." : Text) <+: x ++ v := by
        rcases ending with ⟨d, -, more, rfl⟩ | space
        · exact prefix_of_dot start zero more
        · intro first
          exact start (Text.prefix_left (c := '.') rfl (dot_not_space space) first)
      rw [MainRefuses, afterMark_other other] at refused
      rw [MainRefuses, afterMark_other kept]
      have parts := leadingDigits_append x
      rcases refused with none | ⟨-, candidate⟩
      · left
        cases x with
        | nil => exact leadingDigits_cons_eq_nil.mpr (by decide)
        | cons c x => exact leadingDigits_cons_eq_nil.mpr (leadingDigits_cons_eq_nil.mp none)
      · right
        have dot : ∀ c, ('.' :: e).head? = some c → ¬IsDigit c := by
          intro c first
          obtain rfl : '.' = c := Option.some.inj first
          decide
        rw [afterDigits_append (fun c => ending_head ending)] at candidate
        rw [afterDigits_append dot]
        refine ⟨preReleaseMark_other kept, ?_⟩
        exact (Text.infix_left (c := 'c') rfl noC candidate).trans (List.prefix_append _ _).isInfix

theorem marked_iff {t : Text} : Marked t ↔ ∃ c, IsDigit c ∧ c :: "jpp." <:+: t := by
  constructor
  · intro given
    obtain ⟨a, c, b, digit, rfl⟩ := given
    exact ⟨c, digit, a, b, by simp⟩
  · intro given
    obtain ⟨c, digit, a, b, rfl⟩ := given
    exact ⟨a, c, b, digit, by simp⟩

theorem mentionsJpp_iff {t : Text} :
    mentionsJpp t = true ↔ ("jpp" : Text) <:+: t ∧ ¬("jpp" : Text) <+: t := by
  rw [mentionsJpp, Bool.and_eq_true, Text.contains_iff, Bool.not_eq_true', ← Bool.not_eq_true,
    Text.startsWith_iff]

theorem mentionsJpp_append {x v : Text} (absent : 'p' ∉ v) :
    mentionsJpp (x ++ v) = mentionsJpp x := by
  have longer := List.prefix_append x v
  rw [Bool.eq_iff_iff, mentionsJpp_iff, mentionsJpp_iff]
  constructor
  · intro given
    obtain ⟨inside, start⟩ := given
    exact ⟨Text.infix_left (c := 'p') rfl absent inside, fun first => start (first.trans longer)⟩
  · intro given
    obtain ⟨inside, start⟩ := given
    exact ⟨inside.trans longer.isInfix,
      fun first => start (Text.prefix_left (c := 'p') rfl absent first)⟩

theorem mentionsJpp_front {u v w : Text} (inside : ("jpp" : Text) <:+: u)
    (mentions : mentionsJpp (u ++ v) = true) : mentionsJpp (u ++ w) = true := by
  refine mentionsJpp_iff.mpr ⟨inside.trans (List.prefix_append u w).isInfix, fun start => ?_⟩
  have first := List.prefix_of_prefix_length_le start (List.prefix_append u w) inside.length_le
  exact (mentionsJpp_iff.mp mentions).2 (first.trans (List.prefix_append u v))

/-- An ending makes a mark only out of an open one. -/
theorem marked_ending {x v : Text} (ending : Ending v) (closed : ¬OpenMark x)
    (marked : Marked (x ++ v)) : Marked x := by
  obtain ⟨c, digit, inside⟩ := marked_iff.mp marked
  rcases ending with ⟨d, -, digits, rfl⟩ | space
  · have seam : x ++ '.' :: d = x ++ ['.'] ++ d := by simp
    rw [seam] at inside
    have short := Text.infix_left (c := '.') rfl (dot_not_digit digits) inside
    rcases List.infix_concat_iff.mp short with ⟨a, last⟩ | within
    · refine absurd ⟨a, c, digit, ?_⟩ closed
      have parts : a ++ c :: "jpp" ++ ['.'] = x ++ ['.'] := by
        rw [← last]
        simp
      exact (List.append_cancel_right parts).symm
    · exact marked_iff.mpr ⟨c, digit, within⟩
  · exact marked_iff.mpr ⟨c, digit, Text.infix_left (c := '.') rfl (dot_not_space space) inside⟩

theorem ending_numeral (m : Nat) : Ending ('.' :: Decimal.numeral m) :=
  .inl ⟨Decimal.numeral m, numeral_ne_nil m, numeral_allDigits m, rfl⟩

theorem line_numeral {x s : Text} (m : Nat) (before : '\n' ∉ x) (after : '\n' ∉ s) :
    '\n' ∉ x ++ Decimal.numeral m ++ s := by
  have inside : '\n' ∉ Decimal.numeral m := fun member =>
    absurd (numeral_allDigits m _ member) (by decide)
  simp [before, after, inside]

theorem line_dot {x : Text} (m : Nat) (before : '\n' ∉ x) :
    '\n' ∉ x ++ '.' :: Decimal.numeral m := by
  have whole := line_numeral (x := x ++ ['.']) (s := []) m (by simp [before]) (by simp)
  simpa using whole

theorem increaseMain_numeral (m : Nat) :
    increaseMain (Decimal.numeral m) = .ok (Decimal.numeral (m + 1)) := by
  have line : '\n' ∉ Decimal.numeral m := by
    simpa using line_numeral (x := []) (s := []) m (by simp) (by simp)
  have other : ¬("0." : Text) <+: Decimal.numeral m := fun start =>
    dot_not_digit (numeral_allDigits m) (start.subset (by decide))
  have first := leadingDigits_all (s := []) (numeral_allDigits m) (by simp)
  have rest := afterDigits_all (s := []) (numeral_allDigits m) (by simp)
  rw [List.append_nil] at first rest
  rw [increaseMain_eq line, afterMark_other other, preReleaseMark_other other, first,
    rest, if_neg (numeral_ne_nil m), if_neg (by decide), value_numeral]
  simp

theorem numeral_unmarked (m : Nat) : ¬Marked (Decimal.numeral m) := by
  intro given
  obtain ⟨a, c, b, -, whole⟩ := given
  have member : 'j' ∈ Decimal.numeral m := by
    rw [whole]
    exact List.mem_append_right a (List.mem_cons_of_mem c List.mem_cons_self)
  exact absurd (numeral_allDigits m _ member) (by decide)

theorem error_of_map {α : Type} {made : Except BumpError α} {f : α → Text} {e : BumpError}
    (error : made.map f = .error e) : ∃ e, made = .error e := by
  cases made with
  | error why => exact ⟨why, rfl⟩
  | ok a => simp [Except.map] at error

def scheme (r : Text) : Except BumpError Text :=
  if mentionsJpp r then increaseJpp r else increaseMain r

theorem increase_of_ok {r b : Text} (ok : scheme r = .ok b) : increase r false = b := by
  rw [scheme] at ok
  simp [increase, ok]

theorem increase_of_error {r : Text} {e : BumpError} (error : scheme r = .error e) :
    increase r false = increaseFallback r := by
  rw [scheme] at error
  simp [increase, error]

theorem fallback_numeral {x : Text} (filled : x ≠ []) (line : '\n' ∉ x) (m : Nat) :
    increaseFallback (x ++ '.' :: Decimal.numeral m) = x ++ '.' :: Decimal.numeral (m + 1) := by
  rw [increaseFallback_dotted filled (numeral_ne_nil m) (numeral_allDigits m) (line_dot m line),
    value_numeral]

theorem mentionsJpp_dot (x : Text) (m : Nat) :
    mentionsJpp (x ++ '.' :: Decimal.numeral m) = mentionsJpp x := by
  apply mentionsJpp_append
  exact not_mem_ending (ending_numeral m) (by decide) (by decide) (by decide)

theorem main_still_refuses {x v : Text} (line : '\n' ∉ x ++ v) (ending : Ending v) {e : BumpError}
    (refused : increaseMain (x ++ v) = .error e) (m : Nat) :
    ∃ e, increaseMain (x ++ '.' :: Decimal.numeral m) = .error e := by
  have next := line_dot m fun member => line (List.mem_append_left v member)
  have refuses := (increaseMain_refuses line).mp ⟨e, refused⟩
  exact (increaseMain_refuses next).mpr (mainRefuses_dot ending (numeral_allDigits m) refuses)

theorem openMark_next {x : Text} (isOpen : OpenMark x) (line : '\n' ∉ x) (m : Nat) :
    increaseJpp (x ++ '.' :: Decimal.numeral m) = .ok (x ++ '.' :: Decimal.numeral (m + 1)) := by
  obtain ⟨a, c, digit, rfl⟩ := isOpen
  have same (m : Nat) : a ++ c :: "jpp" ++ '.' :: Decimal.numeral m =
      a ++ c :: ("jpp." ++ Decimal.numeral m) := by simp
  have next := line_dot m line
  rw [same] at next
  rw [same, same, increaseJpp_marked digit (numeral_unmarked m) next, increaseMain_numeral]
  rfl

theorem jpp_still_refuses {x v : Text} (closed : ¬OpenMark x) (line : '\n' ∉ x ++ v)
    (ending : Ending v) {e : BumpError} (refused : increaseJpp (x ++ v) = .error e) (m : Nat) :
    ∃ e, increaseJpp (x ++ '.' :: Decimal.numeral m) = .error e := by
  have next := line_dot m fun member => line (List.mem_append_left v member)
  by_cases marked : Marked x
  · obtain ⟨a, c, q, digit, rfl, last⟩ := exists_last_mark marked
    have inside : ¬OpenMark q := by
      intro given
      obtain ⟨b, d, more, rfl⟩ := given
      exact closed ⟨a ++ c :: ("jpp." ++ b), d, more, by simp⟩
    have seam (w : Text) : a ++ c :: ("jpp." ++ q) ++ w = a ++ c :: ("jpp." ++ (q ++ w)) := by
      simp
    -- The mark of `x` is still the last one, so the main scheme decides on what follows it.
    have unmarked {w : Text} (past : Ending w) : ¬Marked (q ++ w) :=
      fun again => last (marked_ending past inside again)
    rw [seam] at refused line next
    rw [increaseJpp_marked digit (unmarked ending) line] at refused
    obtain ⟨why, stuck⟩ := error_of_map refused
    have inner : '\n' ∉ q ++ v := fun member => line (by
      exact List.mem_append_right _ (List.mem_cons_of_mem _ (List.mem_append_right _ member)))
    obtain ⟨still, error⟩ := main_still_refuses inner ending stuck m
    rw [seam, increaseJpp_marked digit (unmarked (ending_numeral m)) next, error]
    exact ⟨still, rfl⟩
  · have unmarked : ¬Marked (x ++ '.' :: Decimal.numeral m) :=
      fun again => marked (marked_ending (ending_numeral m) closed again)
    exact ⟨_, increaseJpp_unmarked unmarked next⟩

/-- Where the scheme refuses a release, no other scheme takes the numeral of the fallback over. -/
theorem refused_stays {x v : Text} (filled : x ≠ []) (line : '\n' ∉ x ++ v) (ending : Ending v)
    {e : BumpError} (refused : scheme (x ++ v) = .error e) (m : Nat) :
    increase (x ++ '.' :: Decimal.numeral m) false = x ++ '.' :: Decimal.numeral (m + 1) := by
  have before : '\n' ∉ x := fun member => line (List.mem_append_left v member)
  have back := fallback_numeral filled before m
  have absent : 'p' ∉ v := not_mem_ending ending (by decide) (by decide) (by decide)
  rw [scheme, mentionsJpp_append absent] at refused
  by_cases mentions : mentionsJpp x = true
  · rw [if_pos mentions] at refused
    have asked : scheme (x ++ '.' :: Decimal.numeral m) =
        increaseJpp (x ++ '.' :: Decimal.numeral m) := by
      rw [scheme, mentionsJpp_dot, if_pos mentions]
    by_cases isOpen : OpenMark x
    · exact increase_of_ok (asked.trans (openMark_next isOpen before m))
    · obtain ⟨why, error⟩ := jpp_still_refuses isOpen line ending refused m
      exact (increase_of_error (asked.trans error)).trans back
  · rw [if_neg mentions] at refused
    obtain ⟨why, error⟩ := main_still_refuses line ending refused m
    have asked : scheme (x ++ '.' :: Decimal.numeral m) = .error why := by
      rw [scheme, mentionsJpp_dot, if_neg mentions, error]
    exact (increase_of_error asked).trans back

structure MainTakes (p d s : Text) : Prop where
  mark : p = [] ∨ p = "0."
  filled : d ≠ []
  digits : AllDigits d
  past : ∀ c, s.head? = some c → ¬IsDigit c
  final : p = [] → ¬("rc" : Text) <:+: s

theorem mainTakes_of_ok {r b : Text} (line : '\n' ∉ r) (ok : increaseMain r = .ok b) :
    ∃ p d s, MainTakes p d s ∧ r = p ++ d ++ s ∧ b = p ++ Decimal.numeral (value d + 1) ++ s := by
  have parts :
      r = preReleaseMark r ++ leadingDigits (afterMark r) ++ afterDigits (afterMark r) := by
    rw [List.append_assoc, leadingDigits_append, preReleaseMark_append]
  have mark : preReleaseMark r = [] ∨ preReleaseMark r = "0." := by
    unfold preReleaseMark
    split
    · exact .inr rfl
    · exact .inl rfl
  rw [increaseMain_eq line] at ok
  split at ok
  · simp at ok
  · rename_i filled
    split at ok
    · simp at ok
    · rename_i final
      refine ⟨_, _, _, ⟨mark, filled, leadingDigits_allDigits _, fun c => afterDigits_head, ?_⟩,
        parts, (Except.ok.inj ok).symm⟩
      intro none candidate
      exact final ⟨none, (Text.contains_iff _ _).mpr candidate⟩

theorem MainTakes.next {p d s : Text} (takes : MainTakes p d s) (line : '\n' ∉ s) {m : Nat}
    (positive : 1 ≤ m) :
    increaseMain (p ++ Decimal.numeral m ++ s) = .ok (p ++ Decimal.numeral (m + 1) ++ s) := by
  have clear : '\n' ∉ p := by
    rcases takes.mark with rfl | rfl
    · simp
    · decide
  have mark : preReleaseMark (p ++ (Decimal.numeral m ++ s)) = p ∧
      afterMark (p ++ (Decimal.numeral m ++ s)) = Decimal.numeral m ++ s := by
    rcases takes.mark with rfl | rfl
    · have other : ¬("0." : Text) <+: Decimal.numeral m ++ s := by
        intro start
        obtain ⟨c, rest, first⟩ := List.exists_cons_of_ne_nil (numeral_ne_nil m)
        have nonzero := numeral_head positive
        rw [first] at start nonzero
        obtain ⟨rest, whole⟩ := start
        obtain ⟨zero, -⟩ := List.cons.inj whole
        exact nonzero (congrArg some zero.symm)
      exact ⟨preReleaseMark_other other, afterMark_other other⟩
    · exact ⟨preReleaseMark_start (List.prefix_append _ _), afterMark_append⟩
  rw [increaseMain_eq (line_numeral m clear line), List.append_assoc, mark.1, mark.2,
    leadingDigits_all (numeral_allDigits m) takes.past,
    afterDigits_all (numeral_allDigits m) takes.past, if_neg (numeral_ne_nil m), value_numeral,
    if_neg]
  intro given
  obtain ⟨none, candidate⟩ := given
  exact takes.final none ((Text.contains_iff _ _).mp candidate)

theorem MainTakes.no_letter {p d s : Text} (takes : MainTakes p d s) (m : Nat) :
    'j' ∉ p ++ Decimal.numeral m := by
  have clear : 'j' ∉ Decimal.numeral m := fun member =>
    absurd (numeral_allDigits m _ member) (by decide)
  rcases takes.mark with rfl | rfl
  · simpa using clear
  · simpa using clear

theorem MainTakes.unmarked {p d s : Text} (takes : MainTakes p d s) (m : Nat)
    (unmarked : ¬Marked (p ++ d ++ s)) : ¬Marked (p ++ Decimal.numeral m ++ s) := by
  intro given
  obtain ⟨a, c, b, digit, whole⟩ := given
  refine unmarked ?_
  -- Without a letter in it the numeral holds no more of a mark than the digit at its start, and the
  -- numeral that it replaces ends in a digit as well.
  rcases List.append_eq_append_iff.mp whole with ⟨z, -, rest⟩ | ⟨z, before, rest⟩
  · exact marked_append _ ⟨z, c, b, digit, rest⟩
  · cases z with
    | nil => exact marked_append _ ⟨[], c, b, digit, rest.symm⟩
    | cons y z =>
      obtain ⟨rfl, behind⟩ := List.cons.inj rest
      cases z with
      | nil =>
        have filled := takes.filled
        have parts := List.dropLast_append_getLast filled
        refine ⟨p ++ d.dropLast, d.getLast filled, b,
          takes.digits _ (List.getLast_mem filled), ?_⟩
        calc p ++ d ++ s = p ++ (d.dropLast ++ [d.getLast filled]) ++ ("jpp." ++ b) := by
              rw [parts, ← show "jpp." ++ b = s from behind]
          _ = p ++ d.dropLast ++ d.getLast filled :: ("jpp." ++ b) := by simp
      | cons y z =>
        obtain ⟨rfl, -⟩ := List.cons.inj behind
        have letter : 'j' ∈ p ++ Decimal.numeral m := by
          rw [before]
          exact List.mem_append_right a (List.mem_cons_of_mem c List.mem_cons_self)
        exact absurd letter (takes.no_letter m)

/-- What a bump moves: a numeral between two fixed texts, also in the bumps that follow. -/
structure Frame (rightmost : Bool) (r P S : Text) (n : Nat) : Prop where
  first : increase r rightmost = P ++ Decimal.numeral (n + 1) ++ S
  next : ∀ m, 1 ≤ m →
    increase (P ++ Decimal.numeral m ++ S) rightmost = P ++ Decimal.numeral (m + 1) ++ S

/-- Where the numeral of a frame comes from: it stood in the release, or it was appended. -/
def Origin (r P S : Text) (n : Nat) : Prop :=
  (∃ z, z ≠ [] ∧ AllDigits z ∧ value z = n ∧ r = P ++ z ++ S) ∨
    (P = r.trimEnd ++ "." ∧ n = 0 ∧ S = [])

theorem main_frame {r b : Text} (line : '\n' ∉ r) (plain : ¬mentionsJpp r = true)
    (ok : increaseMain r = .ok b) : ∃ P S n, Frame false r P S n ∧ Origin r P S n := by
  obtain ⟨p, d, s, takes, rfl, rfl⟩ := mainTakes_of_ok line ok
  have after : '\n' ∉ s := fun member => line (List.mem_append_right _ member)
  have letter : 'j' ∉ p ++ d := by
    have clear : 'j' ∉ d := fun member => absurd (takes.digits _ member) (by decide)
    rcases takes.mark with rfl | rfl
    · simpa using clear
    · simpa using clear
  have start : ¬("jpp" : Text) <+: p ++ d ++ s := by
    intro given
    obtain ⟨rest, whole⟩ := given
    obtain ⟨c, e, first⟩ : ∃ c e, p ++ d = c :: e :=
      List.exists_cons_of_ne_nil (by simp [takes.filled])
    rw [first] at whole letter
    obtain ⟨rfl, -⟩ := List.cons.inj whole
    exact letter List.mem_cons_self
  have absent : ¬("jpp" : Text) <:+: s := fun inside =>
    plain (mentionsJpp_iff.mpr ⟨inside.trans (List.suffix_append _ _).isInfix, start⟩)
  refine ⟨p, s, value d, ⟨?_, fun m positive => ?_⟩, .inl ⟨d, takes.filled, takes.digits, rfl, rfl⟩⟩
  · exact increase_of_ok (by rw [scheme, if_neg plain, ok])
  · have still : ¬mentionsJpp (p ++ Decimal.numeral m ++ s) = true := fun mentions =>
      absent (Text.infix_right (c := 'j') rfl (takes.no_letter m) (mentionsJpp_iff.mp mentions).1)
    exact increase_of_ok (by rw [scheme, if_neg still, takes.next after positive])

theorem jpp_frame {r b : Text} (line : '\n' ∉ r) (mentions : mentionsJpp r = true)
    (ok : increaseJpp r = .ok b) : ∃ P S n, Frame false r P S n ∧ Origin r P S n := by
  by_cases marked : Marked r
  · obtain ⟨a, c, q, digit, rfl, last⟩ := exists_last_mark marked
    rw [increaseJpp_marked digit last line] at ok
    cases bumped : increaseMain q with
    | error e => simp [bumped, Except.map] at ok
    | ok q' =>
      have inner : '\n' ∉ q := fun member => line (by
        exact List.mem_append_right _ (List.mem_cons_of_mem _ (List.mem_append_right _ member)))
      obtain ⟨p, d, s, takes, rfl, rfl⟩ := mainTakes_of_ok inner bumped
      have after : '\n' ∉ s := fun member => inner (List.mem_append_right _ member)
      have seam (t : Text) : a ++ c :: ("jpp." ++ (p ++ t ++ s)) =
          a ++ c :: ("jpp." ++ p) ++ t ++ s := by simp
      refine ⟨a ++ c :: ("jpp." ++ p), s, value d, ⟨?_, fun m positive => ?_⟩,
        .inl ⟨d, takes.filled, takes.digits, rfl, seam d⟩⟩
      · rw [bumped, Except.map, seam, Except.ok.injEq] at ok
        refine increase_of_ok ?_
        rw [scheme, if_pos mentions, increaseJpp_marked digit last line, bumped, Except.map, seam]
      · have still : mentionsJpp (a ++ c :: ("jpp." ++ p) ++ (Decimal.numeral m ++ s)) = true := by
          rw [seam, List.append_assoc] at mentions
          exact mentionsJpp_front ⟨a ++ [c], '.' :: p, by simp⟩ mentions
        have clear : '\n' ∉ a ++ c :: ("jpp." ++ p) := fun member => line (by
          rw [seam]
          exact List.mem_append_left _ (List.mem_append_left _ member))
        have next := line_numeral m clear after
        rw [← seam] at next
        refine increase_of_ok ?_
        rw [scheme, List.append_assoc, if_pos still, ← List.append_assoc, ← seam,
          increaseJpp_marked digit (takes.unmarked m last) next, takes.next after positive,
          Except.map, seam]
  · rw [increaseJpp_unmarked marked line] at ok
    simp at ok

theorem fallback_parts {r : Text} (line : '\n' ∉ r) (filled : ¬r.AllSpace) :
    ∃ x v n, x ≠ [] ∧ Ending v ∧ r = x ++ v ∧
      increaseFallback r = x ++ '.' :: Decimal.numeral (n + 1) ∧ Origin r (x ++ ['.']) [] n := by
  by_cases dotted : Dotted r
  · obtain ⟨x, d, start, more, digits, rfl⟩ := dotted
    refine ⟨x, '.' :: d, value d, start, .inl ⟨d, more, digits, rfl⟩, rfl,
      increaseFallback_dotted start more digits line, .inl ⟨d, more, digits, rfl, by simp⟩⟩
  · obtain ⟨w, space, whole⟩ := r.trimEnd_add_space
    refine ⟨r.trimEnd, w, 0, fun empty => filled (Text.trimEnd_eq_nil.mp empty), .inr space, whole,
      increaseFallback_other dotted line, .inr ⟨rfl, rfl, rfl⟩⟩

theorem fallback_frame {r : Text} {rightmost : Bool} (line : '\n' ∉ r) (filled : ¬r.AllSpace)
    (refused : rightmost = false → ∃ e, scheme r = .error e) :
    ∃ P S n, Frame rightmost r P S n ∧ Origin r P S n := by
  obtain ⟨x, v, n, start, ending, rfl, bumped, origin⟩ := fallback_parts line filled
  have before : '\n' ∉ x := fun member => line (List.mem_append_left v member)
  have seam (m : Nat) : x ++ ['.'] ++ Decimal.numeral m ++ [] = x ++ '.' :: Decimal.numeral m := by
    simp
  refine ⟨x ++ ['.'], [], n, ⟨?_, fun m _ => ?_⟩, origin⟩
  · rw [seam, ← bumped]
    cases rightmost with
    | true => rfl
    | false =>
      obtain ⟨e, error⟩ := refused rfl
      exact increase_of_error error
  · rw [seam, seam]
    cases rightmost with
    | true => exact fallback_numeral start before m
    | false =>
      obtain ⟨e, error⟩ := refused rfl
      exact refused_stays start line ending error m

theorem exists_frame {r : Text} (rightmost : Bool) (line : '\n' ∉ r) (filled : ¬r.AllSpace) :
    ∃ P S n, Frame rightmost r P S n ∧ Origin r P S n := by
  cases rightmost with
  | true => exact fallback_frame line filled (by simp)
  | false =>
    cases asked : scheme r with
    | error e => exact fallback_frame line filled fun _ => ⟨e, asked⟩
    | ok b =>
      rw [scheme] at asked
      split at asked
      · rename_i mentions
        exact jpp_frame line mentions asked
      · rename_i plain
        exact main_frame line plain asked

theorem Frame.iterate {rightmost : Bool} {r P S : Text} {n : Nat} (frame : Frame rightmost r P S n)
    (k : Nat) :
    (fun t => increase t rightmost)^[k + 1] r = P ++ Decimal.numeral (n + (k + 1)) ++ S := by
  induction k with
  | zero => exact frame.first
  | succ k ih =>
    rw [Function.iterate_succ_apply', ih]
    exact frame.next (n + (k + 1)) (by omega)

/-- All bumps of a release move one numeral between two fixed texts, by one each time. -/
theorem bumps_move_one_numeral (r : Text) (rightmost : Bool) (line : '\n' ∉ r)
    (filled : ¬r.AllSpace) :
    ∃ P S n,
      (∀ k, 1 ≤ k →
        (fun t => increase t rightmost)^[k] r = P ++ Decimal.numeral (n + k) ++ S) ∧
      ((∃ z, z ≠ [] ∧ AllDigits z ∧ value z = n ∧ r = P ++ z ++ S) ∨
        (P = r.trimEnd ++ "." ∧ n = 0 ∧ S = [])) := by
  obtain ⟨P, S, n, frame, origin⟩ := exists_frame rightmost line filled
  refine ⟨P, S, n, fun k positive => ?_, origin⟩
  obtain ⟨k, rfl⟩ := Nat.exists_eq_add_of_le' positive
  exact frame.iterate k

/-- The first bump of this release appends a numeral, since the release has no mark; the dot in
front of the numeral makes one, and the later bumps go by it. -/
theorem open_mark_moves_one_numeral :
    '\n' ∉ ("1.2jpp" : Text) ∧ ¬Text.AllSpace "1.2jpp" ∧
      ∃ P S n,
        (∀ k, 1 ≤ k →
          (fun t => increase t false)^[k] "1.2jpp" = P ++ Decimal.numeral (n + k) ++ S) ∧
        ((∃ z, z ≠ [] ∧ AllDigits z ∧ value z = n ∧ "1.2jpp" = P ++ z ++ S) ∨
          (P = Text.trimEnd "1.2jpp" ++ "." ∧ n = 0 ∧ S = [])) := by
  have line : '\n' ∉ ("1.2jpp" : Text) := by decide
  have filled : ¬Text.AllSpace "1.2jpp" := fun all => absurd (all '1' (by decide)) (by decide)
  exact ⟨line, filled, bumps_move_one_numeral "1.2jpp" false line filled⟩

end LineRules.Release
