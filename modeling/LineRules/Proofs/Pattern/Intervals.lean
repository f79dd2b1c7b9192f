import LineRules.Proofs.Pattern.RangeFree

/-!
What a range matches. Lines are counted from 0. An interval begins with a line that the first
pattern matches and ends with the next later one that the second pattern matches; the next interval
begins behind that. The range is open in front of a line just if an interval has begun before the
line and not ended before it, and this is carried from each line to the next.
-/
namespace LineRules

def firstFrom (holds : Nat → Bool) (count n : Nat) : Option Nat :=
  (List.range' n (count - n)).find? holds

section First

variable {holds : Nat → Bool} {count n i : Nat}

theorem firstFrom_here (less : n < count) (here : holds n = true) :
    firstFrom holds count n = some n := by
  have more : count - n = (count - (n + 1)) + 1 := by omega
  rw [firstFrom, more, List.range'_succ, List.find?_cons_of_pos here]

theorem firstFrom_later (other : holds n = false) :
    firstFrom holds count n = firstFrom holds count (n + 1) := by
  by_cases less : n < count
  · have more : count - n = (count - (n + 1)) + 1 := by omega
    rw [firstFrom, more, List.range'_succ, List.find?_cons_of_neg (by simp [other])]
    rfl
  · have none_left : count - n = 0 := by omega
    have none_later : count - (n + 1) = 0 := by omega
    rw [firstFrom, firstFrom, none_left, none_later]
    rfl

theorem firstFrom_eq_some : firstFrom holds count n = some i ↔
    n ≤ i ∧ i < count ∧ holds i = true ∧ ∀ j, n ≤ j → j < i → holds j = false := by
  induction left : count - n generalizing n with
  | zero =>
    rw [firstFrom, left]
    simp
    omega
  | succ m ih =>
    have less : n < count := by omega
    cases here : holds n with
    | true =>
      rw [firstFrom_here less here, Option.some.injEq]
      constructor
      · intro same
        subst same
        exact ⟨Nat.le_refl n, less, here, by omega⟩
      · intro given
        obtain ⟨le, -, -, before⟩ := given
        rcases Nat.lt_or_eq_of_le le with later | same
        · have missed := before n (Nat.le_refl n) later
          simp [here] at missed
        · exact same
    | false =>
      rw [firstFrom_later here, ih (by omega)]
      constructor
      · intro given
        obtain ⟨le, bound, found, before⟩ := given
        refine ⟨by omega, bound, found, fun j start below => ?_⟩
        by_cases same : j = n
        · rw [same, here]
        · exact before j (by omega) below
      · intro given
        obtain ⟨le, bound, found, before⟩ := given
        have other : n ≠ i := by
          intro same
          rw [← same, here] at found
          contradiction
        exact ⟨by omega, bound, found, fun j later below => before j (by omega) below⟩

end First

structure Interval where
  /-- Nothing if the interval began before the first line. -/
  began : Option Nat
  /-- Nothing if the interval lasts to the end of the input. -/
  ended : Option Nat
deriving DecidableEq, Repr

namespace Interval

def Covers (v : Interval) (i : Nat) : Prop :=
  (∀ s, v.began = some s → s ≤ i) ∧ ∀ e, v.ended = some e → i ≤ e

def OpenBefore (v : Interval) (i : Nat) : Prop :=
  (∀ s, v.began = some s → s < i) ∧ ∀ e, v.ended = some e → i ≤ e

def OpenAfter (v : Interval) (i : Nat) : Prop :=
  (∀ s, v.began = some s → s ≤ i) ∧ ∀ e, v.ended = some e → i < e

variable {v : Interval} {i : Nat}

theorem openAfter_iff : v.OpenAfter i ↔ v.OpenBefore (i + 1) := by
  simp only [OpenAfter, OpenBefore, Nat.lt_succ_iff, Nat.succ_le_iff]

theorem OpenBefore.covers (before : v.OpenBefore i) : v.Covers i :=
  ⟨fun s began => Nat.le_of_lt (before.1 s began), before.2⟩

theorem OpenAfter.covers (after : v.OpenAfter i) : v.Covers i :=
  ⟨after.1, fun e ended => Nat.le_of_lt (after.2 e ended)⟩

theorem Covers.openBefore (covers : v.Covers i) (inside : v.began ≠ some i) : v.OpenBefore i := by
  refine ⟨fun s began => Nat.lt_of_le_of_ne (covers.1 s began) ?_, covers.2⟩
  intro same
  exact inside (same ▸ began)

theorem Covers.openAfter (covers : v.Covers i) (inside : v.ended ≠ some i) : v.OpenAfter i := by
  refine ⟨covers.1, fun e ended => Nat.lt_of_le_of_ne (covers.2 e ended) ?_⟩
  intro same
  exact inside (same ▸ ended)

end Interval

section Intervals

variable (opens closes : Nat → Bool) (count : Nat) (isOpen : Bool)

def intervalFrom (n : Nat) : Option Interval :=
  (firstFrom opens count n).map fun s => ⟨some s, firstFrom closes count (s + 1)⟩

/-- The intervals in order, counted from 0. If the range is open at first, the first of them began
before the first line. -/
def intervals : Nat → Option Interval
  | 0 => if isOpen then some ⟨none, firstFrom closes count 0⟩ else intervalFrom opens closes count 0
  | k + 1 =>
    (intervals k).bind fun v => v.ended.bind fun e => intervalFrom opens closes count (e + 1)

def openAt : Nat → Bool
  | 0 => isOpen
  | i + 1 => if openAt i then !closes i else opens i

variable {opens closes count isOpen}
variable {i j k n : Nat} {v w : Interval}

theorem intervalFrom_eq_some : intervalFrom opens closes count n = some v ↔
    ∃ s, firstFrom opens count n = some s ∧ v = ⟨some s, firstFrom closes count (s + 1)⟩ := by
  rw [intervalFrom, Option.map_eq_some_iff]
  simp only [eq_comm]

theorem intervals_succ : intervals opens closes count isOpen (k + 1) = some w ↔
    ∃ v e, intervals opens closes count isOpen k = some v ∧ v.ended = some e ∧
      intervalFrom opens closes count (e + 1) = some w := by
  simp only [intervals, Option.bind_eq_some_iff]
  constructor
  · intro given
    obtain ⟨v, here, e, ended, next⟩ := given
    exact ⟨v, e, here, ended, next⟩
  · intro given
    obtain ⟨v, e, here, ended, next⟩ := given
    exact ⟨v, here, e, ended, next⟩

theorem intervalFrom_bounds (here : intervalFrom opens closes count n = some v) :
    ∃ s, v.began = some s ∧ n ≤ s ∧ s < count ∧ opens s = true ∧
      ∀ e, v.ended = some e → s < e ∧ e < count ∧ closes e = true := by
  obtain ⟨s, first, rfl⟩ := intervalFrom_eq_some.mp here
  obtain ⟨start, bound, matched, -⟩ := firstFrom_eq_some.mp first
  refine ⟨s, rfl, start, bound, matched, fun e ended => ?_⟩
  obtain ⟨later, stop, closed, -⟩ := firstFrom_eq_some.mp ended
  exact ⟨later, stop, closed⟩

theorem intervals_cases (here : intervals opens closes count isOpen k = some v) :
    v = ⟨none, firstFrom closes count 0⟩ ∨ ∃ n, intervalFrom opens closes count n = some v := by
  cases k with
  | zero =>
    cases isOpen with
    | true => exact .inl (Option.some.inj here).symm
    | false => exact .inr ⟨0, here⟩
  | succ k =>
    obtain ⟨_, e, _, _, next⟩ := intervals_succ.mp here
    exact .inr ⟨e + 1, next⟩

theorem intervals_began (here : intervals opens closes count isOpen k = some v) {s : Nat}
    (began : v.began = some s) :
    s < count ∧ opens s = true ∧ ∀ e, v.ended = some e → s < e := by
  rcases intervals_cases here with rfl | ⟨n, first⟩
  · simp at began
  · obtain ⟨t, same, -, bound, matched, ends⟩ := intervalFrom_bounds first
    obtain rfl : t = s := Option.some.inj (same.symm.trans began)
    exact ⟨bound, matched, fun e ended => (ends e ended).1⟩

theorem intervals_ended (here : intervals opens closes count isOpen k = some v) {e : Nat}
    (ended : v.ended = some e) : e < count ∧ closes e = true := by
  rcases intervals_cases here with rfl | ⟨n, first⟩
  · obtain ⟨-, bound, closed, -⟩ := firstFrom_eq_some.mp ended
    exact ⟨bound, closed⟩
  · obtain ⟨_, _, _, _, _, ends⟩ := intervalFrom_bounds first
    exact (ends e ended).2

/-- Every interval begins behind the ends of all those before it. -/
theorem intervals_apart (less : j < k) (here : intervals opens closes count isOpen k = some w) :
    ∃ v e s, intervals opens closes count isOpen j = some v ∧ v.ended = some e ∧
      w.began = some s ∧ e < s := by
  induction k generalizing w with
  | zero => omega
  | succ k ih =>
    obtain ⟨v, e, before, ended, next⟩ := intervals_succ.mp here
    obtain ⟨s, began, later, -⟩ := intervalFrom_bounds next
    rcases Nat.lt_or_eq_of_le (Nat.le_of_lt_succ less) with earlier | rfl
    · obtain ⟨u, d, r, first, stop, start, gap⟩ := ih earlier before
      have inside := (intervals_began before start).2.2 e ended
      exact ⟨u, d, s, first, stop, began, by omega⟩
    · exact ⟨v, e, s, before, ended, began, later⟩

/-- In front of a line, the range is either inside the interval that ends with the next line that
closes it, or ahead of the interval that begins with the next line that opens it. -/
theorem interval_at (opens closes : Nat → Bool) (isOpen : Bool) (le : i ≤ count) :
    (openAt opens closes isOpen i = true ∧ ∃ k v,
      intervals opens closes count isOpen k = some v ∧ (∀ s, v.began = some s → s < i) ∧
        v.ended = firstFrom closes count i) ∨
    (openAt opens closes isOpen i = false ∧ ∃ k,
      intervals opens closes count isOpen k = intervalFrom opens closes count i ∧
        ∀ j < k, ∃ v e, intervals opens closes count isOpen j = some v ∧ v.ended = some e ∧
          e < i) := by
  induction i with
  | zero =>
    cases isOpen with
    | true => exact .inl ⟨rfl, 0, _, rfl, by simp, rfl⟩
    | false => exact .inr ⟨rfl, 0, rfl, by simp⟩
  | succ i ih =>
    have less : i < count := le
    rcases ih (Nat.le_of_lt less) with ⟨isIn, k, v, here, before, stop⟩ | ⟨isOut, k, here, past⟩
    · cases closed : closes i with
      | true =>
        -- The interval ends with this line, and the next one is looked for behind it.
        rw [firstFrom_here less closed] at stop
        refine .inr ⟨by simp [openAt, isIn, closed], k + 1, by simp [intervals, here, stop], ?_⟩
        intro j earlier
        rcases Nat.lt_or_eq_of_le (Nat.le_of_lt_succ earlier) with sooner | rfl
        · obtain ⟨u, e, s, first, ended, began, gap⟩ := intervals_apart sooner here
          have start := before s began
          exact ⟨u, e, first, ended, by omega⟩
        · exact ⟨v, i, here, stop, by omega⟩
      | false =>
        rw [firstFrom_later closed] at stop
        refine .inl ⟨by simp [openAt, isIn, closed], k, v, here, fun s began => ?_, stop⟩
        have start := before s began
        omega
    · cases opened : opens i with
      | true =>
        rw [intervalFrom, firstFrom_here less opened] at here
        exact .inl ⟨by simp [openAt, isOut, opened], k, _, here, by simp, rfl⟩
      | false =>
        rw [intervalFrom, firstFrom_later opened] at here
        refine .inr ⟨by simp [openAt, isOut, opened], k, here, fun j earlier => ?_⟩
        obtain ⟨u, e, first, ended, gap⟩ := past j earlier
        exact ⟨u, e, first, ended, by omega⟩

theorem openAt_iff (le : i ≤ count) : openAt opens closes isOpen i = true ↔
    ∃ k v, intervals opens closes count isOpen k = some v ∧ v.OpenBefore i := by
  rcases interval_at opens closes isOpen le with
    ⟨isIn, k, v, here, before, stop⟩ | ⟨isOut, k, here, past⟩
  · have until_stop : ∀ e, v.ended = some e → i ≤ e := fun e ended =>
      (firstFrom_eq_some.mp (stop.symm.trans ended)).1
    exact ⟨fun _ => ⟨k, v, here, before, until_stop⟩, fun _ => isIn⟩
  · rw [isOut]
    refine ⟨nofun, fun given => ?_⟩
    obtain ⟨j, w, found, before, stop⟩ := given
    -- Earlier intervals have ended before the line, and the others have not begun.
    rcases Nat.lt_trichotomy j k with earlier | rfl | later
    · obtain ⟨u, e, first, ended, gap⟩ := past j earlier
      obtain rfl : u = w := Option.some.inj (first.symm.trans found)
      have bound := stop e ended
      omega
    · obtain ⟨s, began, start, -⟩ := intervalFrom_bounds (here.symm.trans found)
      have bound := before s began
      omega
    · obtain ⟨u, e, s, first, ended, began, gap⟩ := intervals_apart later found
      obtain ⟨r, start, ahead, -⟩ := intervalFrom_bounds (here.symm.trans first)
      have inside := (intervals_began first start).2.2 e ended
      have bound := before s began
      omega

theorem openAt_succ_iff (less : i < count) : openAt opens closes isOpen (i + 1) = true ↔
    ∃ k v, intervals opens closes count isOpen k = some v ∧ v.OpenAfter i := by
  simp only [openAt_iff less, Interval.openAfter_iff]

theorem openAt_began (here : intervals opens closes count isOpen k = some v)
    (began : v.began = some i) :
    openAt opens closes isOpen i = false ∧ opens i = true := by
  obtain ⟨less, opened, inside⟩ := intervals_began here began
  refine ⟨?_, opened⟩
  rw [← Bool.not_eq_true, openAt_iff (Nat.le_of_lt less)]
  intro given
  obtain ⟨j, w, found, before, stop⟩ := given
  rcases Nat.lt_trichotomy j k with earlier | rfl | later
  · obtain ⟨u, e, s, first, ended, start, gap⟩ := intervals_apart earlier here
    obtain rfl : u = w := Option.some.inj (first.symm.trans found)
    obtain rfl : s = i := Option.some.inj (start.symm.trans began)
    have bound := stop e ended
    omega
  · obtain rfl : w = v := Option.some.inj (found.symm.trans here)
    have bound := before i began
    omega
  · obtain ⟨u, e, s, first, ended, start, gap⟩ := intervals_apart later found
    obtain rfl : u = v := Option.some.inj (first.symm.trans here)
    have length := inside e ended
    have bound := before s start
    omega

theorem openAt_ended (here : intervals opens closes count isOpen k = some v)
    (ended : v.ended = some i) :
    openAt opens closes isOpen i = true ∧ closes i = true := by
  obtain ⟨less, closed⟩ := intervals_ended here ended
  refine ⟨(openAt_iff (Nat.le_of_lt less)).mpr ⟨k, v, here, ?_, ?_⟩, closed⟩
  · intro s began
    exact (intervals_began here began).2.2 i ended
  · intro e same
    exact Nat.le_of_eq (Option.some.inj (ended.symm.trans same))

theorem openAt_inside (less : i < count) (here : intervals opens closes count isOpen k = some v)
    (covers : v.Covers i) (notFirst : v.began ≠ some i) (notLast : v.ended ≠ some i) :
    openAt opens closes isOpen i = true ∧ closes i = false := by
  have isIn := (openAt_iff (Nat.le_of_lt less)).mpr ⟨k, v, here, covers.openBefore notFirst⟩
  have stays := (openAt_succ_iff less).mpr ⟨k, v, here, covers.openAfter notLast⟩
  rw [openAt, if_pos isIn] at stays
  exact ⟨isIn, by simpa using stays⟩

theorem covered_iff (less : i < count) :
    (∃ k v, intervals opens closes count isOpen k = some v ∧ v.Covers i) ↔
      openAt opens closes isOpen i = true ∨ opens i = true := by
  constructor
  · intro given
    obtain ⟨k, v, here, covers⟩ := given
    by_cases first : v.began = some i
    · exact .inr (openAt_began here first).2
    · exact .inl ((openAt_iff (Nat.le_of_lt less)).mpr ⟨k, v, here, covers.openBefore first⟩)
  · intro given
    by_cases isIn : openAt opens closes isOpen i = true
    · obtain ⟨k, v, here, before⟩ := (openAt_iff (Nat.le_of_lt less)).mp isIn
      exact ⟨k, v, here, before.covers⟩
    · have opened := given.resolve_left isIn
      obtain ⟨k, v, here, after⟩ := (openAt_succ_iff less).mp (by rw [openAt, if_neg isIn, opened])
      exact ⟨k, v, here, after.covers⟩

end Intervals
namespace Pattern

def hitsAt (p : Pattern) (lines : List (Option Line)) (i : Nat) : Bool :=
  lines[i]?.any fun line => (p.evaluate line).report.isHit

variable {start stop : Pattern} {lines : List (Option Line)} {line : Option Line} {i : Nat}

theorem hitsAt_here (p : Pattern) (here : lines[i]? = some line) :
    p.hitsAt lines i = (p.evaluate line).report.isHit := by
  simp [hitsAt, here]

theorem openAt_shift (opens closes : Nat → Bool) (isOpen : Bool) (i : Nat) :
    openAt opens closes isOpen (i + 1) =
      openAt (fun n => opens (n + 1)) (fun n => closes (n + 1))
        (if isOpen then !closes 0 else opens 0) i := by
  induction i with
  | zero => rfl
  | succ i ih => rw [openAt, ih, openAt]

theorem evaluate_closed (freeStart : start.rangeFree = true) (line : Option Line) :
    let first := start.evaluate line
    (range start stop false).evaluate line =
      ⟨if first.report.isHit then first.report else .miss,
        .range start stop first.report.isHit, first.calls⟩ := by
  intro first
  have same : first.next = start := next_of_rangeFree line start freeStart
  cases hit : first.report.isHit <;> simp [evaluate, first, hit, same]

theorem evaluate_open (freeStop : stop.rangeFree = true) (line : Option Line) :
    let last := stop.evaluate line
    (range start stop true).evaluate line =
      ⟨if last.report.isHit then last.report else .hit,
        .range start stop (!last.report.isHit), last.calls⟩ := by
  intro last
  have same : last.next = stop := next_of_rangeFree line stop freeStop
  cases hit : last.report.isHit <;> simp [evaluate, last, hit, same]

theorem evaluateAll_range (freeStart : start.rangeFree = true) (freeStop : stop.rangeFree = true)
    (isOpen : Bool) :
    ((range start stop isOpen).evaluateAll lines)[i]? = lines[i]?.map
      (range start stop (openAt (start.hitsAt lines) (stop.hitsAt lines) isOpen i)).evaluate := by
  induction lines generalizing isOpen i with
  | nil => simp [evaluateAll]
  | cons line rest ih =>
    cases i with
    | zero => simp [evaluateAll, openAt]
    | succ i =>
      have next : ((range start stop isOpen).evaluate line).next = range start stop
          (if isOpen then !stop.hitsAt (line :: rest) 0 else start.hitsAt (line :: rest) 0) := by
        cases isOpen with
        | true => rw [evaluate_open freeStop]; rfl
        | false => rw [evaluate_closed freeStart]; rfl
      rw [evaluateAll, openAt_shift]
      simp only [List.getElem?_cons_succ, next, ih]
      rfl

theorem range_line (freeStart : start.rangeFree = true) (freeStop : stop.rangeFree = true)
    {isOpen : Bool} {e : Evaluation Pattern} (here : lines[i]? = some line)
    (there : ((range start stop isOpen).evaluateAll lines)[i]? = some e) :
    let flag := openAt (start.hitsAt lines) (stop.hitsAt lines) isOpen
    e.next.inRange = flag (i + 1) ∧
      (flag i = true →
        e.report = (if stop.hitsAt lines i then (stop.evaluate line).report else .hit) ∧
          e.calls = (stop.evaluate line).calls) ∧
      (flag i = false →
        e.report = (if start.hitsAt lines i then (start.evaluate line).report else .miss) ∧
          e.calls = (start.evaluate line).calls) := by
  intro flag
  have known : (range start stop (flag i)).evaluate line = e := by
    rw [evaluateAll_range freeStart freeStop, here] at there
    exact Option.some.inj there
  have next : flag (i + 1) = if flag i then !stop.hitsAt lines i else start.hitsAt lines i := rfl
  rw [next, start.hitsAt_here here, stop.hitsAt_here here]
  cases isIn : flag i with
  | true =>
    rw [isIn, evaluate_open freeStop] at known
    subst known
    exact ⟨rfl, fun _ => ⟨rfl, rfl⟩, nofun⟩
  | false =>
    rw [isIn, evaluate_closed freeStart] at known
    subst known
    exact ⟨rfl, nofun, fun _ => ⟨rfl, rfl⟩⟩

theorem evaluateAll_length (p : Pattern) (lines : List (Option Line)) :
    (p.evaluateAll lines).length = lines.length := by
  induction lines generalizing p with
  | nil => rfl
  | cons line rest ih => simp [evaluateAll, ih]

theorem flag_before (freeStart : start.rangeFree = true) (freeStop : stop.rangeFree = true)
    {isOpen isIn : Bool}
    (given : (isOpen :: ((range start stop isOpen).evaluateAll lines).map
      fun e => e.next.inRange)[i]? = some isIn) :
    openAt (start.hitsAt lines) (stop.hitsAt lines) isOpen i = isIn := by
  cases i with
  | zero => exact Option.some.inj given
  | succ j =>
    rw [List.getElem?_cons_succ, List.getElem?_map, Option.map_eq_some_iff] at given
    obtain ⟨e, there, flag⟩ := given
    have less : j < lines.length := by
      rw [← evaluateAll_length (range start stop isOpen)]
      exact (List.getElem?_eq_some_iff.mp there).1
    have here := List.getElem?_eq_getElem less
    exact (range_line freeStart freeStop here there).1.symm.trans flag

theorem isHit_or (p : Pattern) (here : lines[i]? = some line) (other : Match) :
    (if p.hitsAt lines i then (p.evaluate line).report else other).isHit =
      (p.hitsAt lines i || other.isHit) := by
  rw [p.hitsAt_here here]
  cases hit : (p.evaluate line).report.isHit <;> simp [hit]

/-- A range over patterns without a state matches the lines of separate intervals. Each begins with
the first line behind the last one's end that the first pattern matches, and ends with the first
line behind its beginning that the second pattern matches, or never; a range that is open at first
is inside an interval that began before. The line at the beginning gets what the first pattern
reports for it and the line at the end what the second reports, lines in between a plain hit and
all others a plain miss. The range is open between a beginning and the end that belongs to it, and
asks the second pattern just on the lines that it reaches open, the first on the others. -/
theorem range_matches_intervals (start stop : Pattern) (freeStart : start.rangeFree = true)
    (freeStop : stop.rangeFree = true) (isOpen : Bool) (lines : List (Option Line)) :
    let seen := (range start stop isOpen).evaluateAll lines
    let flags := isOpen :: seen.map fun e => e.next.inRange
    let interval :=
      intervals (start.hitsAt lines) (stop.hitsAt lines) lines.length isOpen
    seen.length = lines.length ∧
    (∀ i e line, seen[i]? = some e → lines[i]? = some line →
      (e.report.isHit = true ↔ ∃ k v, interval k = some v ∧ v.Covers i) ∧
      (∀ k v, interval k = some v →
        (v.began = some i → e.report = (start.evaluate line).report) ∧
        (v.ended = some i → e.report = (stop.evaluate line).report) ∧
        (v.Covers i → v.began ≠ some i → v.ended ≠ some i → e.report = .hit)) ∧
      ((¬∃ k v, interval k = some v ∧ v.Covers i) → e.report = .miss) ∧
      (e.next.inRange = true ↔ ∃ k v, interval k = some v ∧ v.OpenAfter i) ∧
      ∀ isIn, flags[i]? = some isIn →
        e.calls = if isIn then (stop.evaluate line).calls else (start.evaluate line).calls) ∧
    ∀ j k v w, interval j = some v → interval k = some w → j < k →
      ∃ e s, v.ended = some e ∧ w.began = some s ∧ e < s := by
  intro seen flags interval
  refine ⟨evaluateAll_length _ _, ?_, ?_⟩
  · intro i e line there here
    have less : i < lines.length := (List.getElem?_eq_some_iff.mp here).1
    obtain ⟨next, inside, outside⟩ := range_line freeStart freeStop here there
    refine ⟨?_, ?_, ?_, ?_, ?_⟩
    · rw [covered_iff less]
      cases isIn : openAt (start.hitsAt lines) (stop.hitsAt lines) isOpen i with
      | true =>
        rw [(inside isIn).1, stop.isHit_or here]
        simp [Match.isHit]
      | false =>
        rw [(outside isIn).1, start.isHit_or here]
        simp [Match.isHit]
    · intro k v found
      refine ⟨?_, ?_, ?_⟩
      · intro began
        obtain ⟨isOut, opened⟩ := openAt_began found began
        rw [(outside isOut).1, if_pos opened]
      · intro ended
        obtain ⟨isIn, closed⟩ := openAt_ended found ended
        rw [(inside isIn).1, if_pos closed]
      · intro covers notFirst notLast
        obtain ⟨isIn, still⟩ := openAt_inside less found covers notFirst notLast
        rw [(inside isIn).1, still]
        rfl
    · intro uncovered
      rw [covered_iff less, not_or] at uncovered
      rw [(outside (Bool.not_eq_true _ ▸ uncovered.1)).1, if_neg uncovered.2]
    · rw [next, openAt_succ_iff less]
    · intro isIn flag
      have before := flag_before freeStart freeStop flag
      cases isIn with
      | true => exact (inside before).2
      | false => exact (outside before).2
  · intro j k v w first second less
    obtain ⟨u, e, s, found, ended, began, gap⟩ := intervals_apart less second
    obtain rfl : u = v := Option.some.inj (found.symm.trans first)
    exact ⟨e, s, ended, began, gap⟩

theorem ends_do_not_begin :
    let start : Pattern := .test ⟨"from", fun line => line.startsWith "<"⟩
    let stop : Pattern := .test ⟨"to", fun line => line.endsWith ">"⟩
    let lines : List (Option Line) := [some "<>", some "a", some "<b>", some "<", some "c"]
    let seen := (range start stop false).evaluateAll lines
    let interval := intervals (start.hitsAt lines) (stop.hitsAt lines) lines.length false
    start.rangeFree = true ∧ stop.rangeFree = true ∧
      interval 0 = some ⟨some 0, some 2⟩ ∧ interval 1 = some ⟨some 3, none⟩ ∧
      ∀ e, seen[4]? = some e → e.report.isHit = true ∧ e.next.inRange = true := by
  intro start stop lines seen interval
  obtain ⟨-, each, -⟩ := range_matches_intervals start stop rfl rfl false lines
  have second : interval 1 = some ⟨some 3, none⟩ := by decide
  refine ⟨rfl, rfl, by decide, second, fun e there => ?_⟩
  obtain ⟨hit, -, -, flag, -⟩ := each 4 e (some "c") there rfl
  refine ⟨hit.mpr ⟨1, _, second, ?_⟩, flag.mpr ⟨1, _, second, ?_⟩⟩
  · simp [Interval.Covers]
  · simp [Interval.OpenAfter]

end Pattern

end LineRules
