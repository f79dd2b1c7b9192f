import LineRules.Proofs.Text

/-!
Matching without marks. An expression whose repetitions are of single characters has, at each
position of a text, a list of all positions where a match can end, the preferred one first. Going on
from the first of these that leads to success is what matching does, and a search finds the first
position of the text at which the list is not empty.
-/
namespace LineRules

namespace Cursor

def between (done rest : Text) (groups : List (Nat × Span)) : Cursor :=
  ⟨done.byteLength, done.getLast?, rest, groups⟩

theorem start_between (t : Text) : start t = between [] t [] :=
  rfl

theorem between_advance (done : Text) (x : Char) (rest : Text) (groups : List (Nat × Span)) :
    (between done (x :: rest) groups).advance = between (done ++ [x]) rest groups := by
  simp [between, advance, Text.byteLength_append, Text.byteLength]

theorem between_record (done rest : Text) (groups : List (Nat × Span)) (n start : Nat) :
    (between done rest groups).record n start =
      between done rest ((n, ⟨start, done.byteLength⟩) :: groups) :=
  rfl

def bare (c : Cursor) : Cursor :=
  { c with groups := [] }

theorem advance_bare (c : Cursor) : c.advance.bare = c.bare.advance := by
  unfold advance
  cases here : c.rest with
  | nil => simp [bare, here]
  | cons x rest => simp [bare, here]

end Cursor

namespace Regex

/-- No marks, and no repetition but that of a single character. -/
def Simple : Regex → Prop
  | .empty | .set _ | .look _ => True
  | .seq a b | .alt a b => a.Simple ∧ b.Simple
  | .group _ a => a.Simple
  | .star _ (.set _) => True
  | .star _ _ | .once _ => False

def reach (s : CharSet) : Text → Cursor → List Cursor
  | [], c => [c]
  | x :: rest, c => c :: if s.mem x then reach s rest c.advance else []

/-- All positions where a match that starts at a position can end, in order of preference. -/
def ways : Regex → Cursor → List Cursor
  | .empty, c => [c]
  | .set s, c =>
    match c.rest with
    | [] => []
    | x :: _ => if s.mem x then [c.advance] else []
  | .look l, c => if l.holds c then [c] else []
  | .seq a b, c => (a.ways c).flatMap b.ways
  | .alt a b, c => a.ways c ++ b.ways c
  | .group n a, c => (a.ways c).map (·.record n c.offset)
  | .star true (.set s), c => (reach s c.rest c).reverse
  | .star false (.set s), c => reach s c.rest c
  | .star _ _, _ | .once _, _ => []

def tryEach (next : Continuation) : List Cursor → Marks → Outcome
  | [], passed => .error passed
  | c :: cs, passed => (next c passed).tryCatch fun passed => tryEach next cs passed

theorem tryCatch_error (o : Outcome) : o.tryCatch .error = o := by
  cases o <;> rfl

theorem tryCatch_tryCatch (o : Outcome) (f g : Marks → Outcome) :
    (o.tryCatch f).tryCatch g = o.tryCatch fun passed => (f passed).tryCatch g := by
  cases o <;> rfl

theorem tryEach_single (next : Continuation) (c : Cursor) (passed : Marks) :
    tryEach next [c] passed = next c passed :=
  tryCatch_error _

theorem tryEach_append (next : Continuation) (cs ds : List Cursor) (passed : Marks) :
    tryEach next (cs ++ ds) passed = (tryEach next cs passed).tryCatch (tryEach next ds) := by
  induction cs generalizing passed with
  | nil => rfl
  | cons c cs ih =>
    simp only [List.cons_append, tryEach, tryCatch_tryCatch, ih]

theorem tryEach_flatMap (next : Continuation) (f : Cursor → List Cursor) (cs : List Cursor)
    (passed : Marks) :
    tryEach next (cs.flatMap f) passed =
      tryEach (fun c passed => tryEach next (f c) passed) cs passed := by
  induction cs generalizing passed with
  | nil => rfl
  | cons c cs ih =>
    rw [List.flatMap_cons, tryEach_append, tryEach]
    exact congrArg _ (funext ih)

theorem tryEach_map (next : Continuation) (f : Cursor → Cursor) (cs : List Cursor)
    (passed : Marks) :
    tryEach next (cs.map f) passed = tryEach (fun c passed => next (f c) passed) cs passed := by
  induction cs generalizing passed with
  | nil => rfl
  | cons c cs ih =>
    rw [List.map_cons, tryEach, tryEach]
    exact congrArg _ (funext ih)

theorem tryEach_congr {next other : Continuation} {cs : List Cursor}
    (same : ∀ c ∈ cs, ∀ passed, next c passed = other c passed) (passed : Marks) :
    tryEach next cs passed = tryEach other cs passed := by
  induction cs generalizing passed with
  | nil => rfl
  | cons c cs ih =>
    have rest := ih fun d member => same d (List.mem_cons_of_mem c member)
    rw [tryEach, tryEach, same c List.mem_cons_self]
    exact congrArg _ (funext rest)

theorem tryEach_finish (cs : List Cursor) (passed : Marks) :
    tryEach finish cs passed = match cs with
      | [] => .error passed
      | c :: _ => .ok c := by
  cases cs <;> rfl

theorem advance_rest {c : Cursor} {x : Char} {rest : Text} (next : c.rest = x :: rest) :
    c.advance.rest = rest := by
  simp [Cursor.advance, next]

theorem reach_shorter {s : CharSet} {rest : Text} {c d : Cursor} (here : c.rest = rest)
    (member : d ∈ reach s rest c) : d.rest.length ≤ c.rest.length := by
  induction rest generalizing c with
  | nil =>
    simp only [reach, List.mem_singleton] at member
    exact Nat.le_of_eq (by rw [member])
  | cons x rest ih =>
    rcases List.mem_cons.mp member with rfl | later
    · exact Nat.le_refl _
    · split at later
      · have shorter := ih (advance_rest here) later
        rw [advance_rest here] at shorter
        rw [here, List.length_cons]
        omega
      · simp at later

theorem ways_shorter {r : Regex} {c d : Cursor} (member : d ∈ r.ways c) :
    d.rest.length ≤ c.rest.length := by
  induction r generalizing c d with
  | empty => simp_all [ways]
  | set s =>
    simp only [ways] at member
    cases here : c.rest with
    | nil => simp [here] at member
    | cons x rest =>
      simp only [here] at member
      split at member
      · rw [List.mem_singleton.mp member, advance_rest here, List.length_cons]
        omega
      · simp at member
  | look l =>
    simp only [ways] at member
    split at member <;> simp_all
  | seq a b first second =>
    obtain ⟨m, one, two⟩ := List.mem_flatMap.mp member
    exact Nat.le_trans (second two) (first one)
  | alt a b first second =>
    rcases List.mem_append.mp member with one | two
    · exact first one
    · exact second two
  | group n a inner =>
    obtain ⟨m, one, rfl⟩ := List.mem_map.mp member
    exact inner (d := m) one
  | star greedy a =>
    cases a with
    | set s =>
      cases greedy with
      | true => exact reach_shorter rfl (List.mem_reverse.mp member)
      | false => exact reach_shorter rfl member
    | _ => simp [ways] at member
  | once mark => simp [ways] at member

theorem reach_bare (s : CharSet) (rest : Text) (c : Cursor) :
    (reach s rest c).map Cursor.bare = (reach s rest c.bare).map Cursor.bare := by
  induction rest generalizing c with
  | nil => rfl
  | cons x rest ih =>
    rw [reach, reach, List.map_cons, List.map_cons, ← Cursor.advance_bare]
    split
    · rw [ih]
      rfl
    · rfl

theorem ways_bare (r : Regex) (c : Cursor) :
    (r.ways c).map Cursor.bare = (r.ways c.bare).map Cursor.bare := by
  induction r generalizing c with
  | empty => rfl
  | set s =>
    have same : c.bare.rest = c.rest := rfl
    simp only [ways, same]
    cases c.rest with
    | nil => rfl
    | cons x rest =>
      simp only [← Cursor.advance_bare]
      split <;> rfl
  | look l =>
    have same : l.holds c.bare = l.holds c := by cases l <;> rfl
    rw [ways, ways, same]
    split <;> rfl
  | seq a b first second =>
    have through (cs : List Cursor) : (cs.flatMap b.ways).map Cursor.bare =
        (cs.map Cursor.bare).flatMap fun d => (b.ways d).map Cursor.bare := by
      rw [List.map_flatMap, List.flatMap_map]
      exact congrArg (List.flatMap · cs) (funext second)
    rw [ways, ways, through, through, first]
  | alt a b first second =>
    rw [ways, ways, List.map_append, List.map_append, first, second]
  | group n a inner =>
    have through (start : Nat) (cs : List Cursor) :
        (cs.map fun d => d.record n start).map Cursor.bare = cs.map Cursor.bare :=
      List.map_map
    have same : c.bare.offset = c.offset := rfl
    rw [ways, ways, through, through, inner]
  | star greedy a =>
    cases a with
    | set s =>
      cases greedy with
      | true =>
        rw [ways, ways, List.map_reverse, List.map_reverse, reach_bare]
        rfl
      | false => exact reach_bare s c.rest c
    | _ => simp [ways]
  | once mark => rfl

theorem ways_of_groups {r : Regex} {done rest : Text} {groups : List (Nat × Span)}
    (none : r.ways (.between done rest groups) = []) (other : List (Nat × Span)) :
    r.ways (.between done rest other) = [] := by
  have same : (r.ways (.between done rest other)).map Cursor.bare =
      (r.ways (.between done rest groups)).map Cursor.bare :=
    (ways_bare r _).trans (ways_bare r (.between done rest groups)).symm
  rw [none] at same
  exact List.map_eq_nil_iff.mp same

theorem run_set (rounds : Nat) (s : CharSet) (c : Cursor) (passed : Marks) (next : Continuation) :
    (Regex.set s).run rounds c passed next = tryEach next ((Regex.set s).ways c) passed := by
  cases here : c.rest with
  | nil => simp only [run, ways, here, tryEach]
  | cons x rest =>
    simp only [run, ways, here]
    by_cases fits : s.mem x
    · rw [if_pos fits, if_pos fits, tryEach_single]
    · rw [if_neg fits, if_neg fits, tryEach]

theorem reach_cons {s : CharSet} {c : Cursor} {x : Char} {rest : Text} (here : c.rest = x :: rest) :
    reach s c.rest c = c :: if s.mem x then reach s c.advance.rest c.advance else [] := by
  rw [here, reach, advance_rest here]

theorem iterate_reach (greedy : Bool) (s : CharSet) (rounds : Nat) (next : Continuation)
    {left : Nat} {c : Cursor} (passed : Marks) (enough : c.rest.length ≤ left) :
    iterate greedy ((Regex.set s).run rounds) next left c passed =
      tryEach next ((Regex.star greedy (.set s)).ways c) passed := by
  -- Each round takes a character, so the rounds never end before the text does.
  induction left generalizing c passed with
  | zero =>
    have nothing : c.rest = [] := List.length_eq_zero_iff.mp (Nat.le_zero.mp enough)
    cases greedy <;> simp only [iterate, ways, nothing, reach, List.reverse_singleton,
      tryEach_single]
  | succ left ih =>
    have round := run_set rounds s c
    cases here : c.rest with
    | nil =>
      simp only [ways, here, tryEach] at round
      cases greedy <;> simp only [iterate, ways, here, reach, List.reverse_singleton,
        tryEach_single, round]
      · exact tryCatch_error _
      · rfl
    | cons x rest =>
      have shorter : c.advance.rest.length ≤ left := by
        rw [here, List.length_cons] at enough
        rw [advance_rest here]
        omega
      have later (passed : Marks) := ih passed shorter
      simp only [ways, here] at round
      by_cases fits : s.mem x
      · simp only [if_pos fits, tryEach_single] at round
        cases greedy with
        | true =>
          simp only [ways] at later
          simp only [iterate, ways, reach_cons here, if_pos fits, round, later,
            List.reverse_cons, tryEach_append, if_true]
          exact congrArg _ (funext fun passed => (tryEach_single next c passed).symm)
        | false =>
          simp only [ways] at later
          simp only [iterate, ways, reach_cons here, if_pos fits, round, later, tryEach]
          rfl
      · simp only [if_neg fits, tryEach] at round
        cases greedy <;> simp only [iterate, ways, reach_cons here, if_neg fits, round, if_true,
          List.reverse_singleton, tryEach_single]
        · exact tryCatch_error _
        · rfl

/-- Matching a simple expression is going on from each of its ends in turn. -/
theorem run_ways {r : Regex} (simple : r.Simple) {rounds : Nat} {c : Cursor}
    (enough : c.rest.length ≤ rounds) (passed : Marks) (next : Continuation) :
    r.run rounds c passed next = tryEach next (r.ways c) passed := by
  induction r generalizing c passed next with
  | empty => rw [ways, tryEach_single, run]
  | set s => exact run_set rounds s c passed next
  | look l =>
    simp only [run, ways]
    split
    · rw [tryEach_single]
    · rfl
  | seq a b first second =>
    rw [run, ways, tryEach_flatMap, first simple.1 enough]
    -- No match ends before its start, so the rounds are enough for what follows it.
    exact tryEach_congr (fun d member passed =>
      second simple.2 (Nat.le_trans (ways_shorter member) enough) passed next) passed
  | alt a b first second =>
    rw [run, ways, tryEach_append, first simple.1 enough]
    exact congrArg _ (funext fun passed => second simple.2 enough passed next)
  | group n a inner =>
    rw [run, ways, tryEach_map, inner simple enough]
  | star greedy a =>
    cases a with
    | set s => exact iterate_reach greedy s rounds next passed enough
    | _ => exact absurd simple id
  | once mark => exact absurd simple id

def firstMatch (r : Regex) (done : Text) : Text → Option (Nat × Cursor)
  | [] => (r.ways (.between done [] [])).head?.map (done.byteLength, ·)
  | x :: rest =>
    match (r.ways (.between done (x :: rest) [])).head? with
    | some found => some (done.byteLength, found)
    | none => firstMatch r (done ++ [x]) rest

theorem run_finish {r : Regex} (simple : r.Simple) {rounds : Nat} {c : Cursor}
    (enough : c.rest.length ≤ rounds) (passed : Marks) :
    r.run rounds c passed finish = match (r.ways c).head? with
      | some found => .ok found
      | none => .error passed := by
  rw [run_ways simple enough, tryEach_finish]
  cases r.ways c <;> rfl

theorem searchFrom_firstMatch {r : Regex} (simple : r.Simple) {rounds : Nat} {t : Text}
    (done : Text) (passed : Marks) (enough : t.length ≤ rounds) :
    r.searchFrom rounds t.length (.between done t []) passed = r.firstMatch done t := by
  induction t generalizing done with
  | nil =>
    rw [List.length_nil, searchFrom, run_finish simple enough, firstMatch]
    cases (r.ways (.between done [] [])).head? <;> rfl
  | cons x rest ih =>
    rw [List.length_cons, searchFrom, run_finish simple enough, firstMatch]
    cases (r.ways (.between done (x :: rest) [])).head? with
    | some found => rfl
    | none =>
      simp only [Cursor.between_advance]
      exact ih (done ++ [x]) (Nat.le_of_succ_le enough)

theorem search_firstMatch {r : Regex} (simple : r.Simple) (t : Text) :
    r.search t = r.firstMatch [] t :=
  searchFrom_firstMatch simple [] ∅ (by simp only [roundsFor]; omega)

theorem firstMatch_here {r : Regex} {done t : Text} {found : Cursor}
    (here : (r.ways (.between done t [])).head? = some found) :
    r.firstMatch done t = some (done.byteLength, found) := by
  cases t with
  | nil => rw [firstMatch, here, Option.map_some]
  | cons x rest => simp only [firstMatch, here]

theorem firstMatch_eq_none {r : Regex} {done t : Text} :
    r.firstMatch done t = none ↔
      ∀ u v, t = u ++ v → r.ways (.between (done ++ u) v []) = [] := by
  induction t generalizing done with
  | nil =>
    rw [firstMatch, Option.map_eq_none_iff, List.head?_eq_none_iff]
    constructor
    · intro none u v whole
      obtain ⟨rfl, rfl⟩ := List.append_eq_nil_iff.mp whole.symm
      rwa [List.append_nil]
    · intro every
      simpa using every [] [] rfl
  | cons x rest ih =>
    rw [firstMatch]
    constructor
    · intro none u v whole
      split at none
      · simp at none
      · rename_i here
        cases u with
        | nil =>
          rw [List.append_nil, ← List.nil_append v, ← whole]
          exact List.head?_eq_none_iff.mp here
        | cons y u =>
          obtain ⟨rfl, later⟩ := List.cons.inj whole
          have none := ih.mp none u v later
          rwa [List.append_assoc, List.singleton_append] at none
    · intro every
      have here := every [] (x :: rest) rfl
      rw [List.append_nil] at here
      simp only [here, List.head?_nil]
      apply ih.mpr
      intro u v later
      have none := every (x :: u) v (by rw [later, List.cons_append])
      rwa [List.append_assoc, List.singleton_append]

theorem exists_of_firstMatch {r : Regex} {done t : Text} {start : Nat} {d : Cursor}
    (found : r.firstMatch done t = some (start, d)) :
    ∃ u v, t = u ++ v ∧ start = (done ++ u).byteLength ∧
      (r.ways (.between (done ++ u) v [])).head? = some d := by
  induction t generalizing done with
  | nil =>
    obtain ⟨e, here, same⟩ := Option.map_eq_some_iff.mp found
    obtain ⟨rfl, rfl⟩ := Prod.mk.inj same
    exact ⟨[], [], rfl, by rw [List.append_nil], by rwa [List.append_nil]⟩
  | cons x rest ih =>
    cases here : (r.ways (.between done (x :: rest) [])).head? with
    | some e =>
      rw [firstMatch_here here] at found
      obtain ⟨rfl, rfl⟩ := Prod.mk.inj (Option.some.inj found)
      exact ⟨[], x :: rest, rfl, by rw [List.append_nil], by rwa [List.append_nil]⟩
    | none =>
      rw [firstMatch] at found
      simp only [here] at found
      obtain ⟨u, v, rfl, from', way⟩ := ih found
      rw [List.append_assoc, List.singleton_append] at from' way
      exact ⟨x :: u, v, rfl, from', way⟩

theorem firstMatch_anchored {r : Regex} {t : Text}
    (anchored : ∀ u v, t = u ++ v → u ≠ [] → r.ways (.between u v []) = []) :
    r.firstMatch [] t = (r.ways (.start t)).head?.map (0, ·) := by
  cases here : (r.ways (.start t)).head? with
  | some found => exact firstMatch_here here
  | none =>
    apply firstMatch_eq_none.mpr
    intro u v whole
    by_cases start : u = []
    · subst start
      rw [whole] at here
      exact List.head?_eq_none_iff.mp here
    · exact anchored u v whole start

theorem ways_look_cons (l : Look) (rs : List Regex) (c : Cursor) :
    (all (.look l :: rs)).ways c = if l.holds c then (all rs).ways c else [] := by
  cases rs with
  | nil => rfl
  | cons r rs =>
    change (Regex.seq (.look l) (all (r :: rs))).ways c = _
    rw [ways, ways]
    split
    · exact List.flatMap_singleton _ _
    · rfl

/-- Where nothing is gained by starting a character later in a line, every match starts a line. -/
theorem firstMatch_lineStart {rs : List Regex}
    (earlier : ∀ done x rest, x ≠ '\n' → (all rs).ways (.between done (x :: rest) []) = [] →
      (all rs).ways (.between (done ++ [x]) rest []) = []) {done t : Text}
    (vain : ¬Look.lineStart.holds (.between done t []) = true →
      (all rs).ways (.between done t []) = []) :
    (all (.look .lineStart :: rs)).firstMatch done t = (all rs).firstMatch done t := by
  have here : (all (.look .lineStart :: rs)).ways (.between done t []) =
      (all rs).ways (.between done t []) := by
    rw [ways_look_cons]
    split
    · rfl
    · rename_i within
      exact (vain within).symm
  induction t generalizing done with
  | nil => rw [firstMatch, firstMatch, here]
  | cons x rest ih =>
    rw [firstMatch, firstMatch, here]
    cases found : ((all rs).ways (.between done (x :: rest) [])).head? with
    | some d => rfl
    | none =>
      have none := List.head?_eq_none_iff.mp found
      have later : ¬Look.lineStart.holds (.between (done ++ [x]) rest []) = true →
          (all rs).ways (.between (done ++ [x]) rest []) = [] := by
        intro within
        apply earlier done x rest _ none
        intro feed
        apply within
        simp [Look.holds, Cursor.between, feed]
      apply ih later
      rw [ways_look_cons]
      split
      · rfl
      · rename_i within
        exact (later within).symm

end Regex

end LineRules
