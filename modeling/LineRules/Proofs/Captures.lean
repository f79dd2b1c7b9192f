import LineRules.Proofs.Regex.First

namespace LineRules

namespace Matcher

def captured (m : Matcher) (line : Line) (start : Nat) (found : Cursor) : Captures :=
  { line, groups := m.reported start found, names := m.names }

theorem captured_span (m : Matcher) (line : Line) (start : Nat) (found : Cursor) {n : Nat}
    (positive : 0 < n) (known : n < m.groupCount) :
    (m.captured line start found).span? n = found.groups.lookup n := by
  obtain ⟨n, rfl⟩ := Nat.exists_eq_add_of_lt positive
  have inside : 0 + n < m.groupCount - 1 := by omega
  simp only [Captures.span?, captured, reported, List.getElem?_cons_succ, List.getElem?_map,
    List.getElem?_range inside, Option.map_some, Option.join_some]

/-- A search for what starts with a condition that the start of the line meets, and that nothing
can follow where it is met later. -/
theorem find_at_start {l : Look} {rs : List Regex} {names : List (Text × Nat)} {line : Line}
    (simple : ∀ r ∈ rs, r.Simple) (here : l.holds (.start line) = true)
    (later : ∀ u v, line = u ++ v → u ≠ [] → l.holds (.between u v []) = true →
      (Regex.all rs).first (.between u v []) some = none) :
    (⟨.all (.look l :: rs), names⟩ : Matcher).find? line =
      ((Regex.all rs).first (.start line) some).map
        (captured ⟨.all (.look l :: rs), names⟩ line 0) := by
  have whole : (Regex.all (.look l :: rs)).Simple :=
    Regex.simple_all (List.forall_mem_cons.mpr ⟨trivial, simple⟩)
  have vain : ∀ u v, line = u ++ v → u ≠ [] →
      (Regex.all (.look l :: rs)).ways (.between u v []) = [] := by
    intro u v parts filled
    rw [← List.head?_eq_none_iff, Regex.head_ways, Regex.first_all_cons, Regex.first_look]
    split
    · rename_i met
      exact later u v parts filled met
    · rfl
  rw [find?, Regex.search_firstMatch whole, Regex.firstMatch_anchored vain, Regex.head_ways,
    Regex.first_all_cons, Regex.first_look, if_pos here, Option.map_map]
  rfl

theorem find_anchored {l : Look} {rs : List Regex} {names : List (Text × Nat)} {line : Line}
    (simple : ∀ r ∈ rs, r.Simple) (here : l.holds (.start line) = true)
    (only : ∀ u v, line = u ++ v → u ≠ [] → ¬l.holds (.between u v []) = true) :
    (⟨.all (.look l :: rs), names⟩ : Matcher).find? line =
      ((Regex.all rs).first (.start line) some).map
        (captured ⟨.all (.look l :: rs), names⟩ line 0) :=
  find_at_start simple here fun u v parts filled met => absurd met (only u v parts filled)

theorem find_textStart {rs : List Regex} (names : List (Text × Nat)) (line : Line)
    (simple : ∀ r ∈ rs, r.Simple) :
    (⟨.all (.look .textStart :: rs), names⟩ : Matcher).find? line =
      ((Regex.all rs).first (.start line) some).map
        (captured ⟨.all (.look .textStart :: rs), names⟩ line 0) := by
  apply find_anchored simple rfl
  intro u v _ filled
  simp [Look.holds, Cursor.between, filled]

theorem find_lineStart {rs : List Regex} (names : List (Text × Nat)) {line : Line}
    (simple : ∀ r ∈ rs, r.Simple) (whole : '\n' ∉ line) :
    (⟨.all (.look .lineStart :: rs), names⟩ : Matcher).find? line =
      ((Regex.all rs).first (.start line) some).map
        (captured ⟨.all (.look .lineStart :: rs), names⟩ line 0) := by
  apply find_anchored simple rfl
  intro u v parts filled holds
  apply whole
  rw [Look.holds, Cursor.between, List.getLast?_eq_some_getLast filled, Option.all_some,
    beq_iff_eq] at holds
  rw [parts, ← holds]
  exact List.mem_append_left v (List.getLast_mem filled)

theorem exists_of_find_lineStart {rs : List Regex} {names : List (Text × Nat)} {line : Line}
    {found : Captures} (simple : ∀ r ∈ rs, r.Simple)
    (search : (⟨.all (.look .lineStart :: rs), names⟩ : Matcher).find? line = some found) :
    ∃ u v d, line = u ++ v ∧ (∀ c, u.getLast? = some c → c = '\n') ∧
      (Regex.all rs).first (.between u v []) some = some d ∧
      found = captured ⟨.all (.look .lineStart :: rs), names⟩ line u.byteLength d := by
  have whole : (Regex.all (.look .lineStart :: rs)).Simple :=
    Regex.simple_all (List.forall_mem_cons.mpr ⟨trivial, simple⟩)
  rw [find?, Regex.search_firstMatch whole] at search
  obtain ⟨⟨start, d⟩, somewhere, rfl⟩ := Option.map_eq_some_iff.mp search
  obtain ⟨u, v, rfl, rfl, way⟩ := Regex.exists_of_firstMatch somewhere
  rw [List.nil_append, Regex.head_ways, Regex.first_all_cons, Regex.first_look] at way
  split at way
  · rename_i starts
    refine ⟨u, v, d, rfl, ?_, way, rfl⟩
    intro c last
    simpa [Look.holds, Cursor.between, last] using starts
  · simp at way

/-- The end of a line may count as the start of another one, but what takes a character is not found
there. -/
theorem find_line {rs : List Regex} (names : List (Text × Nat)) {line : Line}
    (simple : ∀ r ∈ rs, r.Simple) (oneFeed : Text.OneFeed line)
    (nothing : ∀ done, (Regex.all rs).first (.between done [] []) some = none) :
    (⟨.all (.look .lineStart :: rs), names⟩ : Matcher).find? line =
      ((Regex.all rs).first (.start line) some).map
        (captured ⟨.all (.look .lineStart :: rs), names⟩ line 0) := by
  apply find_at_start simple rfl
  intro u v parts filled met
  by_cases past : v = []
  · rw [past]
    exact nothing u
  · rw [Look.holds, Cursor.between, List.getLast?_eq_some_getLast filled, Option.all_some,
      beq_iff_eq] at met
    rw [parts] at oneFeed
    exact absurd (met ▸ List.getLast_mem filled) (oneFeed.left past)

/-- What begins with a part that may be longer by any character of its line is found from the start
of a line on, whether its place is restricted to that or not. -/
theorem find_anywhere {n : Nat} {a : Regex} {rs : List Regex} (names : List (Text × Nat))
    (line : Line) (plain : a.Plain) (simple : ∀ r ∈ rs, r.Simple)
    (longer : ∀ x u, x ≠ '\n' → a.Takes u → a.Takes (x :: u)) :
    (⟨.all (.look .lineStart :: .group n a :: rs), names⟩ : Matcher).find? line =
      (⟨.all (.group n a :: rs), names⟩ : Matcher).find? line := by
  have inner : a.Simple := Regex.simple_of_plain plain
  have whole : ∀ r ∈ Regex.group n a :: rs, r.Simple := List.forall_mem_cons.mpr ⟨inner, simple⟩
  have anchored : ∀ r ∈ Regex.look .lineStart :: .group n a :: rs, r.Simple :=
    List.forall_mem_cons.mpr ⟨trivial, whole⟩
  -- What matches after a character of the line matches before it as well, the group being longer.
  have earlier : ∀ done x rest, x ≠ '\n' →
      (Regex.all (.group n a :: rs)).ways (.between done (x :: rest) []) = [] →
        (Regex.all (.group n a :: rs)).ways (.between (done ++ [x]) rest []) = [] := by
    intro done x rest inLine none
    rw [← List.head?_eq_none_iff, Regex.head_ways, Regex.first_all_cons, Regex.first_group,
      Regex.first_eq_none] at none ⊢
    intro d member
    obtain ⟨u, v, rfl, taken, rfl⟩ := (Regex.mem_ways plain).mp member
    have before : .between (done ++ x :: u) v [] ∈ a.ways (.between done (x :: (u ++ v)) []) :=
      (Regex.mem_ways plain).mpr ⟨x :: u, v, rfl, longer x u inLine taken, rfl⟩
    have vain := none _ before
    rw [Cursor.between_record, ← Regex.head_ways, List.head?_eq_none_iff] at vain ⊢
    have seam : done ++ [x] ++ u = done ++ x :: u := by simp
    rw [seam]
    exact Regex.ways_of_groups vain _
  rw [find?, find?, Regex.search_firstMatch (Regex.simple_all anchored),
    Regex.search_firstMatch (Regex.simple_all whole),
    Regex.firstMatch_lineStart earlier (fun within => absurd rfl within)]
  rfl

theorem find_isSome {r : Regex} {names : List (Text × Nat)} {line : Line} (plain : r.Plain) :
    ((⟨r, names⟩ : Matcher).find? line).isSome = true ↔
      ∃ u v w, line = u ++ v ++ w ∧ r.Takes v := by
  rw [find?, Option.isSome_map, Regex.search_firstMatch (Regex.simple_of_plain plain),
    Option.isSome_iff_ne_none, ne_eq, Regex.firstMatch_eq_none]
  constructor
  · intro some
    by_contra none
    apply some
    intro u v parts
    apply List.eq_nil_iff_forall_not_mem.mpr
    intro d member
    apply none
    obtain ⟨v, w, rfl, taken, -⟩ := (Regex.mem_ways plain).mp member
    exact ⟨u, v, w, by rw [parts, List.append_assoc], taken⟩
  · intro given none
    obtain ⟨u, v, w, rfl, taken⟩ := given
    have member : .between ([] ++ u ++ v) w [] ∈ r.ways (.between ([] ++ u) (v ++ w) []) :=
      (Regex.mem_ways plain).mpr ⟨v, w, rfl, taken, rfl⟩
    rw [none u (v ++ w) (List.append_assoc u v w)] at member
    exact List.not_mem_nil member

theorem find_text (w : Text) (names : List (Text × Nat)) (line : Line) :
    ((⟨.text w, names⟩ : Matcher).find? line).isSome = line.contains w := by
  rw [Bool.eq_iff_iff, find_isSome (Regex.plain_text w), Text.contains_iff]
  constructor
  · intro given
    obtain ⟨u, v, x, whole, taken⟩ := given
    exact ⟨u, x, by rw [← Regex.takes_text.mp taken, whole]⟩
  · intro given
    obtain ⟨u, x, whole⟩ := given
    exact ⟨u, w, x, whole.symm, Regex.takes_text.mpr rfl⟩

end Matcher

namespace Captures

theorem get_span {found : Captures} {n : Nat} {a b c : Text}
    (span : found.span? n = some ⟨Text.byteLength a, Text.byteLength (a ++ b)⟩)
    (line : found.line = a ++ b ++ c) : found.get? n = some b := by
  rw [get?, span, line]
  exact Text.slice_append a b c

end Captures

end LineRules
