import LineRules.Proofs.Regex.CharSet
import LineRules.Proofs.Regex.Ways

namespace LineRules.Regex

/-- A simple expression without conditions and groups. -/
def Plain : Regex → Prop
  | .empty | .set _ => True
  | .seq a b | .alt a b => a.Plain ∧ b.Plain
  | .star _ (.set _) => True
  | _ => False

/-- The texts that a plain expression matches. -/
def Takes : Regex → Text → Prop
  | .empty, t => t = []
  | .set s, t => ∃ x, t = [x] ∧ s.mem x = true
  | .seq a b, t => ∃ u v, t = u ++ v ∧ a.Takes u ∧ b.Takes v
  | .alt a b, t => a.Takes t ∨ b.Takes t
  | .star _ (.set s), t => ∀ x ∈ t, s.mem x = true
  | _, _ => False

theorem mem_reach {s : CharSet} {done rest : Text} {groups : List (Nat × Span)} {d : Cursor} :
    d ∈ reach s rest (.between done rest groups) ↔
      ∃ u v, rest = u ++ v ∧ (∀ x ∈ u, s.mem x = true) ∧ d = .between (done ++ u) v groups := by
  induction rest generalizing done with
  | nil =>
    simp only [reach, List.mem_singleton]
    constructor
    · intro here
      exact ⟨[], [], rfl, by simp, by rw [here, List.append_nil]⟩
    · intro given
      obtain ⟨u, v, whole, -, rfl⟩ := given
      obtain ⟨rfl, rfl⟩ := List.append_eq_nil_iff.mp whole.symm
      rw [List.append_nil]
  | cons x rest ih =>
    rw [reach, Cursor.between_advance, List.mem_cons]
    constructor
    · intro given
      rcases given with here | later
      · exact ⟨[], x :: rest, rfl, by simp, by rw [here, List.append_nil]⟩
      · split at later
        · rename_i fits
          obtain ⟨u, v, whole, all, rfl⟩ := ih.mp later
          refine ⟨x :: u, v, by rw [whole, List.cons_append], ?_, by simp⟩
          exact List.forall_mem_cons.mpr ⟨fits, all⟩
        · simp at later
    · intro given
      obtain ⟨u, v, whole, all, rfl⟩ := given
      cases u with
      | nil => exact .inl (by rw [whole, List.append_nil, List.nil_append])
      | cons y u =>
        obtain ⟨rfl, later⟩ := List.cons.inj whole
        obtain ⟨fits, all⟩ := List.forall_mem_cons.mp all
        rw [if_pos fits]
        exact .inr (ih.mpr ⟨u, v, later, all, by simp⟩)

theorem mem_ways_set {s : CharSet} {done rest : Text} {groups : List (Nat × Span)} {d : Cursor} :
    d ∈ (set s).ways (.between done rest groups) ↔
      ∃ u v, rest = u ++ v ∧ (set s).Takes u ∧ d = .between (done ++ u) v groups := by
  cases rest with
  | nil =>
    simp only [ways, Cursor.between, Takes, List.not_mem_nil, false_iff]
    intro given
    obtain ⟨u, v, whole, ⟨x, rfl, -⟩, -⟩ := given
    simp at whole
  | cons x rest =>
    have here : (Cursor.between done (x :: rest) groups).rest = x :: rest := rfl
    simp only [ways, here, Takes, Cursor.between_advance]
    constructor
    · intro member
      split at member
      · rename_i fits
        exact ⟨[x], rest, rfl, ⟨x, rfl, fits⟩, List.mem_singleton.mp member⟩
      · simp at member
    · intro given
      obtain ⟨u, v, whole, ⟨y, rfl, fits⟩, rfl⟩ := given
      obtain ⟨rfl, rfl⟩ := List.cons.inj whole
      rw [if_pos fits]
      exact List.mem_singleton_self _

theorem mem_ways {r : Regex} (plain : r.Plain) {done rest : Text}
    {groups : List (Nat × Span)} {d : Cursor} :
    d ∈ r.ways (.between done rest groups) ↔
      ∃ u v, rest = u ++ v ∧ r.Takes u ∧ d = .between (done ++ u) v groups := by
  induction r generalizing done rest d with
  | empty =>
    simp only [ways, Takes, List.mem_singleton]
    constructor
    · intro here
      exact ⟨[], rest, rfl, rfl, by rw [here, List.append_nil]⟩
    · intro given
      obtain ⟨u, v, rfl, rfl, rfl⟩ := given
      rw [List.append_nil, List.nil_append]
  | set s => exact mem_ways_set
  | seq a b first second =>
    simp only [ways, Takes, List.mem_flatMap]
    constructor
    · intro given
      obtain ⟨m, one, two⟩ := given
      obtain ⟨u, v, rfl, taken, rfl⟩ := (first plain.1).mp one
      obtain ⟨v, w, rfl, more, rfl⟩ := (second plain.2).mp two
      exact ⟨u ++ v, w, by simp, ⟨u, v, rfl, taken, more⟩, by simp⟩
    · intro given
      obtain ⟨-, w, rfl, ⟨u, v, rfl, taken, more⟩, rfl⟩ := given
      refine ⟨.between (done ++ u) (v ++ w) groups, ?_, ?_⟩
      · exact (first plain.1).mpr ⟨u, v ++ w, by simp, taken, rfl⟩
      · exact (second plain.2).mpr ⟨v, w, rfl, more, by simp⟩
  | alt a b first second =>
    simp only [ways, Takes, List.mem_append]
    constructor
    · intro given
      rcases given with one | two
      · obtain ⟨u, v, whole, taken, here⟩ := (first plain.1).mp one
        exact ⟨u, v, whole, .inl taken, here⟩
      · obtain ⟨u, v, whole, taken, here⟩ := (second plain.2).mp two
        exact ⟨u, v, whole, .inr taken, here⟩
    · intro given
      obtain ⟨u, v, whole, taken | taken, here⟩ := given
      · exact .inl ((first plain.1).mpr ⟨u, v, whole, taken, here⟩)
      · exact .inr ((second plain.2).mpr ⟨u, v, whole, taken, here⟩)
  | star greedy a =>
    cases a with
    | set s =>
      cases greedy with
      | true => exact List.mem_reverse.trans mem_reach
      | false => exact mem_reach
    | _ => exact absurd plain id
  | _ => exact absurd plain id

theorem takes_text {w t : Text} : (text w).Takes t ↔ t = w := by
  induction w generalizing t with
  | nil => rfl
  | cons x w ih =>
    simp only [text, Takes]
    constructor
    · intro given
      obtain ⟨u, v, rfl, ⟨y, rfl, same⟩, later⟩ := given
      rw [ih.mp later]
      rw [CharSet.mem_single.mp same, List.singleton_append]
    · intro same
      subst same
      exact ⟨[x], w, rfl, ⟨x, rfl, CharSet.mem_single.mpr rfl⟩, ih.mpr rfl⟩

theorem takes_textAnyCase {w t : Text} :
    (textAnyCase w).Takes t ↔ t.map Unicode.fold = w.map Unicode.fold := by
  induction w generalizing t with
  | nil => exact List.map_eq_nil_iff.symm
  | cons x w ih =>
    simp only [textAnyCase, Takes]
    constructor
    · intro given
      obtain ⟨u, v, rfl, ⟨y, rfl, same⟩, later⟩ := given
      rw [List.singleton_append, List.map_cons, List.map_cons, ih.mp later,
        CharSet.mem_sameFold.mp same]
    · intro same
      cases t with
      | nil => simp at same
      | cons y t =>
        obtain ⟨here, later⟩ := List.cons.inj same
        exact ⟨[y], t, rfl, ⟨y, rfl, CharSet.mem_sameFold.mpr here⟩, ih.mpr later⟩

theorem takes_many1 {s : CharSet} {t : Text} :
    (many1 s).Takes t ↔ t ≠ [] ∧ ∀ x ∈ t, s.mem x = true := by
  constructor
  · intro given
    obtain ⟨u, v, rfl, ⟨x, rfl, fits⟩, all⟩ := given
    exact ⟨by simp, List.forall_mem_cons.mpr ⟨fits, all⟩⟩
  · intro given
    obtain ⟨filled, all⟩ := given
    obtain ⟨x, rest, rfl⟩ := List.exists_cons_of_ne_nil filled
    obtain ⟨fits, all⟩ := List.forall_mem_cons.mp all
    exact ⟨[x], rest, rfl, ⟨x, rfl, fits⟩, all⟩

theorem plain_text (w : Text) : (text w).Plain := by
  induction w with
  | nil => trivial
  | cons x w ih => exact ⟨trivial, ih⟩

theorem plain_textAnyCase (w : Text) : (textAnyCase w).Plain := by
  induction w with
  | nil => trivial
  | cons x w ih => exact ⟨trivial, ih⟩

theorem takes_all_cons {r : Regex} {rs : List Regex} {t : Text} :
    (all (r :: rs)).Takes t ↔ ∃ u v, t = u ++ v ∧ r.Takes u ∧ (all rs).Takes v := by
  cases rs with
  | nil =>
    constructor
    · intro taken
      exact ⟨t, [], (List.append_nil t).symm, taken, rfl⟩
    · intro given
      obtain ⟨u, v, rfl, taken, rfl⟩ := given
      rwa [List.append_nil]
  | cons s rs => exact Iff.rfl

theorem takes_all_nil {t : Text} : (all []).Takes t ↔ t = [] :=
  Iff.rfl

theorem plain_all {rs : List Regex} (plain : ∀ r ∈ rs, r.Plain) : (all rs).Plain := by
  induction rs with
  | nil => trivial
  | cons r rs ih =>
    obtain ⟨first, rest⟩ := List.forall_mem_cons.mp plain
    cases rs with
    | nil => exact first
    | cons s rs => exact ⟨first, ih rest⟩

theorem simple_of_plain {r : Regex} (plain : r.Plain) : r.Simple := by
  induction r with
  | seq a b first second => exact ⟨first plain.1, second plain.2⟩
  | alt a b first second => exact ⟨first plain.1, second plain.2⟩
  | star greedy a =>
    cases a with
    | set s => trivial
    | _ => exact absurd plain id
  | empty | set s => trivial
  | look l | group n a | once mark => exact absurd plain id

theorem groupNumbers_of_plain {r : Regex} (plain : r.Plain) : r.groupNumbers = [] := by
  induction r with
  | seq a b first second | alt a b first second =>
    simp only [groupNumbers, first plain.1, second plain.2, List.append_nil]
  | star greedy a =>
    cases a with
    | set s => rfl
    | _ => exact absurd plain id
  | empty | set s => rfl
  | look l | group n a | once mark => exact absurd plain id

theorem simple_all {rs : List Regex} (simple : ∀ r ∈ rs, r.Simple) : (all rs).Simple := by
  induction rs with
  | nil => trivial
  | cons r rs ih =>
    obtain ⟨first, rest⟩ := List.forall_mem_cons.mp simple
    cases rs with
    | nil => exact first
    | cons s rs => exact ⟨first, ih rest⟩

section First

variable {α : Type} {k : Cursor → Option α}

/-- What comes of the preferred way to match, of those from which one can go on. -/
def first (r : Regex) (c : Cursor) (k : Cursor → Option α) : Option α :=
  (r.ways c).findSome? k

theorem head_ways (r : Regex) (c : Cursor) : (r.ways c).head? = r.first c some := by
  rw [first]
  cases r.ways c <;> rfl

theorem first_eq_none {r : Regex} {c : Cursor} :
    r.first c k = none ↔ ∀ d ∈ r.ways c, k d = none :=
  List.findSome?_eq_none_iff

theorem first_empty (c : Cursor) : Regex.empty.first c k = k c := by
  simp [first, ways]

theorem first_look (l : Look) (c : Cursor) :
    (Regex.look l).first c k = if l.holds c then k c else none := by
  simp only [first, ways]
  split <;> simp

theorem first_set_cons (s : CharSet) (done : Text) (x : Char) (rest : Text)
    (groups : List (Nat × Span)) :
    (Regex.set s).first (.between done (x :: rest) groups) k =
      if s.mem x then k (.between (done ++ [x]) rest groups) else none := by
  have here : (Cursor.between done (x :: rest) groups).rest = x :: rest := rfl
  simp only [first, ways, here, Cursor.between_advance]
  split <;> simp

theorem first_set_nil (s : CharSet) (done : Text) (groups : List (Nat × Span)) :
    (Regex.set s).first (.between done [] groups) k = none :=
  rfl

theorem first_seq (a b : Regex) (c : Cursor) :
    (Regex.seq a b).first c k = a.first c fun d => b.first d k := by
  simp only [first, ways]
  induction a.ways c with
  | nil => rfl
  | cons d ds ih =>
    rw [List.flatMap_cons, List.findSome?_append, ih, List.findSome?_cons]
    cases (b.ways d).findSome? k <;> rfl

theorem first_alt (a b : Regex) (c : Cursor) :
    (Regex.alt a b).first c k = (a.first c k).or (b.first c k) := by
  simp only [first, ways, List.findSome?_append]

theorem first_group (n : Nat) (a : Regex) (c : Cursor) :
    (Regex.group n a).first c k = a.first c fun d => k (d.record n c.offset) := by
  simp only [first, ways]
  exact List.findSome?_map

theorem first_all_cons (r : Regex) (rs : List Regex) (c : Cursor) :
    (all (r :: rs)).first c k = r.first c fun d => (all rs).first d k := by
  cases rs with
  | nil => simp only [all, first_empty]
  | cons s rs => exact first_seq r (all (s :: rs)) c

theorem first_all_append (rs ss : List Regex) (c : Cursor) :
    (all (rs ++ ss)).first c k = (all rs).first c fun d => (all ss).first d k := by
  induction rs generalizing c with
  | nil => rw [List.nil_append, all, first_empty]
  | cons r rs ih => simp only [List.cons_append, first_all_cons, ih]

/-- Where everything that can be completed gives the same, the order of preference plays no part. -/
theorem first_of_agree {r : Regex} {c d : Cursor} {y : α} (member : d ∈ r.ways c)
    (goes : k d = some y) (agree : ∀ e ∈ r.ways c, ∀ z, k e = some z → z = y) :
    r.first c k = some y := by
  cases found : r.first c k with
  | none =>
    rw [first_eq_none.mp found d member] at goes
    simp at goes
  | some z =>
    obtain ⟨e, other, gives⟩ := List.exists_of_findSome?_eq_some found
    rw [agree e other z gives]

theorem first_text (w : Text) (done rest : Text) (groups : List (Nat × Span)) :
    (text w).first (.between done (w ++ rest) groups) k = k (.between (done ++ w) rest groups) := by
  induction w generalizing done with
  | nil => rw [text, first_empty, List.nil_append, List.append_nil]
  | cons x w ih =>
    have fits : (CharSet.single x).mem x = true := CharSet.mem_single.mpr rfl
    rw [text, first_seq, List.cons_append, first_set_cons, if_pos fits, ih, List.append_assoc,
      List.singleton_append]

theorem first_textAnyCase {w t : Text} (same : t.map Unicode.fold = w.map Unicode.fold)
    (done rest : Text) (groups : List (Nat × Span)) :
    (textAnyCase w).first (.between done (t ++ rest) groups) k =
      k (.between (done ++ t) rest groups) := by
  induction w generalizing t done with
  | nil =>
    rw [List.map_eq_nil_iff.mp same, textAnyCase, first_empty, List.nil_append, List.append_nil]
  | cons x w ih =>
    cases t with
    | nil => simp at same
    | cons y t =>
      obtain ⟨here, later⟩ := List.cons.inj same
      rw [textAnyCase, first_seq, List.cons_append, first_set_cons,
        if_pos (CharSet.mem_sameFold.mpr here), ih later, List.append_assoc, List.singleton_append]

theorem first_many_nil (s : CharSet) (done : Text) (groups : List (Nat × Span)) :
    (many s).first (.between done [] groups) k = k (.between done [] groups) := by
  simp [first, many, ways, Cursor.between, reach]

theorem first_many_cons (s : CharSet) (done : Text) (x : Char) (rest : Text)
    (groups : List (Nat × Span)) :
    (many s).first (.between done (x :: rest) groups) k =
      (if s.mem x then (many s).first (.between (done ++ [x]) rest groups) k else none).or
        (k (.between done (x :: rest) groups)) := by
  simp only [first, many, ways]
  rw [reach_cons rfl, Cursor.between_advance, List.reverse_cons, List.findSome?_append]
  split <;> simp

theorem first_fewest_nil (s : CharSet) (done : Text) (groups : List (Nat × Span)) :
    (fewest s).first (.between done [] groups) k = k (.between done [] groups) := by
  simp [first, fewest, ways, Cursor.between, reach]

theorem first_fewest_cons (s : CharSet) (done : Text) (x : Char) (rest : Text)
    (groups : List (Nat × Span)) :
    (fewest s).first (.between done (x :: rest) groups) k =
      (k (.between done (x :: rest) groups)).or
        (if s.mem x then (fewest s).first (.between (done ++ [x]) rest groups) k else none) := by
  simp only [first, fewest, ways]
  rw [reach_cons rfl, Cursor.between_advance, List.findSome?_cons]
  cases k (.between done (x :: rest) groups) with
  | none => by_cases fits : s.mem x <;> simp [fits]
  | some y => rfl

theorem first_many_none {s : CharSet} {done rest : Text} {groups : List (Nat × Span)} :
    (many s).first (.between done rest groups) k = none ↔
      ∀ u v, rest = u ++ v → (∀ x ∈ u, s.mem x = true) →
        k (.between (done ++ u) v groups) = none := by
  rw [first_eq_none]
  constructor
  · intro none u v whole all
    exact none _ ((mem_ways (r := many s) trivial).mpr ⟨u, v, whole, all, rfl⟩)
  · intro none d member
    obtain ⟨u, v, whole, all, rfl⟩ := (mem_ways (r := many s) trivial).mp member
    exact none u v whole all

/-- A greedy repetition takes the longest part that can be completed. -/
theorem first_many_longest {s : CharSet} {done u v : Text} {groups : List (Nat × Span)} {y : α}
    (all : ∀ x ∈ u, s.mem x = true) (goes : k (.between (done ++ u) v groups) = some y)
    (longer : ∀ w w', v = w ++ w' → w ≠ [] → (∀ x ∈ w, s.mem x = true) →
      k (.between (done ++ u ++ w) w' groups) = none) :
    (many s).first (.between done (u ++ v) groups) k = some y := by
  induction u generalizing done with
  | nil =>
    rw [List.append_nil] at goes longer
    rw [List.nil_append]
    cases v with
    | nil => rw [first_many_nil, goes]
    | cons x v =>
      have later : (if s.mem x then (many s).first (.between (done ++ [x]) v groups) k
          else none) = none := by
        split
        · rename_i fits
          apply first_many_none.mpr
          intro w w' whole more
          have vain := longer (x :: w) w' (by rw [whole, List.cons_append]) (by simp)
            (List.forall_mem_cons.mpr ⟨fits, more⟩)
          rwa [List.append_assoc, List.singleton_append]
        · rfl
      rw [first_many_cons, later, Option.none_or, goes]
  | cons x u ih =>
    obtain ⟨fits, all⟩ := List.forall_mem_cons.mp all
    have shift : done ++ x :: u = done ++ [x] ++ u := by simp
    rw [shift] at goes longer
    rw [List.cons_append, first_many_cons, if_pos fits, ih all goes longer, Option.some_or]

theorem run_ends {s : CharSet} {v w w' : Text} (past : ∀ x, v.head? = some x → ¬s.mem x = true)
    (whole : v = w ++ w') (filled : w ≠ []) : ¬∀ x ∈ w, s.mem x = true := by
  obtain ⟨x, w, rfl⟩ := List.exists_cons_of_ne_nil filled
  exact fun more => past x (by rw [whole]; rfl) (more x (by simp))

theorem first_many_run {s : CharSet} {done u v : Text} {groups : List (Nat × Span)} {y : α}
    (all : ∀ x ∈ u, s.mem x = true) (past : ∀ x, v.head? = some x → ¬s.mem x = true)
    (goes : k (.between (done ++ u) v groups) = some y) :
    (many s).first (.between done (u ++ v) groups) k = some y :=
  first_many_longest all goes fun _ _ whole filled more => absurd more (run_ends past whole filled)

theorem first_many1_longest {s : CharSet} {done u v : Text} {groups : List (Nat × Span)} {y : α}
    (filled : u ≠ []) (all : ∀ x ∈ u, s.mem x = true)
    (goes : k (.between (done ++ u) v groups) = some y)
    (longer : ∀ w w', v = w ++ w' → w ≠ [] → (∀ x ∈ w, s.mem x = true) →
      k (.between (done ++ u ++ w) w' groups) = none) :
    (many1 s).first (.between done (u ++ v) groups) k = some y := by
  obtain ⟨x, u, rfl⟩ := List.exists_cons_of_ne_nil filled
  obtain ⟨fits, all⟩ := List.forall_mem_cons.mp all
  have shift : done ++ x :: u = done ++ [x] ++ u := by simp
  rw [shift] at goes longer
  rw [many1, first_seq, List.cons_append, first_set_cons, if_pos fits]
  exact first_many_longest all goes longer

theorem first_many1_run {s : CharSet} {done u v : Text} {groups : List (Nat × Span)} {y : α}
    (filled : u ≠ []) (all : ∀ x ∈ u, s.mem x = true)
    (past : ∀ x, v.head? = some x → ¬s.mem x = true)
    (goes : k (.between (done ++ u) v groups) = some y) :
    (many1 s).first (.between done (u ++ v) groups) k = some y :=
  first_many1_longest filled all goes fun _ _ whole longer more =>
    absurd more (run_ends past whole longer)

theorem first_many1_none {s : CharSet} {done rest : Text} {groups : List (Nat × Span)}
    (past : ∀ x, rest.head? = some x → ¬s.mem x = true) :
    (many1 s).first (.between done rest groups) k = none := by
  rw [many1, first_seq]
  cases rest with
  | nil => exact first_set_nil s done groups
  | cons x rest => rw [first_set_cons, if_neg (past x rfl)]

theorem first_text_none {w done rest : Text} {groups : List (Nat × Span)}
    (other : ¬w <+: rest) : (text w).first (.between done rest groups) k = none := by
  apply first_eq_none.mpr
  intro d member
  obtain ⟨u, v, rfl, taken, -⟩ := (mem_ways (plain_text w)).mp member
  rw [takes_text.mp taken] at other
  exact absurd (List.prefix_append w v) other

theorem first_fewest_shortest {s : CharSet} {done u v : Text} {groups : List (Nat × Span)} {y : α}
    (all : ∀ x ∈ u, s.mem x = true) (goes : k (.between (done ++ u) v groups) = some y)
    (shorter : ∀ w w', u = w ++ w' → w' ≠ [] →
      k (.between (done ++ w) (w' ++ v) groups) = none) :
    (fewest s).first (.between done (u ++ v) groups) k = some y := by
  induction u generalizing done with
  | nil =>
    rw [List.append_nil] at goes
    rw [List.nil_append]
    cases v with
    | nil => rw [first_fewest_nil, goes]
    | cons x v => rw [first_fewest_cons, goes, Option.some_or]
  | cons x u ih =>
    obtain ⟨fits, all⟩ := List.forall_mem_cons.mp all
    have here := shorter [] (x :: u) rfl (by simp)
    rw [List.append_nil, List.cons_append] at here
    have shift : done ++ x :: u = done ++ [x] ++ u := by simp
    rw [shift] at goes
    rw [List.cons_append, first_fewest_cons, here, Option.none_or, if_pos fits]
    apply ih all goes
    intro w w' whole filled
    have vain := shorter (x :: w) w' (by rw [whole, List.cons_append]) filled
    rwa [List.append_assoc, List.singleton_append]

end First

end LineRules.Regex
