import LineRules.Handler
import Mathlib.Data.List.DropRight

namespace LineRules.Text

theorem byteLength_append (s t : Text) :
    (s ++ t).byteLength = s.byteLength + t.byteLength := by
  induction s with
  | nil => simp [byteLength]
  | cons x s ih =>
    simp only [List.cons_append, byteLength, ih]
    omega

theorem splitAt_zero (t : Text) : t.splitAt? 0 = some ([], t) := by
  cases t <;> rfl

theorem splitAt_append (s t : Text) : (s ++ t).splitAt? s.byteLength = some (s, t) := by
  induction s with
  | nil => exact splitAt_zero t
  | cons x s ih =>
    have positive := x.utf8Size_pos
    have length : byteLength (x :: s) = (x.utf8Size - 1 + byteLength s) + 1 := by
      simp only [byteLength]
      omega
    have left : x.utf8Size - 1 + byteLength s + 1 - x.utf8Size = byteLength s := by omega
    rw [length, List.cons_append, splitAt?, if_pos (by omega), left, ih]
    rfl

theorem slice_append (s t u : Text) :
    (s ++ t ++ u).slice? s.byteLength (s ++ t).byteLength = some t := by
  have first := splitAt_append s (t ++ u)
  have second := splitAt_append t u
  have ordered : ¬(s ++ t).byteLength < s.byteLength := by
    rw [byteLength_append]
    omega
  have width : (s ++ t).byteLength - s.byteLength = t.byteLength := by
    rw [byteLength_append]
    omega
  rw [slice?, if_neg ordered, width, List.append_assoc, first]
  simp only [Option.bind_eq_bind, Option.bind_some, second]
  rfl

theorem splice_append (s t u replacement : Text) :
    splice (s ++ t ++ u) ⟨s.byteLength, (s ++ t).byteLength⟩ replacement =
      s ++ replacement ++ u := by
  have first : (s ++ t ++ u).splitAt? s.byteLength = some (s, t ++ u) := by
    rw [List.append_assoc]
    exact splitAt_append s (t ++ u)
  have second := splitAt_append (s ++ t) u
  simp only [splice, first, second]

theorem contains_iff (t part : Text) : t.contains part = true ↔ part <:+: t := by
  induction t with
  | nil => simp [contains]
  | cons x t ih =>
    rw [contains, Bool.or_eq_true, List.isPrefixOf_iff_prefix, ih, List.infix_cons_iff]

theorem startsWith_iff (t start : Text) : t.startsWith start = true ↔ start <+: t :=
  List.isPrefixOf_iff_prefix

def AllSpace (t : Text) : Prop :=
  ∀ c ∈ t, Unicode.isWhiteSpace c = true

instance (t : Text) : Decidable t.AllSpace :=
  List.decidableBAll (Unicode.isWhiteSpace · = true) t

def Trimmed (t : Text) : Prop :=
  ∀ c, t.getLast? = some c → Unicode.isWhiteSpace c = false

theorem trimEnd_of_trimmed {t : Text} (trimmed : t.Trimmed) : t.trimEnd = t := by
  apply List.rdropWhile_eq_self_iff.mpr
  intro filled
  rw [trimmed _ (List.getLast?_eq_some_getLast filled)]
  simp

theorem trimEnd_trimmed (t : Text) : t.trimEnd.Trimmed := by
  intro c last
  by_cases filled : t.trimEnd = []
  · simp [filled] at last
  · rw [List.getLast?_eq_some_getLast filled, Option.some.injEq] at last
    have stays := List.rdropWhile_last_not Unicode.isWhiteSpace t filled
    rw [← last]
    exact Bool.eq_false_iff.mpr stays

theorem trimEnd_append {t w : Text} (space : w.AllSpace) : (t ++ w).trimEnd = t.trimEnd := by
  induction w using List.reverseRecOn with
  | nil => rw [List.append_nil]
  | append_singleton w x ih =>
    have before : AllSpace w := fun c member => space c (List.mem_append_left _ member)
    have last : Unicode.isWhiteSpace x = true := space x (by simp)
    rw [← List.append_assoc]
    exact (List.rdropWhile_concat_pos _ _ _ last).trans (ih before)

theorem trimEnd_add_space (t : Text) : ∃ w, w.AllSpace ∧ t = t.trimEnd ++ w :=
  ⟨t.rtakeWhile Unicode.isWhiteSpace, fun _ member => List.mem_rtakeWhile_imp member,
    (List.rdropWhile_append_rtakeWhile ..).symm⟩

theorem trimEnd_unique {t r w : Text} (trimmed : r.Trimmed) (space : w.AllSpace)
    (whole : t = r ++ w) : r = t.trimEnd := by
  rw [whole, trimEnd_append space, trimEnd_of_trimmed trimmed]

theorem trimEnd_prefix (t : Text) : t.trimEnd <+: t :=
  List.rdropWhile_prefix _ _

theorem trimEnd_eq_nil {t : Text} : t.trimEnd = [] ↔ t.AllSpace :=
  List.rdropWhile_eq_nil_iff

theorem getLast?_mem_append {u v : Text} {c : Char} (last : (u ++ v).getLast? = some c)
    (filled : v ≠ []) : c ∈ v := by
  rw [List.getLast?_append_of_ne_nil u filled] at last
  exact List.mem_of_getLast? last

/-- An occurrence cannot reach into a part that lacks its last character. -/
theorem infix_left {part x v : Text} {c : Char} (last : part.getLast? = some c) (absent : c ∉ v)
    (inside : part <:+: x ++ v) : part <:+: x := by
  rcases List.infix_append_iff.mp inside with left | right | ⟨u, w, rfl, left, right⟩
  · exact left
  · exact absurd (right.subset (List.mem_of_getLast? last)) absent
  · by_cases empty : w = []
    · rw [empty, List.append_nil]
      exact left.isInfix
    · exact absurd (right.subset (getLast?_mem_append last empty)) absent

theorem infix_right {part u v : Text} {c : Char} (first : part.head? = some c) (absent : c ∉ u)
    (inside : part <:+: u ++ v) : part <:+: v := by
  rcases List.infix_append_iff.mp inside with left | right | ⟨x, w, rfl, left, right⟩
  · exact absurd (left.subset (List.mem_of_head? first)) absent
  · exact right
  · cases x with
    | nil => exact right.isInfix
    | cons y x =>
      obtain rfl : y = c := Option.some.inj first
      exact absurd (left.subset List.mem_cons_self) absent

/-- An occurrence cannot reach over a part that shares no character with it. -/
theorem infix_around {part a d b : Text} (some : part ≠ []) (filled : d ≠ [])
    (absent : ∀ c ∈ part, c ∉ d) (inside : part <:+: a ++ d ++ b) :
    part <:+: a ∨ part <:+: b := by
  rcases List.infix_append_iff.mp inside with left | right | ⟨u, w, rfl, left, right⟩
  · exact .inl (infix_left (List.getLast?_eq_some_getLast some)
      (absent _ (List.getLast_mem some)) left)
  · exact .inr right
  · by_cases empty : u = []
    · rw [empty, List.nil_append]
      exact .inr right.isInfix
    · obtain ⟨z, same⟩ := left
      have last : (a ++ d).getLast? = Option.some (u.getLast empty) := by
        rw [← same, List.getLast?_append_of_ne_nil z empty, List.getLast?_eq_some_getLast empty]
      exact absurd (getLast?_mem_append last filled)
        (absent _ (List.mem_append_left w (List.getLast_mem empty)))

theorem prefix_left {part x v : Text} {c : Char} (last : part.getLast? = some c) (absent : c ∉ v)
    (start : part <+: x ++ v) : part <+: x := by
  obtain ⟨rest, whole⟩ := start
  rcases List.append_eq_append_iff.mp whole with ⟨z, inside, -⟩ | ⟨z, longer, behind⟩
  · exact ⟨z, inside.symm⟩
  · by_cases empty : z = []
    · simp [longer, empty]
    · rw [longer] at last
      refine absurd ?_ absent
      rw [behind]
      exact List.mem_append_left _ (getLast?_mem_append last empty)

/-- A line feed at the end of the text and nowhere before it, if there is one. -/
def OneFeed (t : Text) : Prop :=
  '\n' ∉ t.dropLast

instance (t : Text) : Decidable t.OneFeed :=
  inferInstanceAs (Decidable ('\n' ∉ t.dropLast))

theorem OneFeed.left {u v : Text} (oneFeed : OneFeed (u ++ v)) (filled : v ≠ []) : '\n' ∉ u := by
  intro member
  apply oneFeed
  rw [List.dropLast_append_of_ne_nil filled]
  exact List.mem_append_left _ member

theorem OneFeed.right {u v : Text} (oneFeed : OneFeed (u ++ v)) : OneFeed v := by
  intro member
  apply oneFeed
  by_cases filled : v = []
  · simp [filled] at member
  · rw [List.dropLast_append_of_ne_nil filled]
    exact List.mem_append_right u member

theorem OneFeed.body {t : Text} (oneFeed : OneFeed t) :
    '\n' ∉ t ∨ ∃ body, '\n' ∉ body ∧ t = body ++ ['\n'] := by
  by_cases filled : t = []
  · exact .inl (by simp [filled])
  · have parts := List.dropLast_append_getLast filled
    by_cases last : t.getLast filled = '\n'
    · rw [last] at parts
      exact .inr ⟨t.dropLast, oneFeed, parts.symm⟩
    · left
      intro member
      rw [← parts] at member
      rcases List.mem_append.mp member with before | same
      · exact oneFeed before
      · exact last (List.mem_singleton.mp same).symm

theorem OneFeed.replace {a old new b : Text} (oneFeed : OneFeed (a ++ old ++ b))
    (front : '\n' ∉ a) (clean : '\n' ∉ new) : OneFeed (a ++ new ++ b) := by
  have line : '\n' ∉ a ++ new := by simp [front, clean]
  intro member
  by_cases filled : b = []
  · rw [filled, List.append_nil] at member
    exact line (List.dropLast_subset _ member)
  · rw [List.dropLast_append_of_ne_nil filled] at member
    rcases List.mem_append.mp member with before | behind
    · exact line before
    · exact oneFeed.right behind

end LineRules.Text
