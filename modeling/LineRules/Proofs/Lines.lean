import LineRules.Proofs.Text

namespace LineRules

/-- Lines as a text falls into them. -/
structure LinesOfText (lines : List Line) : Prop where
  filled : ∀ line ∈ lines, line ≠ []
  oneFeed : ∀ line ∈ lines, Text.OneFeed line
  ended : ∀ line ∈ lines.dropLast, line.getLast? = some '\n'

def Closed (line : Line) : Prop :=
  Text.OneFeed line ∧ line.getLast? = some '\n'

namespace Text

theorem closed_feed {body : Text} (plain : '\n' ∉ body) : Closed (body ++ ['\n']) := by
  refine ⟨?_, by simp⟩
  rw [OneFeed, List.dropLast_concat]
  exact plain

theorem oneFeed_plain {t : Text} (plain : '\n' ∉ t) : t.OneFeed :=
  fun member => plain (List.dropLast_subset t member)

end Text

theorem Closed.filled {line : Line} (closed : Closed line) : line ≠ [] := by
  intro empty
  have last := closed.2
  simp [empty] at last

theorem Closed.body {line : Line} (closed : Closed line) :
    ∃ body, '\n' ∉ body ∧ line = body ++ ['\n'] := by
  rcases closed.1.body with plain | parts
  · exact absurd (List.mem_of_getLast? closed.2) plain
  · exact parts

namespace LinesOfText

variable {line last : Line} {lines rest : List Line}

theorem of_closed (closed : ∀ line ∈ lines, Closed line) : LinesOfText lines :=
  ⟨fun line member => (closed line member).filled, fun line member => (closed line member).1,
    fun line member => (closed line (List.dropLast_subset lines member)).2⟩

theorem single (filled : line ≠ []) (oneFeed : Text.OneFeed line) : LinesOfText [line] :=
  ⟨by simpa using filled, by simpa using oneFeed, by simp⟩

theorem concat_iff :
    LinesOfText (lines ++ [last]) ↔
      (∀ line ∈ lines, Closed line) ∧ last ≠ [] ∧ Text.OneFeed last := by
  constructor
  · intro given
    refine ⟨fun line member => ⟨given.oneFeed line (by simp [member]), given.ended line ?_⟩,
      given.filled last (by simp), given.oneFeed last (by simp)⟩
    rwa [List.dropLast_concat]
  · intro ⟨closed, filled, oneFeed⟩
    refine ⟨?_, ?_, ?_⟩
    · intro line member
      rcases List.mem_append.mp member with inside | here
      · exact (closed line inside).filled
      · rwa [List.mem_singleton.mp here]
    · intro line member
      rcases List.mem_append.mp member with inside | here
      · exact (closed line inside).1
      · rwa [List.mem_singleton.mp here]
    · rw [List.dropLast_concat]
      exact fun line member => (closed line member).2

theorem cons (closed : Closed line) (later : LinesOfText rest) : LinesOfText (line :: rest) := by
  refine ⟨List.forall_mem_cons.mpr ⟨closed.filled, later.filled⟩,
    List.forall_mem_cons.mpr ⟨closed.1, later.oneFeed⟩, ?_⟩
  cases rest with
  | nil => simp
  | cons next rest => exact List.forall_mem_cons.mpr ⟨closed.2, later.ended⟩

theorem tail (given : LinesOfText (line :: rest)) (more : rest ≠ []) :
    Closed line ∧ LinesOfText rest := by
  have ended := given.ended
  rw [List.dropLast_cons_of_ne_nil more] at ended
  obtain ⟨first, later⟩ := List.forall_mem_cons.mp ended
  exact ⟨⟨given.oneFeed line List.mem_cons_self, first⟩,
    (List.forall_mem_cons.mp given.filled).2, (List.forall_mem_cons.mp given.oneFeed).2, later⟩

end LinesOfText

namespace Text

theorem linesFrom_linesOfText {current : Text} (plain : '\n' ∉ current) (t : Text) :
    LinesOfText (linesFrom current t) := by
  have plainToo : '\n' ∉ current.reverse := by simpa using plain
  fun_induction linesFrom current t with
  | case1 current empty => exact .of_closed (by simp)
  | case2 current filled =>
    exact .single (by simpa using filled) (oneFeed_plain plainToo)
  | case3 current t ih =>
    rw [List.reverse_cons]
    exact .cons (closed_feed plainToo) (ih (by simp) (by simp))
  | case4 current c t other ih =>
    have longer : '\n' ∉ c :: current := by simp [plain, Ne.symm other]
    exact ih longer (by simpa [and_comm] using longer)

theorem linesFrom_append {body : Text} (plain : '\n' ∉ body) (current rest : Text) :
    linesFrom current (body ++ rest) = linesFrom (body.reverse ++ current) rest := by
  induction body generalizing current with
  | nil => rfl
  | cons c body ih =>
    obtain ⟨other, later⟩ := not_or.mp (List.mem_cons.not.mp plain)
    have step : linesFrom current (c :: (body ++ rest)) = linesFrom (c :: current) (body ++ rest) :=
      if_neg (Ne.symm other)
    rw [List.cons_append, step, ih later]
    simp

theorem lines_plain {body : Text} (plain : '\n' ∉ body) (filled : body ≠ []) :
    body.lines = [body] := by
  have whole := linesFrom_append plain [] []
  rw [List.append_nil, List.append_nil] at whole
  rw [lines, whole, linesFrom, if_neg (by simp [filled]), List.reverse_reverse]

theorem lines_feed {body : Text} (plain : '\n' ∉ body) (rest : Text) :
    lines (body ++ '\n' :: rest) = (body ++ ['\n']) :: rest.lines := by
  rw [lines, linesFrom_append plain, linesFrom, if_pos rfl]
  simp [lines]

theorem linesOfText_lines (t : Text) : LinesOfText t.lines :=
  linesFrom_linesOfText (by simp) t

theorem lines_flatten {ls : List Line} (given : LinesOfText ls) : lines ls.flatten = ls := by
  induction ls with
  | nil => rfl
  | cons line rest ih =>
    by_cases last : rest = []
    · subst last
      rw [List.flatten_singleton]
      rcases (given.oneFeed line (by simp)).body with plain | ⟨body, plain, rfl⟩
      · exact lines_plain plain (given.filled line (by simp))
      · exact lines_feed plain []
    · obtain ⟨closed, later⟩ := given.tail last
      obtain ⟨body, plain, rfl⟩ := closed.body
      rw [List.flatten_cons, List.append_assoc]
      exact (lines_feed plain rest.flatten).trans (congrArg _ (ih later))

end Text

theorem linesOfText_iff (lines : List Line) :
    LinesOfText lines ↔ Text.lines lines.flatten = lines := by
  constructor
  · exact Text.lines_flatten
  · intro same
    rw [← same]
    exact Text.linesOfText_lines lines.flatten

instance (lines : List Line) : Decidable (LinesOfText lines) :=
  decidable_of_iff _ (linesOfText_iff lines).symm

/-- A line in place of another one, with the line feed at its end if that had one. -/
structure KeepsLine (line line' : Line) : Prop where
  filled : line' ≠ []
  oneFeed : Text.OneFeed line'
  ended : line.getLast? = some '\n' → line'.getLast? = some '\n'

theorem KeepsLine.refl {line : Line} (filled : line ≠ []) (oneFeed : Text.OneFeed line) :
    KeepsLine line line :=
  ⟨filled, oneFeed, id⟩

theorem keepsLine_replace {a old new b : Text} (oneFeed : Text.OneFeed (a ++ old ++ b))
    (front : '\n' ∉ a) (plain : '\n' ∉ old) (clean : '\n' ∉ new) (filled : a ++ new ≠ []) :
    KeepsLine (a ++ old ++ b) (a ++ new ++ b) := by
  refine ⟨List.append_ne_nil_of_left_ne_nil filled b, oneFeed.replace front clean, fun last => ?_⟩
  by_cases empty : b = []
  · rw [empty, List.append_nil] at last
    have member := List.mem_of_getLast? last
    simp [front, plain] at member
  · rw [List.getLast?_append_of_ne_nil _ empty] at last ⊢
    exact last

theorem LinesOfText.map {f : Line → Line} {lines : List Line} (given : LinesOfText lines)
    (keeps : ∀ line, line ≠ [] → Text.OneFeed line → KeepsLine line (f line)) :
    LinesOfText (lines.map f) := by
  have every : ∀ line ∈ lines, KeepsLine line (f line) :=
    fun line member => keeps line (given.filled line member) (given.oneFeed line member)
  refine ⟨List.forall_mem_map.mpr fun line member => (every line member).filled,
    List.forall_mem_map.mpr fun line member => (every line member).oneFeed, ?_⟩
  rw [← List.map_dropLast]
  refine List.forall_mem_map.mpr fun line member => ?_
  exact (every line (List.dropLast_subset lines member)).ended (given.ended line member)

end LineRules
