import LineRules.Proofs.Regex.Marks

namespace LineRules

theorem Text.parts_of_splitAt {t before after : Text} {n : Nat}
    (cut : t.splitAt? n = some (before, after)) : t = before ++ after ∧ n = before.byteLength := by
  fun_induction Text.splitAt? t n generalizing before after with
  | case1 t =>
    obtain ⟨rfl, rfl⟩ := Prod.mk.inj (Option.some.inj cut)
    exact ⟨rfl, rfl⟩
  | case2 => simp at cut
  | case3 c t n fits ih =>
    obtain ⟨⟨rest, behind⟩, later, same⟩ := Option.map_eq_some_iff.mp cut
    obtain ⟨rfl, rfl⟩ := Prod.mk.inj same
    obtain ⟨whole, length⟩ := ih later
    refine ⟨by rw [whole]; rfl, ?_⟩
    simp only [byteLength]
    omega
  | case4 => simp at cut

theorem Text.eq_nil_of_byteLength {t : Text} (none : t.byteLength = 0) : t = [] := by
  cases t with
  | nil => rfl
  | cons c t =>
    have positive := c.utf8Size_pos
    simp only [byteLength] at none
    omega

/-- Both ends stand between two characters of a text or at an end of it, in order. -/
structure Span.Fits (span : Span) (t : Text) : Prop where
  ordered : span.start ≤ span.stop
  inside : span.stop ≤ t.byteLength
  starts : (t.splitAt? span.start).isSome = true
  stops : (t.splitAt? span.stop).isSome = true

theorem Span.fits_iff {span : Span} {t : Text} : span.Fits t ↔ ∃ before inside after,
    t = before ++ inside ++ after ∧
      span = ⟨Text.byteLength before, Text.byteLength (before ++ inside)⟩ := by
  constructor
  · intro fits
    obtain ⟨⟨before, behind⟩, starts⟩ := Option.isSome_iff_exists.mp fits.starts
    obtain ⟨⟨upTo, after⟩, stops⟩ := Option.isSome_iff_exists.mp fits.stops
    obtain ⟨whole, start⟩ := Text.parts_of_splitAt starts
    obtain ⟨again, stop⟩ := Text.parts_of_splitAt stops
    have spans : span = ⟨Text.byteLength before, Text.byteLength upTo⟩ := by rw [← start, ← stop]
    rcases List.append_eq_append_iff.mp (whole.symm.trans again) with
      ⟨inside, longer, -⟩ | ⟨gap, shorter, -⟩
    · exact ⟨before, inside, after, by rw [again, longer], by rw [spans, longer]⟩
    · -- The end is not in front of the start, so there is nothing between them.
      have ordered := fits.ordered
      have length := Text.byteLength_append upTo gap
      rw [spans, shorter] at ordered
      obtain rfl : gap = [] := Text.eq_nil_of_byteLength (by simp only at ordered; omega)
      exact ⟨upTo, [], after, by rw [again, List.append_nil],
        by rw [spans, shorter, List.append_nil]⟩
  · rintro ⟨before, inside, after, rfl, rfl⟩
    refine ⟨?_, ?_, ?_, ?_⟩
    · simp [Text.byteLength_append]
    · simp [Text.byteLength_append]
    · rw [List.append_assoc, Text.splitAt_append]
      rfl
    · rw [Text.splitAt_append]
      rfl

namespace Cursor

def Sound (t : Text) (c : Cursor) : Prop :=
  c.Within t ∧ ∀ g ∈ c.groups, g.2.Fits t

variable {t : Text} {c d : Cursor}

theorem fits_of_within (one : c.Within t) (two : d.Within t) (le : c.offset ≤ d.offset) :
    (⟨c.offset, d.offset⟩ : Span).Fits t := by
  obtain ⟨u, v, _, rfl, rfl⟩ := one
  obtain ⟨u', v', _, whole, rfl⟩ := two
  refine ⟨le, ?_, ?_, ?_⟩
  · rw [whole, Text.byteLength_append]
    exact Nat.le_add_right _ _
  · simp only [between, Text.splitAt_append, Option.isSome_some]
  · simp only [between, whole, Text.splitAt_append, Option.isSome_some]

theorem Sound.start (t : Text) : (Cursor.start t).Sound t :=
  ⟨.start t, by simp [Cursor.start]⟩

theorem Sound.advance (sound : c.Sound t) : c.advance.Sound t := by
  refine ⟨sound.1.advance, ?_⟩
  have same : c.advance.groups = c.groups := by
    unfold Cursor.advance
    split <;> rfl
  rw [same]
  exact sound.2

theorem Sound.record (sound : d.Sound t) (begun : c.Within t) (le : c.offset ≤ d.offset) (n : Nat) :
    (d.record n c.offset).Sound t :=
  ⟨sound.1.record n c.offset,
    List.forall_mem_cons.mpr ⟨fits_of_within begun sound.1 le, sound.2⟩⟩

theorem offset_le_advance (c : Cursor) : c.offset ≤ c.advance.offset := by
  unfold Cursor.advance
  split
  · exact Nat.le_refl _
  · exact Nat.le_add_right _ _

end Cursor

namespace Regex

variable {t : Text}

/-- Where matching succeeds, it has gone on from a later position, and all it recorded up to there
fits the text. -/
def GoesOn (t : Text) (body : Cursor → Marks → Continuation → Outcome) : Prop :=
  ∀ c passed next found, c.Sound t → body c passed next = .ok found →
    ∃ d later, d.Sound t ∧ c.offset ≤ d.offset ∧ next d later = .ok found

theorem tryCatch_ok {o : Outcome} {again : Marks → Outcome} {found : Cursor}
    (ok : o.tryCatch again = .ok found) : o = .ok found ∨ ∃ passed, again passed = .ok found := by
  cases o with
  | ok d => exact .inl ok
  | error passed => exact .inr ⟨passed, ok⟩

theorem iterate_ok {greedy : Bool} {body : Cursor → Marks → Continuation → Outcome}
    {next : Continuation} {rounds : Nat} {c found : Cursor} {passed : Marks}
    (ok : iterate greedy body next (rounds + 1) c passed = .ok found) :
    (∃ later, body c later (iterate greedy body next rounds) = .ok found) ∨
      ∃ later, next c later = .ok found := by
  simp only [iterate] at ok
  split at ok
  · rcases tryCatch_ok ok with again | left
    · exact .inl ⟨passed, again⟩
    · exact .inr left
  · rcases tryCatch_ok ok with left | again
    · exact .inr ⟨passed, left⟩
    · exact .inl again

theorem GoesOn.iterate {body : Cursor → Marks → Continuation → Outcome} (goes : GoesOn t body)
    (greedy : Bool) (rounds : Nat) :
    GoesOn t fun c passed next => iterate greedy body next rounds c passed := by
  intro c passed next found sound ok
  induction rounds generalizing c passed with
  | zero => exact ⟨c, passed, sound, Nat.le_refl _, ok⟩
  | succ rounds ih =>
    rcases iterate_ok ok with ⟨passed, again⟩ | ⟨passed, left⟩
    · obtain ⟨d, later, inside, far, more⟩ := goes c passed _ found sound again
      obtain ⟨e, last, within, farther, done⟩ := ih d later inside more
      exact ⟨e, last, within, Nat.le_trans far farther, done⟩
    · exact ⟨c, passed, sound, Nat.le_refl _, left⟩

theorem run_goesOn (t : Text) (rounds : Nat) (r : Regex) : GoesOn t (r.run rounds) := by
  induction r with
  | empty => exact fun c passed next found sound ok => ⟨c, passed, sound, Nat.le_refl _, ok⟩
  | set s =>
    intro c passed next found sound ok
    simp only [run] at ok
    split at ok
    · simp at ok
    · split at ok
      · exact ⟨c.advance, passed, sound.advance, c.offset_le_advance, ok⟩
      · simp at ok
  | look l =>
    intro c passed next found sound ok
    simp only [run] at ok
    split at ok
    · exact ⟨c, passed, sound, Nat.le_refl _, ok⟩
    · simp at ok
  | seq a b first second =>
    intro c passed next found sound ok
    obtain ⟨d, later, inside, far, more⟩ := first c passed _ found sound ok
    obtain ⟨e, last, within, farther, done⟩ := second d later next found inside more
    exact ⟨e, last, within, Nat.le_trans far farther, done⟩
  | alt a b first second =>
    intro c passed next found sound ok
    rcases tryCatch_ok ok with one | ⟨later, other⟩
    · exact first c passed next found sound one
    · exact second c later next found sound other
  | group n a inner =>
    intro c passed next found sound ok
    obtain ⟨d, later, inside, far, more⟩ := inner c passed _ found sound ok
    exact ⟨d.record n c.offset, later, inside.record sound.1 far n, far, more⟩
  | star greedy a inner => exact inner.iterate greedy rounds
  | once mark =>
    intro c passed next found sound ok
    simp only [run] at ok
    split at ok
    · simp at ok
    · exact ⟨c, _, sound, Nat.le_refl _, ok⟩

theorem run_fits {r : Regex} {rounds : Nat} {c found : Cursor} {passed : Marks}
    (sound : c.Sound t) (ok : r.run rounds c passed finish = .ok found) :
    (⟨c.offset, found.offset⟩ : Span).Fits t ∧ ∀ g ∈ found.groups, g.2.Fits t := by
  obtain ⟨d, later, inside, far, done⟩ := run_goesOn t rounds r c passed finish found sound ok
  obtain rfl : d = found := Except.ok.inj done
  exact ⟨Cursor.fits_of_within sound.1 inside.1 far, inside.2⟩

theorem searchFrom_fits {r : Regex} {rounds tries : Nat} {c : Cursor} {passed : Marks}
    {found : Nat × Cursor} (sound : c.Sound t)
    (search : r.searchFrom rounds tries c passed = some found) :
    (⟨found.1, found.2.offset⟩ : Span).Fits t ∧ ∀ g ∈ found.2.groups, g.2.Fits t := by
  induction tries generalizing c passed with
  | zero =>
    rw [searchFrom] at search
    obtain ⟨d, ended, rfl⟩ := Option.map_eq_some_iff.mp search
    cases out : r.run rounds c passed finish with
    | ok e =>
      rw [out] at ended
      obtain rfl : e = d := Option.some.inj ended
      exact run_fits sound out
    | error later => simp [out, Except.toOption] at ended
  | succ tries ih =>
    rw [searchFrom] at search
    split at search
    · rename_i d out
      obtain rfl := Option.some.inj search
      exact run_fits sound out
    · exact ih sound.advance search

theorem search_fits {r : Regex} {found : Nat × Cursor} (search : r.search t = some found) :
    (⟨found.1, found.2.offset⟩ : Span).Fits t ∧ ∀ g ∈ found.2.groups, g.2.Fits t :=
  searchFrom_fits (.start t) search

end Regex

/-- All spans that a search reports are spans of the line that was searched. -/
theorem Matcher.find_fits {m : Matcher} {line : Line} {found : Captures}
    (search : m.find? line = some found) :
    found.line = line ∧ ∀ span, some span ∈ found.groups → span.Fits line := by
  obtain ⟨⟨start, d⟩, somewhere, rfl⟩ := Option.map_eq_some_iff.mp search
  obtain ⟨whole, groups⟩ := Regex.search_fits somewhere
  refine ⟨rfl, fun span member => ?_⟩
  rcases List.mem_cons.mp member with same | later
  · obtain rfl := Option.some.inj same
    exact whole
  · obtain ⟨n, -, recorded⟩ := List.mem_map.mp later
    obtain ⟨_, _, parts, -⟩ := List.lookup_eq_some_iff.mp recorded
    exact groups (n + 1, span) (parts ▸ List.mem_append_right _ List.mem_cons_self)

end LineRules
