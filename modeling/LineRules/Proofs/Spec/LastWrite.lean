import LineRules.Proofs.Outcome
import LineRules.Proofs.Spec.MacroLine
import LineRules.Proofs.Spec.Source

/-!
Setting a value twice. A value that does not start with a blank and does not end with a carriage
return is found again as it was written, between the same blanks and the same end of the line, so
another one takes its place as if it had never been there: the last write wins. For macros this
needs that the rule prefers the same gap as before, also where the name starts with blanks.
-/
namespace LineRules.Spec

variable {name line gap space value cr lf : Text}

/-- A value that is found again as it was written. -/
structure Settled (value : Text) : Prop where
  oneLine : '\n' ∉ value
  start : ∀ c, value.head? = some c → ¬(c = ' ' ∨ c = '\t')
  stop : value.getLast? ≠ some '\r'

theorem ValueBehind.written {other : Text} (behind : ValueBehind space value cr lf)
    (settled : Settled other) : ValueBehind space other cr lf := by
  refine ⟨⟨settled.oneLine, ?_, behind.feed⟩, behind.blank, settled.start⟩
  exact behind.carriage.imp_left fun none => ⟨none.1, settled.stop⟩

theorem withValueIn_tag_twice {first : Text} (settled : Settled first) (oneFeed : line.OneFeed)
    (second : Text) :
    withValueIn (tagMatcher name) second (withValueIn (tagMatcher name) first line) =
      withValueIn (tagMatcher name) second line := by
  by_cases starts : StartsTag name line
  · obtain ⟨key, space, value, cr, lf, tagLine⟩ := starts.parts oneFeed
    have again : TagLine name (key ++ (":" ++ (space ++ (first ++ (cr ++ lf))))) key space first
        cr lf := ⟨tagLine.toValueBehind.written settled, rfl, tagLine.named⟩
    have still : (withValueIn (tagMatcher name) first line).OneFeed :=
      oneFeed_written oneFeed settled.oneLine
    rw [withValueIn_tag tagLine oneFeed] at still ⊢
    rw [withValueIn_tag tagLine oneFeed, withValueIn_tag again still]
  · rw [withValueIn_no_tag starts oneFeed]

theorem blanks_of_shift {z w : Text} (filled : z ≠ []) (blank : Blanks z) (shift : w <+: z ++ w) :
    Blanks w := by
  rcases List.prefix_or_prefix_of_prefix shift (List.prefix_append z w) with inside | ⟨u, rfl⟩
  · exact fun c member => blank c (inside.subset member)
  · have shorter : u.length < (z ++ u).length := by
      have positive := List.length_pos_of_ne_nil filled
      rw [List.length_append]
      omega
    have rest := blanks_of_shift filled blank ((List.prefix_append_right_inj z).mp shift)
    intro c member
    exact (List.mem_append.mp member).elim (blank c) (rest c)
termination_by w.length

/-- A name behind a longer gap, and a blank behind it, cannot reach into what follows the blanks. -/
theorem prefix_of_shift {z t : Text} {b : Char} (filled : z ≠ []) (blank : Blanks (z ++ [b]))
    (past : ∀ c, t.head? = some c → ¬(c = ' ' ∨ c = '\t'))
    (shift : z ++ (name ++ [b]) <+: name ++ space ++ t) : z ++ (name ++ [b]) <+: name ++ space := by
  rcases List.prefix_or_prefix_of_prefix shift (List.prefix_append (name ++ space) t) with
    inside | ⟨u, longer⟩
  · exact inside
  · cases u with
    | nil => exact (List.append_nil (name ++ space)).symm.trans longer ▸ List.prefix_refl _
    | cons c u =>
      -- Otherwise the name holds blanks only, and so does all that stands behind the gap.
      have front : name <+: z ++ name := by
        have whole : name <+: z ++ name ++ [b] := by
          rw [List.append_assoc, ← longer, List.append_assoc]
          exact List.prefix_append name _
        exact List.prefix_of_prefix_length_le whole (List.prefix_append _ _) (by simp)
      have blankToo : Blanks z := fun x member => blank x (List.mem_append_left _ member)
      have blankName := blanks_of_shift filled blankToo front
      have start : t.head? = some c := by
        rw [← longer, List.prefix_append_right_inj] at shift
        obtain ⟨rest, rfl⟩ := shift
        rfl
      have member : c ∈ z ++ (name ++ [b]) := by
        rw [← longer]
        simp
      refine absurd ?_ (past c start)
      simp only [List.mem_append] at member
      rcases member with one | two | three
      · exact blankToo c one
      · exact blankName c two
      · exact blank c (List.mem_append_right z three)

theorem blanks_append {s t : Text} (one : Blanks s) (two : Blanks t) : Blanks (s ++ t) :=
  fun c member => (List.mem_append.mp member).elim (one c) (two c)

theorem MacroLine.shifted {z more : Text} {b : Char}
    (macroLine : MacroLine name line gap space value cr lf) (blank : Blanks (z ++ [b]))
    (whole : z ++ (name ++ [b]) ++ more = name ++ space) :
    MacroLine name line (gap ++ z) ([b] ++ more) value cr lf := by
  have blankZ : Blanks z := fun c member => blank c (List.mem_append_left _ member)
  have blankB : Blanks [b] := fun c member => blank c (List.mem_append_right z member)
  have blankMore : Blanks more := by
    have length := congrArg List.length whole
    simp only [List.length_append, List.length_singleton] at length
    have inside : more <:+ space := List.suffix_of_suffix_length_le ⟨_, whole⟩
      (List.suffix_append name space) (by omega)
    exact fun c member => macroLine.blank c (inside.subset member)
  refine ⟨⟨macroLine.toEndsValue, blanks_append blankB blankMore, macroLine.behind⟩, ?_,
    ⟨blanks_append macroLine.gapped.1 blankZ, ?_⟩, by simp⟩
  · have seam : name ++ (space ++ (value ++ (cr ++ lf))) =
        z ++ (name ++ ([b] ++ more ++ (value ++ (cr ++ lf)))) := by
      rw [← List.append_assoc, ← whole]
      simp
    rw [macroLine.parts, seam, List.append_assoc gap]
  · exact List.append_ne_nil_of_left_ne_nil macroLine.gapped.2 z

/-- Of two ways with gaps of different length, the longer gap has further blanks in front of the name,
and the name stands behind them within the name and the blanks of the other way. -/
theorem MacroLine.shift {gap' space' value' cr' lf' : Text}
    (one : MacroLine name line gap space value cr lf)
    (two : MacroLine name line gap' space' value' cr' lf') (longer : gap.length < gap'.length) :
    ∃ z b more, gap' = gap ++ z ∧ Blanks (z ++ [b]) ∧ z ++ (name ++ [b]) ++ more = name ++ space := by
  obtain ⟨z, rfl, rest⟩ : ∃ z, gap' = gap ++ z ∧
      name ++ (space ++ (value ++ (cr ++ lf))) =
        z ++ (name ++ (space' ++ (value' ++ (cr' ++ lf')))) := by
    have whole := List.append_cancel_left (one.parts.symm.trans two.parts)
    rcases List.append_eq_append_iff.mp whole with ⟨z, more, rest⟩ | ⟨z, less, -⟩
    · exact ⟨z, more, rest⟩
    · rw [less, List.length_append] at longer
      omega
  have filled : z ≠ [] := by
    rintro rfl
    simp at longer
  obtain ⟨b, tail, rfl⟩ := List.exists_cons_of_ne_nil two.spaced
  have blank : Blanks (z ++ [b]) := by
    apply blanks_append
    · exact fun c member => two.gapped.1 c (List.mem_append_right gap member)
    · exact fun c member => two.blank c (by simp_all)
  have shift : z ++ (name ++ [b]) <+: name ++ space ++ (value ++ (cr ++ lf)) := by
    refine ⟨tail ++ (value' ++ (cr' ++ lf')), ?_⟩
    rw [List.append_assoc name, rest]
    simp
  have past : ∀ c, (value ++ (cr ++ lf)).head? = some c → ¬(c = ' ' ∨ c = '\t') :=
    fun c start blank => one.past c start (CharSet.mem_blank.mpr blank)
  obtain ⟨more, whole⟩ := prefix_of_shift filled blank past shift
  exact ⟨z, b, more, rfl, blank, whole⟩

/-- A settled value does not make the rule prefer another gap. -/
theorem PreferredMacroLine.written {other : Text}
    (preferred : PreferredMacroLine name line gap space value cr lf) (settled : Settled other) :
    PreferredMacroLine name ("%global" ++ (gap ++ (name ++ (space ++ (other ++ (cr ++ lf))))))
      gap space other cr lf := by
  have written : MacroLine name ("%global" ++ (gap ++ (name ++ (space ++ (other ++ (cr ++ lf))))))
      gap space other cr lf :=
    ⟨preferred.toValueBehind.written settled, rfl, preferred.gapped, preferred.spaced⟩
  refine ⟨written, fun way => ?_⟩
  by_contra longer
  -- The line had a way with the longer gap already.
  obtain ⟨z, b, more, rfl, blank, whole⟩ := written.shift way (Nat.lt_of_not_le longer)
  exact longer (preferred.longest (preferred.toMacroLine.shifted blank whole))

theorem withValueIn_macro_twice {first : Text} (settled : Settled first) (oneFeed : line.OneFeed)
    (second : Text) :
    withValueIn (macroMatcher name) second (withValueIn (macroMatcher name) first line) =
      withValueIn (macroMatcher name) second line := by
  by_cases given : ∃ gap space value cr lf, MacroLine name line gap space value cr lf
  · obtain ⟨gap, space, value, cr, lf, macroLine⟩ := given
    obtain ⟨gap, space, value, cr, lf, preferred⟩ := macroLine.exists_preferred
    have filled : line ≠ [] := by simp [preferred.parts]
    have still : (withValueIn (macroMatcher name) first line).OneFeed :=
      (withValueIn_macro_keeps filled oneFeed settled.oneLine).oneFeed
    rw [withValueIn_preferred preferred oneFeed] at still ⊢
    rw [withValueIn_preferred preferred oneFeed,
      withValueIn_preferred (preferred.written settled) still]
  · have absent : ∀ gap space value cr lf, ¬MacroLine name line gap space value cr lf :=
      fun gap space value cr lf macroLine => given ⟨gap, space, value, cr, lf, macroLine⟩
    rw [withValueIn_no_macroLine oneFeed absent]

section Lines

variable {limit : Regex.Limit}

theorem replaceIn_lines {made : Except PatternError Pattern} {n : Matcher} (finds : FindsAs made n)
    (value : Text) (lines : List Line) :
    (replaceIn made value).map (·.apply lines) =
      made.map fun _ => lines.map (withValueIn n value) := by
  cases made with
  | error why => rfl
  | ok p =>
    obtain ⟨m, rfl, same⟩ := finds p rfl
    rw [List.map_eq_flatMap]
    exact congrArg Except.ok
      (Run.exhaust_edits (replaceValue_edits same value) (Action.everyLine_orPrint _ _) {} lines)

theorem replaceTagLines_eq (limit : Regex.Limit) (name value : Text) (lines : List Line) :
    replaceTagLines limit name value lines =
      (tag limit name).map fun _ => lines.map (withValueIn (tagMatcher name) value) :=
  replaceIn_lines (tag_findsAs limit name) value lines

theorem replaceMacroLines_eq (limit : Regex.Limit) (name value : Text) (lines : List Line) :
    replaceMacroLines limit name value lines =
      (globalMacro limit name).map fun _ => lines.map (withValueIn (macroMatcher name) value) :=
  replaceIn_lines (globalMacro_findsAs limit name) value lines

/-- A pattern that could not be made the first time cannot be made the second time. -/
theorem replaced_twice {made : Except PatternError Pattern} {n : Matcher} {lines : List Line}
    {replace : Text → List Line → Except PatternError (List Line)} {first second : Text}
    (replaces : ∀ value lines,
      replace value lines = made.map fun _ => lines.map (withValueIn n value))
    (twice : ∀ line ∈ lines,
      withValueIn n second (withValueIn n first line) = withValueIn n second line) :
    replace first lines >>= replace second = replace second lines := by
  rw [replaces first, replaces second lines]
  cases made with
  | error why => rfl
  | ok p =>
    change replace second (lines.map (withValueIn n first)) = _
    rw [replaces, List.map_map]
    exact congrArg Except.ok (List.map_congr_left twice)

/-- Of two values that are set one after the other the second one stays, as if the first one had
never been set. The first one must be settled; with blanks at its start, or with a carriage return
at its end, it would become part of what stands around the value. A name that is too long is refused
both times. -/
theorem last_write_wins (limit : Regex.Limit) (lines : List Line)
    (oneFeed : ∀ line ∈ lines, line.OneFeed) (name first : Text) (settled : Settled first) :
    (∀ second,
      replaceTagLines limit name first lines >>= replaceTagLines limit name second =
          replaceTagLines limit name second lines ∧
        replaceMacroLines limit name first lines >>= replaceMacroLines limit name second =
          replaceMacroLines limit name second lines) ∧
      replaceTagLines limit name first lines >>= replaceTagLines limit name first =
        replaceTagLines limit name first lines ∧
      replaceMacroLines limit name first lines >>= replaceMacroLines limit name first =
        replaceMacroLines limit name first lines := by
  have tags (second : Text) :
      replaceTagLines limit name first lines >>= replaceTagLines limit name second =
        replaceTagLines limit name second lines :=
    replaced_twice (replaceTagLines_eq limit name) fun line member =>
      withValueIn_tag_twice settled (oneFeed line member) second
  have macros (second : Text) :
      replaceMacroLines limit name first lines >>= replaceMacroLines limit name second =
        replaceMacroLines limit name second lines :=
    replaced_twice (replaceMacroLines_eq limit name) fun line member =>
      withValueIn_macro_twice settled (oneFeed line member) second
  exact ⟨fun second => ⟨tags second, macros second⟩, tags first, macros first⟩

theorem blank_name_set_twice :
    let lines : List Line := [(" : 1\r\n" : Text), ("%global   \t old" : Text)]
    (∀ line ∈ lines, line.OneFeed) ∧ Settled [] ∧
      replaceTagLines .standard " " [] lines >>= replaceTagLines .standard " " "2" =
        .ok [(" : 2\r\n" : Text), ("%global   \t old" : Text)] ∧
      replaceMacroLines .standard " " [] lines >>= replaceMacroLines .standard " " "new" =
        .ok [(" : 1\r\n" : Text), ("%global   \t new" : Text)] := by
  intro lines
  have oneFeed : ∀ line ∈ lines, line.OneFeed := by decide
  have settled : Settled [] := ⟨by simp, by simp, by simp⟩
  have wins := (last_write_wins .standard lines oneFeed " " [] settled).1
  obtain ⟨p, made⟩ := tag_small .standard " " (by decide +kernel)
  obtain ⟨q, madeToo⟩ := globalMacro_small .standard " " (by decide +kernel)
  refine ⟨oneFeed, settled, (wins "2").1.trans ?_, (wins "new").2.trans ?_⟩
  · rw [replaceTagLines_eq, made, Except.map]
    exact congrArg _ (by decide +kernel)
  · rw [replaceMacroLines_eq, madeToo, Except.map]
    exact congrArg _ (by decide +kernel)

end Lines

end LineRules.Spec
