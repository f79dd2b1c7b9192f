import LineRules.Proofs.Spec.LastWrite
import LineRules.Proofs.Spec.Source

/-!
The grammar of the lines whose value is replaced. A tag line is a name in any case, a colon and all
blanks behind it, then a value and the longest ending that the line has. A macro line is a head with
the exact name between blanks, as long as it can be, then a value and an ending too. Every line falls
into these parts in at most one way, and only the value is another one afterwards.
-/
namespace LineRules.Spec

open Regex

def endings : List Text :=
  ["\r\n", "\n", "\r", ""]

/-- A rest of a line, cut in front of the longest ending that it has. -/
structure CutAtEnding (rest value ending : Text) : Prop where
  parts : rest = value ++ ending
  known : ending ∈ endings
  longest : ∀ other ∈ endings, other <:+ rest → other.length ≤ ending.length

structure TagParts (name line key space value ending : Text) : Prop where
  parts : line = key ++ (":" ++ (space ++ (value ++ ending)))
  named : SameFold key name
  blank : Blanks space
  maximal : ∀ c, (value ++ ending).head? = some c → ¬(c = ' ' ∨ c = '\t')
  ended : CutAtEnding (value ++ ending) value ending

def MacroHead (name head : Text) : Prop :=
  ∃ gap space, Blanks gap ∧ gap ≠ [] ∧ Blanks space ∧ space ≠ [] ∧
    head = "%global" ++ (gap ++ (name ++ space))

structure MacroParts (name line head value ending : Text) : Prop where
  parts : line = head ++ (value ++ ending)
  named : MacroHead name head
  longest : ∀ other, MacroHead name other → other <+: line → other.length ≤ head.length
  ended : CutAtEnding (value ++ ending) value ending

variable {name line rest value ending : Text}

section Endings

theorem CutAtEnding.unique {value' ending' : Text} (one : CutAtEnding rest value ending)
    (two : CutAtEnding rest value' ending') : value = value' ∧ ending = ending' := by
  have length : ending.length = ending'.length :=
    Nat.le_antisymm (two.longest ending one.known ⟨value, one.parts.symm⟩)
      (one.longest ending' two.known ⟨value', two.parts.symm⟩)
  exact List.append_inj' (one.parts.symm.trans two.parts) length

theorem last_of_suffix {t other : Text} {c : Char} (suffix : other <:+ t)
    (last : other.getLast? = some c) : t.getLast? = some c := by
  obtain ⟨u, rfl⟩ := suffix
  rw [List.getLast?_append, last, Option.some_or]

variable {cr lf : Text}

theorem EndsValue.feed_of_last (ends : EndsValue value cr lf)
    (last : (value ++ (cr ++ lf)).getLast? = some '\n') : lf = ['\n'] := by
  rcases ends.feed with rfl | rfl
  · rw [List.append_nil] at last
    rcases ends.carriage with ⟨rfl, -⟩ | rfl
    · rw [List.append_nil] at last
      exact absurd (List.mem_of_getLast? last) ends.oneLine
    · simp at last
  · rfl

theorem EndsValue.return_of_last (ends : EndsValue value cr lf)
    (last : (value ++ cr).getLast? = some '\r') : cr = ['\r'] := by
  rcases ends.carriage with ⟨rfl, other⟩ | rfl
  · rw [List.append_nil] at last
    exact absurd last other
  · rfl

/-- What the rule finds behind the value is the longest ending that is there. -/
theorem EndsValue.cut (ends : EndsValue value cr lf) :
    CutAtEnding (value ++ (cr ++ lf)) value (cr ++ lf) := by
  refine ⟨rfl, ?_, fun other known suffix => ?_⟩
  · rcases ends.carriage with ⟨rfl, -⟩ | rfl <;> rcases ends.feed with rfl | rfl <;> decide
  · simp only [endings, List.mem_cons, List.not_mem_nil, or_false] at known
    rcases known with rfl | rfl | rfl | rfl
    · obtain rfl := ends.feed_of_last (last_of_suffix suffix rfl)
      have inner : ['\r'] <:+ value ++ cr := by
        obtain ⟨u, same⟩ := suffix
        have seam : u ++ ['\r'] ++ ['\n'] = value ++ cr ++ ['\n'] := by simpa using same
        exact ⟨u, List.append_cancel_right seam⟩
      obtain rfl := ends.return_of_last (last_of_suffix inner rfl)
      exact Nat.le_refl 2
    · obtain rfl := ends.feed_of_last (last_of_suffix suffix rfl)
      simp
    · rcases ends.feed with rfl | rfl
      · rw [List.append_nil] at suffix
        obtain rfl := ends.return_of_last (last_of_suffix suffix rfl)
        exact Nat.le_refl 1
      · simp
    · exact Nat.zero_le _

end Endings

theorem blanks_unique {s t u v : Text} (one : Blanks s) (two : Blanks t)
    (stop : ∀ c, u.head? = some c → ¬(c = ' ' ∨ c = '\t'))
    (stopToo : ∀ c, v.head? = some c → ¬(c = ' ' ∨ c = '\t')) (same : s ++ u = t ++ v) :
    s = t ∧ u = v := by
  induction s generalizing t with
  | nil =>
    cases t with
    | nil => exact ⟨rfl, same⟩
    | cons c t => exact absurd (two c List.mem_cons_self) (stop c (congrArg List.head? same))
  | cons c s ih =>
    cases t with
    | nil => exact absurd (one c List.mem_cons_self) (stopToo c (congrArg List.head? same.symm))
    | cons d t =>
      obtain ⟨rfl, later⟩ := List.cons.inj same
      obtain ⟨rfl, rest⟩ :=
        ih (List.forall_mem_cons.mp one).2 (List.forall_mem_cons.mp two).2 later
      exact ⟨rfl, rest⟩

section Tag

variable {key space : Text}

theorem TagLine.tagParts {cr lf : Text} (tagLine : TagLine name line key space value cr lf) :
    TagParts name line key space value (cr ++ lf) := by
  refine ⟨tagLine.parts, tagLine.named, tagLine.blank, ?_, tagLine.cut⟩
  exact fun c start blank => tagLine.past c start (CharSet.mem_blank.mpr blank)

theorem TagParts.unique {key' space' value' ending' : Text}
    (one : TagParts name line key space value ending)
    (two : TagParts name line key' space' value' ending') :
    key = key' ∧ space = space' ∧ value = value' ∧ ending = ending' := by
  have length : key.length = key'.length := by
    have folded := congrArg List.length (one.named.trans two.named.symm)
    simpa using folded
  obtain ⟨rfl, behind⟩ := List.append_inj (one.parts.symm.trans two.parts) length
  obtain ⟨rfl, rest⟩ := blanks_unique one.blank two.blank one.maximal two.maximal
    (List.append_cancel_left behind)
  obtain ⟨rfl, rfl⟩ := one.ended.unique (rest ▸ two.ended)
  exact ⟨rfl, rfl, rfl, rfl⟩

structure TagRewritten (name value : Text) (line new : Line) : Prop where
  falls : StartsTag name line → ∃ key space old ending, TagParts name line key space old ending
  written : ∀ {key space old ending}, TagParts name line key space old ending →
    new = key ++ (":" ++ (space ++ (value ++ ending)))
  other : ¬StartsTag name line → new = line

theorem tagRewritten (oneFeed : line.OneFeed) (value : Text) :
    TagRewritten name value line (withValueIn (tagMatcher name) value line) := by
  refine ⟨?_, ?_, fun absent => withValueIn_no_tag absent oneFeed value⟩
  · intro starts
    obtain ⟨key, space, old, cr, lf, tagLine⟩ := starts.parts oneFeed
    exact ⟨key, space, old, cr ++ lf, tagLine.tagParts⟩
  · intro key space old ending parts
    have starts : StartsTag name line :=
      ⟨key, parts.named, _, by rw [parts.parts, List.append_assoc]⟩
    obtain ⟨key', space', old', cr, lf, tagLine⟩ := starts.parts oneFeed
    obtain ⟨rfl, rfl, rfl, rfl⟩ := parts.unique tagLine.tagParts
    exact withValueIn_tag tagLine oneFeed value

end Tag

section Macro

variable {gap space cr lf gap' space' value' cr' lf' : Text}

theorem MacroLine.past_blank (macroLine : MacroLine name line gap space value cr lf) (c : Char)
    (start : (value ++ (cr ++ lf)).head? = some c) : ¬(c = ' ' ∨ c = '\t') :=
  fun blank => macroLine.past c start (CharSet.mem_blank.mpr blank)

theorem MacroLine.space_unique (one : MacroLine name line gap space value cr lf)
    (two : MacroLine name line gap space' value' cr' lf') :
    space = space' ∧ value ++ (cr ++ lf) = value' ++ (cr' ++ lf') := by
  have behind := List.append_cancel_left (one.parts.symm.trans two.parts)
  exact blanks_unique one.blank two.blank one.past_blank two.past_blank
    (List.append_cancel_left (List.append_cancel_left behind))

theorem MacroLine.head_of_longer (one : MacroLine name line gap space value cr lf)
    (two : MacroLine name line gap' space' value' cr' lf') (longer : gap.length < gap'.length) :
    gap ++ (name ++ space) = gap' ++ (name ++ space') := by
  obtain ⟨z, b, more, rfl, blank, whole⟩ := one.shift two longer
  rw [← whole, ← ((one.shifted blank whole).space_unique two).1]
  simp

/-- The gap may be another one, but the head is not. -/
theorem MacroLine.head_unique (one : MacroLine name line gap space value cr lf)
    (two : MacroLine name line gap' space' value' cr' lf') :
    gap ++ (name ++ space) = gap' ++ (name ++ space') := by
  rcases Nat.lt_trichotomy gap.length gap'.length with longer | same | longer
  · exact one.head_of_longer two longer
  · have whole := List.append_cancel_left (one.parts.symm.trans two.parts)
    obtain ⟨rfl, -⟩ := List.append_inj whole same
    rw [(one.space_unique two).1]
  · exact (two.head_of_longer one longer).symm

theorem exists_macroLine {head : Text} (oneFeed : line.OneFeed) (named : MacroHead name head)
    (start : head <+: line) : ∃ gap space more value cr lf,
      MacroLine name line gap (space ++ more) value cr lf ∧
        head = "%global" ++ (gap ++ (name ++ space)) := by
  obtain ⟨gap, space, blank, some, blankToo, someToo, rfl⟩ := named
  obtain ⟨rest, rfl⟩ := start
  obtain ⟨more, value, cr, lf, rfl, behind⟩ := exists_valueBehind oneFeed.right
  refine ⟨gap, space, more, value, cr, lf, ⟨⟨behind.toEndsValue, ?_, behind.behind⟩, ?_,
    ⟨blank, some⟩, ?_⟩, rfl⟩
  · exact blanks_append blankToo behind.blank
  · simp
  · exact List.append_ne_nil_of_left_ne_nil someToo more

theorem MacroLine.macroParts (macroLine : MacroLine name line gap space value cr lf)
    (oneFeed : line.OneFeed) :
    MacroParts name line ("%global" ++ (gap ++ (name ++ space))) value (cr ++ lf) := by
  refine ⟨by simp [macroLine.parts], ?_, ?_, macroLine.cut⟩
  · exact ⟨gap, space, macroLine.gapped.1, macroLine.gapped.2, macroLine.blank, macroLine.spaced,
      rfl⟩
  · intro other named start
    obtain ⟨gap', space', more, value', cr', lf', way, rfl⟩ := exists_macroLine oneFeed named start
    have same := congrArg List.length (macroLine.head_unique way)
    simp only [List.length_append] at same ⊢
    omega

theorem MacroParts.unique {head head' value' ending' : Text}
    (one : MacroParts name line head value ending)
    (two : MacroParts name line head' value' ending') :
    head = head' ∧ value = value' ∧ ending = ending' := by
  have length : head.length = head'.length :=
    Nat.le_antisymm (two.longest head one.named ⟨_, one.parts.symm⟩)
      (one.longest head' two.named ⟨_, two.parts.symm⟩)
  obtain ⟨rfl, rest⟩ := List.append_inj (one.parts.symm.trans two.parts) length
  obtain ⟨rfl, rfl⟩ := one.ended.unique (rest ▸ two.ended)
  exact ⟨rfl, rfl, rfl⟩

structure MacroRewritten (name value : Text) (line new : Line) : Prop where
  falls : ∀ head, MacroHead name head → head <+: line →
    ∃ head old ending, MacroParts name line head old ending
  written : ∀ {head old ending}, MacroParts name line head old ending →
    new = head ++ (value ++ ending)
  other : (∀ head, MacroHead name head → ¬head <+: line) → new = line

theorem macroRewritten (oneFeed : line.OneFeed) (value : Text) :
    MacroRewritten name value line (withValueIn (macroMatcher name) value line) := by
  refine ⟨?_, ?_, ?_⟩
  · intro head named start
    obtain ⟨gap, space, more, old, cr, lf, way, -⟩ := exists_macroLine oneFeed named start
    exact ⟨_, _, _, way.macroParts oneFeed⟩
  · intro head old ending parts
    obtain ⟨gap, space, more, old', cr, lf, way, -⟩ :=
      exists_macroLine oneFeed parts.named ⟨_, parts.parts.symm⟩
    obtain ⟨gap, space, old', cr, lf, preferred⟩ := way.exists_preferred
    obtain ⟨rfl, rfl, rfl⟩ := parts.unique (preferred.toMacroLine.macroParts oneFeed)
    rw [withValueIn_preferred preferred oneFeed]
    simp
  · intro absent
    refine withValueIn_no_macroLine oneFeed (fun gap space old cr lf way => ?_) value
    have parts := way.macroParts oneFeed
    exact absent _ parts.named ⟨_, parts.parts.symm⟩

end Macro

section Lines

variable {limit : Limit} {p : Pattern}

def AcceptsExactly (P : Line → Prop) (p : Pattern) : Prop :=
  ∀ line : Line, line.OneFeed → ((p.evaluate (some line)).report.isHit = true ↔ P line)

def StartsMacro (name : Text) (line : Line) : Prop :=
  ∃ head, MacroHead name head ∧ head <+: line

theorem macro_hit (made : globalMacro limit name = .ok p) (oneFeed : line.OneFeed) :
    (p.evaluate (some line)).report.isHit = true ↔ StartsMacro name line := by
  obtain ⟨m, rfl, finds⟩ := globalMacro_findsAs limit name p made
  rw [regex_hit, finds]
  by_cases given : ∃ gap space value cr lf, MacroLine name line gap space value cr lf
  · obtain ⟨gap, space, value, cr, lf, way⟩ := given
    obtain ⟨gap, space, value, cr, lf, preferred⟩ := way.exists_preferred
    have parts := preferred.toMacroLine.macroParts oneFeed
    refine iff_of_true ?_ ⟨_, parts.named, _, parts.parts.symm⟩
    rw [find_macroLine preferred oneFeed, Option.isSome_some]
  · refine iff_of_false ?_ fun starts => ?_
    · have absent : ∀ gap space value cr lf, ¬MacroLine name line gap space value cr lf :=
        fun gap space value cr lf way => given ⟨gap, space, value, cr, lf, way⟩
      simp [find_macroLine_none oneFeed absent]
    · obtain ⟨head, named, start⟩ := starts
      obtain ⟨gap, space, more, value, cr, lf, way, -⟩ := exists_macroLine oneFeed named start
      exact given ⟨gap, _, value, cr, lf, way⟩

/-- What needs an expression that is written out: it is refused if the expression is too large, and
is as it should be otherwise. -/
def UnlessTooLarge {α : Type} (limit : Limit) (source : Text) (flags : Flags) (good : α → Prop)
    (done : Except PatternError α) : Prop :=
  ∃ e names, read? source flags = some (e, names) ∧
    (limit.refuses e = true → done = .error ⟨source, .tooLarge⟩) ∧
    (limit.refuses e = false → ∃ a, done = .ok a ∧ good a)

section Refused

variable {α β : Type} {source : Text} {flags : Flags} {good : α → Prop}

theorem unlessTooLarge_of_read {e : Expr} {names : List (Text × Nat)} {good : Pattern → Prop}
    (read : read? source flags = some (e, names))
    (made : ∀ {p}, Pattern.ofSource limit source flags = .ok p → good p) :
    UnlessTooLarge limit source flags good (Pattern.ofSource limit source flags) := by
  have compiled : Pattern.ofSource limit source flags = _ := ofSource_read read
  refine ⟨e, names, read, fun refused => ?_, fun accepted => ?_⟩
  · exact compiled.trans (if_pos refused)
  · have some := compiled.trans (if_neg (by simp [accepted]))
    exact ⟨_, some, made some⟩

theorem UnlessTooLarge.map {done : Except PatternError α} {goodToo : β → Prop} {g : α → β}
    (settled : UnlessTooLarge limit source flags good done) (holds : ∀ a, good a → goodToo (g a)) :
    UnlessTooLarge limit source flags goodToo (done.map g) := by
  obtain ⟨e, names, read, refused, accepted⟩ := settled
  refine ⟨e, names, read, fun large => by rw [refused large, Except.map], fun small => ?_⟩
  obtain ⟨a, rfl, given⟩ := accepted small
  exact ⟨g a, rfl, holds a given⟩

theorem UnlessTooLarge.of_ok {a : α} (settled : UnlessTooLarge limit source flags good (.ok a)) :
    good a := by
  obtain ⟨e, names, -, refused, accepted⟩ := settled
  cases large : limit.refuses e with
  | true => simpa using refused large
  | false =>
    obtain ⟨b, same, holds⟩ := accepted large
    exact Except.ok.inj same ▸ holds

end Refused

/-- Both patterns compile for every name that is not too long, and then accept exactly the lines of
their grammar. In a list of lines each line becomes what the grammar says, for itself: another value
in its place, or the same line. For a name that is too long nothing is replaced. -/
theorem replacement_follows_grammar (limit : Limit) (name value : Text) (lines : List Line)
    (oneFeed : ∀ line ∈ lines, line.OneFeed) :
    UnlessTooLarge limit (tagSource name) tagFlags (AcceptsExactly (StartsTag name))
        (tag limit name) ∧
      UnlessTooLarge limit (macroSource name) macroFlags (AcceptsExactly (StartsMacro name))
        (globalMacro limit name) ∧
      UnlessTooLarge limit (tagSource name) tagFlags (List.Forall₂ (TagRewritten name value) lines)
        (replaceTagLines limit name value lines) ∧
      UnlessTooLarge limit (macroSource name) macroFlags
        (List.Forall₂ (MacroRewritten name value) lines)
        (replaceMacroLines limit name value lines) := by
  have tags : UnlessTooLarge limit (tagSource name) tagFlags (AcceptsExactly (StartsTag name))
      (tag limit name) :=
    unlessTooLarge_of_read (read_tag name) fun made line => tag_hit made
  have macros : UnlessTooLarge limit (macroSource name) macroFlags
      (AcceptsExactly (StartsMacro name)) (globalMacro limit name) :=
    unlessTooLarge_of_read (read_globalMacro name) fun made line => macro_hit made
  refine ⟨tags, macros, ?_, ?_⟩
  · rw [replaceTagLines_eq]
    exact tags.map fun _ _ => List.forall₂_map_right_iff.mpr (List.forall₂_same.mpr
      fun line member => tagRewritten (oneFeed line member) value)
  · rw [replaceMacroLines_eq]
    exact macros.map fun _ _ => List.forall₂_map_right_iff.mpr (List.forall₂_same.mpr
      fun line member => macroRewritten (oneFeed line member) value)

theorem metacharacters_replaced :
    let lines : List Line :=
      [("C++:\t\r\n" : Text), ("c:1\n" : Text), ("%global  c++\t a\r\r" : Text)]
    let newTags : List Line :=
      [("C++:\t2\r\n" : Text), ("c:1\n" : Text), ("%global  c++\t a\r\r" : Text)]
    let newMacros : List Line :=
      [("C++:\t\r\n" : Text), ("c:1\n" : Text), ("%global  c++\t 2\r" : Text)]
    (∀ line ∈ lines, line.OneFeed) ∧
      (∃ p, tag .standard "c++" = .ok p ∧ AcceptsExactly (StartsTag "c++") p) ∧
      replaceTagLines .standard "c++" "2" lines = .ok newTags ∧
      List.Forall₂ (TagRewritten "c++" "2") lines newTags ∧
      replaceMacroLines .standard "c++" "2" lines = .ok newMacros ∧
      List.Forall₂ (MacroRewritten "c++" "2") lines newMacros := by
  intro lines newTags newMacros
  have oneFeed : ∀ line ∈ lines, line.OneFeed := by decide
  obtain ⟨p, made⟩ := tag_small .standard "c++" (by decide +kernel)
  obtain ⟨q, madeToo⟩ := globalMacro_small .standard "c++" (by decide +kernel)
  have tags : replaceTagLines .standard "c++" "2" lines = .ok newTags := by
    rw [replaceTagLines_eq, made, Except.map]
    exact congrArg _ (by decide +kernel)
  have macros : replaceMacroLines .standard "c++" "2" lines = .ok newMacros := by
    rw [replaceMacroLines_eq, madeToo, Except.map]
    exact congrArg _ (by decide +kernel)
  have grammar := replacement_follows_grammar .standard "c++" "2" lines oneFeed
  rw [made, madeToo, tags, macros] at grammar
  obtain ⟨accepts, -, newTagsFollow, newMacrosFollow⟩ := grammar
  exact ⟨oneFeed, ⟨p, made, accepts.of_ok⟩, tags, newTagsFollow.of_ok, macros,
    newMacrosFollow.of_ok⟩

/-- A line of a tag whose name is too long is not rewritten, as there is no pattern for it. -/
theorem long_name_refused :
    let name : Text := List.replicate 50000 'ι'
    let line : Line := name ++ (": 1\n" : Text)
    line.OneFeed ∧ (∃ key space old ending, TagParts name line key space old ending) ∧
      tag .standard name = .error ⟨tagSource name, .tooLarge⟩ ∧
      replaceTagLines .standard name "2" [line] = .error ⟨tagSource name, .tooLarge⟩ := by
  intro name line
  have refused : tag .standard name = _ := iotas_tooLarge (by decide)
  have plain : '\n' ∉ name := fun member => absurd (List.eq_of_mem_replicate member) (by decide)
  obtain ⟨closed, starts⟩ := closed_tag plain
  obtain ⟨key, space, old, cr, lf, tagLine⟩ := starts.parts closed.1
  refine ⟨closed.1, ⟨_, _, _, _, tagLine.tagParts⟩, refused, ?_⟩
  rw [replaceTagLines_eq, refused, Except.map]

end Lines

end LineRules.Spec
