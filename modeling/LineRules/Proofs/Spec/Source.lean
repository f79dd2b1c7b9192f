import LineRules.Proofs.Regex.Marks
import LineRules.Proofs.Regex.Memory
import LineRules.Proofs.Spec.ValueField

namespace LineRules.Spec

open Regex

variable {name : Text}

section Reading

def valueItems (items : List Part) : List Part :=
  ⟨.look .lineEnd, 0⟩ :: ⟨.rep 0 (some 1) true (.literal ['\r']), 1⟩ ::
    ⟨.group 2 (.rep 0 none false (.set .notLineFeed)), 2⟩ :: items

theorem ofSet_meantBy {c : Char} (caseless : CharSet.sameFold c = .single c) (flags : Flags) :
    Expr.ofSet (meantBy flags c) = .literal [c] := by
  have only : meantBy flags c = .single c := by
    rw [meantBy, caseless, ite_self]
  rw [only]
  exact if_pos rfl

theorem readAll_value (anyCase repeatable : Bool) (names : List (Text × Nat))
    (new : (names.lookup valueName).isNone) (items : List Part) :
    Reader.readAll ⟨⟨anyCase, true, false, false⟩, 2, names, [], [], items, repeatable⟩
        valueSource =
      some ⟨⟨anyCase, true, false, false⟩, 3, names ++ [(valueName, 2)], [], [],
        valueItems items, true⟩ := by
  let flags : Flags := ⟨anyCase, true, false, false⟩
  let inside (found : List Part) (repeatable : Bool) : Reader :=
    ⟨flags, 3, names ++ [(valueName, 2)], [⟨some 2, flags, [], items⟩], [], found, repeatable⟩
  let behind (found : List Part) : Reader :=
    ⟨flags, 3, names ++ [(valueName, 2)], [], [], found ++ items, true⟩
  let value : Part := ⟨.group 2 (.rep 0 none false (.set .notLineFeed)), 2⟩
  calc Reader.readAll ⟨flags, 2, names, [], [], items, repeatable⟩ ("(?P<value>.*?)\\r?$" : Text)
    _ = (inside [] false).readAll (".*?)\\r?$" : Text) := by
      refine readAll_step ?_ (by simp)
      change (if Reader.isGroupName valueName && (names.lookup valueName).isNone then _ else _) = _
      rw [if_pos (by rw [new]; rfl)]
      rfl
    _ = (inside [⟨.set .notLineFeed, 0⟩] true).readAll ("*?)\\r?$" : Text) :=
      readAll_step rfl (by simp)
    _ = (inside [⟨.rep 0 none false (.set .notLineFeed), 1⟩] true).readAll (")\\r?$" : Text) :=
      readAll_step rfl (by simp)
    _ = (behind [value]).readAll ("\\r?$" : Text) := readAll_step rfl (by simp)
    _ = (behind [⟨.literal ['\r'], 0⟩, value]).readAll ("?$" : Text) := by
      rw [← ofSet_meantBy (by decide +kernel) flags]
      exact readAll_step rfl (by simp)
    _ = (behind [⟨.rep 0 (some 1) true (.literal ['\r']), 1⟩, value]).readAll ("$" : Text) :=
      readAll_step rfl (by simp)
    _ = Reader.readAll ⟨flags, 3, names ++ [(valueName, 2)], [], [], valueItems items, true⟩ [] :=
      readAll_step rfl (by simp)
    _ = _ := by rw [Reader.readAll]

def namePart (flags : Flags) (name : Text) : Part :=
  ⟨.group 1 (literalPart flags name).expr, (literalPart flags name).depth + 1⟩

def tagItems (key : Part) : List Part :=
  [⟨.rep 0 none true (.set .blank), 3⟩, ⟨.literal [':'], 0⟩, key, ⟨.look .lineStart, 0⟩]

theorem readAll_tag (name : Text) :
    Reader.readAll ⟨tagFlags, 1, [], [], [], [], false⟩ (tagSource name) =
      some ⟨tagFlags, 3, [("key", 1), (valueName, 2)], [], [],
        valueItems (tagItems (namePart tagFlags name)), true⟩ := by
  let inside (t : Text) : Option Reader :=
    Reader.readAll ⟨tagFlags, 2, [("key", 1)], [⟨some 1, tagFlags, [], [⟨.look .lineStart, 0⟩]⟩],
      [], [], false⟩ t
  let behind (found : List Part) : Reader :=
    ⟨tagFlags, 2, [("key", 1)], [], [], found ++ [namePart tagFlags name, ⟨.look .lineStart, 0⟩],
      true⟩
  calc Reader.readAll ⟨tagFlags, 1, [], [], [], [], false⟩ (tagSource name)
    _ = Reader.readAll ⟨tagFlags, 1, [], [], [], [⟨.look .lineStart, 0⟩], true⟩
          ("(?P<key>" ++ (escape name ++ ("):[ \\t]*" ++ valueSource)) : Text) :=
      readAll_step rfl (by simp)
    _ = inside (escape name ++ ("):[ \\t]*" ++ valueSource)) :=
      readAll_step rfl (Nat.le_add_right _ 7)
    _ = (behind []).readAll (":[ \\t]*" ++ valueSource : Text) := readAll_literalGroup ..
    _ = (behind [⟨.literal [':'], 0⟩]).readAll ("[ \\t]" ++ ('*' :: valueSource) : Text) := by
      rw [← ofSet_meantBy (by decide +kernel) tagFlags]
      exact readAll_step rfl (by simp)
    _ = (behind [⟨.set .blank, 2⟩, ⟨.literal [':'], 0⟩]).readAll ('*' :: valueSource) :=
      readAll_blank _ _
    _ = (behind [⟨.rep 0 none true (.set .blank), 3⟩, ⟨.literal [':'], 0⟩]).readAll valueSource :=
      readAll_step rfl (by simp)
    _ = _ := readAll_value _ _ _ rfl _

theorem readAll_keyword (items : List Part) (rest : Text) :
    Reader.readAll ⟨macroFlags, 1, [], [], [], items, true⟩ ("%global" ++ rest : Text) =
      Reader.readAll ⟨macroFlags, 1, [], [], [],
        (literalParts macroFlags "%global").reverse ++ items, true⟩ rest := by
  have plain : escape ("%global" : Text) = "%global" := by decide
  rw [← plain, readAll_escape, foldl_literal]
  rfl

def macroItems (key : Part) : List Part :=
  ⟨.rep 1 none true (.set .blank), 3⟩ :: key ::
    ⟨.rep 1 none true (.set .blank), 3⟩ ::
      ((literalParts macroFlags "%global").reverse ++ [⟨.look .lineStart, 0⟩])

theorem readAll_globalMacro (name : Text) :
    Reader.readAll ⟨macroFlags, 1, [], [], [], [], false⟩ (macroSource name) =
      some ⟨macroFlags, 3, [("key", 1), (valueName, 2)], [], [],
        valueItems (macroItems (namePart macroFlags name)), true⟩ := by
  let keyword : List Part :=
    (literalParts macroFlags "%global").reverse ++ [⟨.look .lineStart, 0⟩]
  let gap : Part := ⟨.rep 1 none true (.set .blank), 3⟩
  let before (found : List Part) : Reader := ⟨macroFlags, 1, [], [], [], found, true⟩
  let behind (found : List Part) : Reader :=
    ⟨macroFlags, 2, [("key", 1)], [], [], found ++ namePart macroFlags name :: gap :: keyword, true⟩
  let tail : Text := escape name ++ (")[ \\t]+" ++ valueSource)
  calc Reader.readAll ⟨macroFlags, 1, [], [], [], [], false⟩ (macroSource name)
    _ = (before [⟨.look .lineStart, 0⟩]).readAll ("%global" ++ ("[ \\t]+(?P<key>" ++ tail) : Text) :=
      readAll_step rfl (Nat.le_refl _)
    _ = (before keyword).readAll ("[ \\t]" ++ ("+(?P<key>" ++ tail) : Text) :=
      readAll_keyword _ _
    _ = (before (⟨.set .blank, 2⟩ :: keyword)).readAll ("+(?P<key>" ++ tail : Text) :=
      readAll_blank _ _
    _ = (before (gap :: keyword)).readAll ("(?P<key>" ++ tail : Text) := readAll_step rfl (by simp)
    _ = Reader.readAll ⟨macroFlags, 2, [("key", 1)],
          [⟨some 1, macroFlags, [], gap :: keyword⟩], [], [], false⟩ tail :=
      readAll_step rfl (Nat.le_add_right _ 7)
    _ = (behind []).readAll ("[ \\t]" ++ ('+' :: valueSource) : Text) := readAll_literalGroup ..
    _ = (behind [⟨.set .blank, 2⟩]).readAll ('+' :: valueSource) := readAll_blank _ _
    _ = (behind [gap]).readAll valueSource := readAll_step rfl (by simp)
    _ = _ := readAll_value _ _ _ rfl _

end Reading

section Compiling

open Expr

def valueExpr : Expr :=
  .seq (.group 2 (.rep 0 none false (.set .notLineFeed)))
    (.seq (.rep 0 (some 1) true (.literal ['\r'])) (.look .lineEnd))

def markedValue (n : Nat) : Regex :=
  .seq (.group 2 (.seq (.once n) (.star false (.seq (.set .notLineFeed) (.once n)))))
    (.seq (.seq (.once (n + 1)) (.alt (.seq (text ['\r']) .empty) .empty)) (.look .lineEnd))

theorem valueExpr_toRegex (n : Nat) : valueExpr.toRegex.run n = (markedValue n, n + 2) :=
  rfl

theorem markedValue_marked (n : Nat) : Marked n (markedValue n) valueToLineEnd (n + 2) := by
  have carriage (c : Cursor) : (Regex.alt (.seq (text ['\r']) .empty) .empty).ways c =
      (Regex.alt (.set (.single '\r')) .empty).ways c := by
    simp only [text, ways, List.flatMap_singleton']
  refine .seq (.group .loop) (.seq (.mark ?_) (.same trivial))
  exact .plain ⟨⟨⟨trivial, trivial⟩, trivial⟩, trivial⟩ ⟨trivial, trivial⟩ rfl carriage

theorem exists_nameForm (flags : Flags) (name : Text) {plain : Regex} (simple : plain.Simple)
    (groups : plain.groupNumbers = [])
    (ends : ∀ c, plain.ways c = follow (name.map fun x => (meantBy flags x).mem) c) :
    ∃ r, (∀ n, (literalPart flags name).expr.toRegex.run n = (r, n)) ∧
      ∀ n, Marked n r plain n := by
  obtain ⟨r, form, some, same⟩ := spells_toRegex (literalPart_spells flags name)
  refine ⟨r, form, fun n => .plain (simple_of_plain some) simple ?_ fun c => ?_⟩
  · rw [groups, groupNumbers_of_plain some]
  · rw [same, ends]

theorem read_of_readAll {source : Text} {flags : Flags} {nextGroup : Nat}
    {names : List (Text × Nat)} {items : List Part}
    (read : Reader.readAll ⟨flags, 1, [], [], [], [], false⟩ source =
      some ⟨flags, nextGroup, names, [], [], items, true⟩)
    (shallow : Part.depthOf items ≤ maxDepth) :
    read? source flags = some (alternatives [sequence (items.reverse.map (·.expr))], names) := by
  have depth : (Reader.mk flags nextGroup names [] [] items true).inner.depth ≤ maxDepth := by
    simpa [Reader.inner, Part.alternatives, Part.sequence, Part.depthOf] using shallow
  simp only [read?, read, Option.bind_eq_bind, Option.bind_some, depth, List.isEmpty_nil,
    decide_true, Bool.and_self, if_true]
  rfl

theorem ofSource_read {limit : Limit} {source : Text} {flags : Flags} {e : Expr}
    {names : List (Text × Nat)} (read : read? source flags = some (e, names)) :
    Pattern.ofSource limit source flags =
      if limit.refuses e then .error ⟨source, .tooLarge⟩
      else .ok (.regex (e.matcher names)) := by
  rw [Pattern.ofSource, ofSource, read]
  dsimp only
  cases limit.refuses e with
  | true => rfl
  | false => rfl

theorem ofSource_ok {limit : Limit} {source : Text} {flags : Flags} {e : Expr}
    {names : List (Text × Nat)} {p : Pattern} (read : read? source flags = some (e, names))
    (made : Pattern.ofSource limit source flags = .ok p) : p = .regex (e.matcher names) := by
  rw [ofSource_read read] at made
  split at made
  · simp at made
  · exact (Except.ok.inj made).symm

theorem ofSource_error {limit : Limit} {source : Text} {flags : Flags} {e : Expr}
    {names : List (Text × Nat)} {why : PatternError} (read : read? source flags = some (e, names))
    (failed : Pattern.ofSource limit source flags = .error why) : why = ⟨source, .tooLarge⟩ := by
  rw [ofSource_read read] at failed
  split at failed
  · exact (Except.error.inj failed).symm
  · simp at failed

theorem valueItems_shallow {items : List Part} (shallow : ∀ part ∈ items, part.depth ≤ 3) :
    Part.depthOf (valueItems items) ≤ maxDepth := by
  have all : ∀ part ∈ valueItems items, part.depth ≤ 3 := by
    simpa [valueItems] using shallow
  exact Nat.le_trans (depthOf_le all) (by decide)

theorem namePart_depth (flags : Flags) (name : Text) : (namePart flags name).depth ≤ 3 := by
  have shallow := literalPart_depth flags name
  simp only [namePart]
  omega

def tagExpr (e : Expr) : Expr :=
  .seq (.look .lineStart) (.seq (.group 1 e) (.seq (.literal [':'])
    (.seq (.rep 0 none true (.set .blank)) valueExpr)))

theorem tag_normal (e : Expr) (d : Nat) :
    alternatives [sequence ((valueItems (tagItems ⟨.group 1 e, d⟩)).reverse.map (·.expr))] =
      tagExpr e := by
  have row : sequence ((valueItems (tagItems ⟨.group 1 e, d⟩)).reverse.map (·.expr)) =
      tagExpr e := rfl
  rw [row, tagExpr, alternatives_seq]
  rfl

theorem tagExpr_finds {e : Expr} {r : Regex} (form : ∀ n, e.toRegex.run n = (r, n))
    (marked : ∀ n, Marked n r (textAnyCase name) n) :
    ((tagExpr e).matcher (tagMatcher name).names).find? = (tagMatcher name).find? := by
  have readied := toRegex_seq (a := .look .lineStart) (n := 0) rfl
    (toRegex_seq (toRegex_group (i := 1) (form 0))
      (toRegex_seq (a := .literal [':']) rfl
        (toRegex_seq (a := .rep 0 none true (.set .blank)) rfl (valueExpr_toRegex 1))))
  apply find_matcher readied (n := 0) (m := 3)
  · exact .seq (.same trivial) (.seq (.group (marked 0))
      (.seq (.same ⟨trivial, trivial⟩) (.seq .loop (markedValue_marked 1))))
  · simp [tagMatcher, tagParts, all, groupNumbers, textAnyCase_groupNumbers, text_groupNumbers,
      blanks, many, valueToLineEnd, fewest]

def tagForm (name : Text) : Expr :=
  tagExpr (literalPart tagFlags name).expr

theorem read_tag (name : Text) :
    read? (tagSource name) tagFlags = some (tagForm name, (tagMatcher name).names) := by
  have shallow : ∀ part ∈ tagItems (namePart tagFlags name), part.depth ≤ 3 := by
    simp [tagItems, namePart_depth]
  rw [read_of_readAll (readAll_tag name) (valueItems_shallow shallow), namePart, tag_normal]
  rfl

theorem tagForm_finds (name : Text) :
    ((tagForm name).matcher (tagMatcher name).names).find? = (tagMatcher name).find? := by
  obtain ⟨r, form, marked⟩ := exists_nameForm tagFlags name
    (simple_of_plain (plain_textAnyCase name)) (textAnyCase_groupNumbers name)
    (ways_textAnyCase name)
  exact tagExpr_finds form marked

def macroExpr (e : Expr) : Expr :=
  .seq (.look .lineStart) (.seq (.literal "%global") (.seq (.rep 1 none true (.set .blank))
    (.seq (.group 1 e) (.seq (.rep 1 none true (.set .blank)) valueExpr))))

theorem macro_normal (e : Expr) (d : Nat) :
    alternatives [sequence ((valueItems (macroItems ⟨.group 1 e, d⟩)).reverse.map (·.expr))] =
      macroExpr e := by
  have row : sequence ((valueItems (macroItems ⟨.group 1 e, d⟩)).reverse.map (·.expr)) =
      macroExpr e := rfl
  rw [row, macroExpr, alternatives_seq]
  rfl

theorem macroExpr_finds {e : Expr} {r : Regex} (form : ∀ n, e.toRegex.run n = (r, n))
    (marked : ∀ n, Marked n r (text name) n) :
    ((macroExpr e).matcher (macroMatcher name).names).find? = (macroMatcher name).find? := by
  have readied := toRegex_seq (a := .look .lineStart) (n := 0) rfl
    (toRegex_seq (a := .literal "%global") rfl
      (toRegex_seq (a := .rep 1 none true (.set .blank)) rfl
        (toRegex_seq (toRegex_group (i := 1) (form 1))
          (toRegex_seq (a := .rep 1 none true (.set .blank)) rfl (valueExpr_toRegex 2)))))
  apply find_matcher readied (n := 0) (m := 4)
  · exact .seq (.same trivial) (.seq (.same (simple_of_plain (plain_text _)))
      (.seq (.seq (.same trivial) .loop) (.seq (.group (marked 1))
        (.seq (.seq (.same trivial) .loop) (markedValue_marked 2)))))
  · simp [macroMatcher, macroParts, all, groupNumbers, text_groupNumbers, blanks1, many1, many,
      valueToLineEnd, fewest]

def macroForm (name : Text) : Expr :=
  macroExpr (literalPart macroFlags name).expr

theorem read_globalMacro (name : Text) :
    read? (macroSource name) macroFlags = some (macroForm name, (macroMatcher name).names) := by
  have shallow : ∀ part ∈ macroItems (namePart macroFlags name), part.depth ≤ 3 := by
    have keyword : ∀ part ∈ literalParts macroFlags "%global", part.depth ≤ 3 :=
      fun part member => Nat.le_trans (Nat.le_of_eq (literalParts_depth member)) (by decide)
    simpa [macroItems, namePart_depth, or_imp, forall_and] using keyword
  rw [read_of_readAll (readAll_globalMacro name) (valueItems_shallow shallow), namePart,
    macro_normal]
  rfl

theorem macroForm_finds (name : Text) :
    ((macroForm name).matcher (macroMatcher name).names).find? = (macroMatcher name).find? := by
  obtain ⟨r, form, marked⟩ := exists_nameForm macroFlags name
    (simple_of_plain (plain_text name)) (text_groupNumbers name) (ways_text name)
  exact macroExpr_finds form marked

end Compiling

section Names

variable {limit : Limit} {p : Pattern} {why : PatternError}

/-- If the pattern could be made, it finds what an expression finds. -/
def FindsAs (made : Except PatternError Pattern) (n : Matcher) : Prop :=
  ∀ p, made = .ok p → ∃ m, p = .regex m ∧ m.find? = n.find?

theorem tag_findsAs (limit : Limit) (name : Text) : FindsAs (tag limit name) (tagMatcher name) :=
  fun _ made => ⟨_, ofSource_ok (read_tag name) made, tagForm_finds name⟩

theorem globalMacro_findsAs (limit : Limit) (name : Text) :
    FindsAs (globalMacro limit name) (macroMatcher name) :=
  fun _ made => ⟨_, ofSource_ok (read_globalMacro name) made, macroForm_finds name⟩

theorem tag_error (failed : tag limit name = .error why) : why = ⟨tagSource name, .tooLarge⟩ :=
  ofSource_error (read_tag name) failed

theorem tag_hit {line : Line} (made : tag limit name = .ok p) (oneFeed : line.OneFeed) :
    (p.evaluate (some line)).report.isHit = true ↔ StartsTag name line := by
  obtain ⟨m, rfl, finds⟩ := tag_findsAs limit name p made
  rw [regex_hit, finds]
  by_cases starts : StartsTag name line
  · obtain ⟨key, space, value, cr, lf, tagLine⟩ := starts.parts oneFeed
    simp [find_tag tagLine oneFeed, starts]
  · simp [find_tag_none starts oneFeed, starts]

theorem capturedValue_tag (made : tag limit name = .ok p) : capturedValue? p = valueIn? name := by
  obtain ⟨m, rfl, finds⟩ := tag_findsAs limit name p made
  funext line
  rw [valueIn?, capturedValue?, capturedValue?, evaluate_regex, evaluate_regex, finds]

theorem tag_small (limit : Limit) (name : Text) (small : (tagForm name).memory ≤ smallMemory) :
    ∃ p, tag limit name = .ok p :=
  ⟨_, (ofSource_read (read_tag name)).trans (if_neg (by simp [limit.small _ small]))⟩

theorem globalMacro_small (limit : Limit) (name : Text)
    (small : (macroForm name).memory ≤ smallMemory) : ∃ p, globalMacro limit name = .ok p :=
  ⟨_, (ofSource_read (read_globalMacro name)).trans (if_neg (by simp [limit.small _ small]))⟩

theorem version_accepted (limit : Limit) : ∃ p, tag limit "Version" = .ok p :=
  tag_small limit _ (by decide +kernel)

theorem release_accepted (limit : Limit) : ∃ p, tag limit "Release" = .ok p :=
  tag_small limit _ (by decide +kernel)

theorem epoch_accepted (limit : Limit) : ∃ p, tag limit "Epoch" = .ok p :=
  tag_small limit _ (by decide +kernel)

theorem alphatag_accepted (limit : Limit) : ∃ p, globalMacro limit "alphatag" = .ok p :=
  globalMacro_small limit _ (by decide +kernel)

theorem tag_tooLarge (large : maxMemory < (tagForm name).memory) :
    tag .standard name = .error ⟨tagSource name, .tooLarge⟩ := by
  have refused : Limit.standard.refuses (tagForm name) = true := by
    simp only [Limit.standard, large, decide_true]
  exact (ofSource_read (read_tag name)).trans (if_pos refused)

/-- An iota has four variants in all, so each one in a name takes 352 bytes. -/
theorem iotas_tooLarge {n : Nat} (many : 30000 ≤ n) :
    tag .standard (List.replicate n 'ι') =
      .error ⟨tagSource (List.replicate n 'ι'), .tooLarge⟩ := by
  have letter : (Expr.ofSet (meantBy tagFlags 'ι')).memory = 352 := by decide +kernel
  have several : 1 < (List.replicate n 'ι').length := by
    rw [List.length_replicate]
    omega
  have inner := memory_literalPart tagFlags several
  rw [List.map_replicate, List.sum_replicate_nat, letter] at inner
  apply tag_tooLarge
  simp only [tagForm, tagExpr, Expr.memory, inner, maxMemory]
  omega

end Names

end LineRules.Spec
