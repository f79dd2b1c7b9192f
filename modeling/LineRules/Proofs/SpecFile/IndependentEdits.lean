import LineRules.Proofs.Spec.RepeatedBump
import LineRules.Proofs.SpecFile.ReadBack

/-!
Edits that can be made in any order. Setting the version, setting a global macro and bumping the
release each rewrite lines of their own: lines of one kind start with the name of the tag, with
`%global`, or as a release field does, and go on to start so whatever is written into them. So no
line is ever rewritten by two of these edits, and as each of them works line by line, it does not
matter which comes first.
-/
namespace LineRules

namespace Spec

variable {form : FieldForm} {S T : Line → Prop} {g h : Line → Line} {name line value : Text}

/-- A rewriting of lines that leaves all of them alone but some, which stay among these. -/
structure StaysIn (S : Line → Prop) (g : Line → Line) : Prop where
  outside : ∀ {line}, Text.OneFeed line → ¬S line → g line = line
  inside : ∀ {line}, Text.OneFeed line → S line → S (g line)
  keeps : ∀ {line}, line ≠ [] → Text.OneFeed line → KeepsLine line (g line)

theorem StaysIn.refl : StaysIn S id where
  outside _ _ := rfl
  inside _ within := within
  keeps filled oneFeed := .refl filled oneFeed

theorem StaysIn.comm (one : StaysIn S g) (two : StaysIn T h) (apart : ∀ line, S line → ¬T line)
    (filled : line ≠ []) (oneFeed : Text.OneFeed line) : g (h line) = h (g line) := by
  by_cases first : S line
  · have still := one.inside oneFeed first
    rw [two.outside oneFeed (apart line first),
      two.outside (one.keeps filled oneFeed).oneFeed (apart _ still)]
  · rw [one.outside oneFeed first]
    by_cases second : T line
    · have still := two.inside oneFeed second
      exact one.outside (two.keeps filled oneFeed).oneFeed fun both => apart _ both still
    · rw [two.outside oneFeed second, one.outside oneFeed first]

theorem tag_staysIn (clean : '\n' ∉ value) :
    StaysIn (StartsTag name) (withValueIn (tagMatcher name) value) where
  outside oneFeed other := withValueIn_no_tag other oneFeed value
  inside oneFeed starts := starts.written oneFeed value
  keeps filled oneFeed := withValueIn_tag_keeps filled oneFeed clean

def StartsGlobal (line : Line) : Prop :=
  ("%global" : Text) <+: line

theorem macro_staysIn (clean : '\n' ∉ value) :
    StaysIn StartsGlobal (withValueIn (macroMatcher name) value) where
  outside oneFeed other := by
    rcases withValueIn_macro oneFeed value with same | ⟨gap, space, old, cr, lf, macroLine, -⟩
    · exact same
    · exact absurd ⟨_, macroLine.parts.symm⟩ other
  inside oneFeed starts := by
    rcases withValueIn_macro oneFeed value with same | ⟨gap, space, old, cr, lf, -, made⟩
    · rwa [same]
    · rw [made]
      exact List.prefix_append _ _
  keeps filled oneFeed := withValueIn_macro_keeps filled oneFeed clean

theorem bump_staysIn (rightmost : Bool) : StaysIn Bumpable (bumpedLine rightmost) where
  outside _ other := bumpedLine_other other
  inside _ bumpable := by
    obtain ⟨h, r, w, recognised⟩ := bumpable_iff.mp bumpable
    exact bumpable_iff.mpr ⟨h, _, w, (recognised.bumped rightmost).2⟩
  keeps filled oneFeed := bumpedLine_keeps rightmost filled oneFeed

theorem define_starts {h : Text} (head : DefineHead name h) : ("%define" : Text) <+: h := by
  obtain ⟨gap, space, -, -, -, -, rfl⟩ := head
  exact List.prefix_append _ _

theorem release_starts {key rest : Text} (named : SameFold key "Release") :
    (key ++ rest).head?.map Unicode.fold = some 'r' := by
  have first : key.head?.map Unicode.fold = some 'r' :=
    named.head_fold.trans (by decide +kernel)
  have filled : key ≠ [] := by
    rintro rfl
    simp at first
  rw [List.head?_append_of_ne_nil _ filled, first]

theorem bumpable_starts (bumpable : Bumpable line) :
    line.head?.map Unicode.fold = some 'r' ∨ ("%define" : Text) <+: line := by
  obtain ⟨h, r, w, recognised⟩ := bumpable_iff.mp bumpable
  obtain ⟨-, form, fits⟩ := recognised_iff.mp recognised
  have define {name : Text} (head : DefineHead name h) : ("%define" : Text) <+: line := by
    rw [fits.parts, List.append_assoc]
    exact (define_starts head).trans (List.prefix_append _ _)
  have head := fits.isHead
  cases form with
  | tag =>
    obtain ⟨key, gap, space, named, -, -, rfl⟩ := head
    left
    rw [fits.parts, List.append_assoc, List.append_assoc]
    exact release_starts named
  | function =>
    obtain ⟨key, gap, space, function, more, named, -, -, -, -, -, -, rfl⟩ := head
    left
    rw [fits.parts, List.append_assoc, List.append_assoc]
    exact release_starts named
  | rel => exact .inr (define head)
  | release => exact .inr (define head)
  | baserelease => exact .inr (define head)

theorem percent_starts {word : Text} (sign : word.head? = some '%') (starts : word <+: line) :
    line.head?.map Unicode.fold = some '%' := by
  have alone : Unicode.fold '%' = '%' := by decide +kernel
  obtain ⟨rest, rfl⟩ := starts
  rw [List.head?_append, sign, Option.some_or, Option.map_some, alone]

theorem global_not_bumpable (starts : StartsGlobal line) : ¬Bumpable line := by
  intro bumpable
  rcases bumpable_starts bumpable with first | define
  · simp [percent_starts rfl starts] at first
  · rcases List.prefix_or_prefix_of_prefix starts define with longer | longer
    · exact absurd longer (by decide)
    · exact absurd longer (by decide)

theorem version_starts (starts : StartsTag "Version" line) :
    line.head?.map Unicode.fold = some 'v' :=
  (starts.head_fold (by decide)).trans (by decide +kernel)

theorem version_not_global (starts : StartsTag "Version" line) : ¬StartsGlobal line := by
  intro global
  have first := version_starts starts
  simp [percent_starts rfl global] at first

theorem version_not_bumpable (starts : StartsTag "Version" line) : ¬Bumpable line := by
  intro bumpable
  have first := version_starts starts
  rcases bumpable_starts bumpable with other | define
  · simp [other] at first
  · simp [percent_starts rfl define] at first

theorem rewritten_once {limit : Regex.Limit} {p : Pattern} (accepted : tag limit "Version" = .ok p)
    (clean : '\n' ∉ value) (global : StaysIn StartsGlobal g) (rightmost : Bool)
    (filled : line ≠ []) (oneFeed : Text.OneFeed line) :
    bumpedLine rightmost (g (withValueIn (tagMatcher "Version") value line)) =
      if (p.evaluate (some line)).report.isHit then
        withValueIn (tagMatcher "Version") value line
      else if (bumpableField.evaluate (some line)).report.isHit then bumpedLine rightmost line
      else g line := by
  have version : StaysIn (StartsTag "Version") _ := tag_staysIn clean
  have bump := bump_staysIn rightmost
  by_cases isVersion : StartsTag "Version" line
  · have still := version.inside oneFeed isVersion
    have ended := (version.keeps filled oneFeed).oneFeed
    rw [if_pos ((tag_hit accepted oneFeed).mpr isVersion),
      global.outside ended (version_not_global still),
      bump.outside ended (version_not_bumpable still)]
  · rw [if_neg (mt (tag_hit accepted oneFeed).mp isVersion), version.outside oneFeed isVersion,
      ← global.comm bump (fun _ => global_not_bumpable) filled oneFeed]
    split
    · rename_i bumpable
      have still : Bumpable (bumpedLine rightmost line) := bump.inside oneFeed bumpable
      exact global.outside (bump.keeps filled oneFeed).oneFeed fun both =>
        global_not_bumpable both still
    · rename_i other
      rw [bump.outside oneFeed other]

end Spec

namespace SpecFile

open Spec

variable {limit : Regex.Limit} {f : SpecFile} {e d : Edit} {S T : Line → Prop} {g h : Line → Line}
  {name value : Text}

structure Edit.RewritesIn (limit : Regex.Limit) (e : Edit) (S : Line → Prop) (g : Line → Line) :
    Prop extends StaysIn S g where
  lines : ∀ f : SpecFile, f.after limit e = ⟨f.path, f.lines.map g⟩

theorem Edit.RewritesIn.keeps_lines (rewrites : e.RewritesIn limit S g)
    (given : LinesOfText f.lines) : LinesOfText (f.after limit e).lines := by
  rw [rewrites.lines]
  exact given.map fun line filled oneFeed => rewrites.keeps filled oneFeed

theorem setVersion_rewrites (clean : '\n' ∉ value) :
    Edit.RewritesIn limit (.setVersion value) (StartsTag "Version")
      (withValueIn (tagMatcher "Version") value) :=
  ⟨tag_staysIn clean, fun f => after_setVersion limit f value⟩

theorem setMacro_rewrites (clean : '\n' ∉ value) :
    Edit.RewritesIn limit (.setMacro name value) StartsGlobal
      (written (globalMacro limit name).isOk (macroMatcher name) value) := by
  refine ⟨?_, fun f => after_setMacro limit f name value⟩
  cases (globalMacro limit name).isOk with
  | true => exact macro_staysIn clean
  | false => exact .refl

theorem increaseRelease_rewrites (rightmost : Bool) :
    Edit.RewritesIn limit (.increaseRelease rightmost) Bumpable (bumpedLine rightmost) :=
  ⟨bump_staysIn rightmost, fun f => after_increaseRelease limit f rightmost⟩

def Edit.Independent (limit : Regex.Limit) (e d : Edit) : Prop :=
  ∃ S g T h, e.RewritesIn limit S g ∧ d.RewritesIn limit T h ∧ ∀ line, S line → ¬T line

theorem Edit.Independent.symm (independent : e.Independent limit d) : d.Independent limit e := by
  obtain ⟨S, g, T, h, one, two, apart⟩ := independent
  exact ⟨T, h, S, g, two, one, fun line second first => apart line first second⟩

theorem after_comm (independent : e.Independent limit d) (given : LinesOfText f.lines) :
    (f.after limit e).after limit d = (f.after limit d).after limit e := by
  obtain ⟨S, g, T, h, one, two, apart⟩ := independent
  rw [one.lines, two.lines, two.lines, one.lines]
  refine congrArg (SpecFile.mk f.path) ?_
  rw [List.map_map, List.map_map]
  refine List.map_congr_left fun line member => ?_
  exact (one.comm two.toStaysIn apart (given.filled line member) (given.oneFeed line member)).symm

theorem afterAll_perm {edits order : List Edit} (perm : edits.Perm order)
    (rewrites : ∀ e ∈ edits, ∃ S g, e.RewritesIn limit S g)
    (independent : edits.Pairwise (Edit.Independent limit)) (given : LinesOfText f.lines) :
    f.afterAll limit edits = f.afterAll limit order := by
  induction perm generalizing f with
  | nil => rfl
  | cons e perm ih =>
    obtain ⟨⟨S, g, here⟩, later⟩ := List.forall_mem_cons.mp rewrites
    exact ih later (List.pairwise_cons.mp independent).2 (here.keeps_lines given)
  | swap e d rest =>
    have apart := (List.pairwise_cons.mp independent).1 e List.mem_cons_self
    simp only [afterAll, List.foldl_cons, after_comm apart given]
  | trans first second ihFirst ihSecond =>
    have apart := (first.pairwise_iff fun apart => apart.symm).mp independent
    have moved := fun e member => rewrites e (first.mem_iff.mpr member)
    exact (ihFirst rewrites independent given).trans (ihSecond moved apart given)

/-- Setting the version, setting a macro and bumping the release come to the same file in whatever
order they are made, and no line of it is rewritten by more than one of them. A macro whose name is
too long is set in no order. -/
theorem independent_edits_commute (limit : Regex.Limit) (path : String)
    (text version name value : Text) (clean : '\n' ∉ version) (cleanValue : '\n' ∉ value)
    (rightmost : Bool) :
    let f := ofText path text
    let edits : List Edit :=
      [.setVersion version, .setMacro name value, .increaseRelease rightmost]
    ∃ p, tag limit "Version" = .ok p ∧ ∀ order, edits.Perm order →
      (f.afterAll limit order).lines = (f.afterAll limit edits).lines ∧
      (f.afterAll limit order).text = (f.afterAll limit edits).text ∧
      (f.afterAll limit order).lines = f.lines.map fun line =>
        if (p.evaluate (some line)).report.isHit then
          withValueIn (tagMatcher "Version") version line
        else if (bumpableField.evaluate (some line)).report.isHit then bumpedLine rightmost line
        else if (globalMacro limit name).isOk then withValueIn (macroMatcher name) value line
        else line := by
  intro f edits
  obtain ⟨p, accepted⟩ := version_accepted limit
  refine ⟨p, accepted, fun order perm => ?_⟩
  have given : LinesOfText f.lines := Text.linesOfText_lines text
  have first : Edit.RewritesIn limit (.setVersion version) _ _ := setVersion_rewrites clean
  have second : Edit.RewritesIn limit (.setMacro name value) _ _ := setMacro_rewrites cleanValue
  have third : Edit.RewritesIn limit (.increaseRelease rightmost) _ _ :=
    increaseRelease_rewrites rightmost
  have one : (Edit.setVersion version).Independent limit (.setMacro name value) :=
    ⟨_, _, _, _, first, second, fun line => version_not_global⟩
  have two : (Edit.setVersion version).Independent limit (.increaseRelease rightmost) :=
    ⟨_, _, _, _, first, third, fun line => version_not_bumpable⟩
  have three : (Edit.setMacro name value).Independent limit (.increaseRelease rightmost) :=
    ⟨_, _, _, _, second, third, fun line => global_not_bumpable⟩
  have same : f.afterAll limit edits = f.afterAll limit order := by
    refine afterAll_perm perm ?_ (by simp [edits, one, two, three]) given
    simp only [edits, List.forall_mem_cons]
    exact ⟨⟨_, _, first⟩, ⟨_, _, second⟩, ⟨_, _, third⟩, by simp⟩
  rw [← same]
  refine ⟨rfl, rfl, ?_⟩
  simp only [edits, afterAll, List.foldl_cons, List.foldl_nil, first.lines, second.lines,
    third.lines, List.map_map]
  refine List.map_congr_left fun line member => ?_
  have once := rewritten_once accepted clean second.toStaysIn rightmost (given.filled line member)
    (given.oneFeed line member)
  rw [Function.comp_apply, Function.comp_apply, once, written]
  cases (globalMacro limit name).isOk with
  | true => rfl
  | false => rfl

theorem edits_in_opposite_order :
    let f := ofText "a.spec" "version: 1\n%global rc a\r\nRelease: 2\n%define rel 3"
    let edits : List Edit := [.setVersion "%global rc 4", .setMacro "rc" "Release: 5",
      .increaseRelease true]
    let swapped : List Edit := [.increaseRelease true, .setMacro "rc" "Release: 5",
      .setVersion "%global rc 4"]
    '\n' ∉ ("%global rc 4" : Text) ∧ '\n' ∉ ("Release: 5" : Text) ∧ edits.Perm swapped ∧
      (f.afterAll .standard swapped).text = (f.afterAll .standard edits).text ∧
      (f.afterAll .standard swapped).lines =
        [("version: %global rc 4\n" : Text), ("%global rc Release: 5\r\n" : Text),
          ("Release: 2.1\n" : Text), ("%define rel 3.1" : Text)] := by
  intro f edits swapped
  have clean : '\n' ∉ ("%global rc 4" : Text) := by decide
  have cleanValue : '\n' ∉ ("Release: 5" : Text) := by decide
  have perm : edits.Perm swapped := (List.reverse_perm edits).symm
  obtain ⟨p, -, commute⟩ := independent_edits_commute .standard "a.spec"
    "version: 1\n%global rc a\r\nRelease: 2\n%define rel 3" "%global rc 4" "rc" "Release: 5"
    clean cleanValue true
  obtain ⟨lines, text, -⟩ := commute swapped perm
  obtain ⟨q, accepted⟩ := globalMacro_small .standard "rc" (by decide +kernel)
  refine ⟨clean, cleanValue, perm, text, lines.trans ?_⟩
  simp only [afterAll, List.foldl_cons, List.foldl_nil, after_setVersion,
    after_setMacro_ok accepted, after_increaseRelease]
  decide +kernel

end SpecFile

end LineRules
