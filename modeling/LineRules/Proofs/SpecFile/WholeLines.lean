import LineRules.Proofs.Spec.EntryLines
import LineRules.Proofs.Spec.RepeatedBump
import LineRules.Proofs.SpecFile.Edits
import LineRules.Proofs.Store

namespace LineRules

namespace SpecFile

open Spec

def Edit.texts : Edit → List Text
  | .setVersion value | .setTag _ value | .setMacro _ value | .setAlphatag value => [value]
  | .increaseRelease _ => []
  | .addChangelog entry email evr _ => entry :: email :: evr.toList
  | .bumpRelease entry email _ _ => [entry, email]

def Edit.Plain (e : Edit) : Prop :=
  ∀ t ∈ e.texts, '\n' ∉ t

instance (e : Edit) : Decidable e.Plain :=
  List.decidableBAll ('\n' ∉ ·) e.texts

/-- An edit adds an entry of the changelog to a file whose last line lacks a line feed and has some
property. -/
def LogsAtOpen (limit : Regex.Limit) (P : Line → Prop) (f : SpecFile) : Edit → Prop
  | .addChangelog entry email evr date =>
    EndsOpen P f.lines ∧ (f.addChangelog limit entry email evr date).isOk
  | .bumpRelease entry email rightmost date =>
    let bumped := (f.increaseRelease rightmost).1
    EndsOpen P bumped.lines ∧ (bumped.addChangelog limit entry email none date).isOk
  | _ => False

theorem LogsAtOpen.mono {limit : Regex.Limit} {P Q : Line → Prop} {f : SpecFile} {e : Edit}
    (implies : ∀ {line}, P line → Q line) (logs : f.LogsAtOpen limit P e) :
    f.LogsAtOpen limit Q e := by
  have weaken {lines : List Line} (isOpen : EndsOpen P lines) : EndsOpen Q lines := by
    obtain ⟨last, member, noFeed, holds⟩ := isOpen
    exact ⟨last, member, noFeed, implies holds⟩
  cases e with
  | addChangelog | bumpRelease => exact ⟨weaken logs.1, logs.2⟩
  | setVersion | setTag | setMacro | setAlphatag | increaseRelease => exact logs.elim

/-- No edit of a run adds an entry where the last line mentions the changelog and lacks a line
feed. -/
def Steady (limit : Regex.Limit) (f : SpecFile) : List Edit → Prop
  | [] => True
  | e :: edits => ¬f.LogsAtOpen limit Mentions e ∧ (f.after limit e).Steady limit edits

variable {limit : Regex.Limit} {f : SpecFile} {name value : Text} {e : Edit}

theorem readTag_plain (given : LinesOfText f.lines) (found : f.readTag name = some value) :
    '\n' ∉ value := by
  obtain ⟨line, member, gives⟩ := List.exists_of_findSome?_eq_some found
  obtain ⟨whole, read, rfl⟩ := Option.map_eq_some_iff.mp gives
  intro inside
  exact valueIn_plain (given.oneFeed line member) read ((Text.trimEnd_prefix whole).subset inside)

theorem epochText_plain (given : LinesOfText f.lines) : '\n' ∉ f.epochText := by
  rw [epochText]
  cases found : f.readTag "Epoch" with
  | none => simp [epochPart]
  | some epoch => simp [epochPart, readTag_plain given found]

theorem evr_plain (given : LinesOfText f.lines) (found : f.evr limit = .ok value) :
    '\n' ∉ value := by
  obtain ⟨v, r, version, release, rfl⟩ := evr_ok found
  have first := readTag_plain given (version_ok.mp version)
  have second := readTag_plain given (release_ok.mp release)
  simp [epochText_plain given, first, second]

theorem tag_keeps (given : LinesOfText f.lines) (plain : '\n' ∉ value) :
    LinesOfText (f.lines.map (withValueIn (tagMatcher name) value)) :=
  given.map fun _ filled oneFeed => withValueIn_tag_keeps filled oneFeed plain

theorem macro_keeps (given : LinesOfText f.lines) (plain : '\n' ∉ value) :
    LinesOfText (f.lines.map (withValueIn (macroMatcher name) value)) :=
  given.map fun _ filled oneFeed => withValueIn_macro_keeps filled oneFeed plain

theorem written_keeps {m : Matcher} (given : LinesOfText f.lines)
    (keeps : LinesOfText (f.lines.map (withValueIn m value))) (accepted : Bool) :
    LinesOfText (f.lines.map (written accepted m value)) := by
  cases accepted with
  | true => exact keeps
  | false =>
    rw [written, if_neg Bool.false_ne_true, List.map_id]
    exact given

theorem increaseRelease_keeps (given : LinesOfText f.lines) (rightmost : Bool) :
    LinesOfText (f.increaseRelease rightmost).1.lines := by
  rw [increaseRelease_lines]
  exact given.map fun line filled oneFeed => bumpedLine_keeps rightmost filled oneFeed

theorem addChangelog_keeps {entry email : Text} {evr : Option Text} {date : Date}
    (given : LinesOfText f.lines) (plain : (Edit.addChangelog entry email evr date).Plain)
    (steady : ¬f.LogsAtOpen limit Mentions (.addChangelog entry email evr date)) :
    LinesOfText (f.after limit (.addChangelog entry email evr date)).lines := by
  rcases after_addChangelog limit f entry email evr date with ⟨-, same⟩ | ⟨v, origin, adds, made⟩
  · rw [same]
    exact given
  · have evrPlain : '\n' ∉ v := by
      rcases origin with rfl | named
      · exact plain v (by simp [Edit.texts])
      · exact evr_plain given named
    rw [made]
    apply behind_keeps given
    · exact ⟨evrPlain, plain entry (by simp [Edit.texts]), plain email (by simp [Edit.texts])⟩
    · exact fun isOpen => steady ⟨isOpen, adds⟩

theorem addChangelog_breaks {entry email : Text} {evr : Option Text} {date : Date}
    (isOpen : f.LogsAtOpen limit Mentions (.addChangelog entry email evr date)) :
    ¬LinesOfText (f.after limit (.addChangelog entry email evr date)).lines := by
  obtain ⟨isOpen, adds⟩ := isOpen
  rcases after_addChangelog limit f entry email evr date with ⟨fails, -⟩ | ⟨v, -, -, made⟩
  · simp [fails] at adds
  · rw [made]
    exact behind_breaks isOpen

theorem after_keeps (given : LinesOfText f.lines) (plain : e.Plain)
    (steady : ¬f.LogsAtOpen limit Mentions e) : LinesOfText (f.after limit e).lines := by
  cases e with
  | setVersion value =>
    rw [after_setVersion]
    exact tag_keeps given (plain value (by simp [Edit.texts]))
  | setTag name value =>
    rw [after_setTag]
    exact written_keeps given (tag_keeps given (plain value (by simp [Edit.texts]))) _
  | setMacro name value =>
    rw [after_setMacro]
    exact written_keeps given (macro_keeps given (plain value (by simp [Edit.texts]))) _
  | setAlphatag value =>
    rw [after_setAlphatag]
    exact macro_keeps given (plain value (by simp [Edit.texts]))
  | increaseRelease rightmost => exact increaseRelease_keeps given rightmost
  | addChangelog entry email evr date => exact addChangelog_keeps given plain steady
  | bumpRelease entry email rightmost date =>
    rw [after_bumpRelease]
    exact addChangelog_keeps (increaseRelease_keeps given rightmost) plain steady

theorem after_breaks (isOpen : f.LogsAtOpen limit Mentions e) :
    ¬LinesOfText (f.after limit e).lines := by
  cases e with
  | addChangelog entry email evr date => exact addChangelog_breaks isOpen
  | bumpRelease entry email rightmost date =>
    rw [after_bumpRelease]
    exact addChangelog_breaks isOpen
  | setVersion | setTag | setMacro | setAlphatag | increaseRelease => exact isOpen.elim

theorem afterAll_keeps {edits : List Edit} (given : LinesOfText f.lines)
    (plain : ∀ e ∈ edits, e.Plain) (steady : f.Steady limit edits) :
    LinesOfText (f.afterAll limit edits).lines := by
  induction edits generalizing f with
  | nil => exact given
  | cons e edits ih =>
    obtain ⟨here, later⟩ := List.forall_mem_cons.mp plain
    exact ih (after_keeps given here steady.1) later steady.2

theorem Steady.cons {g : SpecFile} {edits : List Edit} (quiet : ¬f.LogsAtOpen limit Mentions e)
    (makes : f.after limit e = g) (later : g.Steady limit edits) : f.Steady limit (e :: edits) :=
  ⟨quiet, makes ▸ later⟩

theorem fromUTF8_bytes (f : SpecFile) :
    String.fromUTF8? f.bytes = some (String.ofList f.text) := by
  rw [bytes, String.toUTF8_eq_toByteArray, String.fromUTF8?,
    dif_pos (String.ofList f.text).isValidUTF8]
  rfl

theorem load_saved {f : SpecFile} {store after : Store} (saved : f.save store = .ok after) :
    load after f.path = .ok (ofText f.path f.text) := by
  have replaced : store.replace f.path f.bytes = .ok after := by
    unfold save at saved
    split at saved
    · rename_i written
      rw [written, Except.ok.inj saved]
    · simp at saved
    · simp at saved
  simp only [load, Store.read_replaced replaced, ofBytes, fromUTF8_bytes, String.toList_ofList]

/-- After any run of edits that adds no entry behind an open mention of the changelog, the lines of
the file are those of its text, and so of the file that is loaded after it was saved. They are no
longer so once an entry is added behind a marker of the changelog that is the last line and lacks a
line feed. -/
theorem edits_keep_lines (limit : Regex.Limit) (path : String) (text : Text) (edits : List Edit)
    (plain : ∀ e ∈ edits, e.Plain) (steady : (ofText path text).Steady limit edits) :
    let f := (ofText path text).afterAll limit edits
    LinesOfText f.lines ∧ (ofText path f.text).lines = f.lines ∧
      (∀ store stored, f.save store = .ok stored → load stored path = .ok f) ∧
      ∀ e, f.LogsAtOpen limit IsMarker e →
        ¬LinesOfText (f.after limit e).lines ∧
          (ofText path (f.after limit e).text).lines ≠ (f.after limit e).lines := by
  intro f
  have samePath : f.path = path := afterAll_path limit (ofText path text) edits
  have given : LinesOfText f.lines := afterAll_keeps (Text.linesOfText_lines text) plain steady
  have reopened : (ofText path f.text).lines = f.lines := (linesOfText_iff f.lines).mp given
  refine ⟨given, reopened, ?_, ?_⟩
  · intro store stored saved
    have loaded := load_saved saved
    rw [samePath] at loaded
    rw [loaded]
    exact congrArg _ (congrArg₂ SpecFile.mk samePath.symm reopened)
  · intro e isOpen
    have broken : ¬LinesOfText (f.after limit e).lines :=
      after_breaks (isOpen.mono mentions_of_marker)
    exact ⟨broken, fun same => broken ((linesOfText_iff _).mpr same)⟩

theorem version_set_in_mixed_lines :
    (ofText "a.spec" "Version: 1\nRelease: 3\r\n%global tag a\n%changelog\r\n- Old").after .standard
        (.setVersion "2") =
      ofText "a.spec" "Version: 2\nRelease: 3\r\n%global tag a\n%changelog\r\n- Old" := by
  rw [after_setVersion]
  decide +kernel

theorem macro_set_in_mixed_lines :
    (ofText "a.spec" "Version: 2\nRelease: 3\r\n%global tag a\n%changelog\r\n- Old").after .standard
        (.setMacro "tag" "rc") =
      ofText "a.spec" "Version: 2\nRelease: 3\r\n%global tag rc\n%changelog\r\n- Old" := by
  obtain ⟨p, accepted⟩ := globalMacro_small .standard "tag" (by decide +kernel)
  rw [after_setMacro_ok accepted]
  decide +kernel

theorem edits_keep_mixed_lines :
    let edits : List Edit :=
      [.setVersion "2", .setMacro "tag" "rc", .addChangelog "Fix" "dev" (some "2-3") ⟨2013, 2, 12⟩,
        .bumpRelease "" "dev" true ⟨2013, 2, 12⟩]
    let f := ofText "a.spec" "Version: 1\nRelease: 3\r\n%global tag a\n%changelog\r\n- Old"
    (∀ e ∈ edits, e.Plain) ∧ f.Steady .standard edits ∧
      LinesOfText (f.afterAll .standard edits).lines := by
  intro edits f
  have plain : ∀ e ∈ edits, e.Plain := by decide +kernel
  have steady : f.Steady .standard edits := by
    refine .cons id version_set_in_mixed_lines (.cons id macro_set_in_mixed_lines ?_)
    refine .cons (fun logs => absurd logs.1 ?_) rfl ⟨fun logs => absurd logs.1 ?_, trivial⟩
    · decide +kernel
    · decide +kernel
  exact ⟨plain, steady, (edits_keep_lines .standard "a.spec" _ edits plain steady).1⟩

/-- Behind a marker without a line feed an entry runs together when the file is read again. -/
theorem entry_behind_open_marker :
    let e : Edit := .addChangelog "Fix" "dev" (some "1-2") ⟨2013, 2, 12⟩
    let f := (ofText "a.spec" "%changelog").afterAll .standard [e]
    e.Plain ∧
      f.lines = [("%changelog" : Text), ("* Tue Feb 12 2013 dev - 1-2" : Text),
        ("- Fix" : Text), []] ∧
      (ofText "a.spec" f.text).lines = [("%changelog* Tue Feb 12 2013 dev - 1-2- Fix" : Text)] ∧
      ¬LinesOfText f.lines := by
  decide +kernel

end SpecFile

end LineRules
