import LineRules.Proofs.Outcome
import LineRules.Proofs.Spec.Bump
import LineRules.Proofs.Spec.Changelog
import LineRules.Proofs.Spec.Source
import LineRules.SpecFile

namespace LineRules.SpecFile

open Spec

variable {limit : Regex.Limit} {f : SpecFile} {p : Pattern} {why : PatternError}
  {name value : Text}

theorem edit_lines {a : Action} {g : Line → List Line} (edits : a.Edits g)
    (perLine : a.EveryLine) (f : SpecFile) (options : Options) :
    (f.edit (.ofList [a]) options).1.lines = f.lines.flatMap g :=
  Run.exhaust_edits edits perLine options f.lines

section Values

variable {made : Except PatternError Pattern} {m : Matcher}

theorem replaced_ok (finds : FindsAs made m) (accepted : made = .ok p) (f : SpecFile)
    (value : Text) : ∃ metrics, f.tryEdit (replaceIn made value) =
      .ok (⟨f.path, f.lines.map (withValueIn m value)⟩, metrics) := by
  obtain ⟨n, rfl, same⟩ := finds p accepted
  have lines := edit_lines (replaceValue_edits same value) (Action.everyLine_orPrint _ _) f {}
  rw [← List.map_eq_flatMap] at lines
  rw [accepted, ← lines]
  exact ⟨_, rfl⟩

theorem replaced_error (failed : made = .error why) (f : SpecFile) (value : Text) :
    f.tryEdit (replaceIn made value) = .error (.pattern why) := by
  rw [failed]
  rfl

def written (accepted : Bool) (m : Matcher) (value : Text) : Line → Line :=
  if accepted then withValueIn m value else id

theorem replaced_or_kept (finds : FindsAs made m) (f : SpecFile) (value : Text) :
    (f.orKept (f.tryEdit (replaceIn made value))).1 =
      ⟨f.path, f.lines.map (written made.isOk m value)⟩ := by
  cases outcome : made with
  | error why =>
    rw [replaced_error rfl f value]
    exact congrArg (SpecFile.mk f.path) (List.map_id f.lines).symm
  | ok p =>
    obtain ⟨metrics, edited⟩ := replaced_ok finds outcome f value
    rw [← outcome, edited, outcome]
    rfl

end Values

theorem increaseRelease_lines (f : SpecFile) (rightmost : Bool) :
    (f.increaseRelease rightmost).1.lines = f.lines.map (bumpedLine rightmost) :=
  bumpLines_map { rightmost } f.lines

section Literal

def readTag (f : SpecFile) (name : Text) : Option Text :=
  f.lines.findSome? fun line => (valueIn? name line).map Text.trimEnd

theorem literalTag_ok (made : tag limit name = .ok p) (f : SpecFile) :
    f.literalTag limit name = .ok (f.readTag name) := by
  rw [literalTag, made, readTag, ← capturedValue_tag made]
  rfl

theorem literalTag_error (failed : tag limit name = .error why) (f : SpecFile) :
    f.literalTag limit name = .error (.pattern why) := by
  rw [literalTag, failed]
  rfl

theorem literalTag_congr {g : SpecFile} (same : g.readTag name = f.readTag name) :
    g.literalTag limit name = f.literalTag limit name := by
  cases made : tag limit name with
  | error why => rw [literalTag_error made, literalTag_error made]
  | ok p => rw [literalTag_ok made, literalTag_ok made, same]

theorem requiredTag_ok (made : tag limit name = .ok p) :
    f.requiredTag limit name = .ok value ↔ f.readTag name = some value := by
  rw [requiredTag, literalTag_ok made]
  cases f.readTag name with
  | none => simp
  | some found => simp

theorem requiredTag_missing (made : tag limit name = .ok p) (none : f.readTag name = none) :
    f.requiredTag limit name = .error (.missingTag name) := by
  rw [requiredTag, literalTag_ok made, none]
  rfl

theorem requiredTag_error (made : tag limit name = .ok p) {e : SpecError}
    (error : f.requiredTag limit name = .error e) : e = .missingTag name := by
  cases found : f.readTag name with
  | none => exact Except.error.inj (error.symm.trans (requiredTag_missing made found))
  | some value => simp [(requiredTag_ok made).mpr found] at error

theorem version_ok : f.version limit = .ok value ↔ f.readTag "Version" = some value := by
  obtain ⟨p, made⟩ := version_accepted limit
  exact requiredTag_ok made

theorem release_ok : f.release limit = .ok value ↔ f.readTag "Release" = some value := by
  obtain ⟨p, made⟩ := release_accepted limit
  exact requiredTag_ok made

theorem version_missing (none : f.readTag "Version" = none) :
    f.version limit = .error (.missingTag "Version") := by
  obtain ⟨p, made⟩ := version_accepted limit
  exact requiredTag_missing made none

theorem release_missing (none : f.readTag "Release" = none) :
    f.release limit = .error (.missingTag "Release") := by
  obtain ⟨p, made⟩ := release_accepted limit
  exact requiredTag_missing made none

def epochText (f : SpecFile) : Text :=
  epochPart (f.readTag "Epoch")

theorem evr_bind (limit : Regex.Limit) (f : SpecFile) :
    f.evr limit = do
      let version ← f.version limit
      let release ← f.release limit
      return f.epochText ++ version ++ "-" ++ release := by
  obtain ⟨p, made⟩ := epoch_accepted limit
  rw [evr, literalTag_ok made]
  rfl

theorem evr_of_ok {version release : Text} (hasVersion : f.version limit = .ok version)
    (hasRelease : f.release limit = .ok release) :
    f.evr limit = .ok (f.epochText ++ version ++ "-" ++ release) := by
  rw [evr_bind, hasVersion, hasRelease]
  rfl

theorem evr_ok (found : f.evr limit = .ok value) :
    ∃ v r, f.version limit = .ok v ∧ f.release limit = .ok r ∧
      value = f.epochText ++ v ++ "-" ++ r := by
  rw [evr_bind] at found
  obtain ⟨v, version, found⟩ := bind_ok.mp found
  obtain ⟨r, release, found⟩ := bind_ok.mp found
  exact ⟨v, r, version, release, (Except.ok.inj found).symm⟩

/-- The literal release fails for the first of its two tags that is missing. -/
theorem evr_error {e : SpecError} (error : f.evr limit = .error e) :
    f.version limit = .error e ∧ e = .missingTag "Version" ∨
      f.release limit = .error e ∧ e = .missingTag "Release" := by
  rw [evr_bind] at error
  cases version : f.version limit with
  | error missing =>
    obtain ⟨p, made⟩ := version_accepted limit
    rw [version, error_bind] at error
    obtain rfl := Except.error.inj error
    exact .inl ⟨rfl, requiredTag_error made version⟩
  | ok v =>
    cases release : f.release limit with
    | error missing =>
      obtain ⟨p, made⟩ := release_accepted limit
      rw [version, release, ok_bind, error_bind] at error
      obtain rfl := Except.error.inj error
      exact .inr ⟨rfl, requiredTag_error made release⟩
    | ok r => simp [version, release] at error

end Literal

section Logging

theorem addChangelog_cases (limit : Regex.Limit) (f : SpecFile) (entry email : Text)
    (evr : Option Text) (date : Date) :
    (∃ e, f.evr limit = .error e ∧ f.addChangelog limit entry email evr date = .error e) ∨
      ∃ v, (evr = some v ∨ f.evr limit = .ok v) ∧
        f.addChangelog limit entry email evr date =
          .ok (f.edit (Spec.addChangelog ⟨v, entry, email⟩ date) {}) := by
  cases evr with
  | some v => exact .inr ⟨v, .inl rfl, rfl⟩
  | none =>
    cases named : f.evr limit with
    | error e => exact .inl ⟨e, rfl, by simp only [addChangelog, named]; rfl⟩
    | ok v => exact .inr ⟨v, .inr rfl, by simp only [addChangelog, named]; rfl⟩

theorem bumpRelease_cases (limit : Regex.Limit) (f : SpecFile) (entry email : Text)
    (rightmost : Bool) (date : Date) :
    let bumped := f.increaseRelease rightmost
    (∃ why, bumped.1.evr limit = .error why ∧
        f.bumpRelease limit entry email rightmost date = (bumped.1, .error why)) ∨
      ∃ e, bumped.1.evr limit = .ok e ∧
        let logged := bumped.1.edit (Spec.addChangelog ⟨e, entry, email⟩ date) {}
        f.bumpRelease limit entry email rightmost date = (logged.1, .ok [bumped.2, logged.2]) := by
  intro bumped
  rcases addChangelog_cases limit bumped.1 entry email none date with
    ⟨why, missing, fails⟩ | ⟨e, origin, adds⟩
  · refine .inl ⟨why, missing, ?_⟩
    simp only [bumpRelease, bumped] at fails ⊢
    rw [fails]
  · refine .inr ⟨e, origin.resolve_left (by simp), ?_⟩
    simp only [bumpRelease, bumped] at adds ⊢
    rw [adds]

theorem bumpRelease_missing {entry email : Text} {rightmost : Bool} {date : Date} {e : SpecError}
    (missing : (f.increaseRelease rightmost).1.evr limit = .error e) :
    f.bumpRelease limit entry email rightmost date =
      ((f.increaseRelease rightmost).1, .error e) := by
  rcases bumpRelease_cases limit f entry email rightmost date with
    ⟨why, same, fails⟩ | ⟨v, named, -⟩
  · obtain rfl := Except.error.inj (missing.symm.trans same)
    exact fails
  · simp [missing] at named

theorem logged_file (f : SpecFile) (entry : ChangelogEntry) (date : Date) :
    (f.edit (Spec.addChangelog entry date) {}).1 =
      ⟨f.path, f.lines.flatMap (entry.behind date)⟩ :=
  congrArg (SpecFile.mk f.path)
    (edit_lines (changelogAction_edits entry date) (Action.everyLine_orPrint _ _) f {})

end Logging

section After

theorem attempt_setTag_ok (made : tag limit name = .ok p) (f : SpecFile) (value : Text) :
    ∃ metrics, f.attempt limit (.setTag name value) =
      (⟨f.path, f.lines.map (withValueIn (tagMatcher name) value)⟩, .ok [metrics]) := by
  obtain ⟨metrics, edited⟩ := replaced_ok (tag_findsAs limit name) made f value
  exact ⟨metrics, congrArg f.orKept edited⟩

theorem attempt_setTag_error (failed : tag limit name = .error why) (f : SpecFile)
    (value : Text) : f.attempt limit (.setTag name value) = (f, .error (.pattern why)) :=
  congrArg f.orKept (replaced_error failed f value)

theorem attempt_setVersion (limit : Regex.Limit) (f : SpecFile) (value : Text) :
    ∃ metrics, f.attempt limit (.setVersion value) =
      (⟨f.path, f.lines.map (withValueIn (tagMatcher "Version") value)⟩, .ok [metrics]) := by
  obtain ⟨p, made⟩ := version_accepted limit
  exact attempt_setTag_ok made f value

/-- The file that an edit leaves, also if it fails. -/
def after (limit : Regex.Limit) (f : SpecFile) (e : Edit) : SpecFile :=
  (f.attempt limit e).1

def afterAll (limit : Regex.Limit) (f : SpecFile) (edits : List Edit) : SpecFile :=
  edits.foldl (after limit) f

theorem after_setTag (limit : Regex.Limit) (f : SpecFile) (name value : Text) :
    f.after limit (.setTag name value) =
      ⟨f.path, f.lines.map (written (tag limit name).isOk (tagMatcher name) value)⟩ :=
  replaced_or_kept (tag_findsAs limit name) f value

theorem after_setMacro (limit : Regex.Limit) (f : SpecFile) (name value : Text) :
    f.after limit (.setMacro name value) =
      ⟨f.path, f.lines.map (written (globalMacro limit name).isOk (macroMatcher name) value)⟩ :=
  replaced_or_kept (globalMacro_findsAs limit name) f value

theorem after_setMacro_ok (made : globalMacro limit name = .ok p) (f : SpecFile) (value : Text) :
    f.after limit (.setMacro name value) =
      ⟨f.path, f.lines.map (withValueIn (macroMatcher name) value)⟩ := by
  rw [after_setMacro, made]
  rfl

theorem after_setVersion (limit : Regex.Limit) (f : SpecFile) (value : Text) :
    f.after limit (.setVersion value) =
      ⟨f.path, f.lines.map (withValueIn (tagMatcher "Version") value)⟩ := by
  obtain ⟨metrics, sets⟩ := attempt_setVersion limit f value
  rw [after, sets]

theorem after_setAlphatag (limit : Regex.Limit) (f : SpecFile) (value : Text) :
    f.after limit (.setAlphatag value) =
      ⟨f.path, f.lines.map (withValueIn (macroMatcher "alphatag") value)⟩ := by
  obtain ⟨p, made⟩ := alphatag_accepted limit
  exact after_setMacro_ok made f value

theorem after_increaseRelease (limit : Regex.Limit) (f : SpecFile) (rightmost : Bool) :
    f.after limit (.increaseRelease rightmost) = ⟨f.path, f.lines.map (bumpedLine rightmost)⟩ :=
  congrArg (SpecFile.mk f.path) (increaseRelease_lines f rightmost)

theorem after_addChangelog (limit : Regex.Limit) (f : SpecFile) (entry email : Text)
    (evr : Option Text) (date : Date) :
    (f.addChangelog limit entry email evr date).isOk = false ∧
        f.after limit (.addChangelog entry email evr date) = f ∨
      ∃ v, (evr = some v ∨ f.evr limit = .ok v) ∧
        (f.addChangelog limit entry email evr date).isOk = true ∧
        f.after limit (.addChangelog entry email evr date) =
          ⟨f.path, f.lines.flatMap (ChangelogEntry.behind ⟨v, entry, email⟩ date)⟩ := by
  rcases addChangelog_cases limit f entry email evr date with ⟨e, -, fails⟩ | ⟨v, origin, adds⟩
  · exact .inl ⟨by rw [fails]; rfl, by simp only [after, attempt, fails, orKept]⟩
  · refine .inr ⟨v, origin, by rw [adds]; rfl, ?_⟩
    simp only [after, attempt, adds, orKept, logged_file]

theorem after_bumpRelease (limit : Regex.Limit) (f : SpecFile) (entry email : Text)
    (rightmost : Bool) (date : Date) :
    f.after limit (.bumpRelease entry email rightmost date) =
      (f.increaseRelease rightmost).1.after limit (.addChangelog entry email none date) := by
  simp only [after, attempt, bumpRelease]
  cases (f.increaseRelease rightmost).1.addChangelog limit entry email none date with
  | ok logged => rfl
  | error why => rfl

theorem after_path (limit : Regex.Limit) (f : SpecFile) (e : Edit) :
    (f.after limit e).path = f.path := by
  have logged (f : SpecFile) (entry email : Text) (evr : Option Text) (date : Date) :
      (f.after limit (.addChangelog entry email evr date)).path = f.path := by
    rcases after_addChangelog limit f entry email evr date with ⟨-, same⟩ | ⟨v, -, -, made⟩
    · rw [same]
    · rw [made]
  cases e with
  | addChangelog entry email evr date => exact logged f entry email evr date
  | bumpRelease entry email rightmost date =>
    rw [after_bumpRelease]
    exact logged _ entry email none date
  | setVersion => rw [after_setVersion]
  | setTag => rw [after_setTag]
  | setMacro => rw [after_setMacro]
  | setAlphatag => rw [after_setAlphatag]
  | increaseRelease => rfl

theorem afterAll_path (limit : Regex.Limit) (f : SpecFile) (edits : List Edit) :
    (f.afterAll limit edits).path = f.path := by
  induction edits generalizing f with
  | nil => rfl
  | cons e edits ih => exact (ih (f.after limit e)).trans (after_path limit f e)

end After

end LineRules.SpecFile
