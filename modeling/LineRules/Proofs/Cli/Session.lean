import LineRules.Cli.Session
import LineRules.Proofs.Cli.Arguments
import LineRules.Proofs.SpecFile.WholeLines
import LineRules.Proofs.Store.Draft

/-!
Runs and the files they leave. A run plans everything before it touches a file, so it either shows a
result or replaces one file; the dry run plans the same and shows what would be in the file.
-/
namespace LineRules

def SpecError.ofReplace (path : String) : Store.ReplaceError → SpecError
  | .create e => .io e
  | .move e => .replace path e

namespace Cli

variable {limit : Regex.Limit} {i : Invocation} {date : Date} {f edited : SpecFile} {store : Store}
  {replace : Store → String → ByteArray → Except Store.ReplaceError Unit × Store}

theorem edited_of_ok {made : Except SpecError (SpecFile × Metrics)} {done : SpecFile × Metrics}
    {label : String} {steps : List (String × Metrics)} (ok : made = .ok done)
    (same : (return (done.1, [(label, done.2)]) : Except SpecError _) = .ok (edited, steps)) :
    edited = (f.orKept made).1 := by
  rw [ok]
  exact (congrArg Prod.fst (Except.ok.inj same)).symm

theorem perform_after {command : Command} {steps : List (String × Metrics)}
    (other : command ≠ .info) (performed : command.perform limit date f = .ok (edited, steps)) :
    ∃ e : SpecFile.Edit, edited = f.after limit e := by
  cases command with
  | bump rightmost entry email =>
    simp only [Command.perform] at performed
    split at performed
    · rename_i entry email
      obtain ⟨done, added, same⟩ := bind_ok.mp performed
      refine ⟨.bumpRelease entry email rightmost date, ?_⟩
      simp only [SpecFile.after, SpecFile.attempt, SpecFile.bumpRelease, added]
      exact (congrArg Prod.fst (Except.ok.inj same)).symm
    · cases performed
      exact ⟨.increaseRelease rightmost, rfl⟩
  | changelog entry email evr =>
    obtain ⟨done, added, same⟩ := bind_ok.mp performed
    exact ⟨.addChangelog entry email evr date, edited_of_ok added same⟩
  | setVersion version =>
    obtain ⟨done, set, same⟩ := bind_ok.mp performed
    exact ⟨.setVersion version, edited_of_ok set same⟩
  | setTag name value =>
    obtain ⟨done, set, same⟩ := bind_ok.mp performed
    exact ⟨.setTag name value, edited_of_ok set same⟩
  | setMacro name value =>
    obtain ⟨done, set, same⟩ := bind_ok.mp performed
    exact ⟨.setMacro name value, edited_of_ok set same⟩
  | info => exact absurd rfl other

theorem info_code (limit : Regex.Limit) (f : SpecFile) :
    (info limit f).code = 0 ∨ (info limit f).code = 1 := by
  have rows (rows : List (Text × Except SpecError Text)) (shown : Text) :
      (infoRows rows shown).code = 0 ∨ (infoRows rows shown).code = 1 := by
    induction rows generalizing shown with
    | nil => exact .inl rfl
    | cons row rest ih =>
      obtain ⟨label, value⟩ := row
      cases value with
      | error e => exact .inr rfl
      | ok value => exact ih _
  exact rows _ _

def Invocation.planFor (i : Invocation) (f : SpecFile) :
    Except SpecError (SpecFile × List (String × Metrics)) → Plan
  | .error e => .show (.failed [] e)
  | .ok done =>
    let report : Report := ⟨i.spec, done.2, f.lines, done.1.lines, !i.dryRun⟩
    let stderr := if i.report then report.render (i.color.getD false) else []
    if i.dryRun then .show ⟨0, done.1.text, stderr⟩ else .save done.1 ⟨0, [], stderr⟩

theorem plan_edit (other : i.command ≠ .info) :
    i.plan limit date f = i.planFor f (i.command.perform limit date f) := by
  unfold Invocation.plan
  split
  · contradiction
  · cases i.command.perform limit date f with
    | error e => rfl
    | ok done => rfl

theorem planFor_dry (dry : i.dryRun = true) (f : SpecFile)
    (done : SpecFile × List (String × Metrics)) :
    ∃ stderr, i.planFor f (.ok done) = .show ⟨0, done.1.text, stderr⟩ := by
  simp only [Invocation.planFor, dry, if_true]
  exact ⟨_, rfl⟩

theorem planFor_wet (wet : i.dryRun = false) (f : SpecFile)
    (done : SpecFile × List (String × Metrics)) :
    ∃ stderr, i.planFor f (.ok done) = .save done.1 ⟨0, [], stderr⟩ := by
  simp only [Invocation.planFor, wet, Bool.false_eq_true, if_false]
  exact ⟨_, rfl⟩

/-- What is planned: to show a result, or to save a file that the dry run would show. -/
theorem plan_cases (limit : Regex.Limit) (i : Invocation) (date : Date) (f : SpecFile) :
    (∃ result, i.plan limit date f = .show result ∧
        (result.code = 1 ∨ result.code = 0 ∧ (i.dryRun = true ∨ i.command = .info))) ∨
      ∃ edited result, i.plan limit date f = .save edited result ∧ result.code = 0 ∧
        i.dryRun = false ∧ i.command ≠ .info ∧ edited.path = f.path ∧
        ∃ stderr, { i with dryRun := true }.plan limit date f = .show ⟨0, edited.text, stderr⟩ := by
  by_cases isInfo : i.command = .info
  · refine .inl ⟨info limit f, by simp [Invocation.plan, isInfo], ?_⟩
    exact (info_code limit f).symm.imp_right fun shown => ⟨shown, .inr isInfo⟩
  · rw [plan_edit isInfo, plan_edit (i := { i with dryRun := true }) isInfo]
    cases performed : i.command.perform limit date f with
    | error e => exact .inl ⟨_, rfl, .inl rfl⟩
    | ok done =>
      obtain ⟨edited, steps⟩ := done
      obtain ⟨e, rfl⟩ := perform_after isInfo performed
      cases dry : i.dryRun with
      | true =>
        obtain ⟨stderr, shown⟩ := planFor_dry dry f (f.after limit e, steps)
        exact .inl ⟨_, shown, .inr ⟨rfl, .inl rfl⟩⟩
      | false =>
        obtain ⟨stderr, saved⟩ := planFor_wet dry f (f.after limit e, steps)
        exact .inr ⟨_, _, saved, rfl, rfl, isInfo, SpecFile.after_path limit f e,
          planFor_dry rfl f _⟩

def Plan.carryOut (replace : Store → String → ByteArray → Except Store.ReplaceError Unit × Store)
    (store : Store) : Plan → Result × Store
  | .show result => (result, store)
  | .save f result =>
    match replace store f.path f.bytes with
    | (.ok (), after) => (result, after)
    | (.error e, after) => (.failed [] (.ofReplace f.path e), after)

def Invocation.runWith (limit : Regex.Limit)
    (replace : Store → String → ByteArray → Except Store.ReplaceError Unit × Store)
    (i : Invocation) (date : Date) (store : Store) : Result × Store :=
  match SpecFile.load store i.spec with
  | .error e => (.failed [] e, store)
  | .ok f => (i.plan limit date f).carryOut replace store

theorem run_atOnce (limit : Regex.Limit) (i : Invocation) (date : Date) (store : Store) :
    i.run limit date store = i.runWith limit Store.replaceAtOnce date store := by
  unfold Invocation.run Invocation.runWith
  cases SpecFile.load store i.spec with
  | error e => rfl
  | ok f =>
    dsimp only
    cases i.plan limit date f with
    | «show» result => rfl
    | save edited result =>
      simp only [Plan.carryOut, SpecFile.save, Store.replaceAtOnce]
      cases store.replace edited.path edited.bytes with
      | ok after => rfl
      | error e => cases e <;> rfl

def Invocation.runBy (limit : Regex.Limit) (disk : Store.Disk) (i : Invocation) (date : Date)
    (store : Store) : Result × Store :=
  i.runWith limit (Store.replaceBy disk) date store

def Result.bytes (r : Result) : ByteArray :=
  (String.ofList r.stdout).toUTF8

theorem load_ok (loaded : SpecFile.load store i.spec = .ok f) :
    f.path = i.spec ∧ ∃ old, store.read i.spec = .ok old := by
  unfold SpecFile.load at loaded
  cases reads : store.read i.spec with
  | error e => simp [reads] at loaded
  | ok old =>
    simp only [reads, SpecFile.ofBytes] at loaded
    split at loaded
    · obtain rfl := Except.ok.inj loaded
      exact ⟨rfl, old, rfl⟩
    · simp at loaded

/-- With a disk that refuses nothing, a run in stages comes to the run. -/
theorem runBy_calm {draft : String} (fresh : (Store.Disk.calm draft).Fresh store i.spec)
    (limit : Regex.Limit) (date : Date) :
    (i.runBy limit (.calm draft) date store).1 = (i.run limit date store).1 ∧
      (i.run limit date store).2.Same (i.runBy limit (.calm draft) date store).2 := by
  rw [run_atOnce]
  unfold Invocation.runBy Invocation.runWith
  cases loaded : SpecFile.load store i.spec with
  | error e => exact ⟨rfl, fun _ => rfl⟩
  | ok f =>
    obtain ⟨samePath, old, reads⟩ := load_ok loaded
    rcases plan_cases limit i date f with
      ⟨result, planned, -⟩ | ⟨edited, result, planned, -, -, -, path, -⟩
    · simp only [planned, Plan.carryOut]
      exact ⟨trivial, fun _ => rfl⟩
    · obtain ⟨outcome, same⟩ := Store.replaceBy_calm fresh reads edited.bytes
      simp only [planned, Plan.carryOut, path, samePath]
      generalize Store.replaceBy _ store i.spec edited.bytes = staged at outcome same ⊢
      generalize store.replaceAtOnce i.spec edited.bytes = whole at outcome same ⊢
      obtain ⟨ended, after⟩ := staged
      obtain ⟨_, _⟩ := whole
      obtain rfl : ended = _ := outcome
      cases ended with
      | ok => exact ⟨rfl, same⟩
      | error e => exact ⟨rfl, same⟩

end Cli

end LineRules
