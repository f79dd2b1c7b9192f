import LineRules.Cli.Arguments
import LineRules.Cli.Report
import LineRules.SpecFile

/-!
What an invocation does: it reads the spec file, edits it in memory, and only then replaces it or
prints it. Everything up to the replacement is computed first, so a failure leaves the file alone.
-/
namespace LineRules.Cli

structure Result where
  code : Nat
  stdout : Text
  stderr : Text
deriving DecidableEq, Repr

def Result.failed (stdout : Text) (e : SpecError) : Result :=
  ⟨1, stdout, "error: " ++ e.message ++ "\n"⟩

def versionText : Text :=
  "specawk 0.1.0\n"

def usageText : Text :=
  "Usage: specawk [OPTIONS] <COMMAND>\n"

def Stop.result : Stop → Result
  | .help => ⟨0, usageText, ""⟩
  | .version => ⟨0, versionText, ""⟩
  | .wrongUsage => ⟨2, "", usageText⟩

def infoRows : List (Text × Except SpecError Text) → Text → Result
  | [], shown => ⟨0, shown, ""⟩
  | (label, .ok value) :: rest, shown => infoRows rest (shown ++ label ++ value ++ "\n")
  | (_, .error e) :: _, shown => .failed shown e

def info (limit : Regex.Limit) (f : SpecFile) : Result :=
  infoRows [("version: ", f.version limit), ("release: ", f.release limit),
    ("evr:     ", f.evr limit)] []

def Command.perform (limit : Regex.Limit) (c : Command) (date : Date) (f : SpecFile) :
    Except SpecError (SpecFile × List (String × Metrics)) :=
  match c with
  | .bump rightmost entry email =>
    let bumped := f.increaseRelease rightmost
    match entry, email with
    | some entry, some email => do
      let logged ← bumped.1.addChangelog limit entry email none date
      return (logged.1, [("bump-release", bumped.2), ("changelog", logged.2)])
    | _, _ => return (bumped.1, [("bump-release", bumped.2)])
  | .setVersion version => do
    let done ← f.setVersion limit version
    return (done.1, [("set-version", done.2)])
  | .setTag tag value => do
    let done ← f.setTag limit tag value
    return (done.1, [("set-tag", done.2)])
  | .setMacro name value => do
    let done ← f.setMacro limit name value
    return (done.1, [("set-macro", done.2)])
  | .changelog entry email evr => do
    let done ← f.addChangelog limit entry email evr date
    return (done.1, [("changelog", done.2)])
  | .info => return (f, [])

inductive Plan where
  | show (result : Result)
  | save (f : SpecFile) (result : Result)

def Invocation.plan (limit : Regex.Limit) (i : Invocation) (date : Date) (f : SpecFile) : Plan :=
  match i.command with
  | .info => .show (info limit f)
  | command =>
    match command.perform limit date f with
    | .error e => .show (.failed [] e)
    | .ok (edited, steps) =>
      let report : Report := ⟨i.spec, steps, f.lines, edited.lines, !i.dryRun⟩
      let stderr := if i.report then report.render (i.color.getD false) else []
      if i.dryRun then .show ⟨0, edited.text, stderr⟩ else .save edited ⟨0, [], stderr⟩

def Invocation.run (limit : Regex.Limit) (i : Invocation) (date : Date) (store : Store) :
    Result × Store :=
  match SpecFile.load store i.spec with
  | .error e => (.failed [] e, store)
  | .ok f =>
    match i.plan limit date f with
    | .show result => (result, store)
    | .save edited result =>
      match edited.save store with
      | .ok store => (result, store)
      | .error e => (.failed [] e, store)

def runArguments (limit : Regex.Limit) (args : List String) (date : Date) (store : Store) :
    Result × Store :=
  match parse args with
  | .error why => (why.result, store)
  | .ok invocation => invocation.run limit date store

end LineRules.Cli
