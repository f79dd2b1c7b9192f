import LineRules.Cli.Session
import Std.Time.Format

namespace LineRules.Main

open Cli

def causeOf (e : IO.Error) : FileError :=
  match e with
  | .noFileOrDirectory .. => .notFound
  | .alreadyExists .. => .alreadyExists
  | .resourceBusy .. => .busy
  | .inappropriateType _ code _ =>
    if code = 21 then .isAFolder else if code = 20 then .notAFolder else .other (toString e)
  | _ => .other (toString e)

def present (result : Result) : IO UInt32 := do
  (← IO.getStdout).putStr (String.ofList result.stdout)
  (← IO.getStderr).putStr (String.ofList result.stderr)
  return result.code.toUInt32

def replaceFile (f : SpecFile) : IO (Except SpecError Unit) := do
  let folder := Store.parent f.path
  let moment ← IO.monoNanosNow
  let draft := (if folder.isEmpty then "." else folder) ++ "/.draft" ++ toString moment
  try
    IO.FS.writeBinFile draft f.bytes
  catch e =>
    return .error (.io (causeOf e))
  try
    IO.FS.rename draft f.path
    return .ok ()
  catch e =>
    IO.FS.removeFile draft
    return .error (.replace f.path (causeOf e))

def today : IO Date := do
  let day ← Std.Time.PlainDate.now
  return ⟨day.year.toInt, day.month.val.toNat, day.day.val.toNat⟩

def carryOut (i : Invocation) : IO UInt32 := do
  let bytes ←
    try
      IO.FS.readBinFile i.spec
    catch e =>
      return ← present (.failed [] (.io (causeOf e)))
  match SpecFile.ofBytes i.spec bytes with
  | .error e => present (.failed [] e)
  | .ok f =>
    let colored := i.color.getD (← (← IO.getStderr).isTty)
    match ({ i with color := some colored }).plan .standard (← today) f with
    | .show result => present result
    | .save edited result =>
      match ← replaceFile edited with
      | .ok () => present result
      | .error e => present (.failed [] e)

end LineRules.Main

def main (args : List String) : IO UInt32 :=
  match LineRules.Cli.parse args with
  | .error why => LineRules.Main.present why.result
  | .ok invocation => LineRules.Main.carryOut invocation
