import LineRules.Spec.Edit
import LineRules.Store

/-!
A spec file in memory: its path and its lines. Every edit runs one program over all lines; nothing
reaches a store until the file is saved, which replaces the stored file as a whole.
-/
namespace LineRules

inductive SpecError where
  | pattern (e : PatternError)
  | io (e : FileError)
  | missingTag (name : Text)
  | replace (path : String) (e : FileError)
deriving DecidableEq, Repr

def SpecError.message : SpecError → Text
  | .pattern e => e.message
  | .io e => e.message
  | .missingTag name => ("no `" : Text) ++ name ++ ":` line found in spec file"
  | .replace path e => ("failed to replace `" : Text) ++ path.toList ++ "`: " ++ e.message.toList

structure SpecFile where
  path : String
  lines : List Line
deriving DecidableEq, Repr

namespace SpecFile

def ofText (path : String) (text : Text) : SpecFile :=
  ⟨path, text.lines⟩

def text (f : SpecFile) : Text :=
  f.lines.flatten

def ofBytes (path : String) (bytes : ByteArray) : Except SpecError SpecFile :=
  match String.fromUTF8? bytes with
  | some text => .ok (ofText path text.toList)
  | none => .error (.io .notText)

def bytes (f : SpecFile) : ByteArray :=
  (String.ofList f.text).toUTF8

def load (store : Store) (path : String) : Except SpecError SpecFile :=
  match store.read path with
  | .ok bytes => ofBytes path bytes
  | .error e => .error (.io e)

def save (f : SpecFile) (store : Store) : Except SpecError Store :=
  match store.replace f.path f.bytes with
  | .ok store => .ok store
  | .error (.create e) => .error (.io e)
  | .error (.move e) => .error (.replace f.path e)

def edit (f : SpecFile) (p : Program) (options : Options) : SpecFile × Metrics :=
  let done := (p.start options).exhaust f.lines
  ({ f with lines := done.output }, done.run.metrics)

def tryEdit (f : SpecFile) (made : Except PatternError Program) :
    Except SpecError (SpecFile × Metrics) := do
  return f.edit (← made.mapError .pattern) {}

def epochPart : Option Text → Text
  | some epoch => epoch ++ ":"
  | none => ""

section Literal

variable (limit : Regex.Limit) (f : SpecFile)

def literalTag (name : Text) : Except SpecError (Option Text) := do
  let p ← (Spec.tag limit name).mapError .pattern
  return f.lines.findSome? fun line => (Spec.capturedValue? p line).map Text.trimEnd

def requiredTag (name : Text) : Except SpecError Text := do
  match ← f.literalTag limit name with
  | some value => return value
  | none => throw (.missingTag name)

def version : Except SpecError Text :=
  f.requiredTag limit "Version"

def release : Except SpecError Text :=
  f.requiredTag limit "Release"

def evr : Except SpecError Text := do
  let epoch ← f.literalTag limit "Epoch"
  let version ← f.version limit
  let release ← f.release limit
  return epochPart epoch ++ version ++ "-" ++ release

end Literal

section Edits

variable (limit : Regex.Limit) (f : SpecFile)

def setTag (name value : Text) : Except SpecError (SpecFile × Metrics) :=
  f.tryEdit (Spec.replaceTag limit name value)

def setVersion (value : Text) : Except SpecError (SpecFile × Metrics) :=
  f.setTag limit "Version" value

def setMacro (name value : Text) : Except SpecError (SpecFile × Metrics) :=
  f.tryEdit (Spec.replaceMacro limit name value)

def setAlphatag (value : Text) : Except SpecError (SpecFile × Metrics) :=
  f.setMacro limit "alphatag" value

def increaseRelease (rightmost : Bool) : SpecFile × Metrics :=
  f.edit (Spec.bump rightmost) { rightmost }

def addChangelog (entry email : Text) (evr : Option Text) (date : Date) :
    Except SpecError (SpecFile × Metrics) := do
  let evr ← match evr with
    | some evr => pure evr
    | none => f.evr limit
  return f.edit (Spec.addChangelog ⟨evr, entry, email⟩ date) {}

/-- Bumps the release and then logs the change under the new one: the file after that, and the
counters of both steps. If logging fails, the release stays bumped. -/
def bumpRelease (entry email : Text) (rightmost : Bool) (date : Date) :
    SpecFile × Except SpecError (List Metrics) :=
  let bumped := f.increaseRelease rightmost
  match bumped.1.addChangelog limit entry email none date with
  | .ok logged => (logged.1, .ok [bumped.2, logged.2])
  | .error e => (bumped.1, .error e)

end Edits

inductive Edit where
  | setVersion (value : Text)
  | setTag (name value : Text)
  | setMacro (name value : Text)
  | setAlphatag (value : Text)
  | increaseRelease (rightmost : Bool)
  | addChangelog (entry email : Text) (evr : Option Text) (date : Date)
  | bumpRelease (entry email : Text) (rightmost : Bool) (date : Date)

/-- The file after an edit that gives another file or fails, and does nothing if it fails. -/
def orKept (f : SpecFile) :
    Except SpecError (SpecFile × Metrics) → SpecFile × Except SpecError (List Metrics)
  | .ok done => (done.1, .ok [done.2])
  | .error e => (f, .error e)

/-- Makes an edit: the file after it, and the counters of the programs that ran over it or the
reason why it failed. -/
def attempt (limit : Regex.Limit) (f : SpecFile) :
    Edit → SpecFile × Except SpecError (List Metrics)
  | .setVersion value => f.orKept (f.setVersion limit value)
  | .setTag name value => f.orKept (f.setTag limit name value)
  | .setMacro name value => f.orKept (f.setMacro limit name value)
  | .setAlphatag value => f.orKept (f.setAlphatag limit value)
  | .increaseRelease rightmost => f.orKept (.ok (f.increaseRelease rightmost))
  | .addChangelog entry email evr date => f.orKept (f.addChangelog limit entry email evr date)
  | .bumpRelease entry email rightmost date => f.bumpRelease limit entry email rightmost date

def anyMatch (p : Pattern) : List Line → Bool
  | [] => false
  | line :: rest =>
    let seen := p.evaluate (some line)
    seen.report.isHit || anyMatch seen.next rest

def contains (f : SpecFile) (p : Pattern) : Bool :=
  anyMatch p f.lines

end SpecFile

end LineRules
