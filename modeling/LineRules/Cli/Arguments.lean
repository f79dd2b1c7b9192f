import LineRules.Text

/-!
The command line: a command with its operands and options. Options may stand before or after
operands; a value that starts with a hyphen must come after `--`. The general options are accepted
before the command and after it.
-/
namespace LineRules.Cli

inductive Command where
  /-- Bump the release; log the change if both an entry and an address are given. -/
  | bump (rightmost : Bool) (entry email : Option Text)
  | setVersion (version : Text)
  | setTag (tag value : Text)
  | setMacro (name value : Text)
  | changelog (entry email : Text) (evr : Option Text)
  | info
deriving DecidableEq, Repr

structure Invocation where
  spec : String
  command : Command
  dryRun : Bool
  report : Bool
  color : Option Bool
deriving DecidableEq, Repr

inductive Stop where
  | help
  | version
  | wrongUsage
deriving DecidableEq, Repr

structure Grammar where
  operands : Nat
  switches : List String
  valued : List (String × Option Char)

structure Scan where
  operands : List String := []
  switches : List String := []
  values : List (String × String) := []

namespace Scan

def has (s : Scan) (name : String) : Bool :=
  s.switches.contains name

def value? (s : Scan) (name : String) : Option Text :=
  (s.values.lookup name).map String.toList

/-- Adds an operand. The first one is the path of a file, which cannot be empty. -/
def addOperand (g : Grammar) (s : Scan) (operand : String) : Except Stop Scan :=
  if s.operands.length < g.operands ∧ ¬ (s.operands.isEmpty ∧ operand.isEmpty) then
    .ok { s with operands := s.operands ++ [operand] }
  else .error .wrongUsage

def addSwitch (s : Scan) (name : String) : Except Stop Scan :=
  if s.has name then .error .wrongUsage else .ok { s with switches := name :: s.switches }

def addValue (s : Scan) (name value : String) : Except Stop Scan :=
  if (s.values.lookup name).isSome then .error .wrongUsage
  else .ok { s with values := (name, value) :: s.values }

end Scan

def generalSwitches : List String :=
  ["dry-run", "report", "color", "no-color"]

def splitLong (arg : Text) : String × Option String :=
  let name := arg.takeWhile (· ≠ '=')
  (String.ofList name, match arg.drop name.length with
    | _ :: value => some (String.ofList value)
    | [] => none)

inductive Step where
  | operand (value : String)
  | switch (name : String)
  | value (name value : String)
  | awaiting (name : String)
  | stop (why : Stop)

def Grammar.step (g : Grammar) (arg : String) : Step :=
  match arg.toList with
  | '-' :: '-' :: long =>
    match splitLong long with
    | ("help", none) => .stop .help
    | (name, none) =>
      if g.switches.contains name then .switch name
      else if (g.valued.lookup name).isSome then .awaiting name
      else .stop .wrongUsage
    | (name, some value) =>
      if (g.valued.lookup name).isSome then .value name value else .stop .wrongUsage
  | '-' :: short :: rest =>
    if short = 'h' then .stop .help
    else
      match g.valued.find? (·.2 = some short), rest with
      | some (name, _), [] => .awaiting name
      | some (name, _), '=' :: value => .value name (String.ofList value)
      | some (name, _), value => .value name (String.ofList value)
      | none, _ => .stop .wrongUsage
  | _ => .operand arg

def isPlain (arg : String) : Bool :=
  !arg.startsWith "-" || arg = "-"

def Grammar.scan (g : Grammar) (s : Scan) : List String → Except Stop Scan
  | [] => .ok s
  | "--" :: rest => rest.foldlM (Scan.addOperand g) s
  | arg :: rest =>
    match g.step arg with
    | .operand value => do scan g (← s.addOperand g value) rest
    | .switch name => do scan g (← s.addSwitch name) rest
    | .value name value => do scan g (← s.addValue name value) rest
    | .awaiting name =>
      match rest with
      | value :: rest =>
        if isPlain value then do scan g (← s.addValue name value) rest else .error .wrongUsage
      | [] => .error .wrongUsage
    | .stop why => .error why

def grammars : List (String × Grammar) :=
  let general := generalSwitches
  [("bump", ⟨1, "rightmost" :: general, [("entry", some 'e'), ("email", none)]⟩),
   ("set-version", ⟨2, general, []⟩),
   ("set-tag", ⟨3, general, []⟩),
   ("set-macro", ⟨3, general, []⟩),
   ("changelog", ⟨1, general, [("entry", some 'e'), ("email", none), ("evr", none)]⟩),
   ("info", ⟨1, general, []⟩)]

def commandOf? (name : String) (s : Scan) : Option (String × Command) :=
  match name, s.operands with
  | "bump", [spec] =>
    if (s.value? "entry").isSome && (s.value? "email").isNone then none
    else some (spec, .bump (s.has "rightmost") (s.value? "entry") (s.value? "email"))
  | "set-version", [spec, version] => some (spec, .setVersion version.toList)
  | "set-tag", [spec, tag, value] => some (spec, .setTag tag.toList value.toList)
  | "set-macro", [spec, name, value] => some (spec, .setMacro name.toList value.toList)
  | "changelog", [spec] => do
    return (spec, .changelog (← s.value? "entry") (← s.value? "email") (s.value? "evr"))
  | "info", [spec] => some (spec, .info)
  | _, _ => none

def Scan.contradicts (s : Scan) : Bool :=
  s.has "color" && s.has "no-color"

def invocation? (name : String) (outer inner : Scan) : Option Invocation := do
  let (spec, command) ← commandOf? name inner
  if outer.contradicts || inner.contradicts then none
  let given := fun switch => outer.has switch || inner.has switch
  return {
    spec, command
    dryRun := given "dry-run"
    report := given "report"
    color := if given "color" then some true else if given "no-color" then some false else none }

def helpFor : List String → Stop
  | [] => .help
  | [name] => if name = "help" ∨ (grammars.lookup name).isSome then .help else .wrongUsage
  | _ => .wrongUsage

def parseFrom (outer : Scan) : List String → Except Stop Invocation
  | [] => .error .wrongUsage
  | arg :: rest =>
    if arg = "--version" ∨ arg.startsWith "-V" then .error .version
    else if arg = "help" then .error (helpFor rest)
    else
      match (Grammar.mk 0 generalSwitches []).step arg with
      | .switch name => do parseFrom (← outer.addSwitch name) rest
      | .operand name =>
        match grammars.lookup name with
        | none => .error .wrongUsage
        | some g => do
          match invocation? name outer (← g.scan {} rest) with
          | some invocation => return invocation
          | none => throw .wrongUsage
      | .stop why => .error why
      | _ => .error .wrongUsage

def parse (args : List String) : Except Stop Invocation :=
  parseFrom {} args

end LineRules.Cli
