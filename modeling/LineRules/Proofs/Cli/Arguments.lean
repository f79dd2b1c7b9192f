import LineRules.Cli.Arguments
import LineRules.Proofs.Outcome

namespace LineRules.Cli

variable {outer dry inner : Scan} {i : Invocation} {name arg : String} {args rest : List String}

def DryToo (outer dry : Scan) : Prop :=
  ∀ name, dry.has name = (outer.has name || name == "dry-run")

def Scan.withSwitch (s : Scan) (name : String) : Scan :=
  { s with switches := name :: s.switches }

theorem has_withSwitch (s : Scan) (name other : String) :
    (s.withSwitch name).has other = (other == name || s.has other) :=
  List.contains_cons

theorem DryToo.withSwitch (dryToo : DryToo outer dry) (name : String) :
    DryToo (outer.withSwitch name) (dry.withSwitch name) := by
  intro other
  rw [has_withSwitch, has_withSwitch, dryToo other, Bool.or_assoc]

end LineRules.Cli
