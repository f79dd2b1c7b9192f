import LineRules.Captures

namespace LineRules

inductive Side where
  | left
  | right
deriving DecidableEq, Repr

inductive Match where
  | flag (hit : Bool)
  | captures (found : Captures)
  | tagged (side : Side) (inner : Match)
deriving DecidableEq, Repr

namespace Match

abbrev hit : Match := .flag true

abbrev miss : Match := .flag false

def isHit : Match → Bool
  | .flag hit => hit
  | .captures _ => true
  | .tagged _ _ => true

def captures? : Match → Option Captures
  | .captures found => some found
  | _ => none

end Match

end LineRules
