import LineRules.Regex.Expr

/-!
How large an expression may be. The compiled form of an expression takes memory for every character
and every repetition, and an expression that would take too much is refused.
-/
namespace LineRules

/-- A path through the bytes of each range, and a start and an end that all of them share. -/
def CharSet.memory (s : CharSet) : Nat :=
  s.ranges.foldr (fun r rest => 32 * r.hi.utf8Size + rest) 64

namespace Regex

/-- The bytes that the compiled form of an expression takes, roughly. -/
def Expr.memory : Expr → Nat
  | .empty => 0
  | .literal t => 32 * Text.byteLength t
  | .set s => s.memory
  | .look _ => 32
  | .seq a b => a.memory + b.memory
  | .alt a b => a.memory + b.memory + 36
  | .group _ a => a.memory + 64
  | .rep least most _ a => most.getD (max least 1) * (a.memory + 36)

def smallMemory : Nat := 4096

def maxMemory : Nat := 10485760

/-- Which expressions are refused as too large. The exact size of a compiled expression depends on
how it is compiled, so this is left open; but no small expression is refused. -/
structure Limit where
  refuses : Expr → Bool
  small : ∀ e, e.memory ≤ smallMemory → refuses e = false

def Limit.standard : Limit where
  refuses e := maxMemory < e.memory
  small e le := by
    have within : e.memory ≤ maxMemory := Nat.le_trans le (by decide)
    simpa using within

end Regex

end LineRules
