import LineRules.Captures

/-!
Regular expressions as they are written, in a normal form, and their form for matching.

In the normal form nested sequences and nested alternatives are flat, neighbouring literals are one
literal, a choice between single characters or sets is a set, and factors that all alternatives
begin with stand once, before the choice between what follows them. The last rule decides which
match is preferred: `.*b|.*c` is `.*[bc]`, which takes as much as it can up to a `b` or a `c`.

For matching, counts are spelled out by copies, and every branching point gets a mark.
-/
namespace LineRules.Regex

/-- Sequences and alternatives lean to the right: neither starts with one of its own kind. -/
inductive Expr where
  | empty
  | literal (t : Text)
  | set (s : CharSet)
  | look (l : Look)
  | seq (a b : Expr)
  | alt (a b : Expr)
  | group (n : Nat) (a : Expr)
  | rep (least : Nat) (most : Option Nat) (greedy : Bool) (a : Expr)
deriving DecidableEq, Repr

namespace Expr

def nullable : Expr → Bool
  | .empty | .look _ => true
  | .literal _ | .set _ => false
  | .seq a b => a.nullable && b.nullable
  | .alt a b => a.nullable || b.nullable
  | .group _ a => a.nullable
  | .rep least _ _ a => least == 0 || a.nullable

def widthless : Expr → Bool
  | .empty | .look _ => true
  | .literal _ | .set _ => false
  | .seq a b | .alt a b => a.widthless && b.widthless
  | .group _ a | .rep _ _ _ a => a.widthless

def ofSet (s : CharSet) : Expr :=
  match s.ranges with
  | [r] => if r.lo = r.hi then .literal [r.lo] else .set s
  | _ => .set s

def factors : Expr → List Expr
  | .empty => []
  | .seq a b => a :: b.factors
  | e => [e]

def ofFactors : List Expr → Expr
  | [] => .empty
  | [e] => e
  | e :: es => .seq e (ofFactors es)

def consFactor : Expr → List Expr → List Expr
  | .literal s, .literal t :: es => .literal (s ++ t) :: es
  | e, es => e :: es

def sequence (es : List Expr) : Expr :=
  ofFactors ((es.flatMap factors).foldr consFactor [])

def branches : Expr → List Expr
  | .alt a b => a :: b.branches
  | e => [e]

def ofBranches : List Expr → Expr
  | [] => .set .empty
  | [e] => e
  | e :: es => .alt e (ofBranches es)

def char? : Expr → Option Char
  | .literal [c] => some c
  | _ => none

def set? : Expr → Option CharSet
  | .set s => some s
  | _ => none

def isSequence : Expr → Bool
  | .seq _ _ => true
  | _ => false

/-- A choice in which nothing is shared: a set if its branches are characters only, or sets only. -/
def choice (es : List Expr) : Expr :=
  let bs := es.flatMap branches
  match bs.mapM char?, bs.mapM set? with
  | some chars, _ => ofSet (.ofList chars)
  | _, some sets => ofSet (sets.foldl .union .empty)
  | _, _ => ofBranches bs

def commonStart (es fs : List Expr) : List Expr :=
  ((es.zip fs).takeWhile fun pair => pair.1 = pair.2).map (·.1)

def sharedFactors : List Expr → List Expr
  | [] => []
  | b :: bs =>
    if (b :: bs).all isSequence then bs.foldl (fun es b => commonStart es b.factors) b.factors
    else []

def alternatives (es : List Expr) : Expr :=
  let bs := es.flatMap branches
  let shared := sharedFactors bs
  if shared.isEmpty then choice bs
  else sequence (shared ++ [choice (bs.map fun b => sequence (b.factors.drop shared.length))])

/-- A repetition. What takes no character is matched once at most. -/
def repeated (least : Nat) (most : Option Nat) (greedy : Bool) (a : Expr) : Expr :=
  let least := if a.widthless then min least 1 else least
  let most := if a.widthless then some (min (most.getD 1) 1) else most
  if most = some 0 then .empty
  else if least = 1 ∧ most = some 1 then a
  else .rep least most greedy a

def freshMark : StateM Nat Regex :=
  modifyGet fun n => (.once n, n + 1)

def marked (r : Regex) : StateM Nat Regex := do
  return .seq (← freshMark) r

def optional (greedy : Bool) (a : Regex) : Regex :=
  if greedy then .alt a .empty else .alt .empty a

def anyTimes (greedy : Bool) (a : Regex) : StateM Nat Regex := do
  let mark ← freshMark
  return .seq mark (.star greedy (.seq a mark))

def upTo (greedy : Bool) (copy : StateM Nat Regex) : Nat → StateM Nat Regex
  | 0 => return .empty
  | n + 1 => do
    let a ← copy
    let more ← upTo greedy copy n
    marked (optional greedy (.seq a more))

def copies (copy last : StateM Nat Regex) : Nat → StateM Nat Regex
  | 0 => last
  | n + 1 => do return .seq (← copy) (← copies copy last n)

/-- The form for matching. If what is repeated can match nothing, any number of times is at most
once, and then any number of times more. -/
def toRegex : Expr → StateM Nat Regex
  | .empty => return .empty
  | .literal t => return .text t
  | .set s => return .set s
  | .look l => return .look l
  | .seq a b => do return .seq (← a.toRegex) (← b.toRegex)
  | .alt a b => do marked (.alt (← a.toRegex) (← b.toRegex))
  | .group n a => do return .group n (← a.toRegex)
  | .rep least (some most) greedy a =>
    copies a.toRegex (upTo greedy a.toRegex (most - least)) least
  | .rep 0 none greedy a => do
    let a' ← a.toRegex
    if a.nullable then marked (optional greedy (.seq a' (← anyTimes greedy a')))
    else anyTimes greedy a'
  | .rep (least + 1) none greedy a =>
    copies a.toRegex (do let a' ← a.toRegex; return .seq a' (← anyTimes greedy a')) least

/-- Readies an expression for searching. Names of groups that no longer occur are dropped. -/
def matcher (e : Expr) (names : List (Text × Nat)) : Matcher :=
  let body := (e.toRegex.run 0).1
  { body, names := names.filter fun name => body.groupNumbers.contains name.2 }

end Expr

end LineRules.Regex
