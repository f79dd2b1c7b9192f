import LineRules.Regex.CharSet
import LineRules.Text
import Std.Data.HashSet

/-!
Regular expressions and how they match: by trying alternatives in their order of preference and
backing up on failure, so the first success is the preferred match. A match position carries the
bytes passed so far, the character before it, and the groups recorded on the way.

A mark is passed at most once at each position of a text. What failed behind a mark would fail
again, so a search with a mark at every branching point takes time proportional to the text, and a
loop whose body can match nothing does not go round for ever.
-/
namespace LineRules

inductive Look where
  | textStart
  | textEnd
  | lineStart
  | lineEnd
  | wordBoundary
  | notWordBoundary
  | wordStart
  | wordEnd
  | wordStartHalf
  | wordEndHalf
deriving DecidableEq, Repr

inductive Regex where
  | empty
  | set (s : CharSet)
  | look (l : Look)
  | seq (a b : Regex)
  | alt (a b : Regex)
  | group (n : Nat) (a : Regex)
  /-- Any number of times; as many as possible first if greedy, as few as possible first if not. -/
  | star (greedy : Bool) (a : Regex)
  /-- Fails if this mark was passed at this position before. -/
  | once (mark : Nat)

structure Span where
  start : Nat
  stop : Nat
deriving DecidableEq, Repr

structure Cursor where
  offset : Nat
  before : Option Char
  rest : Text
  groups : List (Nat × Span)

namespace Cursor

def start (t : Text) : Cursor :=
  ⟨0, none, t, []⟩

def advance (c : Cursor) : Cursor :=
  match c.rest with
  | [] => c
  | x :: rest => { c with offset := c.offset + x.utf8Size, before := some x, rest }

def record (c : Cursor) (n start : Nat) : Cursor :=
  { c with groups := (n, ⟨start, c.offset⟩) :: c.groups }

def wordBefore (c : Cursor) : Bool :=
  c.before.any CharSet.word.mem

def wordAfter (c : Cursor) : Bool :=
  c.rest.head?.any CharSet.word.mem

end Cursor

def Look.holds (c : Cursor) : Look → Bool
  | .textStart => c.before.isNone
  | .textEnd => c.rest.isEmpty
  | .lineStart => c.before.all (· == '\n')
  | .lineEnd => c.rest.head?.all (· == '\n')
  | .wordBoundary => c.wordBefore != c.wordAfter
  | .notWordBoundary => c.wordBefore == c.wordAfter
  | .wordStart => !c.wordBefore && c.wordAfter
  | .wordEnd => c.wordBefore && !c.wordAfter
  | .wordStartHalf => !c.wordBefore
  | .wordEndHalf => !c.wordAfter

namespace Regex

abbrev Marks := Std.HashSet (Nat × Nat)

/-- What matching leads to: the position where the match ends, or all marks passed in vain. -/
abbrev Outcome := Except Marks Cursor

abbrev Continuation := Cursor → Marks → Outcome

def finish : Continuation :=
  fun c _ => .ok c

def iterate (greedy : Bool) (body : Cursor → Marks → Continuation → Outcome)
    (next : Continuation) : (rounds : Nat) → Continuation
  | 0, c, passed => next c passed
  | rounds + 1, c, passed =>
    if greedy then
      (body c passed (iterate greedy body next rounds)).tryCatch fun passed => next c passed
    else
      (next c passed).tryCatch fun passed => body c passed (iterate greedy body next rounds)

/-- Matches at a position, then goes on with `next`: the first way to match for which `next`
succeeds. No loop goes through more than the given number of rounds. -/
def run (rounds : Nat) : Regex → Cursor → Marks → Continuation → Outcome
  | .empty, c, passed, next => next c passed
  | .set s, c, passed, next =>
    match c.rest with
    | [] => .error passed
    | x :: _ => if s.mem x then next c.advance passed else .error passed
  | .look l, c, passed, next => if l.holds c then next c passed else .error passed
  | .seq a b, c, passed, next =>
    a.run rounds c passed fun d passed => b.run rounds d passed next
  | .alt a b, c, passed, next =>
    (a.run rounds c passed next).tryCatch fun passed => b.run rounds c passed next
  | .group n a, c, passed, next =>
    a.run rounds c passed fun d passed => next (d.record n c.offset) passed
  | .star greedy a, c, passed, next => iterate greedy (a.run rounds) next rounds c passed
  | .once mark, c, passed, next =>
    if passed.contains (mark, c.offset) then .error passed
    else next c (passed.insert (mark, c.offset))

/-- Rounds enough for every loop in a text of this length: of two rounds one takes a character. -/
def roundsFor (length : Nat) : Nat :=
  2 * length + 2

def searchFrom (r : Regex) (rounds : Nat) : (tries : Nat) → Cursor → Marks → Option (Nat × Cursor)
  | 0, c, passed => (r.run rounds c passed finish).toOption.map (c.offset, ·)
  | tries + 1, c, passed =>
    match r.run rounds c passed finish with
    | .ok found => some (c.offset, found)
    | .error passed => searchFrom r rounds tries c.advance passed

/-- The leftmost match in a text: where it starts, and where it ends. Of the matches that start
there it is the preferred one. -/
def search (r : Regex) (t : Text) : Option (Nat × Cursor) :=
  r.searchFrom (roundsFor t.length) t.length (.start t) ∅

def text : Text → Regex
  | [] => .empty
  | c :: t => .seq (.set (.single c)) (text t)

def textAnyCase : Text → Regex
  | [] => .empty
  | c :: t => .seq (.set (.sameFold c)) (textAnyCase t)

def many (s : CharSet) : Regex :=
  .star true (.set s)

def many1 (s : CharSet) : Regex :=
  .seq (.set s) (many s)

def fewest (s : CharSet) : Regex :=
  .star false (.set s)

def all : List Regex → Regex
  | [] => .empty
  | [r] => r
  | r :: rs => .seq r (all rs)

def groupNumbers : Regex → List Nat
  | .seq a b | .alt a b => a.groupNumbers ++ b.groupNumbers
  | .group n a => n :: a.groupNumbers
  | .star _ a => a.groupNumbers
  | _ => []

end Regex

end LineRules
