import LineRules.Regex.CharSet
import LineRules.Regex.Basic
import LineRules.Decimal

/-!
Escapes and bracketed sets in the written form of a regular expression. Every reader takes the text
that is left and returns what it read with the rest, or nothing if the text is malformed.
-/
namespace LineRules.Regex

inductive Atom where
  | char (c : Char)
  | set (s : CharSet)
  | look (l : Look)

def hexValue? (c : Char) : Option Nat :=
  if CharSet.asciiDigit.mem c then some (c.toNat - '0'.toNat)
  else if (CharSet.range 'a' 'f').mem c then some (c.toNat - 'a'.toNat + 10)
  else if (CharSet.range 'A' 'F').mem c then some (c.toNat - 'A'.toNat + 10)
  else none

def hexNumber? (digits : Text) : Option Nat :=
  digits.foldlM (fun n c => (hexValue? c).map (16 * n + ·)) 0

def charOfCode? (code : Nat) : Option Char :=
  if code.isValidChar then some (Char.ofNat code) else none

def readHex (width : Nat) (t : Text) : Option (Char × Text) := do
  match t with
  | '\x7b' :: t =>
    let digits := t.takeWhile (· ≠ '\x7d')
    if digits.isEmpty || digits.length == t.length then none
    let c ← charOfCode? (← hexNumber? digits)
    return (c, t.drop (digits.length + 1))
  | _ =>
    let digits := t.take width
    if digits.length < width then none
    let c ← charOfCode? (← hexNumber? digits)
    return (c, t.drop width)

/-- Characters that an escape only makes literal: ASCII, but neither a letter nor a digit nor an
angle bracket. -/
def isPlainEscape (c : Char) : Bool :=
  c.toNat < 128 && !c.isAlphanum && c != '<' && c != '>'

def namedBoundary? (name : Text) : Option Look :=
  [("start", Look.wordStart), ("end", .wordEnd), ("start-half", .wordStartHalf),
    ("end-half", .wordEndHalf)].findSome? fun (known, l) =>
      if name = known.toList then some l else none

/-- What follows the escape of the word boundary: a name in braces, if the brace does not rather
open a counted repetition. -/
def readBoundary (t : Text) : Option (Look × Text) :=
  match t with
  | '\x7b' :: inner =>
    let name := inner.takeWhile fun c => c.isAlpha || c == '-'
    match name, inner.drop name.length with
    | [], [] => none
    | [], _ => some (.wordBoundary, t)
    | _, '\x7d' :: rest => (namedBoundary? name).map (·, rest)
    | _, _ => none
  | _ => some (.wordBoundary, t)

def readEscape : Text → Option (Atom × Text)
  | [] => none
  | c :: rest =>
    match c with
    | 'x' => (readHex 2 rest).map fun (c, rest) => (.char c, rest)
    | 'u' => (readHex 4 rest).map fun (c, rest) => (.char c, rest)
    | 'U' => (readHex 8 rest).map fun (c, rest) => (.char c, rest)
    | 'd' => some (.set .digit, rest)
    | 'D' => some (.set CharSet.digit.compl, rest)
    | 's' => some (.set .space, rest)
    | 'S' => some (.set CharSet.space.compl, rest)
    | 'w' => some (.set .word, rest)
    | 'W' => some (.set CharSet.word.compl, rest)
    | 'a' => some (.char '\x07', rest)
    | 'f' => some (.char '\x0c', rest)
    | 't' => some (.char '\t', rest)
    | 'n' => some (.char '\n', rest)
    | 'r' => some (.char '\r', rest)
    | 'v' => some (.char '\x0b', rest)
    | 'A' => some (.look .textStart, rest)
    | 'z' => some (.look .textEnd, rest)
    | 'b' => (readBoundary rest).map fun (l, rest) => (.look l, rest)
    | 'B' => some (.look .notWordBoundary, rest)
    | '<' => some (.look .wordStart, rest)
    | '>' => some (.look .wordEnd, rest)
    | _ => if isPlainEscape c then some (.char c, rest) else none

def asciiClass? (name : String) : Option CharSet :=
  let lower := CharSet.range 'a' 'z'
  let upper := CharSet.range 'A' 'Z'
  let alpha := CharSet.union lower upper
  let alnum := CharSet.union .asciiDigit alpha
  match name with
  | "alnum" => some alnum
  | "alpha" => some alpha
  | "ascii" => some (.range '\x00' '\x7f')
  | "blank" => some .blank
  | "cntrl" => some (.union (.range '\x00' '\x1f') (.single '\x7f'))
  | "digit" => some .asciiDigit
  | "graph" => some (.range '!' '~')
  | "lower" => some lower
  | "print" => some (.range ' ' '~')
  | "punct" => some (.diff (.range '!' '~') alnum)
  | "space" => some (.union (.range '\t' '\r') (.single ' '))
  | "upper" => some upper
  | "word" => some (.union alnum (.single '_'))
  | "xdigit" => some (.union .asciiDigit (.union (.range 'a' 'f') (.range 'A' 'F')))
  | _ => none

/-- The set that is meant by another one: its case variants are added if case is not told apart, and
only then it is negated. -/
def meant (anyCase negated : Bool) (s : CharSet) : CharSet :=
  let s := if anyCase then s.anyCase else s
  if negated then s.compl else s

def readAsciiClass (anyCase : Bool) : Text → Option (CharSet × Text)
  | ':' :: rest =>
    let (negated, rest) := match rest with
      | '^' :: rest => (true, rest)
      | _ => (false, rest)
    let name := rest.takeWhile (· ≠ ':')
    match rest.drop name.length, asciiClass? (String.ofList name) with
    | ':' :: ']' :: rest, some s => some (meant anyCase negated s, rest)
    | _, _ => none
  | _ => none

inductive SetOperation where
  | inter
  | diff
  | symmDiff

structure SetPart where
  set : CharSet
  depth : Nat

namespace SetPart

def union (items : List SetPart) : SetPart :=
  ⟨.ofRanges (items.flatMap (·.set.ranges)),
    (items.map (·.depth)).foldl max 0 + if items.length ≤ 1 then 0 else 1⟩

def operate (anyCase : Bool) (operation : SetOperation) (left right : SetPart) : SetPart :=
  let s := meant anyCase false left.set
  let t := meant anyCase false right.set
  let set := match operation with
    | .inter => s.inter t
    | .diff => s.diff t
    | .symmDiff => s.symmDiff t
  ⟨set, max left.depth right.depth + 1⟩

end SetPart

structure Bracket where
  negated : Bool
  left : Option (SetPart × SetOperation)
  items : List SetPart

namespace Bracket

def combined (anyCase : Bool) (b : Bracket) : SetPart :=
  match b.left with
  | none => .union b.items
  | some (left, operation) => .operate anyCase operation left (.union b.items)

def closed (anyCase : Bool) (b : Bracket) : SetPart :=
  let part := b.combined anyCase
  ⟨meant anyCase b.negated part.set, part.depth + 1⟩

def insert (b : Bracket) (item : SetPart) : Bracket :=
  { b with items := item :: b.items }

def operate (anyCase : Bool) (b : Bracket) (operation : SetOperation) : Bracket :=
  { b with left := some (b.combined anyCase, operation), items := [] }

/-- Reads the start of a bracketed set, after its bracket: the sign of negation, then hyphens, or a
closing bracket, that stand for themselves. -/
def opened (t : Text) : Bracket × Text :=
  let (negated, t) := match t with
    | '^' :: t => (true, t)
    | _ => (false, t)
  match t with
  | '-' :: _ =>
    let hyphens := t.takeWhile (· = '-')
    (⟨negated, none, hyphens.map fun c => ⟨.single c, 0⟩⟩, t.drop hyphens.length)
  | ']' :: t => (⟨negated, none, [⟨.single ']', 0⟩]⟩, t)
  | _ => (⟨negated, none, []⟩, t)

def readItem : Text → Option (Atom × Text)
  | [] => none
  | '\\' :: rest => readEscape rest
  | c :: rest => some (.char c, rest)

def readRange (t : Text) : Option (CharSet × Text) := do
  let (first, rest) ← readItem t
  let alone : Option (CharSet × Text) := match first with
    | .char c => some (.single c, rest)
    | .set s => some (s, rest)
    | .look _ => none
  match rest with
  | '-' :: ']' :: _ | '-' :: '-' :: _ => alone
  | '-' :: after =>
    match first, ← readItem after with
    | .char lo, (.char hi, rest) => if lo.toNat ≤ hi.toNat then some (.range lo hi, rest) else none
    | _, _ => none
  | _ => alone

/-- One step inside brackets, the innermost first: the brackets still open with the rest, or the
whole set with the rest. -/
def step (anyCase : Bool) (b : Bracket) (outer : List Bracket) :
    Text → Option ((List Bracket ⊕ SetPart) × Text)
  | [] => none
  | '[' :: rest =>
    match readAsciiClass anyCase rest with
    | some (s, rest) => some (.inl (b.insert ⟨s, 0⟩ :: outer), rest)
    | none =>
      let (inner, rest) := opened rest
      some (.inl (inner :: b :: outer), rest)
  | ']' :: rest =>
    match outer with
    | [] => some (.inr (b.closed anyCase), rest)
    | parent :: outer => some (.inl (parent.insert (b.closed anyCase) :: outer), rest)
  | '&' :: '&' :: rest => some (.inl (b.operate anyCase .inter :: outer), rest)
  | '-' :: '-' :: rest => some (.inl (b.operate anyCase .diff :: outer), rest)
  | '~' :: '~' :: rest => some (.inl (b.operate anyCase .symmDiff :: outer), rest)
  | t => (readRange t).map fun (s, rest) => (.inl (b.insert ⟨s, 0⟩ :: outer), rest)

/-- Reads up to the bracket that closes the outermost one. A step that took nothing would be
malformed, so each round is on a shorter text. -/
def read (anyCase : Bool) (brackets : List Bracket) (t : Text) : Option (SetPart × Text) :=
  match brackets with
  | [] => none
  | b :: outer =>
    match step anyCase b outer t with
    | none => none
    | some (.inr part, rest) => some (part, rest)
    | some (.inl brackets, rest) =>
      if rest.length < t.length then read anyCase brackets rest else none
termination_by t.length

end Bracket

def readBracket (anyCase : Bool) (t : Text) : Option (SetPart × Text) :=
  let (b, rest) := Bracket.opened t
  Bracket.read anyCase [b] rest

end LineRules.Regex
