import LineRules.Unicode.CaseFold
import LineRules.Unicode.Digit
import LineRules.Unicode.Letter
import LineRules.Unicode.WhiteSpace

namespace LineRules

structure CharRange where
  lo : Char
  hi : Char
deriving DecidableEq, Repr

namespace CharRange

def mem (r : CharRange) (c : Char) : Bool :=
  r.lo.toNat ≤ c.toNat && c.toNat ≤ r.hi.toNat

def between (a b : Char) : CharRange :=
  if a.toNat ≤ b.toNat then ⟨a, b⟩ else ⟨b, a⟩

def apart (r s : CharRange) : Bool :=
  r.hi.toNat + 1 < s.lo.toNat

def hull (r s : CharRange) : CharRange :=
  ⟨if r.lo.toNat ≤ s.lo.toNat then r.lo else s.lo,
    if r.hi.toNat ≤ s.hi.toNat then s.hi else r.hi⟩

def meet? (r s : CharRange) : Option CharRange :=
  let lo := if r.lo.toNat ≤ s.lo.toNat then s.lo else r.lo
  let hi := if r.hi.toNat ≤ s.hi.toNat then r.hi else s.hi
  if lo.toNat ≤ hi.toNat then some ⟨lo, hi⟩ else none

/-- The character after this one. Surrogates are no characters and are skipped. -/
def after (c : Char) : Char :=
  if c = '\ud7ff' then '\ue000' else Char.ofNat (c.toNat + 1)

def before (c : Char) : Char :=
  if c = '\ue000' then '\ud7ff' else Char.ofNat (c.toNat - 1)

def without (r s : CharRange) : List CharRange :=
  match r.meet? s with
  | none => [r]
  | some m =>
    (if r.lo.toNat < m.lo.toNat then [⟨r.lo, before m.lo⟩] else []) ++
      if m.hi.toNat < r.hi.toNat then [⟨after m.hi, r.hi⟩] else []

def insert (r : CharRange) : List CharRange → List CharRange
  | [] => [r]
  | s :: rest =>
    if r.apart s then r :: s :: rest
    else if s.apart r then s :: insert r rest
    else insert (r.hull s) rest

end CharRange

structure CharSet where
  ranges : List CharRange
deriving DecidableEq, Repr

namespace CharSet

def mem (s : CharSet) (c : Char) : Bool :=
  s.ranges.any (·.mem c)

def empty : CharSet :=
  ⟨[]⟩

def range (lo hi : Char) : CharSet :=
  ⟨[⟨lo, hi⟩]⟩

def single (c : Char) : CharSet :=
  range c c

def all : CharSet :=
  range '\x00' (Char.ofNat 0x10ffff)

def ofRanges (ranges : List CharRange) : CharSet :=
  ⟨ranges.foldr CharRange.insert []⟩

def ofList (chars : List Char) : CharSet :=
  ofRanges (chars.map fun c => ⟨c, c⟩)

def ofTable (table : Unicode.Table) : CharSet :=
  ⟨table.map fun (first, last) => ⟨Char.ofNat first, Char.ofNat last⟩⟩

def union (s t : CharSet) : CharSet :=
  ofRanges (s.ranges ++ t.ranges)

def inter (s t : CharSet) : CharSet :=
  ⟨s.ranges.flatMap fun r => t.ranges.filterMap r.meet?⟩

def diff (s t : CharSet) : CharSet :=
  ⟨t.ranges.foldl (fun left r => left.flatMap (·.without r)) s.ranges⟩

def symmDiff (s t : CharSet) : CharSet :=
  (s.union t).diff (s.inter t)

def gaps (r : CharRange) : List CharRange → List CharRange
  | [] =>
    if r.hi.toNat < 0x10ffff then [⟨CharRange.after r.hi, Char.ofNat 0x10ffff⟩] else []
  | s :: rest => .between (CharRange.after r.hi) (CharRange.before s.lo) :: gaps s rest

/-- What lies around the ranges of a set: the characters that are not members. The two neighbours
of the surrogates, standing in ranges of their own, have nothing between them but are ends of a gap;
they count as lying in it. -/
def compl (s : CharSet) : CharSet :=
  match s.ranges with
  | [] => all
  | r :: rest =>
    ⟨(if 0 < r.lo.toNat then [⟨'\x00', CharRange.before r.lo⟩] else []) ++ gaps r rest⟩

def anyCase (s : CharSet) : CharSet :=
  let folded := s.union (ofList ((Unicode.foldPairs.filter (s.mem ·.1)).map (·.2)))
  folded.union (ofList ((Unicode.foldPairs.filter (folded.mem ·.2)).map (·.1)))

def sameFold (c : Char) : CharSet :=
  ofList (Unicode.caseVariants c)

def asciiDigit : CharSet :=
  range '0' '9'

def blank : CharSet :=
  ⟨[⟨'\t', '\t'⟩, ⟨' ', ' '⟩]⟩

def notLineFeed : CharSet :=
  (single '\n').compl

def digit : CharSet :=
  ofTable Unicode.decimalTable

def space : CharSet :=
  ofTable Unicode.whiteSpaceTable

def word : CharSet :=
  ofRanges ((ofTable Unicode.alphabeticTable).ranges ++ (ofTable Unicode.markTable).ranges ++
    digit.ranges ++ (ofTable Unicode.connectorTable).ranges)

end CharSet

end LineRules
